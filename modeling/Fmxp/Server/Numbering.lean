import Mathlib.Data.List.TakeWhile
import Fmxp.Server.Acts
import Fmxp.Server.Requests

/-! The frames a server connection encodes.

`sendFrame` numbers a frame when it is sent, but the session id is the one the frame was built
with. So what a connection encodes carries its session id as long as every frame it is given does
(`OwnSsid`), and what it has encoded for its socket has increasing fids until the counter has
gone round (`perform_numbering`). -/
namespace Fmxp.Server
open Transition

/-- Once there is a key, the frame a call is given to send was built with the connection's session id. -/
def OwnSsid (s : Endpoint) (call : Call) : Prop :=
  s.conn.aesKey ≠ [] → ∀ frame, call.frame = some frame → frame.ssid = s.conn.ssid

/-- The descriptor has been closed. -/
def Output.closing : Output → Bool
  | .closedFd _ => true
  | _ => false

/-- What a connection has encoded for its socket: after the descriptor is closed nothing is written. -/
def written (log : List Output) : List (Bytes × Bytes) := ledger (log.takeWhile fun o => !o.closing)

@[simp] theorem ledger_append (log outs : List Output) : ledger (log ++ outs) = ledger log ++ ledger outs :=
  List.filterMap_append

theorem not_closing {log : List Output} (h : ¬ ∃ fd, .closedFd fd ∈ log) : ∀ o ∈ log, (!o.closing) = true := by
  intro o ho
  cases o with
  | closedFd fd => exact absurd ⟨fd, ho⟩ h
  | _ => rfl

theorem written_append {log : List Output} (h : ¬ ∃ fd, .closedFd fd ∈ log) (outs : List Output) :
    written (log ++ outs) = ledger log ++ written outs := by
  simp only [written, List.takeWhile_append_of_pos (not_closing h), ledger_append]

theorem written_open {log : List Output} (h : ¬ ∃ fd, .closedFd fd ∈ log) : written log = ledger log := by
  have happend := written_append h []
  rw [List.append_nil] at happend
  exact happend.trans (List.append_nil _)

theorem written_gone {log : List Output} (h : ∃ fd, .closedFd fd ∈ log) (outs : List Output) :
    written (log ++ outs) = written log := by
  have hshort : (log.takeWhile fun o => !o.closing).length ≠ log.length := by
    intro hlen
    obtain ⟨fd, hmem⟩ := h
    have hself := (List.takeWhile_sublist fun o : Output => !o.closing).eq_of_length hlen
    have hopen := List.takeWhile_eq_self_iff.mp hself _ hmem
    cases hopen
  rw [written, List.takeWhile_append, if_neg hshort, written]

variable {env : Env} {given : Option Frame} {s t : Endpoint}

/-! ### The session id -/

/-- What a connection has encoded it has encoded under its key, with its session id. -/
def Sealed (env : Env) (s : Endpoint) : Prop :=
  ∀ e ∈ ledger s.log, e.1 = s.conn.aesKey ∧ ∃ f, Carries env.evp e f ∧ f.ssid = s.conn.ssid

/-- Without a key nothing has been encoded. -/
theorem Sealed.keyless (hs : Sealed env s) (hkey : s.conn.aesKey = []) : ledger s.log = [] := by
  refine List.eq_nil_iff_forall_not_mem.mpr fun e he => ?_
  obtain ⟨hown, f, hcarries, _⟩ := hs e he
  have hlen := hcarries.key
  rw [hown, hkey] at hlen
  cases hlen

theorem Sealed.of_eq (hs : Sealed env s) (hledger : ledger t.log = ledger s.log)
    (hkey : t.conn.aesKey = s.conn.aesKey) (hssid : t.conn.ssid = s.conn.ssid) : Sealed env t := by
  intro e he
  rw [hledger] at he
  rw [hkey, hssid]
  exact hs e he

theorem Sealed.encoded (hs : Sealed env s) {frame : Frame} {raw : Bytes} (hssid : frame.ssid = s.conn.ssid)
    (henc : encodeFrame env.evp (env.iv s.ivs) frame true s.conn.aesKey s.nextFid.conn.fid = .ok raw) :
    Sealed env (s.nextFid.recordEncoded raw) := by
  intro e he
  have hlog : ledger (s.nextFid.recordEncoded raw).log = ledger s.log ++ [(s.conn.aesKey, raw)] := ledger_append ..
  rw [hlog, List.mem_append, List.mem_singleton] at he
  rcases he with he | rfl
  · exact hs e he
  · rw [encodeFrame_renumber] at henc
    exact ⟨rfl, _, ⟨env.iv s.ivs, henc⟩, hssid⟩

/-- What a connection encodes is encoded under a key. -/
theorem ne_nil_of_encodeFrame {evp : Evp} {iv : Block 12} {frame : Frame} {key raw : Bytes} {r : UInt32}
    (h : encodeFrame evp iv frame true key r = .ok raw) : key ≠ [] := by
  rintro rfl
  have hfail := @encodeFrame_key evp iv frame [] r (by decide)
  cases hfail.symm.trans h

/-- What a connection says itself carries its session id. -/
theorem Sends.own_ssid {c : ClientConnection} {frame : Frame} (h : Sends none c frame) : frame.ssid = c.ssid := by
  cases h with
  | given hgiven => cases hgiven
  | farewell => rfl
  | confirmation => rfl

theorem send_ledger (env : Env) (rest : Bytes) (s : Endpoint) : ledger (s.send env rest).2.log = ledger s.log := by
  rcases send_log env rest s with hsame | ⟨bytes, hlog⟩
  · rw [hsame]
  · rw [hlog, ledger_append]
    exact List.append_nil _

theorem Act.sealed (h : Act env none s t) (hs : Sealed env s) : Sealed env t := by
  cases h with
  | encoded hsends henc => exact hs.encoded hsends.own_ssid henc
  | sent rest =>
    have hconn := (send_keeps env rest s).1
    exact hs.of_eq (send_ledger env rest s) (congrArg (·.aesKey) hconn) (congrArg (·.ssid) hconn)
  | secured key _ hnil _ =>
    intro e he
    have hlog : ledger (s.secure env key).log = ledger s.log ++ [] := ledger_append ..
    rw [hlog, hs.keyless hnil] at he
    cases he
  | closedFd | notified | handed => exact hs.of_eq ((ledger_append ..).trans (List.append_nil _)) rfl rfl
  | refused | closed | buffered | activated | callbackSet => exact hs

theorem perform_sealed {depth : Nat} {call : Call} (hwf : WellFormed env s) (hrule : OwnSsid s call)
    (hs : Sealed env s) (h : perform env depth call s = some t) : Sealed env t := by
  have hown : ∀ {u}, Sealed env u → Acts env none u t → Sealed env t := fun hu hacts =>
    hacts.keeps (fun _ _ hact => hact.sealed) hu
  cases hcall : call.frame with
  | none => exact hown hs (perform_own hwf hcall h)
  | some frame =>
    cases call with
    | sendFrame =>
      cases hcall
      cases sendFrame_effect hwf.closed h with
      | encoded henc hacts => exact hown (hs.encoded (hrule (ne_nil_of_encodeFrame henc) frame rfl) henc) hacts
      | refused _ _ hacts => exact hown (by exact hs) hacts
    | _ => cases hcall

/-! ### The fids -/

/-- What is written is numbered. While the connection has its descriptor, the counter is no further
than the frames written, up to `slack`. -/
structure Numbering (env : Env) (slack : Nat) (s : Endpoint) : Prop where
  gone : s.conn.fd = -1 ↔ ∃ fd, .closedFd fd ∈ s.log
  numbered : (written s.log).length + 1 < 2 ^ 32 → ∃ frames,
    List.Forall₂ (Carries env.evp) (written s.log) frames ∧ (∀ f ∈ frames, f.ssid = s.conn.ssid) ∧
      Fresh 0 frames ∧
      (s.conn.fd ≠ -1 → lastFid 0 frames ≤ s.conn.fid ∧ s.conn.fid.toNat ≤ frames.length + slack)

theorem closedFd_append {log outs : List Output} (houts : ∀ o ∈ outs, o.closing = false) :
    (∃ fd, .closedFd fd ∈ log ++ outs) ↔ ∃ fd, .closedFd fd ∈ log := by
  refine exists_congr fun fd => ⟨fun hmem => ?_, List.mem_append_left outs⟩
  refine (List.mem_append.mp hmem).resolve_right fun ho => ?_
  cases houts _ ho

/-- What leaves descriptor, counter and session id alone adds nothing that counts. -/
theorem Numbering.of_eq {slack : Nat} (hs : Numbering env slack s) (outs : List Output)
    (hlog : t.log = s.log ++ outs) (houts : ∀ o ∈ outs, o.closing = false) (hledger : ledger outs = [])
    (hfd : t.conn.fd = s.conn.fd) (hfid : t.conn.fid = s.conn.fid) (hssid : t.conn.ssid = s.conn.ssid) :
    Numbering env slack t := by
  have hclosed : (∃ fd, .closedFd fd ∈ t.log) ↔ ∃ fd, .closedFd fd ∈ s.log := hlog ▸ closedFd_append houts
  have hgone : t.conn.fd = -1 ↔ ∃ fd, .closedFd fd ∈ t.log := by
    rw [hclosed, hfd]
    exact hs.gone
  have hwritten : written t.log = written s.log := by
    by_cases hsome : ∃ fd, .closedFd fd ∈ s.log
    · rw [hlog, written_gone hsome]
    · rw [written_open (fun hc => hsome (hclosed.mp hc)), written_open hsome, hlog, ledger_append, hledger,
        List.append_nil]
  refine ⟨hgone, ?_⟩
  rw [hwritten, hfd, hfid, hssid]
  exact hs.numbered

/-- **A frame that is encoded gets the next fid**, below the end of the counter. -/
theorem Numbering.encoded {slack : Nat} (hslack : slack ≤ 1) (hs : Numbering env slack s) {frame : Frame}
    {raw : Bytes} (hssid : frame.ssid = s.conn.ssid)
    (henc : encodeFrame env.evp (env.iv s.ivs) frame true s.conn.aesKey s.nextFid.conn.fid = .ok raw) :
    Numbering env slack (s.nextFid.recordEncoded raw) := by
  have hmem : (∃ fd, .closedFd fd ∈ (s.nextFid.recordEncoded raw).log) ↔ ∃ fd, .closedFd fd ∈ s.log :=
    closedFd_append fun o ho => by rw [List.mem_singleton.mp ho]; rfl
  refine ⟨hs.gone.trans hmem.symm, fun hfew => ?_⟩
  by_cases hfd : s.conn.fd = -1
  · have hsame : written (s.nextFid.recordEncoded raw).log = written s.log := written_gone (hs.gone.mp hfd) _
    rw [hsame] at hfew ⊢
    obtain ⟨frames, hcarries, hown, hfresh, _⟩ := hs.numbered hfew
    exact ⟨frames, hcarries, hown, hfresh, fun hopen => absurd hfd hopen⟩
  · have hnone : ¬ ∃ fd, .closedFd fd ∈ s.log := fun hc => hfd (hs.gone.mpr hc)
    have hmore : written (s.nextFid.recordEncoded raw).log = written s.log ++ [(s.conn.aesKey, raw)] := by
      rw [written_open hnone]
      exact written_append hnone _
    rw [hmore, List.length_append, List.length_singleton] at hfew
    obtain ⟨frames, hcarries, hown, hfresh, hcount⟩ := hs.numbered (by omega)
    obtain ⟨hlast, hfid⟩ := hcount hfd
    have hlen := hcarries.length_eq
    -- The counter does not go round, so the fid is none that the encoder would overlook.
    have hnext : (s.conn.fid + 1).toNat = s.conn.fid.toNat + 1 := toNat_succ (by omega)
    have hne : s.conn.fid + 1 ≠ 0 := by
      intro hzero
      rw [hzero] at hnext
      exact absurd hnext (Nat.succ_ne_zero _).symm
    rw [encodeFrame_renumber] at henc
    have hnumber : (frame.renumber (s.conn.fid + 1)).fid = s.conn.fid + 1 := if_neg hne
    have habove : lastFid 0 frames < s.conn.fid + 1 := by
      rw [UInt32.lt_iff_toNat_lt, hnext]
      exact Nat.lt_succ_of_le (UInt32.le_iff_toNat_le.mp hlast)
    refine ⟨frames ++ [frame.renumber (s.conn.fid + 1)], ?_, fun f hf => ?_, ?_, fun _ => ⟨?_, ?_⟩⟩
    · rw [hmore]
      exact List.rel_append hcarries (.cons ⟨env.iv s.ivs, henc⟩ .nil)
    · rcases List.mem_append.mp hf with hf | hf
      · exact hown f hf
      · rw [List.mem_singleton.mp hf]
        exact hssid
    · exact hfresh.concat (by rw [hnumber]; exact habove)
    · rw [lastFid_append]
      show (frame.renumber (s.conn.fid + 1)).fid ≤ s.conn.fid + 1
      rw [hnumber]
    · show (s.conn.fid + 1).toNat ≤ _
      rw [hnext, List.length_append, List.length_singleton]
      omega

theorem Numbering.refused (hs : Numbering env 0 s) : Numbering env 1 s.nextFid := by
  refine ⟨hs.gone, fun hfew => ?_⟩
  obtain ⟨frames, hcarries, hown, hfresh, hcount⟩ := hs.numbered hfew
  refine ⟨frames, hcarries, hown, hfresh, fun hfd => ?_⟩
  obtain ⟨hlast, hfid⟩ := hcount hfd
  have hlen := hcarries.length_eq
  have hfew' : (written s.log).length + 1 < 2 ^ 32 := hfew
  have hnext : (s.conn.fid + 1).toNat = s.conn.fid.toNat + 1 := toNat_succ (by omega)
  refine ⟨?_, ?_⟩
  · show lastFid 0 frames ≤ s.conn.fid + 1
    rw [UInt32.le_iff_toNat_le, hnext]
    exact Nat.le_succ_of_le (UInt32.le_iff_toNat_le.mp hlast)
  · show (s.conn.fid + 1).toNat ≤ _
    omega

/-- Without a descriptor the counter no longer matters. -/
theorem Numbering.of_gone {slack : Nat} (hs : Numbering env slack s) (hfd : s.conn.fd = -1) (n : Nat) :
    Numbering env n s := by
  refine ⟨hs.gone, fun hfew => ?_⟩
  obtain ⟨frames, hcarries, hown, hfresh, _⟩ := hs.numbered hfew
  exact ⟨frames, hcarries, hown, hfresh, fun hopen => absurd hfd hopen⟩

theorem Sends.own_size {c : ClientConnection} {frame : Frame} (h : Sends none c frame) :
    0 ≤ cInt frame.bodySize := by
  cases h with
  | given hgiven => cases hgiven
  | farewell => exact (farewell_size c).1
  | confirmation =>
    rw [show (c.makeRespFrame [] connectionSecured STATUS_OK 0 0).bodySize = 38 from rfl]
    decide

theorem Act.numbering {slack : Nat} (hslack : slack ≤ 1) (h : Act env none s t) (hsealed : Sealed env s)
    (hs : Numbering env slack s) : Numbering env slack t := by
  have hquiet : ∀ o, o.closing = false → ledger [o] = [] → t.log = s.log ++ [o] → t.conn.fd = s.conn.fd →
      t.conn.fid = s.conn.fid → t.conn.ssid = s.conn.ssid → Numbering env slack t := by
    intro o ho hledger hlog hfd hfid hssid
    refine hs.of_eq [o] hlog (fun o' ho' => ?_) hledger hfd hfid hssid
    rw [List.mem_singleton.mp ho']
    exact ho
  cases h with
  | encoded hsends henc => exact hs.encoded hslack hsends.own_ssid henc
  | refused hsends hsize =>
    -- What the connection says itself is refused only without a descriptor.
    have hfd : s.conn.fd = -1 := by
      by_contra hfd
      exact absurd hsends.own_size (by have := hsize hfd; omega)
    have hnext : Numbering env slack s.nextFid := by
      refine ⟨hs.gone, fun hfew => ?_⟩
      obtain ⟨frames, hcarries, hown, hfresh, _⟩ := hs.numbered hfew
      exact ⟨frames, hcarries, hown, hfresh, fun hopen => absurd hfd hopen⟩
    exact hnext
  | sent rest =>
    have hconn := (send_keeps env rest s).1
    rcases send_log env rest s with hsame | ⟨bytes, hlog⟩
    · exact hs.of_eq [] (by rw [hsame, List.append_nil]) (fun o ho => by cases ho) rfl
        (congrArg (·.fd) hconn) (congrArg (·.fid) hconn) (congrArg (·.ssid) hconn)
    · exact hquiet _ rfl rfl hlog (congrArg (·.fd) hconn) (congrArg (·.fid) hconn) (congrArg (·.ssid) hconn)
  | closedFd =>
    have hsome : ∃ fd, .closedFd fd ∈ s.closeFd.log :=
      ⟨s.conn.fd, List.mem_append_right _ (List.mem_singleton.mpr rfl)⟩
    have hsame : written s.closeFd.log = written s.log := by
      show written (s.log ++ [.closedFd s.conn.fd]) = _
      by_cases hgone : ∃ fd, .closedFd fd ∈ s.log
      · exact written_gone hgone _
      · rw [written_append hgone, written_open hgone]
        exact List.append_nil _
    refine ⟨⟨fun _ => hsome, fun _ => rfl⟩, fun hfew => ?_⟩
    rw [hsame] at hfew ⊢
    obtain ⟨frames, hcarries, hown, hfresh, _⟩ := hs.numbered hfew
    exact ⟨frames, hcarries, hown, hfresh, fun hopen => absurd rfl hopen⟩
  | secured key _ hnil _ =>
    -- Nothing has been encoded before there is a key.
    have hledger := hsealed.keyless hnil
    have hmem : (∃ fd, .closedFd fd ∈ (s.secure env key).log) ↔ ∃ fd, .closedFd fd ∈ s.log :=
      closedFd_append fun o ho => by rw [List.mem_singleton.mp ho]; rfl
    have hempty : ∀ u : Endpoint, ledger u.log = [] → written u.log = [] := by
      intro u hu
      refine List.sublist_nil.mp ?_
      rw [← hu]
      exact (List.takeWhile_sublist _).filterMap _
    have hnone := hempty s hledger
    have hstill : written (s.secure env key).log = [] := by
      refine hempty _ ?_
      show ledger (s.log ++ [_]) = []
      rw [ledger_append, hledger]
      rfl
    refine ⟨hs.gone.trans hmem.symm, fun hfew => ?_⟩
    obtain ⟨frames, hcarries, _, hfresh, hcount⟩ := hs.numbered (by rw [hnone]; decide)
    rw [hnone] at hcarries
    cases hcarries
    rw [hstill]
    exact ⟨[], .nil, fun f hf => (by cases hf), trivial, hcount⟩
  | notified reason => exact hquiet _ rfl rfl rfl rfl rfl rfl
  | handed _ _ _ => exact hquiet _ rfl rfl rfl rfl rfl rfl
  | closed | buffered | activated | callbackSet => exact ⟨hs.gone, hs.numbered⟩

theorem perform_numbering {depth : Nat} {call : Call} (hwf : WellFormed env s) (hrule : OwnSsid s call)
    (hsealed : Sealed env s) (hs : Numbering env 0 s) (h : perform env depth call s = some t) :
    Numbering env 0 t := by
  have hown : ∀ {u slack}, slack ≤ 1 → Sealed env u → Numbering env slack u → Acts env none u t →
      Numbering env slack t := by
    intro u slack hslack hu hnumbering hacts
    have hboth := hacts.keeps (P := fun v => Sealed env v ∧ Numbering env slack v)
      (fun _ _ hact hv => ⟨hact.sealed hv.1, hact.numbering hslack hv.1 hv.2⟩) ⟨hu, hnumbering⟩
    exact hboth.2
  cases hcall : call.frame with
  | none => exact hown (Nat.zero_le 1) hsealed hs (perform_own hwf hcall h)
  | some frame =>
    cases call with
    | sendFrame =>
      cases hcall
      cases sendFrame_effect hwf.closed h with
      | encoded henc hacts =>
        have hssid := hrule (ne_nil_of_encodeFrame henc) frame rfl
        exact hown (Nat.zero_le 1) (hsealed.encoded hssid henc) (hs.encoded (Nat.zero_le 1) hssid henc) hacts
      | refused _ hgone hacts =>
        have hafter := hown (Nat.le_refl 1) (by exact hsealed) hs.refused hacts
        exact hafter.of_gone hgone 0
    | _ => cases hcall

/-- What a connection has encoded, in every run in which it is given frames with its own session id. -/
theorem reachable_numbering (h : Reachable ((lifecycle env).under OwnSsid) s) :
    Sealed env s ∧ Numbering env 0 s := by
  induction h with
  | init hs =>
    obtain ⟨fd, connId, maxFrameSize, rsaPrivKey, hfd, rfl⟩ := hs
    have hnone : ¬ fd = -1 := by omega
    exact ⟨fun e he => (by cases he), ⟨fun hc => absurd hc hnone, fun ⟨_, hmem⟩ => (by cases hmem)⟩,
      fun _ => ⟨[], .nil, fun f hf => (by cases hf), trivial, fun _ => ⟨UInt32.le_refl _, Nat.le_refl _⟩⟩⟩
  | step hs hstep ih =>
    obtain ⟨hrule, depth, hcall⟩ := hstep
    have hwf := reachable_wellFormed hs.of_under
    exact ⟨perform_sealed hwf hrule ih.1 hcall, perform_numbering hwf hrule ih.1 ih.2 hcall⟩

end Fmxp.Server
