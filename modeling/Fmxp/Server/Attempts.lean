import Fmxp.Library.Framed
import Fmxp.Server.Wire

/-! What becomes of the frames a connection gives to its socket.

`sendFrame` makes one attempt: the frame is encoded, and written as far as the calls of `send` take it
(`sendFrame_attempt`). An attempt that fails is followed by a close, which is another attempt, with a
farewell. `Unbroken` says of the results of `send` that no attempt fails between its first byte and its
last; then only whole frames are written (`closeConnection_whole`), and otherwise something is written
behind a frame that broke off (`closeConnection_writes`). -/
namespace Fmxp.Server
open Framing

/-! ### One attempt -/

/-- One attempt: `raw` is encoded, and `outs` is what the calls of `send` write of it. -/
structure Attempt (raw : Bytes) (outs : List Output) (s t : Endpoint) : Prop where
  conn : t.conn = s.nextFid.conn
  log : t.log = s.log ++ .encoded s.conn.aesKey raw :: outs
  wrote : ∀ o ∈ outs, ∃ bytes, o = .wrote s.conn.fd bytes
  taken : wire outs <+: raw
  nonempty : raw ≠ []

theorem Attempt.stream {raw : Bytes} {outs : List Output} {s t : Endpoint} (h : Attempt raw outs s t) :
    wire t.log = wire s.log ++ wire outs := by
  rw [h.log, wire_append]
  rfl

/-- **Sending with a key is one attempt.** It takes the whole frame, or fails at call `k` and leaves
the rest to a close; it has written nothing exactly when its very first call failed. -/
theorem sendFrame_attempt (env : Env) {frame : Frame} {s : Endpoint} (hs : CanSend s)
    (hsize : 0 ≤ cInt frame.bodySize) : ∃ raw outs t, Attempt raw outs s t ∧
    ((Takes env.send s.sends (wireSize frame) ∧ wire outs = raw ∧ ∀ depth, sendFrame env depth frame s = some t) ∨
    (¬ Takes env.send s.sends (wireSize frame) ∧ wire outs ≠ raw ∧
      (wire outs = [] ↔ (env.send s.sends).bytes = 0) ∧ (∃ k, FailsAt env.send s.sends k ∧ t.sends = k + 1) ∧
      ∀ depth, sendFrame env depth frame s = closeConnection env depth .socketError true t)) := by
  obtain ⟨raw, hraw, hlen⟩ := hs.encodes env hsize
  have hne : raw ≠ [] := by
    intro hnil
    rw [hnil] at hlen
    simp only [List.length_nil, wireSize, headerSize] at hlen
    omega
  have hloop := sendLoop_spec env (s := s.nextFid.recordEncoded raw) hs.fd (Nat.le_refl raw.length)
  have hconn := (sendLoop_keeps env raw.length raw (s.nextFid.recordEncoded raw)).1
  have hsent := send_taken env raw (s := s.nextFid.recordEncoded raw) hs.fd
  obtain ⟨outs, hlog, hwrote, hprefix, hwhole, hnone⟩ :=
    sendLoop_outs env (s := s.nextFid.recordEncoded raw) (Nat.le_refl raw.length)
  have hfails : wire outs = [] ↔ (env.send s.sends).bytes = 0 := by
    have hsends : (s.nextFid.recordEncoded raw).sends = s.sends := rfl
    have hpos := List.length_pos_iff.mpr hne
    rw [hsends] at hsent
    rw [hnone, hsent.2.1]
    constructor
    · rintro (h | h)
      · exact absurd h hne
      · omega
    · intro h
      exact .inr (by omega)
  cases hrun : sendLoop env raw.length raw (s.nextFid.recordEncoded raw) with
  | mk t sent =>
    have hsend := sendFrame_looped hraw hrun
    rw [hrun] at hloop hconn hlog hwhole
    have hattempt : Attempt raw outs s t := by
      refine ⟨hconn, hlog.trans ?_, hwrote, hprefix, hne⟩
      show (s.log ++ [Output.encoded s.conn.aesKey raw]) ++ outs = _
      rw [List.append_assoc, List.singleton_append]
    have hsize' : Takes env.send s.sends raw.length ↔ Takes env.send s.sends (wireSize frame) := by rw [hlen]
    refine ⟨raw, outs, t, hattempt, ?_⟩
    rcases hloop with ⟨hok, htakes⟩ | ⟨hbad, hnot, k, hk, hlast⟩
    · have hyes : sent = true := hok
      exact .inl ⟨hsize'.mp htakes, hwhole.mp hyes, fun depth => by rw [hsend, hyes]; rfl⟩
    · have hno : sent = false := hbad
      refine .inr ⟨fun h => hnot (hsize'.mpr h), fun h => ?_, hfails, ⟨k, hk, hlast⟩, fun depth => ?_⟩
      · cases hno.symm.trans (hwhole.mpr h)
      · rw [hsend, hno]
        rfl

theorem Attempt.keeps {raw : Bytes} {outs : List Output} {s t : Endpoint} (h : Attempt raw outs s t) : Keeps s t := by
  refine ⟨by rw [h.conn]; rfl, .encoded s.conn.aesKey raw :: outs, h.log, fun o ho => ?_⟩
  rcases List.mem_cons.mp ho with rfl | ho
  · rfl
  · obtain ⟨bytes, rfl⟩ := h.wrote o ho
    rfl

/-- What `closeConnection` does when its farewell has been sent. -/
def Endpoint.shut (reason : CloseReason) (invokeOnClose : Bool) (s : Endpoint) : Endpoint :=
  let s := s.closeFd.modify fun c => {c with state := .closed}
  if invokeOnClose && s.conn.onClose then s.emit (.onClose (cInt s.conn.connId) reason) else s

theorem shut_keeps (reason : CloseReason) (invokeOnClose : Bool) (s : Endpoint) :
    Keeps s (s.shut reason invokeOnClose) := by
  have hclosed : Keeps s (s.closeFd.modify fun c => {c with state := .closed}) :=
    (closeFd_keeps s).trans (Keeps.of_conn rfl rfl)
  unfold Endpoint.shut
  dsimp only
  split
  · exact hclosed.emit _ rfl
  · exact hclosed

theorem shut_wire (reason : CloseReason) (invokeOnClose : Bool) (s : Endpoint) :
    wire (s.shut reason invokeOnClose).log = wire s.log := by
  have hclosed : wire (s.log ++ [.closedFd s.conn.fd]) = wire s.log := by
    rw [wire_append]
    exact List.append_nil _
  unfold Endpoint.shut
  dsimp only
  split
  · refine Eq.trans ?_ hclosed
    show wire ((s.log ++ [.closedFd s.conn.fd]) ++ [.onClose (cInt s.conn.connId) reason]) = _
    rw [wire_append]
    exact List.append_nil _
  · exact hclosed

/-- A close that has something to say is an attempt with the farewell, and the rest. -/
theorem closeConnection_attempts {env : Env} {depth : Nat} {reason : CloseReason} {invokeOnClose : Bool}
    {s : Endpoint} (hs : CanSend s) (hreason : reason ≠ .natural) :
    closeConnection env (depth + 1) reason invokeOnClose s =
      (sendFrame env depth (s.conn.makeRespFrame [] [] STATUS_OK 0 0) s).map
        (Endpoint.shut reason invokeOnClose) := by
  simp only [closeConnection, if_neg hs.state, if_neg hs.fd, if_neg hreason, Option.map_map]
  rfl

/-! ### Attempts that break off -/

/-- Of a frame of `n` bytes sent from call `i` on, and of the farewells sent when it fails, none fails
after its first call: everything that is begun is taken whole. -/
def Unbroken (send : Nat → SendResult) (i n : Nat) : Prop :=
  Takes send i n ∨ ∃ k, i < k ∧ (∀ j, i ≤ j → j < k → (send j).bytes = 0) ∧ Takes send k farewellSize

theorem unbroken_failed {send : Nat → SendResult} {i n : Nat} (hnot : ¬ Takes send i n) :
    Unbroken send i n ↔ (send i).bytes = 0 ∧ Unbroken send (i + 1) farewellSize := by
  constructor
  · rintro (htakes | ⟨k, hlt, hfails, htakes⟩)
    · exact absurd htakes hnot
    · refine ⟨hfails i (Nat.le_refl i) hlt, ?_⟩
      by_cases hnext : k = i + 1
      · exact .inl (hnext ▸ htakes)
      · exact .inr ⟨k, by omega, fun j hle hj => hfails j (by omega) hj, htakes⟩
  · rintro ⟨hfail, htakes | ⟨k, hlt, hfails, htakes⟩⟩
    · refine .inr ⟨i + 1, Nat.lt_succ_self i, fun j hle hj => ?_, htakes⟩
      rw [show j = i by omega]
      exact hfail
    · refine .inr ⟨k, by omega, fun j hle hj => ?_, htakes⟩
      by_cases heq : j = i
      · rw [heq]
        exact hfail
      · exact hfails j (by omega) hj

/-- A frame the connection has encoded under its key. -/
def Sent (s : Endpoint) (raw : Bytes) : Prop := .encoded s.conn.aesKey raw ∈ s.log

/-- Everything written so far is whole frames. -/
def WritesWhole (s : Endpoint) : Prop := Whole (Sent s) (wire s.log)

variable {env : Env} {depth : Nat} {reason : CloseReason} {invokeOnClose : Bool} {frame : Frame} {s t : Endpoint}

theorem Sent.keeps {raw : Bytes} (h : Sent s raw) (hkeeps : Keeps s t) : Sent t raw := by
  obtain ⟨outs, hlog, _⟩ := hkeeps.log
  rw [Sent, hkeeps.aesKey, hlog]
  exact List.mem_append_left _ h

theorem WritesWhole.keeps (h : WritesWhole s) (hkeeps : Keeps s t) (hwire : wire t.log = wire s.log) :
    WritesWhole t := by
  rw [WritesWhole, hwire]
  exact h.mono fun _ hraw => hraw.keeps hkeeps

theorem Attempt.sent {raw : Bytes} {outs : List Output} (h : Attempt raw outs s t) : Sent t raw := by
  rw [Sent, h.keeps.aesKey, h.log]
  exact List.mem_append_right _ (List.mem_cons_self ..)

theorem Attempt.whole {raw : Bytes} {outs : List Output} (h : Attempt raw outs s t) (hs : WritesWhole s)
    (hall : wire outs = raw) : WritesWhole t := by
  rw [WritesWhole, h.stream, hall]
  exact (hs.mono fun _ hraw => hraw.keeps h.keeps).append h.sent

/-- Of a failed attempt nothing is written, when its first call is the one that failed. -/
theorem Attempt.nothing {raw : Bytes} {outs : List Output} (h : Attempt raw outs s t) (hs : WritesWhole s)
    (hnone : wire outs = []) : WritesWhole t :=
  hs.keeps h.keeps (by rw [h.stream, hnone, List.append_nil])

/-- Sending writes whole frames when the close it is given does. -/
theorem sendFrame_whole
    (hclose : ∀ {u v}, CanSend u → Unbroken env.send u.sends farewellSize → WritesWhole u →
      closeConnection env depth .socketError true u = some v → WritesWhole v)
    (hs : CanSend s) (hsize : 0 ≤ cInt frame.bodySize) (hunbroken : Unbroken env.send s.sends (wireSize frame))
    (hwhole : WritesWhole s) (h : sendFrame env depth frame s = some t) : WritesWhole t := by
  obtain ⟨raw, outs, u, hattempt, ⟨_, hall, hsend⟩ | ⟨hnot, _, hnone, ⟨k, hk, hlast⟩, hsend⟩⟩ :=
    sendFrame_attempt env hs hsize
  · cases (hsend depth).symm.trans h
    exact hattempt.whole hwhole hall
  · obtain ⟨hfail, hnext⟩ := (unbroken_failed hnot).mp hunbroken
    have hfirst : k = s.sends := Nat.le_antisymm (hk.first (Nat.le_refl _) hfail) hk.le
    have hcan : CanSend u := hs.of_conn hattempt.conn
    rw [hsend] at h
    exact hclose hcan (by rw [hlast, hfirst]; exact hnext) (hattempt.nothing hwhole (hnone.mpr hfail)) h

theorem closeConnection_whole (hs : CanSend s) (hreason : reason ≠ .natural)
    (hunbroken : Unbroken env.send s.sends farewellSize) (hwhole : WritesWhole s)
    (h : closeConnection env depth reason invokeOnClose s = some t) : WritesWhole t := by
  induction depth generalizing reason invokeOnClose s t with
  | zero => cases h
  | succ depth ih =>
    rw [closeConnection_attempts hs hreason] at h
    obtain ⟨u, hu, rfl⟩ := Option.map_eq_some_iff.mp h
    obtain ⟨hsize, hwire⟩ := farewell_size s.conn
    have hsent : WritesWhole u :=
      sendFrame_whole (fun hcan hnext hw hv => ih hcan (by decide) hnext hw hv) hs hsize (hwire ▸ hunbroken) hwhole hu
    exact hsent.keeps (shut_keeps reason invokeOnClose u) (shut_wire reason invokeOnClose u)

/-! ### The other results -/

/-- A part of a frame was written, and something else behind it. -/
def BreaksOff (s t : Endpoint) : Prop :=
  ∃ raw part later, Sent t raw ∧ part <+: raw ∧ part ≠ raw ∧ part ≠ [] ∧ later ≠ [] ∧
    wire t.log = wire s.log ++ (part ++ later)

/-- A call that returns has written something, and has broken a frame off if the results do not rule it out. -/
structure WritesSome (send : Nat → SendResult) (n : Nat) (s t : Endpoint) : Prop where
  some : ∃ bytes, bytes ≠ [] ∧ wire t.log = wire s.log ++ bytes
  breaks : ¬ Unbroken send s.sends n → BreaksOff s t

theorem sendFrame_writes
    (hclose : ∀ {u v}, CanSend u → closeConnection env depth .socketError true u = some v →
      WritesSome env.send farewellSize u v)
    (hs : CanSend s) (hsize : 0 ≤ cInt frame.bodySize) (h : sendFrame env depth frame s = some t) :
    WritesSome env.send (wireSize frame) s t := by
  obtain ⟨raw, outs, u, hattempt, ⟨htakes, hall, hsend⟩ | ⟨hnot, hpart, hnone, ⟨k, hk, hlast⟩, hsend⟩⟩ :=
    sendFrame_attempt env hs hsize
  · cases (hsend depth).symm.trans h
    refine ⟨⟨raw, hattempt.nonempty, ?_⟩, fun hbroken => absurd (.inl htakes) hbroken⟩
    rw [hattempt.stream, hall]
  · have hcan : CanSend u := hs.of_conn hattempt.conn
    rw [hsend] at h
    have hrest := hclose hcan h
    have hkeeps := (closeConnection_keeps (fun hc => absurd hc hcan.state) h).1
    obtain ⟨bytes, hne, hbytes⟩ := hrest.some
    rw [hattempt.stream, List.append_assoc] at hbytes
    refine ⟨⟨wire outs ++ bytes, fun hnil => hne (List.append_eq_nil_iff.mp hnil).2, hbytes⟩, fun hbroken => ?_⟩
    rw [unbroken_failed hnot] at hbroken
    by_cases hfail : (env.send s.sends).bytes = 0
    · -- Nothing of this frame has been written; one of the farewells has broken off.
      have hfirst : k = s.sends := Nat.le_antisymm (hk.first (Nat.le_refl _) hfail) hk.le
      have hnext : ¬ Unbroken env.send u.sends farewellSize := by
        rw [hlast, hfirst]
        exact fun h => hbroken ⟨hfail, h⟩
      obtain ⟨raw', part, later, hsent, hprefix, hproper, hsome, hlater, hwire⟩ := hrest.breaks hnext
      rw [hattempt.stream, hnone.mpr hfail, List.append_nil] at hwire
      exact ⟨raw', part, later, hsent, hprefix, hproper, hsome, hlater, hwire⟩
    · exact ⟨raw, wire outs, bytes, hattempt.sent.keeps hkeeps, hattempt.taken, hpart,
        fun hnil => hfail (hnone.mp hnil), hne, hbytes⟩

theorem closeConnection_writes (hs : CanSend s) (hreason : reason ≠ .natural)
    (h : closeConnection env depth reason invokeOnClose s = some t) : WritesSome env.send farewellSize s t := by
  induction depth generalizing reason invokeOnClose s t with
  | zero => cases h
  | succ depth ih =>
    rw [closeConnection_attempts hs hreason] at h
    obtain ⟨u, hu, rfl⟩ := Option.map_eq_some_iff.mp h
    obtain ⟨hsize, hwire⟩ := farewell_size s.conn
    obtain ⟨hsome, hbreaks⟩ := sendFrame_writes (fun hcan hv => ih hcan (by decide) hv) hs hsize hu
    have hshut := shut_wire reason invokeOnClose u
    refine ⟨by rw [hshut]; exact hsome, fun hbroken => ?_⟩
    obtain ⟨raw, part, later, hsent, hrest⟩ := hbreaks (hwire.symm ▸ hbroken)
    rw [← hshut] at hrest
    exact ⟨raw, part, later, hsent.keeps (shut_keeps reason invokeOnClose u), hrest⟩

end Fmxp.Server
