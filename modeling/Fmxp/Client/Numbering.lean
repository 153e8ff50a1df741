import Fmxp.Client.Submitting

/-! The frames a client encodes.

The epoll thread numbers a frame when it sends it; the session id is the one the frame was built
with. `SsidsCurrent` says that no frame waits with another session id when the connection takes
its own, and then everything the client encodes carries it, with increasing fids until the
counter has gone round (`reachable_numbering`). -/
namespace Fmxp.Client
open Transition

/-- The frames that have been built and not yet been sent. -/
def Submitting.waiting (q : Submitting) : List Frame :=
  (q.process.endpoint.conn.commandQueue ++ q.building).filterMap ClientCommand.frame

/-- When the connection takes its session id, every frame that waits carries that id. -/
def SsidsCurrent (env : Env) (q : Submitting) : SubmitEvent → Prop
  | .step (.readable input) =>
    let s := q.process.endpoint
    (heard input s).fin = .again →
      ∀ f ∈ (s.conn.parsed env.evp (s.conn.frameBuffer ++ (heard input s).bytes)).confirmation,
        ∀ frame ∈ q.waiting, frame.ssid = f.ssid
  | _ => True

instance (env : Env) (q : Submitting) (event : SubmitEvent) : Decidable (SsidsCurrent env q event) :=
  match event with
  | .step (.readable input) => inferInstanceAs (Decidable ((heard input q.process.endpoint).fin = .again →
      ∀ f ∈ (q.process.endpoint.conn.parsed env.evp
        (q.process.endpoint.conn.frameBuffer ++ (heard input q.process.endpoint).bytes)).confirmation,
        ∀ frame ∈ q.waiting, frame.ssid = f.ssid))
  | .step (.start _) | .step .dispatch | .step .hangup | .step .command | .step (.sendReq ..) | .step .beginClose
  | .step .endClose | .step .setOnClose | .build .. | .push _ => .isTrue trivial

variable {env : Env} {s t : Endpoint} {q r : Submitting}

theorem Still.ledger (h : Still s t) : ledger t.log = ledger s.log :=
  h.filterMap fun o ho => by cases o <;> first | rfl | cases ho

/-! ### Encoding -/

/-- The frames encoded carry the session id, and increasing fids. While the client runs, the counter
is no further than their number. -/
def Counted (env : Env) (running : Prop) (s : Endpoint) : Prop :=
  (ledger s.log).length < 2 ^ 32 → ∃ frames, List.Forall₂ (Carries env.evp) (ledger s.log) frames ∧
    (∀ f ∈ frames, f.ssid = s.conn.ssid) ∧ Fresh 0 frames ∧
      (running → lastFid 0 frames ≤ s.conn.fid ∧ s.conn.fid.toNat ≤ frames.length)

theorem Counted.of_eq {running running' : Prop} (hs : Counted env running s) (hrunning : running' → running)
    (hledger : ledger t.log = ledger s.log) (hssid : t.conn.ssid = s.conn.ssid) (hfid : t.conn.fid = s.conn.fid) :
    Counted env running' t := by
  intro hfew
  rw [hledger] at hfew ⊢
  obtain ⟨frames, hcarries, hown, hfresh, hcount⟩ := hs hfew
  rw [hssid, hfid]
  exact ⟨frames, hcarries, hown, hfresh, fun hr => hcount (hrunning hr)⟩

theorem send_ledger (env : Env) (bytes : Bytes) (s : Endpoint) :
    ledger (s.send env bytes).log = ledger s.log ∧ (s.send env bytes).conn = s.conn := by
  unfold Endpoint.send
  split
  · exact ⟨rfl, rfl⟩
  · exact ⟨(ledger_append ..).trans (List.append_nil _), rfl⟩

def Endpoint.nextFid (s : Endpoint) : Endpoint := s.modify fun c => {c with fid := c.fid + 1}

/-- A `SEND` past the handshake: the frame is numbered, encoded and written. -/
theorem handleCommand_send (env : Env) (frame : Frame) (hstate : s.conn.state ≠ .handshake) :
    handleCommand env ⟨.send, some frame⟩ s =
      match encodeFrame env.evp (env.iv s.ivs) {frame with fid := s.conn.fid + 1} true s.conn.aesKey with
      | .error e => (.error (.runtime e), s.nextFid)
      | .ok encoded => (.ok (), (s.nextFid.recordEncoded encoded).send env encoded) := by
  simp only [handleCommand, if_neg hstate]
  rfl

/-- During the handshake a `SEND` encrypts nothing. -/
theorem handleCommand_handshake (env : Env) (frame : Frame) (hstate : s.conn.state = .handshake) :
    ledger (handleCommand env ⟨.send, some frame⟩ s).2.log = ledger s.log ∧
      (handleCommand env ⟨.send, some frame⟩ s).2.conn.fid = s.conn.fid ∧
      (handleCommand env ⟨.send, some frame⟩ s).2.conn.ssid = s.conn.ssid := by
  simp only [handleCommand, if_pos hstate]
  split
  · exact ⟨rfl, rfl, rfl⟩
  · split
    · exact ⟨rfl, rfl, rfl⟩
    · next toBeSent _ =>
      obtain ⟨hledger, hconn⟩ := send_ledger env toBeSent (s.modify fun c => {c with handshakeSent := true})
      exact ⟨hledger, congrArg (·.fid) hconn, congrArg (·.ssid) hconn⟩

/-- **A frame that is encoded gets the next fid**, below the end of the counter. -/
theorem Counted.encoded (hs : Counted env True s) {frame : Frame} {raw : Bytes} (hssid : frame.ssid = s.conn.ssid)
    (henc : encodeFrame env.evp (env.iv s.ivs) {frame with fid := s.conn.fid + 1} true s.conn.aesKey = .ok raw) :
    Counted env True (s.nextFid.recordEncoded raw) := by
  have hmore : ledger (s.nextFid.recordEncoded raw).log = ledger s.log ++ [(s.conn.aesKey, raw)] := ledger_append ..
  intro hfew
  rw [hmore, List.length_append, List.length_singleton] at hfew
  obtain ⟨frames, hcarries, hown, hfresh, hcount⟩ := hs (by omega)
  obtain ⟨hlast, hfid⟩ := hcount trivial
  have hlen := hcarries.length_eq
  have hnext : (s.conn.fid + 1).toNat = s.conn.fid.toNat + 1 := toNat_succ (by omega)
  have habove : lastFid 0 frames < s.conn.fid + 1 := by
    rw [UInt32.lt_iff_toNat_lt, hnext]
    exact Nat.lt_succ_of_le (UInt32.le_iff_toNat_le.mp hlast)
  refine ⟨frames ++ [{frame with fid := s.conn.fid + 1}], ?_, fun f hf => ?_, hfresh.concat habove, fun _ => ⟨?_, ?_⟩⟩
  · rw [hmore]
    exact List.rel_append hcarries (.cons ⟨env.iv s.ivs, henc⟩ .nil)
  · rcases List.mem_append.mp hf with hf | hf
    · exact hown f hf
    · rw [List.mem_singleton.mp hf]
      exact hssid
  · rw [lastFid_append]
    exact UInt32.le_refl _
  · show (s.conn.fid + 1).toNat ≤ _
    rw [hnext, List.length_append, List.length_singleton]
    omega

theorem handleCommand_counted (env : Env) (cmd : ClientCommand) (hs : Counted env True s)
    (hssid : ∀ frame ∈ cmd.frame, frame.ssid = s.conn.ssid) :
    Counted env ((handleCommand env cmd s).1 = .ok ()) (handleCommand env cmd s).2 := by
  obtain ⟨type, frame⟩ := cmd
  cases type with
  | close =>
    have hstill := close_still .epoll s
    exact hs.of_eq (fun _ => trivial) hstill.ledger hstill.ssid hstill.fid
  | send =>
    cases frame with
    | none => exact hs.of_eq (fun _ => trivial) rfl rfl rfl
    | some frame =>
      by_cases hstate : s.conn.state = .handshake
      · obtain ⟨hledger, hfid, hsame⟩ := handleCommand_handshake env frame hstate
        exact hs.of_eq (fun _ => trivial) hledger hsame hfid
      · rw [handleCommand_send env frame hstate]
        split
        · -- The exception ends the process, so the counter no longer matters.
          intro hfew
          obtain ⟨frames, hcarries, hown, hfresh, _⟩ := hs hfew
          exact ⟨frames, hcarries, hown, hfresh, fun hok => by cases hok⟩
        · next raw henc =>
          obtain ⟨hledger, hconn⟩ := send_ledger env raw (s.nextFid.recordEncoded raw)
          have hencoded := hs.encoded (hssid frame rfl) henc
          exact hencoded.of_eq (fun _ => trivial) hledger (congrArg (·.ssid) hconn) (congrArg (·.fid) hconn)

/-- Handling a command leaves the queue and the session id alone, and nothing that would be encoded
is so during the handshake. -/
theorem handleCommand_waits (env : Env) (cmd : ClientCommand) (s : Endpoint) :
    (handleCommand env cmd s).2.conn.commandQueue = s.conn.commandQueue ∧
      ((handleCommand env cmd s).2.conn.state = .handshake →
        s.conn.state = .handshake ∧ ledger (handleCommand env cmd s).2.log = ledger s.log) := by
  obtain ⟨type, frame⟩ := cmd
  cases type with
  | close =>
    have hstill := close_still .epoll s
    refine ⟨hstill.commandQueue, fun hhand => ⟨?_, hstill.ledger⟩⟩
    have hopen := hstill.open_ (by rw [show (close .epoll s).2.conn.state = .handshake from hhand]; decide)
    exact hopen.1.symm.trans hhand
  | send =>
    cases frame with
    | none => exact ⟨rfl, fun hhand => ⟨hhand, rfl⟩⟩
    | some frame =>
      by_cases hstate : s.conn.state = .handshake
      · refine ⟨?_, fun _ => ⟨hstate, (handleCommand_handshake env frame hstate).1⟩⟩
        simp only [handleCommand, if_pos hstate]
        split
        · rfl
        · split
          · rfl
          · exact congrArg (·.commandQueue) (send_ledger env _ _).2
      · rw [handleCommand_send env frame hstate]
        split
        · exact ⟨rfl, fun hhand => absurd hhand hstate⟩
        · next raw _ =>
          have hconn := (send_ledger env raw (s.nextFid.recordEncoded raw)).2
          exact ⟨congrArg (·.commandQueue) hconn, fun hhand =>
            absurd ((congrArg (·.state) hconn).symm.trans hhand) hstate⟩

/-- The handshake is one command, unless RSA fails. -/
theorem doHandshake_cases (env : Env) (now : UInt32) (s : Endpoint) :
    (∃ e, doHandshake env now s = (.error e, keyed env s)) ∨ ∃ frame, frame.ssid = s.conn.ssid ∧
      doHandshake env now s =
        handleCommand env ⟨.send, some frame⟩ ((keyed env s).modify fun c => {c with rid := c.rid + 1}) := by
  unfold doHandshake
  dsimp only
  split
  · next e _ => exact .inl ⟨.runtime e, rfl⟩
  · exact .inr ⟨_, rfl, rfl⟩

/-- The handshake leaves the queue as it is. -/
theorem doHandshake_queue (env : Env) (now : UInt32) (s : Endpoint) :
    (doHandshake env now s).2.conn.commandQueue = s.conn.commandQueue := by
  rcases doHandshake_cases env now s with ⟨e, heq⟩ | ⟨frame, _, heq⟩
  · rw [heq]
    rfl
  · rw [heq]
    exact (handleCommand_waits env _ _).1

/-! ### Every run -/

/-- What a client has encoded, and the frames that wait. -/
structure Numbering (env : Env) (q : Submitting) : Prop where
  waiting : ∀ frame ∈ q.waiting, frame.ssid = q.process.endpoint.conn.ssid
  handshake : q.process.endpoint.conn.state = .handshake → ledger q.process.endpoint.log = []
  counted : Counted env (q.process.uncaught = none) q.process.endpoint

theorem mem_waiting {q : Submitting} {frame : Frame} :
    frame ∈ q.waiting ↔ ∃ cmd, (cmd ∈ q.process.endpoint.conn.commandQueue ∨ cmd ∈ q.building) ∧
      cmd.frame = some frame := by
  simp only [Submitting.waiting, List.mem_filterMap, List.mem_append]

/-- What handling a command leaves. -/
theorem handled_numbering {p : Process} {cmd : ClientCommand}
    (hwaiting : ∀ cmd, cmd ∈ s.conn.commandQueue ∨ cmd ∈ q.building → ∀ frame ∈ cmd.frame, frame.ssid = s.conn.ssid)
    (hcmd : ∀ frame ∈ cmd.frame, frame.ssid = s.conn.ssid)
    (hhand : s.conn.state = .handshake → ledger s.log = []) (hcounted : Counted env True s)
    (hr : r = {q with process := (p.after (handleCommand env cmd s) fun _ p => p)}) : Numbering env r := by
  subst hr
  have hcount := handleCommand_counted env cmd hcounted hcmd
  have hssid := (handleCommand_keeps env cmd s).ssid
  obtain ⟨hqueue, hledger⟩ := handleCommand_waits env cmd s
  have hend := (after_same p (handleCommand env cmd s)).1
  refine ⟨fun frame hframe => ?_, fun hstate => ?_, ?_⟩
  · obtain ⟨cmd', hmem, hframe'⟩ := mem_waiting.mp hframe
    simp only [hend, hqueue, hssid] at hmem ⊢
    exact hwaiting cmd' hmem frame hframe'
  · simp only [hend] at hstate ⊢
    obtain ⟨hbefore, hsame⟩ := hledger hstate
    exact hsame.trans (hhand hbefore)
  · refine hcount.of_eq (fun hnone => ?_) (by rw [hend]) (by rw [hend]) (by rw [hend])
    cases hresult : handleCommand env cmd s with
    | mk result t =>
      rw [hresult] at hnone
      cases result with
      | ok => rfl
      | error e => cases hnone

theorem Numbering.still (hq : Numbering env q) (hrunning : q.process.uncaught = none)
    (hstill : Still q.process.endpoint r.process.endpoint)
    (hwaiting : ∀ frame ∈ r.waiting, frame ∈ q.waiting ∨ frame.ssid = q.process.endpoint.conn.ssid) :
    Numbering env r := by
  refine ⟨fun frame hframe => ?_, fun hstate => ?_, ?_⟩
  · rw [hstill.ssid]
    exact (hwaiting frame hframe).elim (hq.waiting frame) id
  · have hopen := hstill.open_ (by rw [hstate]; decide)
    rw [hstill.ledger]
    exact hq.handshake (hopen.1.symm.trans hstate)
  · exact hq.counted.of_eq (fun _ => hrunning) hstill.ledger hstill.ssid hstill.fid

theorem Progress.numbering {event : SubmitEvent} (hrule : SsidsCurrent env q event) (hq : Numbering env q)
    (hrunning : q.process.uncaught = none) (h : Progress env event q r) : Numbering env r := by
  cases h with
  | still hstill _ hbuilding _ =>
    refine hq.still hrunning hstill fun frame hframe => .inl ?_
    rw [Submitting.waiting, hstill.commandQueue, hbuilding] at hframe
    exact hframe
  | confirmed input f hevent _ hfin hconf hstill _ hbuilding _ =>
    subst hevent
    -- Nothing has been encoded during the handshake.
    have hnone := hq.handshake (parsed_confirmation hconf)
    have hledger : ledger r.process.endpoint.log = [] := by
      rw [hstill.ledger]
      exact (ledger_append q.process.endpoint.log _).trans (by rw [hnone]; rfl)
    have hssid : r.process.endpoint.conn.ssid = f.ssid := hstill.ssid
    refine ⟨fun frame hframe => ?_, fun hstate => ?_, fun _ => ?_⟩
    · rw [Submitting.waiting, hstill.commandQueue, hbuilding] at hframe
      exact (hrule hfin f hconf frame hframe).trans hssid.symm
    · have hopen := hstill.open_ (by rw [hstate]; decide)
      cases hopen.1.symm.trans hstate
    · obtain ⟨frames, hcarries, _, _, hcount⟩ := hq.counted (by rw [hnone]; decide)
      rw [hnone] at hcarries
      cases hcarries
      obtain ⟨hlast, hfid⟩ := hcount hrunning
      have hsame : r.process.endpoint.conn.fid = q.process.endpoint.conn.fid := hstill.fid
      rw [hledger, hsame]
      exact ⟨[], .nil, fun f hf => (by cases hf), trivial, fun _ => ⟨hlast, hfid⟩⟩
  | started now _ _ hr =>
    have hcounted : Counted env True q.process.endpoint := hq.counted.of_eq (fun _ => hrunning) rfl rfl rfl
    have hwaiting : ∀ cmd, cmd ∈ q.process.endpoint.conn.commandQueue ∨ cmd ∈ q.building →
        ∀ frame ∈ cmd.frame, frame.ssid = q.process.endpoint.conn.ssid :=
      fun cmd hmem frame hframe => hq.waiting frame (mem_waiting.mpr ⟨cmd, hmem, hframe⟩)
    rcases doHandshake_cases env now q.process.endpoint with ⟨e, he⟩ | ⟨frame, hframe, heq⟩
    · rw [he] at hr
      subst hr
      exact ⟨hq.waiting, hq.handshake, hcounted.of_eq (fun _ => trivial) rfl rfl rfl⟩
    · rw [heq] at hr
      refine handled_numbering (p := {q.process with looping := true}) ?_ ?_ ?_ ?_ hr
      · exact hwaiting
      · intro frame' hframe'
        cases hframe'
        exact hframe
      · exact hq.handshake
      · exact hcounted
  | command cmd rest _ hqueue _ hr =>
    have hcounted : Counted env True q.process.endpoint := hq.counted.of_eq (fun _ => hrunning) rfl rfl rfl
    have hold : ∀ cmd', cmd' ∈ cmd :: rest ∨ cmd' ∈ q.building → ∀ frame ∈ cmd'.frame,
        frame.ssid = q.process.endpoint.conn.ssid := by
      intro cmd' hmem frame hframe
      rw [← hqueue] at hmem
      exact hq.waiting frame (mem_waiting.mpr ⟨cmd', hmem, hframe⟩)
    refine handled_numbering (p := q.process) ?_ ?_ ?_ ?_ hr
    · exact fun cmd' hmem => hold cmd' (hmem.imp_left (List.mem_cons_of_mem cmd))
    · exact hold cmd (.inl (List.mem_cons_self ..))
    · exact hq.handshake
    · exact hcounted
  | built frame hstill _ hssid hbuilding _ =>
    refine hq.still hrunning hstill fun frame' hframe => ?_
    obtain ⟨cmd, hmem, hcmd⟩ := mem_waiting.mp hframe
    rw [hstill.commandQueue, hbuilding, List.mem_append, List.mem_singleton, ← or_assoc] at hmem
    rcases hmem with hmem | rfl
    · exact .inl (mem_waiting.mpr ⟨cmd, hmem, hcmd⟩)
    · cases hcmd
      exact .inr hssid
  | pushed cmd hcmd hr =>
    subst hr
    refine ⟨fun frame hframe => hq.waiting frame ?_, hq.handshake, hq.counted⟩
    obtain ⟨cmd', hmem, hcmd'⟩ := mem_waiting.mp hframe
    have hmem' : cmd' ∈ q.process.endpoint.conn.commandQueue ++ [cmd] ∨ cmd' ∈ q.building.erase cmd := hmem
    rw [List.mem_append, List.mem_singleton] at hmem'
    refine mem_waiting.mpr ⟨cmd', ?_, hcmd'⟩
    rcases hmem' with (hmem' | rfl) | hmem'
    · exact .inl hmem'
    · exact .inr hcmd
    · exact .inr (List.mem_of_mem_erase hmem')

/-- What a client has encoded, in every run in which no frame waits with another session id when the
connection takes its own. -/
theorem reachable_numbering (h : Reachable ((submitting env).under (SsidsCurrent env)) q) : Numbering env q := by
  induction h with
  | @init q hq =>
    obtain ⟨⟨pubKey, maxFrameSize, socket, epollFd, cmdEvFd, _, hprocess⟩, hbuilding, _⟩ := hq
    refine ⟨fun frame hframe => ?_, fun _ => ?_, fun _ => ?_⟩
    · rw [Submitting.waiting, hbuilding, hprocess] at hframe
      cases hframe
    · rw [hprocess]
      rfl
    · rw [hprocess]
      exact ⟨[], .nil, fun f hf => (by cases hf), trivial, fun _ => ⟨UInt32.le_refl _, Nat.le_refl _⟩⟩
  | step hs hstep ih =>
    obtain ⟨hrule, hperform⟩ := hstep
    obtain ⟨hrunning, hprogress⟩ := perform_progress (submitting_wellFormed hs.of_under).live hperform
    exact hprogress.numbering hrule ih hrunning

end Fmxp.Client
