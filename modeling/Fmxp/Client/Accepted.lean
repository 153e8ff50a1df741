import Fmxp.Client.Numbering

/-! What becomes of the requests a client has accepted.

A call of `send` or `sendReq` that returns `true` has put a request on the command queue. The epoll
thread takes commands off it during the handshake as well, and drops them there
(`accepted_dropped`). In every run in which none is taken then, each request on an open connection
is encoded and written once, in the order of the queue, or still waits (`accepted_kept`). -/
namespace Fmxp.Client
open Transition

/-- Every call of `send` for a request takes all its bytes. -/
def TakesAll (env : Env) (q : Submitting) : SubmitEvent → Prop
  | .step .command => ∀ cmd ∈ q.process.endpoint.conn.commandQueue.head?, ∀ frame ∈ cmd.frame,
      headerSize + 28 + (cInt frame.bodySize).toNat ≤ (env.send q.process.endpoint.sends).bytes
  | _ => True

/-- No command is taken off the queue during the handshake, and none that the encoder would refuse
for its size after it. -/
def Sendable (q : Submitting) : SubmitEvent → Prop
  | .step .command => q.process.endpoint.conn.state ≠ .handshake ∧
      (q.process.endpoint.conn.state = .connected →
        ∀ cmd ∈ q.process.endpoint.conn.commandQueue.head?, ∀ frame ∈ cmd.frame, 0 ≤ cInt frame.bodySize)
  | _ => True

instance (env : Env) (q : Submitting) (event : SubmitEvent) : Decidable (TakesAll env q event) := by
  unfold TakesAll
  split <;> infer_instance

instance (q : Submitting) (event : SubmitEvent) : Decidable (Sendable q event) := by
  unfold Sendable
  split <;> infer_instance

def Output.written : Output → Option Bytes
  | .wrote bytes => some bytes
  | _ => none

/-- Everything a client has written to its socket, call by call. -/
def writes (log : List Output) : List Bytes := log.filterMap Output.written

@[simp] theorem writes_append (log outs : List Output) : writes (log ++ outs) = writes log ++ writes outs :=
  List.filterMap_append

/-- The frames that wait in the command queue. -/
def Submitting.queued (q : Submitting) : List Frame :=
  q.process.endpoint.conn.commandQueue.filterMap ClientCommand.frame

/-- The entry is an encoding of this frame, under the client's key and with a fid of its own. -/
def Encodes (env : Env) (entry : Bytes × Bytes) (frame : Frame) : Prop :=
  entry.1 = env.key.val ∧ ∃ fid, Carries env.evp entry {frame with fid := fid}

/-- The requests accepted are those sent, each encoded once and in order, and those that wait. What
has been written is the opening of the handshake and the encodings. -/
structure Kept (env : Env) (q : Submitting) (sent : List Frame) (opening : List Bytes) : Prop where
  accepted : q.accepted = sent ++ q.queued
  encoded : List.Forall₂ (Encodes env) (ledger q.process.endpoint.log) sent
  written : writes q.process.endpoint.log = opening ++ (ledger q.process.endpoint.log).map Prod.snd
  opening : opening.length ≤ 1

variable {env : Env} {s t : Endpoint} {q r : Submitting}

theorem Still.writes (h : Still s t) : writes t.log = writes s.log :=
  h.filterMap fun o ho => by cases o <;> first | rfl | cases ho

/-! ### Handling a command -/

/-- A call of `send` that takes all it is given. -/
theorem send_whole {bytes : Bytes} (hsocket : s.conn.socket ≠ -1) (hall : bytes.length ≤ (env.send s.sends).bytes) :
    (s.send env bytes).log = s.log ++ [.wrote bytes] := by
  rw [Endpoint.send, if_neg hsocket, List.take_of_length_le hall]
  rfl

/-- A request that is taken off the queue of a connected client is encoded and written. -/
theorem handleCommand_writes {frame : Frame} (hstate : s.conn.state ≠ .handshake) (hsocket : s.conn.socket ≠ -1)
    (hkey : s.conn.aesKey.length = 32) (hsize : 0 ≤ cInt frame.bodySize)
    (hall : headerSize + 28 + (cInt frame.bodySize).toNat ≤ (env.send s.sends).bytes) :
    ∃ raw, Carries env.evp (s.conn.aesKey, raw) {frame with fid := s.conn.fid + 1} ∧
      (handleCommand env ⟨.send, some frame⟩ s).2.log = s.log ++ [.encoded s.conn.aesKey raw, .wrote raw] ∧
      (handleCommand env ⟨.send, some frame⟩ s).2.conn = s.nextFid.conn := by
  have hbody : ({frame with fid := s.conn.fid + 1} : Frame).bodySize = frame.bodySize := rfl
  have htotal := encodeFrame_total env.evp (env.iv s.ivs) {frame with fid := s.conn.fid + 1} 0 hkey
  rw [hbody, if_pos hsize] at htotal
  obtain ⟨raw, henc⟩ := htotal
  have hlen := length_encodeFrame henc
  rw [hbody] at hlen
  have hsent := @send_whole env (s.nextFid.recordEncoded raw) raw hsocket (hlen ▸ hall)
  rw [handleCommand_send env frame hstate, henc]
  refine ⟨raw, ⟨_, henc⟩, hsent.trans ?_, (send_ledger env raw _).2⟩
  rw [Endpoint.recordEncoded, Endpoint.emit, List.append_assoc]
  rfl

/-- The opening of the handshake is one write at most. -/
theorem handleCommand_opening (env : Env) (frame : Frame) (hstate : s.conn.state = .handshake) :
    (handleCommand env ⟨.send, some frame⟩ s).2.conn.socket = s.conn.socket ∧
      (writes (handleCommand env ⟨.send, some frame⟩ s).2.log).length ≤ (writes s.log).length + 1 := by
  simp only [handleCommand, if_pos hstate]
  split
  · exact ⟨rfl, Nat.le_succ _⟩
  · split
    · exact ⟨rfl, Nat.le_succ _⟩
    · next toBeSent _ =>
      refine ⟨congrArg (·.socket) (send_ledger env toBeSent _).2, ?_⟩
      unfold Endpoint.send
      split
      · exact Nat.le_succ _
      · rw [Endpoint.emit, writes_append, List.length_append]
        exact Nat.le_refl _

/-! ### Every run -/

/-- A client that is open: the socket is there, during the handshake nothing has been encoded, and
before it nothing has been written. -/
structure Serving (env : Env) (q : Submitting) : Prop where
  socket : q.process.endpoint.conn.socket ≠ -1
  handshake : q.process.endpoint.conn.state = .handshake → ledger q.process.endpoint.log = []
  unstarted : q.process.looping = false →
    q.process.endpoint.conn.state = .handshake ∧ writes q.process.endpoint.log = []
  kept : ∃ sent opening, Kept env q sent opening

structure Accepting (env : Env) (q : Submitting) : Prop where
  commands : ∀ cmd, cmd ∈ q.process.endpoint.conn.commandQueue ∨ cmd ∈ q.building →
    ∃ frame, cmd = ⟨.send, some frame⟩
  serving : q.process.endpoint.conn.state ≠ .closed → Serving env q

/-- The ledger, the writes, and how the requests divide, stay as they are. -/
theorem Kept.of_eq {sent : List Frame} {opening : List Bytes} (hq : Kept env q sent opening)
    (haccepted : r.accepted = sent ++ r.queued)
    (hledger : ledger r.process.endpoint.log = ledger q.process.endpoint.log)
    (hwrites : writes r.process.endpoint.log = writes q.process.endpoint.log) : Kept env r sent opening := by
  refine ⟨haccepted, ?_, ?_, hq.opening⟩
  · rw [hledger]
    exact hq.encoded
  · rw [hwrites, hledger]
    exact hq.written

theorem Serving.still (hq : Serving env q) (hstill : Still q.process.endpoint r.process.endpoint)
    (hopen : r.process.endpoint.conn.state ≠ .closed) (hlooping : r.process.looping = q.process.looping)
    (haccepted : r.accepted = q.accepted) : Serving env r := by
  obtain ⟨hstate, hsocket⟩ := hstill.open_ hopen
  obtain ⟨sent, opening, hkept⟩ := hq.kept
  refine ⟨hsocket ▸ hq.socket, fun hhand => ?_, fun hloop => ?_, sent, opening, ?_⟩
  · rw [hstill.ledger]
    exact hq.handshake (hstate.symm.trans hhand)
  · rw [hstate, hstill.writes]
    exact hq.unstarted (hlooping.symm.trans hloop)
  · refine hkept.of_eq ?_ hstill.ledger hstill.writes
    rw [haccepted, Submitting.queued, hstill.commandQueue]
    exact hkept.accepted

/-- The handshake is opened. -/
theorem Serving.started (hq : Serving env q) (hloop : q.process.looping = false) (now : UInt32)
    (hr : r = {q with process := ({q.process with looping := true}.after (doHandshake env now q.process.endpoint)
      fun _ p => p)}) : Serving env r := by
  obtain ⟨hstate, hnone⟩ := hq.unstarted hloop
  obtain ⟨sent, opening, hkept⟩ := hq.kept
  obtain ⟨hend, hlooping, _⟩ := after_same {q.process with looping := true} (doHandshake env now q.process.endpoint)
  have hledger := hq.handshake hstate
  have hnext : r.process.endpoint = (doHandshake env now q.process.endpoint).2 := by rw [hr, hend]
  have haccepted : r.accepted = q.accepted := by rw [hr]
  have hlooped : r.process.looping = true := by rw [hr, hlooping]
  -- In either case the queue, the ledger and the socket stay, and there is one write at most.
  have hopened : r.process.endpoint.conn.commandQueue = q.process.endpoint.conn.commandQueue ∧
      r.process.endpoint.conn.socket = q.process.endpoint.conn.socket ∧ ledger r.process.endpoint.log = [] ∧
      (writes r.process.endpoint.log).length ≤ 1 := by
    rw [hnext]
    rcases doHandshake_cases env now q.process.endpoint with ⟨e, he⟩ | ⟨frame, _, heq⟩
    · rw [he]
      refine ⟨rfl, rfl, hledger, ?_⟩
      rw [show (keyed env q.process.endpoint).log = q.process.endpoint.log from rfl, hnone]
      exact Nat.zero_le _
    · rw [heq]
      obtain ⟨hsocket, hfew⟩ := handleCommand_opening env frame
        (s := (keyed env q.process.endpoint).modify fun c => {c with rid := c.rid + 1}) hstate
      obtain ⟨hqueue, _⟩ := handleCommand_waits env ⟨.send, some frame⟩
        ((keyed env q.process.endpoint).modify fun c => {c with rid := c.rid + 1})
      obtain ⟨hsame, _⟩ := handleCommand_handshake env frame
        (s := (keyed env q.process.endpoint).modify fun c => {c with rid := c.rid + 1}) hstate
      refine ⟨hqueue, hsocket, hsame.trans hledger, hfew.trans ?_⟩
      rw [show ((keyed env q.process.endpoint).modify fun c => {c with rid := c.rid + 1}).log =
        q.process.endpoint.log from rfl, hnone]
      exact Nat.le_refl _
  obtain ⟨hqueue, hsocket, hempty, hfew⟩ := hopened
  refine ⟨hsocket ▸ hq.socket, fun _ => hempty, fun hfalse => ?_, sent, _, ?_, ?_, ?_, hfew⟩
  · cases hlooped.symm.trans hfalse
  · rw [haccepted, Submitting.queued, hqueue]
    exact hkept.accepted
  · rw [hempty]
    exact hledger ▸ hkept.encoded
  · rw [hempty]
    exact (List.append_nil _).symm

/-- A request that the epoll thread takes off the queue is sent. -/
theorem Serving.command {frame : Frame} {rest : List ClientCommand} (hq : Serving env q)
    (hkey : q.process.endpoint.conn.aesKey = env.key.val) (hrunning : q.process.looping = true)
    (hstate : q.process.endpoint.conn.state = .connected)
    (hqueue : q.process.endpoint.conn.commandQueue = ⟨.send, some frame⟩ :: rest)
    (hsize : 0 ≤ cInt frame.bodySize)
    (hall : headerSize + 28 + (cInt frame.bodySize).toNat ≤ (env.send q.process.endpoint.sends).bytes)
    (hr : r = {q with process := (q.process.after (handleCommand env ⟨.send, some frame⟩
      (q.process.endpoint.modify fun c => {c with commandQueue := rest})) fun _ p => p)}) : Serving env r := by
  obtain ⟨sent, opening, hkept⟩ := hq.kept
  obtain ⟨hend, hlooping, _⟩ := after_same q.process (handleCommand env ⟨.send, some frame⟩
    (q.process.endpoint.modify fun c => {c with commandQueue := rest}))
  have hpast : q.process.endpoint.conn.state ≠ .handshake := by
    rw [hstate]
    decide
  have hlength : q.process.endpoint.conn.aesKey.length = 32 := hkey ▸ env.key.property
  obtain ⟨raw, hcarries, hlog, hconn⟩ := handleCommand_writes
    (s := q.process.endpoint.modify fun c => {c with commandQueue := rest}) hpast hq.socket hlength hsize hall
  have hlog' : r.process.endpoint.log =
      q.process.endpoint.log ++ [.encoded q.process.endpoint.conn.aesKey raw, .wrote raw] := by
    rw [hr, hend]
    exact hlog
  have hconn' : r.process.endpoint.conn = {q.process.endpoint.conn with
      commandQueue := rest, fid := q.process.endpoint.conn.fid + 1} := by
    rw [hr, hend]
    exact hconn
  have hledger : ledger r.process.endpoint.log =
      ledger q.process.endpoint.log ++ [(q.process.endpoint.conn.aesKey, raw)] := by
    rw [hlog', ledger_append]
    rfl
  refine ⟨?_, fun hhand => ?_, fun hfalse => ?_, sent ++ [frame], opening, ?_, ?_, ?_, hkept.opening⟩
  · rw [hconn']
    exact hq.socket
  · rw [hconn'] at hhand
    cases hstate.symm.trans hhand
  · rw [hr, hlooping, hrunning] at hfalse
    cases hfalse
  · have hbefore := hkept.accepted
    rw [Submitting.queued, hqueue] at hbefore
    rw [Submitting.queued, hconn', show r.accepted = q.accepted by rw [hr], hbefore, List.append_assoc]
    rfl
  · rw [hledger]
    exact List.rel_append hkept.encoded (.cons ⟨hkey, _, hcarries⟩ .nil)
  · rw [hledger, hlog', writes_append, hkept.written, List.map_append, List.append_assoc]
    rfl

theorem Progress.accepting {event : SubmitEvent} (htakes : TakesAll env q event) (hsendable : Sendable q event)
    (hwell : WellFormed env q.process) (hq : Accepting env q) (h : Progress env event q r) : Accepting env r := by
  cases h with
  | still hstill hlooping hbuilding haccepted =>
    refine ⟨fun cmd hcmd => ?_, fun hopen => ?_⟩
    · rw [hstill.commandQueue, hbuilding] at hcmd
      exact hq.commands cmd hcmd
    · have hserving := hq.serving ((hstill.open_ hopen).1 ▸ hopen)
      exact hserving.still hstill hopen hlooping haccepted
  | confirmed input f _ hloop _ hconf hstill hlooping hbuilding haccepted =>
    refine ⟨fun cmd hcmd => ?_, fun hopen => ?_⟩
    · rw [hstill.commandQueue, hbuilding] at hcmd
      exact hq.commands cmd hcmd
    · obtain ⟨hstate, hsocket⟩ := hstill.open_ hopen
      have hserving := hq.serving (by rw [parsed_confirmation hconf]; decide)
      obtain ⟨sent, opening, hkept⟩ := hserving.kept
      have hledger : ledger r.process.endpoint.log = ledger q.process.endpoint.log :=
        hstill.ledger.trans ((ledger_append ..).trans (List.append_nil _))
      have hwrites : writes r.process.endpoint.log = writes q.process.endpoint.log :=
        hstill.writes.trans ((writes_append ..).trans (List.append_nil _))
      refine ⟨hsocket ▸ hserving.socket, fun hhand => ?_, fun hfalse => ?_, sent, opening, ?_⟩
      · cases hstate.symm.trans hhand
      · cases (hlooping.trans hloop).symm.trans hfalse
      · refine hkept.of_eq ?_ hledger hwrites
        rw [haccepted, Submitting.queued, hstill.commandQueue]
        exact hkept.accepted
  | started now _ hloop hr =>
    refine ⟨fun cmd hcmd => ?_, fun hopen => ?_⟩
    · have hqueue : r.process.endpoint.conn.commandQueue = q.process.endpoint.conn.commandQueue := by
        rw [hr, (after_same ..).1]
        rcases doHandshake_cases env now q.process.endpoint with ⟨e, he⟩ | ⟨frame, _, heq⟩
        · rw [he]
          rfl
        · rw [heq]
          exact (handleCommand_waits ..).1
      rw [hqueue, show r.building = q.building by rw [hr]] at hcmd
      exact hq.commands cmd hcmd
    · have hstatus := (doHandshake_keeps env now q.process.endpoint).status
      have hstill : q.process.endpoint.conn.state ≠ .closed := by
        rw [hr, (after_same ..).1] at hopen
        exact fun hclosed => hopen ((congrArg (·.1) (hstatus.resolve_right hopen)).trans hclosed)
      exact (hq.serving hstill).started hloop now hr
  | command cmd rest hevent hqueue hidle hr =>
    subst hevent
    obtain ⟨frame, rfl⟩ := hq.commands cmd (.inl (by rw [hqueue]; exact List.mem_cons_self ..))
    refine ⟨fun cmd hcmd => ?_, fun hopen => ?_⟩
    · rw [hr, (after_same ..).1, (handleCommand_waits ..).1] at hcmd
      refine hq.commands cmd (hcmd.imp_left fun hmem => ?_)
      rw [hqueue]
      exact List.mem_cons_of_mem _ hmem
    · have hstatus := (handleCommand_keeps env ⟨.send, some frame⟩
        (q.process.endpoint.modify fun c => {c with commandQueue := rest})).status
      have hstill : q.process.endpoint.conn.state ≠ .closed := by
        rw [hr, (after_same ..).1] at hopen
        exact fun hclosed => hopen ((congrArg (·.1) (hstatus.resolve_right hopen)).trans hclosed)
      obtain ⟨hpast, hsizes⟩ := hsendable
      have hstate : q.process.endpoint.conn.state = .connected := by
        cases hc : q.process.endpoint.conn.state with
        | handshake => exact absurd hc hpast
        | connected => rfl
        | closed => exact absurd hc hstill
      have hhead : (⟨.send, some frame⟩ : ClientCommand) ∈ q.process.endpoint.conn.commandQueue.head? := by
        rw [hqueue]
        rfl
      have hloop := Process.looping_of_idle hidle
      exact (hq.serving hstill).command (hwell.key hloop) hloop hstate hqueue (hsizes hstate _ hhead frame rfl)
        (htakes _ hhead frame rfl) hr
  | built frame hstill hlooping _ hbuilding haccepted =>
    refine ⟨fun cmd hcmd => ?_, fun hopen => ?_⟩
    · rw [hstill.commandQueue, hbuilding, List.mem_append, List.mem_singleton, ← or_assoc] at hcmd
      rcases hcmd with hcmd | rfl
      · exact hq.commands cmd hcmd
      · exact ⟨frame, rfl⟩
    · have hserving := hq.serving ((hstill.open_ hopen).1 ▸ hopen)
      exact hserving.still hstill hopen hlooping haccepted
  | pushed cmd hmem hr =>
    subst hr
    refine ⟨fun cmd' hcmd => ?_, fun hopen => ?_⟩
    · have hcmd' : cmd' ∈ q.process.endpoint.conn.commandQueue ++ [cmd] ∨ cmd' ∈ q.building.erase cmd := hcmd
      rw [List.mem_append, List.mem_singleton] at hcmd'
      rcases hcmd' with (hcmd' | rfl) | hcmd'
      · exact hq.commands cmd' (.inl hcmd')
      · exact hq.commands cmd' (.inr hmem)
      · exact hq.commands cmd' (.inr (List.mem_of_mem_erase hcmd'))
    · have hserving := hq.serving hopen
      obtain ⟨sent, opening, hkept⟩ := hserving.kept
      refine ⟨hserving.socket, hserving.handshake, hserving.unstarted, sent, opening, ?_⟩
      refine hkept.of_eq ?_ rfl rfl
      obtain ⟨frame, rfl⟩ := hq.commands cmd (.inr hmem)
      have hqueued : (q.process.endpoint.conn.commandQueue ++ [(⟨.send, some frame⟩ : ClientCommand)]).filterMap
          ClientCommand.frame = q.queued ++ [frame] := List.filterMap_append
      show q.accepted ++ [frame] = sent ++ List.filterMap ClientCommand.frame
        (q.process.endpoint.conn.commandQueue ++ [⟨.send, some frame⟩])
      rw [hqueued, hkept.accepted, List.append_assoc]

/-- **No accepted request is lost**, in every run whose calls of `send` take all bytes and in which no
command is taken off the queue during the handshake, and none too large for the encoder: unless
the connection has been closed, each is encoded once, in order, or still waits. -/
theorem accepted_kept (h : Reachable (((submitting env).under (TakesAll env)).under Sendable) q) :
    q.process.endpoint.conn.state = .closed ∨ ∃ sent opening, Kept env q sent opening := by
  have hinv : Accepting env q := by
    induction h with
    | @init q hq =>
      obtain ⟨⟨pubKey, maxFrameSize, socket, epollFd, cmdEvFd, hsocket, hprocess⟩, hbuilding, haccepted⟩ := hq
      refine ⟨fun cmd hcmd => ?_, fun _ => ?_⟩
      · rw [hbuilding, hprocess] at hcmd
        rcases hcmd with hcmd | hcmd <;> cases hcmd
      · refine ⟨?_, fun _ => ?_, fun _ => ?_, [], [], ?_, ?_, ?_, Nat.zero_le _⟩
        · rw [hprocess]
          exact hsocket
        · rw [hprocess]
          rfl
        · rw [hprocess]
          exact ⟨rfl, rfl⟩
        · rw [haccepted, Submitting.queued, hprocess]
          rfl
        · rw [hprocess]
          exact .nil
        · rw [hprocess]
          rfl
    | step hs hstep ih =>
      obtain ⟨hsendable, htakes, hperform⟩ := hstep
      have hwell := submitting_wellFormed hs.of_under.of_under
      exact (perform_progress hwell.live hperform).2.accepting htakes hsendable hwell ih
  exact or_iff_not_imp_left.mpr fun hopen => (hinv.serving hopen).kept

/-- A request of a connected client is accepted and sent. -/
theorem request_kept : ∃ q sent opening, Kept quietEnv q sent opening ∧ q.accepted.length = 1 ∧ q.queued = [] := by
  have hrun : (execute (guarded Sendable (guarded (TakesAll quietEnv) fun q event => q.perform quietEnv event))
      requestRun ⟨connected3, [], []⟩).map (fun q =>
        (q.process.endpoint.conn.state, q.accepted.length, q.queued)) = some (.connected, 1, []) := by
    decide +kernel
  obtain ⟨q, hq, hresult⟩ := Option.map_eq_some_iff.mp hrun
  simp only [Prod.mk.injEq] at hresult
  obtain ⟨hstate, hlen, hqueued⟩ := hresult
  have hnext : ∀ event (q r : Submitting), q.perform quietEnv event = some r →
      (submitting quietEnv).step q event r := fun _ _ _ h => h
  have hreach : Reachable (((submitting quietEnv).under (TakesAll quietEnv)).under Sendable) q :=
    Reachable.execute (fun event _ _ _ => guarded_step fun _ _ h => guarded_step (hnext event) h)
      (.init ⟨connected3_fresh, rfl, rfl⟩) hq
  rcases accepted_kept hreach with hclosed | ⟨sent, opening, hkept⟩
  · cases hstate.symm.trans hclosed
  · exact ⟨q, sent, opening, hkept, hlen, hqueued⟩

/-- **A request that is taken off the queue during the handshake is dropped**, though its call has
returned `true` and the connection stays open. -/
theorem accepted_dropped : ∃ q, Reachable ((submitting quietEnv).under (TakesAll quietEnv)) q ∧
    q.process.endpoint.conn.state = .handshake ∧ q.process.uncaught.isNone ∧ q.accepted.length = 1 ∧
      ¬ ∃ sent opening, Kept quietEnv q sent opening := by
  have hrun : (execute (guarded (TakesAll quietEnv) fun (q : Submitting) event => q.perform quietEnv event)
      [.step (.start 100), .build (ascii ['/', 'p']) [1, 2],
        .push ⟨.send, some ⟨0, 2, 0, STATUS_REQ, 0, ascii ['/', 'p'], [1, 2]⟩⟩, .step .command]
      ⟨connected3, [], []⟩).map (fun q => (q.process.endpoint.conn.state, q.process.uncaught.isNone,
        q.accepted.length, q.queued.length, (ledger q.process.endpoint.log).length)) =
          some (.handshake, true, 1, 0, 0) := by
    decide +kernel
  obtain ⟨q, hq, hresult⟩ := Option.map_eq_some_iff.mp hrun
  simp only [Prod.mk.injEq] at hresult
  obtain ⟨hstate, hrunning, hlen, hqueued, hledger⟩ := hresult
  have hnext : ∀ event (q r : Submitting), q.perform quietEnv event = some r →
      (submitting quietEnv).step q event r := fun _ _ _ h => h
  refine ⟨q, Reachable.execute (fun event _ _ _ => guarded_step (hnext event))
    (.init ⟨connected3_fresh, rfl, rfl⟩) hq, hstate, hrunning, hlen, ?_⟩
  rintro ⟨sent, opening, hkept⟩
  have hencoded := hkept.encoded
  rw [List.eq_nil_of_length_eq_zero hledger] at hencoded
  cases hencoded
  rw [hkept.accepted, List.nil_append, hqueued] at hlen
  cases hlen

end Fmxp.Client
