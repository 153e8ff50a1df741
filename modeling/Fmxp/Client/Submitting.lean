import Mathlib.Data.List.Forall2
import Fmxp.Client.Lifecycle

/-! Requests from the application to the epoll thread.

`send` and `sendReq` build a frame, with the session id the connection has at that moment, and push
it on the command queue; the epoll thread takes it from there. `Submitting` is a client with the
calls that are between the two, and what has been pushed. What the epoll thread does besides
handling commands leaves queue, counter and socket alone (`Still`), so every step is one of six
(`Progress`). -/
namespace Fmxp.Client
open Transition

/-- A client, the commands that have been built and not yet pushed, and the frames that were pushed,
for each of which a call has returned `true`. -/
structure Submitting where
  process : Process
  building : List ClientCommand := []
  accepted : List Frame := []
  deriving DecidableEq, Repr

inductive SubmitEvent where
  | step (event : Event)
  | build (path data : Bytes)
  | push (cmd : ClientCommand)
  deriving DecidableEq, Repr

/-- `sendReq` up to the push. -/
def buildReq (path data : Bytes) (s : Endpoint) : Option ClientCommand × Endpoint :=
  if !s.conn.running || s.conn.state = .closed then (none, s)
  else
    let (frame, s) := makeReqFrame path data 0 s
    (some ⟨.send, some frame⟩, s)

def pushReq (cmd : ClientCommand) (s : Endpoint) : Endpoint :=
  s.modify fun c => {c with commandQueue := c.commandQueue ++ [cmd]}

/-- A call that is not interrupted between the two. -/
theorem sendReq_eq (path data : Bytes) (s : Endpoint) :
    sendReq path data s =
      match buildReq path data s with
      | (none, s) => (false, s)
      | (some cmd, s) => (true, pushReq cmd s) := by
  unfold sendReq buildReq
  split <;> rfl

def Submitting.perform (env : Env) (event : SubmitEvent) (q : Submitting) : Option Submitting :=
  match event with
  | .step (.sendReq ..) => none
  | .step event => (Client.perform env event q.process).map fun p => {q with process := p}
  | .build path data =>
    if q.process.uncaught.isSome then none
    else
      let (cmd, s) := buildReq path data q.process.endpoint
      some {q with process := {q.process with endpoint := s}, building := q.building ++ cmd.toList}
  | .push cmd =>
    if q.process.uncaught.isSome || cmd ∉ q.building then none
    else some {
      process := {q.process with endpoint := pushReq cmd q.process.endpoint}
      building := q.building.erase cmd
      accepted := q.accepted ++ cmd.frame.toList}

def submitting (env : Env) : System Submitting SubmitEvent where
  init := fun q => q.process.Fresh ∧ q.building = [] ∧ q.accepted = []
  step := fun q event r => q.perform env event = some r

/-! ### Steps that send nothing -/

def Output.sending : Output → Bool
  | .encoded .. | .wrote _ => true
  | _ => false

/-- `t` is `s` after something that neither sends nor looks at the command queue. -/
structure Still (s t : Endpoint) : Prop where
  commandQueue : t.conn.commandQueue = s.conn.commandQueue
  fid : t.conn.fid = s.conn.fid
  handshakeSent : t.conn.handshakeSent = s.conn.handshakeSent
  ssid : t.conn.ssid = s.conn.ssid
  open_ : t.conn.state ≠ .closed → t.conn.state = s.conn.state ∧ t.conn.socket = s.conn.socket
  log : ∃ outs, t.log = s.log ++ outs ∧ ∀ o ∈ outs, o.sending = false

theorem Still.refl (s : Endpoint) : Still s s :=
  ⟨rfl, rfl, rfl, rfl, fun _ => ⟨rfl, rfl⟩, [], by rw [List.append_nil], fun o ho => by cases ho⟩

theorem Still.trans {s t u : Endpoint} (h : Still s t) (h' : Still t u) : Still s u := by
  obtain ⟨outs, hlog, hstill⟩ := h.log
  obtain ⟨outs', hlog', hstill'⟩ := h'.log
  refine ⟨h'.commandQueue.trans h.commandQueue, h'.fid.trans h.fid, h'.handshakeSent.trans h.handshakeSent,
    h'.ssid.trans h.ssid, fun hopen => ?_, outs ++ outs', by rw [hlog', hlog, List.append_assoc], fun o ho => ?_⟩
  · obtain ⟨hstate', hsocket'⟩ := h'.open_ hopen
    obtain ⟨hstate, hsocket⟩ := h.open_ (hstate' ▸ hopen)
    exact ⟨hstate'.trans hstate, hsocket'.trans hsocket⟩
  · rcases List.mem_append.mp ho with ho | ho
    · exact hstill o ho
    · exact hstill' o ho

theorem Still.emit (s : Endpoint) (o : Output) (ho : o.sending = false) : Still s (s.emit o) :=
  ⟨rfl, rfl, rfl, rfl, fun _ => ⟨rfl, rfl⟩, [o], rfl, fun _ hmem => List.mem_singleton.mp hmem ▸ ho⟩

/-- What a log says about sending is the same before and after. -/
theorem Still.filterMap {β : Type*} {s t : Endpoint} {view : Output → Option β} (h : Still s t)
    (hview : ∀ o, o.sending = false → view o = none) : t.log.filterMap view = s.log.filterMap view := by
  obtain ⟨outs, hlog, hstill⟩ := h.log
  have hnone : outs.filterMap view = [] := List.filterMap_eq_nil_iff.mpr fun o ho => hview o (hstill o ho)
  rw [hlog, List.filterMap_append, hnone, List.append_nil]

theorem setBuffer_still (s : Endpoint) (b : Bytes) : Still s (s.setBuffer b) :=
  ⟨rfl, rfl, rfl, rfl, fun _ => ⟨rfl, rfl⟩, (Still.refl s).log⟩

theorem beginClose_still (s : Endpoint) : Still s s.beginClose := by
  have hlogged : Still s (if s.conn.onClose then s.emit .onClose else s) := by
    cases s.conn.onClose
    · exact .refl s
    · exact .emit s .onClose rfl
  exact hlogged.trans ⟨rfl, rfl, rfl, rfl, fun hopen => absurd rfl hopen, (Still.refl _).log⟩

theorem closeFds_still {s : Endpoint} (hs : s.conn.state = .closed) : Still s s.closeFds :=
  (Still.emit s (.closedFds ..) rfl).trans ⟨rfl, rfl, rfl, rfl, fun hopen => absurd hs hopen, (Still.refl _).log⟩

theorem close_still (thread : Thread) (s : Endpoint) : Still s (close thread s).2 := by
  have hbegin := beginClose_still s
  have hclosed := (beginClose_keeps s).2
  unfold close
  split
  · exact .refl s
  dsimp only
  split
  · cases thread with
    | epoll => exact hbegin.trans (.emit _ .joinedSelf rfl)
    | application =>
      have hjoined : Still s.beginClose (s.beginClose.modify fun c => {c with joinable := false}) :=
        ⟨rfl, rfl, rfl, rfl, fun _ => ⟨rfl, rfl⟩, (Still.refl _).log⟩
      exact (hbegin.trans hjoined).trans (closeFds_still hclosed)
  · exact hbegin.trans (closeFds_still hclosed)

theorem closeThen_still {α : Type} (s : Endpoint) (result : α) : Still s (closeThen s result).2 := by
  have hclose := close_still .epoll s
  unfold closeThen
  cases h : close .epoll s with
  | mk r t =>
    rw [h] at hclose
    cases r <;> exact hclose

theorem endParse_still (frames : List Frame) (rest : Bytes) (bad : Option Refusal) (s : Endpoint) :
    Still s (endParse frames rest bad s).2 := by
  have hbuffer := setBuffer_still s rest
  cases bad with
  | none => exact hbuffer
  | some r =>
    have hclose := hbuffer.trans (closeThen_still (s.setBuffer rest) frames)
    cases r with
    | protocol => exact hclose
    | tooLong => exact hclose
    | rejected e =>
      cases e with
      | fmxp e => exact hclose
      | _ => exact hbuffer

/-- A read that meets no end takes the confirmation it finds, and one that does takes none. -/
theorem receive_still {env : Env} {input : Recv} {s : Endpoint} (hs : s.conn.state ≠ .closed → Live s) :
    Still s (receive env input s).2 ∨ (heard input s).fin = .again ∧ ∃ frame,
      (s.conn.parsed env.evp (s.conn.frameBuffer ++ (heard input s).bytes)).confirmation = some frame ∧
        Still (s.confirm (some frame)) (receive env input s).2 := by
  by_cases h : (heard input s).fin = .again ∨ s.conn.state = .closed
  · have hend := endParse_still (s.conn.parsed env.evp (s.conn.frameBuffer ++ (heard input s).bytes)).frames
      (s.conn.parsed env.evp (s.conn.frameBuffer ++ (heard input s).bytes)).rest
      (s.conn.parsed env.evp (s.conn.frameBuffer ++ (heard input s).bytes)).bad
    rw [receive_parse h]
    cases hconf : (s.conn.parsed env.evp (s.conn.frameBuffer ++ (heard input s).bytes)).confirmation with
    | none => exact .inl (hend s)
    | some frame =>
      have hfin : (heard input s).fin = .again := by
        refine h.resolve_right fun hclosed => ?_
        rw [parsed_confirmation hconf] at hclosed
        cases hclosed
      exact .inr ⟨hfin, frame, rfl, hend (s.confirm (some frame))⟩
  · obtain ⟨hfin, hopen⟩ := not_or.mp h
    rw [receive_broken (hs hopen) hfin]
    have hheard : Still s (s.hear input) := setBuffer_still s _
    exact .inl ((hheard.trans (beginClose_still _)).trans (.emit _ .joinedSelf rfl))

theorem dispatchFrame_still (frame : Frame) (s : Endpoint) : Still s (dispatchFrame frame s).2 := by
  rw [dispatchFrame_eq]
  split
  · refine ⟨rfl, rfl, rfl, rfl, fun _ => ⟨rfl, rfl⟩, [.response frame], rfl, fun o ho => ?_⟩
    rw [List.mem_singleton.mp ho]
    rfl
  · exact closeThen_still s false

/-! ### Steps -/

/-- **A step sends nothing, takes the confirmation, starts the handshake or handles a command on the
epoll thread, or is one half of a call of the application.** -/
inductive Progress (env : Env) (event : SubmitEvent) (q r : Submitting) : Prop
  | still : Still q.process.endpoint r.process.endpoint → r.process.looping = q.process.looping →
      r.building = q.building → r.accepted = q.accepted → Progress env event q r
  | confirmed (input : Recv) (frame : Frame) : event = .step (.readable input) → q.process.looping = true →
      (heard input q.process.endpoint).fin = .again → (q.process.endpoint.conn.parsed env.evp
        (q.process.endpoint.conn.frameBuffer ++ (heard input q.process.endpoint).bytes)).confirmation = some frame →
      Still (q.process.endpoint.confirm (some frame)) r.process.endpoint → r.process.looping = q.process.looping →
      r.building = q.building → r.accepted = q.accepted → Progress env event q r
  | started (now : UInt32) : event = .step (.start now) → q.process.looping = false →
      r = {q with process := ({q.process with looping := true}.after (doHandshake env now q.process.endpoint)
        fun _ p => p)} → Progress env event q r
  | command (cmd : ClientCommand) (rest : List ClientCommand) : event = .step .command →
      q.process.endpoint.conn.commandQueue = cmd :: rest → q.process.idle = true →
      r = {q with process := (q.process.after (handleCommand env cmd
        (q.process.endpoint.modify fun c => {c with commandQueue := rest})) fun _ p => p)} → Progress env event q r
  | built (frame : Frame) : Still q.process.endpoint r.process.endpoint →
      r.process.looping = q.process.looping → frame.ssid = q.process.endpoint.conn.ssid →
      r.building = q.building ++ [⟨.send, some frame⟩] → r.accepted = q.accepted → Progress env event q r
  | pushed (cmd : ClientCommand) : cmd ∈ q.building →
      r = {
        process := {q.process with endpoint := pushReq cmd q.process.endpoint}
        building := q.building.erase cmd
        accepted := q.accepted ++ cmd.frame.toList} → Progress env event q r

theorem after_progress (p : Process) {α : Type} (r : Except Exn α × Endpoint) (next : α → Process → Process)
    (hnext : ∀ a q, (next a q).endpoint = q.endpoint ∧ (next a q).looping = q.looping) :
    (p.after r next).endpoint = r.2 ∧ (p.after r next).looping = p.looping := by
  obtain ⟨r, s⟩ := r
  cases r with
  | ok a => exact hnext a _
  | error e => exact ⟨rfl, rfl⟩

theorem step_progress {env : Env} {event : Event} {q : Submitting} {p : Process}
    (hs : q.process.endpoint.conn.state ≠ .closed → Live q.process.endpoint)
    (hevent : ∀ path data, event ≠ .sendReq path data) (h : Client.perform env event q.process = some p) :
    q.process.uncaught = none ∧ Progress env (.step event) q {q with process := p} := by
  obtain ⟨hrunning, hperforms⟩ := perform_performs h
  refine ⟨hrunning, ?_⟩
  -- A round of the epoll thread that sends nothing.
  have hround : ∀ {α : Type} {t : Except Exn α × Endpoint} (next : α → Process → Process),
      (∀ a p, (next a p).endpoint = p.endpoint ∧ (next a p).looping = p.looping) → Still q.process.endpoint t.2 →
      Progress env (.step event) q {q with process := q.process.after t next} := by
    intro α t next hnext hstill
    obtain ⟨hend, hloop⟩ := after_progress q.process t next hnext
    exact .still (hend ▸ hstill) hloop rfl rfl
  cases hperforms with
  | start now hloop => exact .started now rfl hloop rfl
  | readable input hidle =>
    rcases @receive_still env input _ hs with hstill | ⟨hfin, frame, hconf, hstill⟩
    · exact hround _ (fun _ _ => ⟨rfl, rfl⟩) hstill
    · obtain ⟨hend, hloop⟩ := after_progress q.process (receive env input q.process.endpoint)
        (fun frames p => {p with pending := frames}) fun _ _ => ⟨rfl, rfl⟩
      exact .confirmed input frame rfl (Process.looping_of_idle hidle) hfin hconf (hend ▸ hstill) hloop rfl rfl
  | dispatch frame rest _ => exact hround _ (fun _ _ => ⟨rfl, rfl⟩) (dispatchFrame_still frame q.process.endpoint)
  | hangup _ => exact hround _ (fun _ _ => ⟨rfl, rfl⟩) (close_still .epoll q.process.endpoint)
  | command cmd rest hqueue hidle => exact .command cmd rest rfl hqueue hidle rfl
  | sendReq path data => exact absurd rfl (hevent path data)
  | beginClose _ _ => exact .still (beginClose_still q.process.endpoint) rfl rfl rfl
  | endClose hclosed _ _ =>
    have hjoined : Still q.process.endpoint (q.process.endpoint.modify fun c => {c with joinable := false}) :=
      ⟨rfl, rfl, rfl, rfl, fun _ => ⟨rfl, rfl⟩, (Still.refl _).log⟩
    exact .still (hjoined.trans (closeFds_still hclosed)) rfl rfl rfl
  | setOnClose => exact .still ⟨rfl, rfl, rfl, rfl, fun _ => ⟨rfl, rfl⟩, (Still.refl _).log⟩ rfl rfl rfl

theorem perform_progress {env : Env} {event : SubmitEvent} {q r : Submitting}
    (hs : q.process.endpoint.conn.state ≠ .closed → Live q.process.endpoint) (h : q.perform env event = some r) :
    q.process.uncaught = none ∧ Progress env event q r := by
  cases event with
  | step event =>
    cases event with
    | sendReq path data => cases h
    | _ =>
      obtain ⟨p, hp, rfl⟩ := Option.map_eq_some_iff.mp h
      exact step_progress hs (fun _ _ hc => by cases hc) hp
  | build path data =>
    simp only [Submitting.perform] at h
    split at h
    · cases h
    next hgo =>
    cases h
    refine ⟨Option.not_isSome_iff_eq_none.mp hgo, ?_⟩
    unfold buildReq
    split
    · exact .still (.refl _) rfl (List.append_nil _) rfl
    · exact .built _ ⟨rfl, rfl, rfl, rfl, fun _ => ⟨rfl, rfl⟩, (Still.refl _).log⟩ rfl rfl rfl rfl
  | push cmd =>
    simp only [Submitting.perform] at h
    split at h
    · cases h
    next hgo =>
    cases h
    simp only [Bool.or_eq_true, decide_eq_true_eq, not_or, not_not] at hgo
    exact ⟨Option.not_isSome_iff_eq_none.mp hgo.1, .pushed cmd hgo.2 rfl⟩

/-- The process is well formed, as in a run in which no call is interrupted. -/
theorem submitting_wellFormed {env : Env} {q : Submitting} (h : Reachable (submitting env) q) :
    WellFormed env q.process := by
  refine h.invariant (I := fun q => WellFormed env q.process) ?_ ?_
  · rintro q ⟨hfresh, _⟩
    exact hfresh.wellFormed
  intro q event r hq hstep
  have hquiet : ∀ {t : Endpoint}, Keeps q.process.endpoint t → WellFormed env {q.process with endpoint := t} := by
    intro t hkeeps
    have heffect : Effect env .setOnClose q.process {q.process with endpoint := t} := .quiet hkeeps rfl (.inl rfl)
    exact heffect.wellFormed hq
  cases event with
  | step event =>
    cases event with
    | sendReq path data => cases hstep
    | _ =>
      obtain ⟨p, hp, rfl⟩ := Option.map_eq_some_iff.mp hstep
      exact (perform_effect hq.live hp).wellFormed hq
  | build path data =>
    have hbuild : q.perform env (.build path data) = some r := hstep
    simp only [Submitting.perform] at hbuild
    split at hbuild
    · cases hbuild
    cases hbuild
    refine hquiet ?_
    unfold buildReq
    split
    · exact .refl _
    · exact .of_log_eq rfl rfl (.inl rfl)
  | push cmd =>
    have hpush : q.perform env (.push cmd) = some r := hstep
    simp only [Submitting.perform] at hpush
    split at hpush
    · cases hpush
    cases hpush
    exact hquiet (.of_log_eq rfl rfl (.inl rfl))

/-- An application's request, built and pushed after the connection has been confirmed, and then sent. -/
def requestRun : List SubmitEvent :=
  [.step (.start 100), .step (.readable (.once confirmationRaw)), .build (ascii ['/', 'p']) [1, 2],
    .push ⟨.send, some ⟨0, 2, 7, STATUS_REQ, 0, ascii ['/', 'p'], [1, 2]⟩⟩, .step .command]

end Fmxp.Client
