import Fmxp.Client.Lifecycle
import Mathlib.Data.Fintype.Sum
import Mathlib.Tactic.DeriveFintype

/-! Calls of `close`, statement by statement.

Any thread may call `close`: the application's threads and the destructor on one of them, the epoll thread, and
the close callback on the thread that runs it. Between two statements of one call the others go on, and the
epoll thread delivers the frames it has parsed. `Closing` says for every thread which calls of `close` it is in.
Only the test at the top of `close` keeps two calls apart, and nothing is set before the callback has run; so
the calls are in order (`Orderly`) as long as one that passes the test runs alone, and not on the epoll thread,
up to the assignment of `_state`. -/
namespace Fmxp.Client
open Transition

/-- The statement a call of `close` is at; `calling` is inside the callback, `joining` inside `join`. -/
inductive ClosePoint where
  | guard
  | callback
  | calling
  | setClosed
  | stop
  | join
  | joining
  | closeFds
  deriving DecidableEq, Repr

inductive Caller (π : Type*) where
  | epoll
  | user (thread : π)
  deriving DecidableEq, Fintype

/-- A connection, the calls of `close` every thread is in, innermost first, and the frames parsed and not yet
delivered. `joined` says whether some thread has called `join`, `ended` whether the epoll thread has left its loop. -/
structure Closing (π : Type*) where
  endpoint : Endpoint
  calls : Caller π → List ClosePoint := fun _ => []
  pending : List Frame := []
  joined : Bool := false
  ended : Bool := false
  thrown : Option Exn := none

/-- `parsed` is what `_parseFrames` took out of the buffer: a confirmation, where the handshake was open, and frames. -/
inductive ClosingEvent (π : Type*) where
  | call (thread : Caller π)
  | step (thread : Caller π)
  | parsed (confirmation : Option Frame) (frames : List Frame)
  | deliver
  | leave
  | setOnClose

/-- `_validateFrame` would not refuse the frame. -/
def Connection.validates (c : Connection) (frame : Frame) : Bool := frame.ssid = c.ssid ∧ c.lastSrvFid < frame.fid

/-- The confirmation is only looked at in the handshake. -/
def Endpoint.parsing (s : Endpoint) (confirmation : Option Frame) : Endpoint :=
  if s.conn.state = .handshake then s.confirm confirmation else s

section
variable {π : Type*} [DecidableEq π]

/-- The thread goes on, in these calls of `close`. -/
def Closing.goto (q : Closing π) (thread : Caller π) (calls : List ClosePoint) (s : Endpoint) : Closing π :=
  {q with endpoint := s, calls := Function.update q.calls thread calls}

/-- The next statement of a call. Only one thread may wait in `join`, and not for itself. -/
def Closing.advance (q : Closing π) (thread : Caller π) (outer : List ClosePoint) : ClosePoint → Option (Closing π)
  | .guard =>
    if !q.endpoint.conn.running || q.endpoint.conn.state = .closed then some (q.goto thread outer q.endpoint)
    else some (q.goto thread (.callback :: outer) q.endpoint)
  | .callback =>
    if q.endpoint.conn.onClose then some (q.goto thread (.calling :: outer) (q.endpoint.emit .onClose))
    else some (q.goto thread (.setClosed :: outer) q.endpoint)
  | .calling => some (q.goto thread (.setClosed :: outer) q.endpoint)
  | .setClosed =>
    some (q.goto thread (.stop :: outer) (q.endpoint.modify fun c => {c with state := .closed}))
  | .stop => some (q.goto thread (.join :: outer) (q.endpoint.modify fun c => {c with running := false}))
  | .join =>
    if !q.endpoint.conn.joinable then some (q.goto thread (.closeFds :: outer) q.endpoint)
    else match thread with
      | .epoll =>
        some {q with endpoint := q.endpoint.emit .joinedSelf, thrown := some (.system "Resource deadlock avoided")}
      | .user _ =>
        if q.joined then some {q with thrown := some (.system "Invalid argument")}
        else some ({q with joined := true}.goto thread (.joining :: outer) q.endpoint)
  | .joining =>
    if q.ended then
      some (q.goto thread (.closeFds :: outer) (q.endpoint.modify fun c => {c with joinable := false}))
    else none
  | .closeFds => some (q.goto thread outer q.endpoint.closeFds)

/-- The epoll thread is in its loop and in no call of `close`. -/
def Closing.looping (q : Closing π) : Bool := (q.calls .epoll).isEmpty && !q.ended

def Closing.perform (event : ClosingEvent π) (q : Closing π) : Option (Closing π) :=
  if q.thrown.isSome then none
  else match event with
    | .call thread =>
      if thread = .epoll ∧ q.ended then none
      else match q.calls thread with
        | [] | .calling :: _ => some (q.goto thread (.guard :: q.calls thread) q.endpoint)
        | _ => none
    | .step thread =>
      match q.calls thread with
      | [] => none
      | point :: outer => q.advance thread outer point
    | .parsed confirmation frames =>
      if q.looping && q.pending.isEmpty then
        some {q with endpoint := q.endpoint.parsing confirmation, pending := frames}
      else none
    | .deliver =>
      if q.looping then
        match q.pending with
        | [] => none
        | frame :: rest =>
          if q.endpoint.conn.validates frame then
            some {q with endpoint := q.endpoint.handOver [frame], pending := rest}
          else some ({q with pending := []}.goto .epoll [.guard] q.endpoint)
      else none
    | .leave =>
      if q.looping && q.pending.isEmpty && !q.endpoint.conn.running then some {q with ended := true} else none
    | .setOnClose => some {q with endpoint := q.endpoint.modify fun c => {c with onClose := true}}

/-- A connection nobody has begun to close. -/
structure Unclosed (s : Endpoint) : Prop where
  live : Live s
  log : .onClose ∉ s.log

variable (π) in
def closing : System (Closing π) (ClosingEvent π) where
  init := fun q => ∃ s, Unclosed s ∧ q = {endpoint := s}
  step := fun q event r => q.perform event = some r

/-! ### The statements of one call -/

theorem goto_calls (q : Closing π) (thread : Caller π) (calls : List ClosePoint) (s : Endpoint) :
    (q.goto thread calls s).calls thread = calls := Function.update_self ..

theorem goto_other (q : Closing π) {thread u : Caller π} (calls : List ClosePoint) (s : Endpoint) (hu : u ≠ thread) :
    (q.goto thread calls s).calls u = q.calls u := Function.update_of_ne hu ..

theorem goto_goto (q : Closing π) (thread : Caller π) (calls calls' : List ClosePoint) (s s' : Endpoint) :
    (q.goto thread calls s).goto thread calls' s' = q.goto thread calls' s' := by
  unfold Closing.goto
  congr 1
  exact Function.update_idem ..

theorem goto_self {q : Closing π} {thread : Caller π} {calls : List ClosePoint} (h : q.calls thread = calls) :
    q.goto thread calls q.endpoint = q := by
  unfold Closing.goto
  rw [← h, Function.update_eq_self]

theorem perform_step {q : Closing π} {thread : Caller π} {point : ClosePoint} {outer : List ClosePoint}
    (halive : q.thrown = none) (hcalls : q.calls thread = point :: outer) :
    q.perform (.step thread) = q.advance thread outer point := by
  simp only [Closing.perform, halive, hcalls, Option.isSome_none, Bool.false_eq_true, if_false]

theorem step_advance {q r : Closing π} {thread : Caller π} {point : ClosePoint} {outer : List ClosePoint}
    (halive : q.thrown = none) (hcalls : q.calls thread = point :: outer)
    (h : q.advance thread outer point = some r) : (closing π).step q (.step thread) r :=
  (perform_step halive hcalls).trans h

/-- The same for a state that the call has just come to. -/
theorem step_goto {q : Closing π} {thread : Caller π} {point : ClosePoint} {calls outer : List ClosePoint}
    {s s' : Endpoint} (halive : q.thrown = none)
    (h : (q.goto thread (point :: outer) s).advance thread outer point =
      some ((q.goto thread (point :: outer) s).goto thread calls s')) :
    (closing π).step (q.goto thread (point :: outer) s) (.step thread) (q.goto thread calls s') := by
  rw [goto_goto] at h
  exact step_advance (by exact halive) (goto_calls ..) h

/-- What the first half of `close` has still to do. -/
def Endpoint.closeFrom (s : Endpoint) (point : ClosePoint) : Endpoint :=
  (if point = .callback ∧ s.conn.onClose then s.emit .onClose else s).modify
    fun c => {c with state := .closed, running := false}

theorem closeFrom_conn (s : Endpoint) (point : ClosePoint) :
    (s.closeFrom point).conn = {s.conn with state := .closed, running := false} := by
  unfold Endpoint.closeFrom
  split <;> rfl

theorem closeFrom_callback (s : Endpoint) : s.closeFrom .callback = s.beginClose := by
  unfold Endpoint.closeFrom Endpoint.beginClose
  simp only [true_and]

/-- A call that has passed its test comes to `join`. -/
theorem reaches_join {q : Closing π} (thread : Caller π) {point : ClosePoint} (outer : List ClosePoint)
    (hpoint : point = .callback ∨ point = .calling ∨ point = .setClosed) (halive : q.thrown = none) (s : Endpoint) :
    ∃ labels, Run (closing π) (q.goto thread (point :: outer) s) labels
      (q.goto thread (.join :: outer) (s.closeFrom point)) := by
  have hset : ∀ s : Endpoint, Run (closing π) (q.goto thread (.setClosed :: outer) s) [.step thread, .step thread]
      (q.goto thread (.join :: outer) (s.closeFrom .setClosed)) := by
    intro s
    have hclosed : (closing π).step (q.goto thread (.setClosed :: outer) s) (.step thread)
        (q.goto thread (.stop :: outer) (s.modify fun c => {c with state := .closed})) := step_goto halive rfl
    exact .cons hclosed (.cons (step_goto halive rfl) .nil)
  have hcall : ∀ s : Endpoint, (closing π).step (q.goto thread (.calling :: outer) s) (.step thread)
      (q.goto thread (.setClosed :: outer) s) := fun s => step_goto halive rfl
  rcases hpoint with rfl | rfl | rfl
  · cases hon : s.conn.onClose with
    | true =>
      have htold : (closing π).step (q.goto thread (.callback :: outer) s) (.step thread)
          (q.goto thread (.calling :: outer) (s.emit .onClose)) := step_goto halive (if_pos hon)
      have hrest := hset (s.emit .onClose)
      have heq : (s.emit .onClose).closeFrom .setClosed = s.closeFrom .callback := by
        simp [Endpoint.closeFrom, hon]
      rw [heq] at hrest
      exact ⟨_, .cons htold (.cons (hcall _) hrest)⟩
    | false =>
      have hskip : (closing π).step (q.goto thread (.callback :: outer) s) (.step thread)
          (q.goto thread (.setClosed :: outer) s) :=
        step_goto halive (if_neg (by exact hon ▸ Bool.false_ne_true))
      have hrest := hset s
      have heq : s.closeFrom .setClosed = s.closeFrom .callback := by
        simp [Endpoint.closeFrom, hon]
      rw [heq] at hrest
      exact ⟨_, .cons hskip hrest⟩
  · exact ⟨_, .cons (hcall s) (hset s)⟩
  · exact ⟨_, hset s⟩

/-- A thread of the application that finds the handle joinable waits. -/
theorem step_join {q : Closing π} {i : π} {outer : List ClosePoint} {s : Endpoint} (halive : q.thrown = none)
    (hjoined : q.joined = false) (hjoinable : s.conn.joinable = true) :
    (closing π).step (q.goto (.user i) (.join :: outer) s) (.step (.user i))
      ({q with joined := true}.goto (.user i) (.joining :: outer) s) := by
  have hjoin : ¬ (!s.conn.joinable) = true := by
    rw [hjoinable]
    exact Bool.false_ne_true
  have hfirst : ¬ q.joined = true := by
    rw [hjoined]
    exact Bool.false_ne_true
  apply step_advance (by exact halive) (goto_calls ..)
  refine (if_neg hjoin).trans ?_
  exact (if_neg hfirst).trans (congrArg some (goto_goto {q with joined := true} ..))

/-! ### Against the connection's own functions -/

def Caller.thread : Caller π → Thread
  | .epoll => .epoll
  | .user _ => .application

omit [DecidableEq π] in
theorem parsing_parsed (env : Env) (s : Endpoint) :
    let confirmation := (s.conn.parsed env.evp s.conn.frameBuffer).confirmation
    s.parsing confirmation = s.confirm confirmation := by
  intro confirmation
  unfold Endpoint.parsing
  split
  · rfl
  · next hstate =>
    have hnone : confirmation = none := by
      show (s.conn.parsed env.evp s.conn.frameBuffer).confirmation = none
      simp only [Connection.parsed, if_neg hstate, Connection.parsedSession]
    rw [hnone]
    rfl

theorem dispatchFrame_validates (frame : Frame) (s : Endpoint) :
    dispatchFrame frame s =
      if s.conn.validates frame then (.ok true, s.handOver [frame]) else closeThen s false := by
  rw [dispatchFrame_eq]
  simp only [Connection.validates, decide_eq_true_eq]

/-- **A call that no other interrupts does what `close` does**, given an epoll thread that has nothing left to
deliver and can leave its loop. -/
theorem close_alone {q : Closing π} {thread : Caller π} (halive : q.thrown = none) (hcalls : q.calls thread = [])
    (hepoll : q.calls .epoll = []) (hpending : q.pending = []) (hended : q.ended = !q.endpoint.conn.joinable)
    (hjoined : q.joined = !q.endpoint.conn.joinable) (hthread : thread = .epoll → q.ended = false) :
    ∃ labels r, Run (closing π) q labels r ∧ r.endpoint = (close thread.thread q.endpoint).2 ∧
      ∀ e, r.thrown = some e ↔ (close thread.thread q.endpoint).1 = .error e := by
  have hcall : (closing π).step q (.call thread) (q.goto thread [.guard] q.endpoint) := by
    show q.perform (.call thread) = _
    have hlives : ¬ (thread = .epoll ∧ q.ended = true) := fun h => by
      rw [hthread h.1] at h
      exact Bool.false_ne_true h.2
    simp only [Closing.perform, halive, hcalls, hlives, Option.isSome_none, Bool.false_eq_true, if_false]
  unfold close
  split
  · next hguard =>
    have hreturn : (closing π).step (q.goto thread [.guard] q.endpoint) (.step thread)
        (q.goto thread [] q.endpoint) := step_goto halive (if_pos hguard)
    refine ⟨_, _, .cons hcall (.cons hreturn .nil), rfl, fun e => ?_⟩
    simp [Closing.goto, halive]
  · next hguard =>
    have hpass : (closing π).step (q.goto thread [.guard] q.endpoint) (.step thread)
        (q.goto thread [.callback] q.endpoint) := step_goto halive (if_neg hguard)
    obtain ⟨labels, hhalf⟩ := reaches_join thread [] (.inl rfl) halive q.endpoint
    rw [closeFrom_callback] at hhalf
    have hbegin := Run.cons hcall (.cons hpass hhalf)
    have hjoinable : q.endpoint.beginClose.conn.joinable = q.endpoint.conn.joinable := by
      rw [← closeFrom_callback, closeFrom_conn]
    have hfds : ∀ {r : Closing π} {s : Endpoint}, r.thrown = none →
        (closing π).step (r.goto thread [.closeFds] s) (.step thread) (r.goto thread [] s.closeFds) :=
      fun h => step_goto h rfl
    dsimp only
    cases hj : q.endpoint.conn.joinable with
    | false =>
      have hskip : (closing π).step (q.goto thread [.join] q.endpoint.beginClose) (.step thread)
          (q.goto thread [.closeFds] q.endpoint.beginClose) :=
        step_goto halive (if_pos (by
          show (!q.endpoint.beginClose.conn.joinable) = true
          rw [hjoinable, hj]
          rfl))
      refine ⟨_, _, hbegin.append (.cons hskip (.cons (hfds halive) .nil)), ?_, fun e => ?_⟩
      · rw [hjoinable, hj]
        rfl
      · rw [hjoinable, hj]
        simp [Closing.goto, halive]
    | true =>
      have hj' : q.endpoint.beginClose.conn.joinable = true := hjoinable.trans hj
      have hjoin : ¬ (!q.endpoint.beginClose.conn.joinable) = true := by
        rw [hj']
        exact Bool.false_ne_true
      rw [hj', if_pos rfl]
      cases thread with
      | epoll =>
        have hthrow : (closing π).step (q.goto .epoll [.join] q.endpoint.beginClose) (.step .epoll)
            {q.goto .epoll [.join] q.endpoint.beginClose with
              endpoint := q.endpoint.beginClose.emit .joinedSelf,
              thrown := some (.system "Resource deadlock avoided")} :=
          step_advance halive (goto_calls ..) (if_neg hjoin)
        refine ⟨_, _, hbegin.append (.cons hthrow .nil), rfl, fun e => ?_⟩
        simp [Caller.thread]
      | user i =>
        -- The thread waits, the epoll thread leaves its loop, and the thread goes on.
        have hwait : (closing π).step (q.goto (.user i) [.join] q.endpoint.beginClose) (.step (.user i))
            ({q with joined := true}.goto (.user i) [.joining] q.endpoint.beginClose) :=
          step_join halive (by rw [hjoined, hj]; rfl) hj'
        have hleave : (closing π).step
            ({q with joined := true}.goto (.user i) [.joining] q.endpoint.beginClose) .leave
            ({q with joined := true, ended := true}.goto (.user i) [.joining] q.endpoint.beginClose) := by
          show Closing.perform _ _ = _
          have hstopped : q.endpoint.beginClose.conn.running = false := rfl
          simp [Closing.perform, Closing.looping, Closing.goto, halive, hepoll, hended, hj, hpending, hstopped]
        have hjoined' : (closing π).step
            ({q with joined := true, ended := true}.goto (.user i) [.joining] q.endpoint.beginClose) (.step (.user i))
            ({q with joined := true, ended := true}.goto (.user i) [.closeFds]
              (q.endpoint.beginClose.modify fun c => {c with joinable := false})) := step_goto halive rfl
        refine ⟨_, _, hbegin.append (.cons hwait (.cons hleave (.cons hjoined' (.cons (hfds halive) .nil)))), rfl,
          fun e => ?_⟩
        simp [Closing.goto, Caller.thread, halive]

end

end Fmxp.Client
