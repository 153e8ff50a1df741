import Fmxp.Client.Closing

/-! Orderly calls of `close`.

A close is final when the callback is called once, no call throws or waits for itself, and no response follows
the callback (`Closing.Final`). The test at the top of `close` does not see to that: a call on the epoll thread
ends in a join with itself, a call from the callback passes the test as the first one did, and the delivery of
a batch looks at nothing. `Undisturbed` is the rule that leaves these out. In the runs that keep it one call
closes, and everything is as far as this call has come (`Orderly`); here are the steps that are not its own. -/
namespace Fmxp.Client

/-- The statements a call has still before it. -/
def ClosePoint.left : ClosePoint → Nat
  | .guard => 8
  | .callback => 7
  | .calling => 6
  | .setClosed => 5
  | .stop => 4
  | .join => 3
  | .joining => 2
  | .closeFds => 1

/-- The call has passed its test and not yet set `_state`. -/
def ClosePoint.undecided : ClosePoint → Bool
  | .callback | .calling | .setClosed => true
  | _ => false

/-- `_validateFrame` refuses the frame that comes next, and so the batch. -/
def Endpoint.Refuses (s : Endpoint) (frames : List Frame) : Prop :=
  ∀ frame ∈ frames.head?, s.conn.validates frame = false

section
variable {π : Type*}

def Closing.left (q : Closing π) (thread : Caller π) : Nat := ((q.calls thread).map ClosePoint.left).sum

/-- The thread waits in `join` for the epoll thread. -/
def Closing.Waits (q : Closing π) (thread : Caller π) : Prop :=
  thread ≠ .epoll ∧ (q.calls thread).head? = some .joining ∧ q.ended = false

/-- The thread is about to pass the test at the top of `close`. -/
def Closing.Passes (q : Closing π) (thread : Caller π) : Prop :=
  (q.calls thread).head? = some .guard ∧ q.endpoint.conn.running = true ∧ q.endpoint.conn.state ≠ .closed

/-- The thread is about to call the callback. -/
def Closing.Invokes (q : Closing π) (thread : Caller π) : Prop :=
  (q.calls thread).head? = some .callback ∧ q.endpoint.conn.onClose = true

variable [DecidableEq π]

/-- The callback has been called at most once, a call of `close` goes on, coming closer to its end, or waits for
another thread, and no response was handed over behind the callback. -/
structure Closing.Final (q : Closing π) : Prop where
  once : q.endpoint.log.count .onClose ≤ 1
  alive : q.thrown = none
  returns : ∀ thread, q.calls thread ≠ [] →
    q.Waits thread ∨ ∃ r, q.perform (.step thread) = some r ∧ r.left thread < q.left thread
  last : q.endpoint.log.Pairwise fun o later => o = .onClose → ∀ frame, later ≠ .response frame

/-- A call passes its test on a thread of the application, and while no other call is between its own test and the
assignment of `_state`; when the callback is called no frame is pending that will be handed over, and none
is parsed afterwards. -/
def Undisturbed (q : Closing π) : ClosingEvent π → Prop
  | .step thread =>
    (q.Passes thread → thread ≠ .epoll ∧ ∀ u, ∀ point ∈ q.calls u, point.undecided = false) ∧
      (q.Invokes thread → q.endpoint.Refuses q.pending)
  | .parsed confirmation frames => .onClose ∈ q.endpoint.log → (q.endpoint.parsing confirmation).Refuses frames
  | _ => True

instance (s : Endpoint) (frames : List Frame) : Decidable (s.Refuses frames) := by
  unfold Endpoint.Refuses
  infer_instance

omit [DecidableEq π] in
instance (q : Closing π) (thread : Caller π) : Decidable (q.Passes thread) := by
  unfold Closing.Passes
  infer_instance

omit [DecidableEq π] in
instance (q : Closing π) (thread : Caller π) : Decidable (q.Invokes thread) := by
  unfold Closing.Invokes
  infer_instance

instance [Fintype π] (q : Closing π) : (event : ClosingEvent π) → Decidable (Undisturbed q event)
  | .step thread => inferInstanceAs (Decidable
      ((q.Passes thread → thread ≠ .epoll ∧ ∀ u, ∀ point ∈ q.calls u, point.undecided = false) ∧
        (q.Invokes thread → q.endpoint.Refuses q.pending)))
  | .parsed confirmation frames =>
    inferInstanceAs (Decidable (.onClose ∈ q.endpoint.log → (q.endpoint.parsing confirmation).Refuses frames))
  | .call _ | .deliver | .leave | .setOnClose => .isTrue trivial

/-! ### The call that closes -/

/-- How far the closing has come: not begun, by the call of a thread that has passed its test, or done. -/
inductive Stage (π : Type*) where
  | before
  | within (thread : π) (point : ClosePoint)
  | after

omit [DecidableEq π] in
def Stage.point : Stage π → ClosePoint
  | .before => .guard
  | .within _ point => point
  | .after => .closeFds

def Stage.calls : Stage π → Caller π → List ClosePoint
  | .within i point, thread => if thread = .user i then [point] else []
  | _, _ => []

theorem Stage.calls_self (i : π) (point : ClosePoint) : (Stage.within i point).calls (.user i) = [point] := if_pos rfl

theorem Stage.calls_other {i : π} (point : ClosePoint) {thread : Caller π} (h : thread ≠ .user i) :
    (Stage.within i point).calls thread = [] := if_neg h

theorem Stage.calls_epoll (stage : Stage π) : stage.calls .epoll = [] := by
  cases stage with
  | before | after => rfl
  | within i point => exact Stage.calls_other point (by simp)

/-- `_running`, whether `_state` is `CLOSED`, whether `join` was called, and whether it can be. -/
def Closing.flags (q : Closing π) : Bool × Bool × Bool × Bool :=
  (q.endpoint.conn.running, q.endpoint.conn.state = .closed, q.joined, q.endpoint.conn.joinable)

def ClosePoint.flags : ClosePoint → Bool × Bool × Bool × Bool
  | .guard | .callback | .calling | .setClosed => (true, false, false, true)
  | .stop => (true, true, false, true)
  | .join => (false, true, false, true)
  | .joining => (false, true, true, true)
  | .closeFds => (false, true, true, false)

/-- A thread that comes to the test of a call of its own is in no other, or in the callback. -/
def Stage.Calls (stage : Stage π) (thread : Caller π) (calls : List ClosePoint) : Prop :=
  calls = stage.calls thread ∨
    (calls = .guard :: stage.calls thread ∧ (stage.calls thread = [] ∨ stage.calls thread = [.calling]))

/-- Besides the call that closes, threads are at most at the test of a call of their own. -/
def Closing.Called (q : Closing π) (stage : Stage π) : Prop := ∀ thread, stage.Calls thread (q.calls thread)

/-- The callback has been called. -/
def ClosePoint.told : ClosePoint → Bool
  | .guard | .callback => false
  | _ => true

/-- The callback was called at most once, if at all, and nothing is handed over behind it. -/
structure Told (q : Closing π) (told : Bool) : Prop where
  once : q.endpoint.log.count .onClose ≤ told.toNat
  refuses : .onClose ∈ q.endpoint.log → q.endpoint.Refuses q.pending
  last : q.endpoint.log.Pairwise fun o later => o = .onClose → ∀ frame, later ≠ .response frame

/-- At most one call has passed its test, and everything is as far as this call has come. -/
structure Orderly (q : Closing π) (stage : Stage π) : Prop where
  entered : ∀ i, stage ≠ .within i .guard
  called : q.Called stage
  flags : q.flags = stage.point.flags
  alive : q.thrown = none
  looping : q.endpoint.conn.running = true → q.ended = false
  ended : q.endpoint.conn.joinable = false → q.ended = true
  inCall : q.calls .epoll ≠ [] → q.ended = false
  inside : stage.point = .calling → q.endpoint.conn.onClose = true ∧ .onClose ∈ q.endpoint.log
  told : Told q stage.point.told

end

section
variable {π : Type*} {q r : Closing π} {told : Bool}

/-! ### What the callback ends -/

theorem validates_session {c d : Connection} (h : d.session = c.session) (frame : Frame) :
    d.validates frame = c.validates frame := by
  have hssid : d.ssid = c.ssid := congrArg (·.2.1) h
  have hfid : d.lastSrvFid = c.lastSrvFid := congrArg (·.2.2.1) h
  unfold Connection.validates
  rw [hssid, hfid]

/-- Nothing is logged and nothing parsed. -/
theorem Told.same (h : Told q told) {told' : Bool} (hlog : r.endpoint.log = q.endpoint.log)
    (hsession : r.endpoint.conn.session = q.endpoint.conn.session) (hpending : r.pending = q.pending ∨ r.pending = [])
    (hle : told = true → told' = true) : Told r told' where
  once := by
    rw [hlog]
    refine h.once.trans ?_
    cases told with
    | false => exact Nat.zero_le _
    | true => rw [hle rfl]
  refuses := by
    rw [hlog]
    intro htold frame hframe
    rw [validates_session hsession]
    rcases hpending with hpending | hpending
    · exact h.refuses htold frame (hpending ▸ hframe)
    · rw [hpending] at hframe
      cases hframe
  last := by
    rw [hlog]
    exact h.last

/-- Something is logged that is neither the callback nor, behind it, a response. -/
theorem Told.logged (h : Told q told) {o : Output} (hlog : r.endpoint.log = q.endpoint.log ++ [o])
    (ho : o ≠ .onClose) (hlast : .onClose ∈ q.endpoint.log → ∀ frame, o ≠ .response frame)
    (hrefuses : .onClose ∈ q.endpoint.log → r.endpoint.Refuses r.pending) : Told r told where
  once := by
    rw [hlog, List.count_append, List.count_eq_zero.mpr fun hmem => ho (List.mem_singleton.mp hmem).symm]
    exact h.once
  refuses := by
    rw [hlog]
    intro hmem
    rcases List.mem_append.mp hmem with hmem | hmem
    · exact hrefuses hmem
    · exact absurd (List.mem_singleton.mp hmem).symm ho
  last := by
    rw [hlog]
    refine List.pairwise_append.mpr ⟨h.last, List.pairwise_singleton .., fun o' ho' later hlater heq => ?_⟩
    rw [List.mem_singleton.mp hlater]
    exact hlast (heq ▸ ho')

/-- The callback is called, with no frame pending that will be handed over. -/
theorem Told.callback (h : Told q false) (hlog : r.endpoint.log = q.endpoint.log ++ [.onClose])
    (hrefuses : r.endpoint.Refuses r.pending) : Told r true where
  once := by
    rw [hlog, List.count_append, Nat.le_zero.mp h.once]
    exact Nat.le_refl _
  refuses := fun _ => hrefuses
  last := by
    rw [hlog]
    refine List.pairwise_append.mpr ⟨h.last, List.pairwise_singleton .., fun o _ later hlater _ frame => ?_⟩
    rw [List.mem_singleton.mp hlater]
    intro heq
    cases heq

/-! ### Steps that leave the closing where it is -/

theorem flags_running (h : r.flags = q.flags) : r.endpoint.conn.running = q.endpoint.conn.running := congrArg (·.1) h

theorem flags_joinable (h : r.flags = q.flags) : r.endpoint.conn.joinable = q.endpoint.conn.joinable :=
  congrArg (·.2.2.2) h

variable [DecidableEq π] {stage : Stage π}

omit q r told in
/-- The call that closes is in no other call of its thread. -/
theorem Stage.calls_single {thread : Caller π} {point : ClosePoint} {outer : List ClosePoint}
    (h : stage.calls thread = point :: outer) : outer = [] := by
  cases stage with
  | before | after => cases h
  | within i at_ =>
    simp only [Stage.calls] at h
    split at h <;> cases h
    rfl

theorem Orderly.stays (h : Orderly q stage) (hcalled : r.Called stage) (hflags : r.flags = q.flags)
    (hended : r.ended = q.ended) (halive : r.thrown = q.thrown) (hinCall : r.calls .epoll ≠ [] → r.ended = false)
    (hset : q.endpoint.conn.onClose = true → r.endpoint.conn.onClose = true)
    (hlog : q.endpoint.log <+: r.endpoint.log) (htold : Told r stage.point.told) :
    Orderly r stage where
  entered := h.entered
  called := hcalled
  flags := hflags.trans h.flags
  alive := halive.trans h.alive
  looping := by
    rw [flags_running hflags, hended]
    exact h.looping
  ended := by
    rw [flags_joinable hflags, hended]
    exact h.ended
  inCall := hinCall
  inside := fun hpoint => ⟨hset (h.inside hpoint).1, hlog.subset (h.inside hpoint).2⟩
  told := htold

theorem called_goto (h : q.Called stage) {thread : Caller π} {calls : List ClosePoint} (s : Endpoint)
    (hcalls : stage.Calls thread calls) : (q.goto thread calls s).Called stage := by
  intro u
  by_cases hu : u = thread
  · subst hu
    rw [goto_calls]
    exact hcalls
  · rw [goto_other q calls s hu]
    exact h u

/-- A thread comes to the test of a call, or returns from it. -/
theorem Orderly.goto (h : Orderly q stage) {thread : Caller π} {calls : List ClosePoint}
    (hcalls : stage.Calls thread calls) (hlives : thread = .epoll → calls ≠ [] → q.ended = false)
    {pending : List Frame} (hpending : pending = q.pending ∨ pending = []) :
    Orderly ({q with pending := pending}.goto thread calls q.endpoint) stage := by
  have hcalled : ({q with pending := pending}.goto thread calls q.endpoint).Called stage :=
    called_goto (by exact h.called) _ hcalls
  apply h.stays hcalled rfl rfl rfl
  · intro hin
    by_cases hthread : thread = .epoll
    · subst hthread
      rw [goto_calls] at hin
      exact hlives rfl hin
    · rw [goto_other _ calls q.endpoint (Ne.symm hthread)] at hin
      exact h.inCall hin
  · exact fun hset => hset
  · exact List.prefix_rfl
  · exact h.told.same rfl rfl hpending fun h => h

theorem Orderly.call (h : Orderly q stage) {thread : Caller π} (hr : q.perform (.call thread) = some r) :
    Orderly r stage := by
  unfold Closing.perform at hr
  split at hr
  · cases hr
  dsimp only at hr
  split at hr
  · cases hr
  next hlives =>
  -- A thread can only call from outside `close` or from the callback, so it is not at a test already.
  have hpushed : r = q.goto thread (.guard :: q.calls thread) q.endpoint ∧
      stage.Calls thread (.guard :: q.calls thread) := by
    have hstage := h.called thread
    split at hr
    · next hcalls =>
      rw [hcalls] at hstage ⊢
      rcases hstage with hstage | ⟨hguard, _⟩
      · exact ⟨(Option.some.inj hr).symm.trans (by rw [hcalls]), .inr ⟨by rw [hstage], .inl hstage.symm⟩⟩
      · cases hguard
    · next outer hcalls =>
      rw [hcalls] at hstage ⊢
      rcases hstage with hstage | ⟨hguard, _⟩
      · refine ⟨(Option.some.inj hr).symm.trans (by rw [hcalls]), .inr ⟨by rw [hstage], .inr ?_⟩⟩
        rw [← hstage, stage.calls_single hstage.symm]
      · cases hguard
    · cases hr
  obtain ⟨rfl, hcalls⟩ := hpushed
  refine h.goto hcalls (fun hthread _ => ?_) (.inl rfl)
  exact Bool.eq_false_of_not_eq_true fun hended => hlives ⟨hthread, hended⟩

theorem Orderly.parsed (h : Orderly q stage) {confirmation : Option Frame} {frames : List Frame}
    (hrule : Undisturbed q (.parsed confirmation frames)) (hr : q.perform (.parsed confirmation frames) = some r) :
    Orderly r stage := by
  unfold Closing.perform at hr
  split at hr
  · cases hr
  dsimp only at hr
  split at hr <;> cases hr
  have hquiet : (q.endpoint.parsing confirmation).conn.running = q.endpoint.conn.running ∧
      ((q.endpoint.parsing confirmation).conn.state = .closed ↔ q.endpoint.conn.state = .closed) ∧
      (q.endpoint.parsing confirmation).conn.joinable = q.endpoint.conn.joinable ∧
      (q.endpoint.parsing confirmation).conn.onClose = q.endpoint.conn.onClose ∧
      ((q.endpoint.parsing confirmation).log = q.endpoint.log ∨
        ∃ frame, (q.endpoint.parsing confirmation).log = q.endpoint.log ++ [.confirmed frame]) := by
    unfold Endpoint.parsing
    split
    · next hstate =>
      cases confirmation with
      | none => exact ⟨rfl, Iff.rfl, rfl, rfl, .inl rfl⟩
      | some frame =>
        have hconnected : (q.endpoint.confirm (some frame)).conn.state = .connected := rfl
        rw [hconnected, hstate]
        exact ⟨rfl, by simp, rfl, rfl, .inr ⟨frame, rfl⟩⟩
    · exact ⟨rfl, Iff.rfl, rfl, rfl, .inl rfl⟩
  obtain ⟨hrunning, hstate, hjoinable, hset, hlog⟩ := hquiet
  refine h.stays h.called ?_ rfl rfl h.inCall (fun h => hset.trans h) ?_ ?_
  · simp only [Closing.flags, hrunning, hstate, hjoinable]
  · rcases hlog with hlog | ⟨frame, hlog⟩ 
    · exact hlog ▸ List.prefix_rfl
    · exact hlog ▸ List.prefix_append ..
  · rcases hlog with hlog | ⟨frame, hlog⟩
    · refine ⟨?_, ?_, ?_⟩
      · rw [hlog]
        exact h.told.once
      · rw [hlog]
        exact hrule
      · rw [hlog]
        exact h.told.last
    · exact h.told.logged hlog (by simp) (by simp) hrule

theorem Orderly.deliver (h : Orderly q stage) (hr : q.perform .deliver = some r) : Orderly r stage := by
  unfold Closing.perform at hr
  split at hr
  · cases hr
  dsimp only at hr
  split at hr
  case isFalse => cases hr
  next hlooping =>
  simp only [Closing.looping, Bool.and_eq_true, List.isEmpty_iff, Bool.not_eq_true'] at hlooping
  obtain ⟨hfree, hended⟩ := hlooping
  split at hr
  · cases hr
  next frame rest hpending =>
  split at hr
  · next hvalid =>
    cases hr
    -- The callback has not been called, or this frame would be refused.
    have huntold : .onClose ∉ q.endpoint.log := fun htold => by
      have hrefused := h.told.refuses htold frame (by rw [hpending]; rfl)
      rw [hvalid] at hrefused
      cases hrefused
    exact h.stays h.called rfl rfl rfl h.inCall (fun h => h) (List.prefix_append ..)
      (h.told.logged rfl (by simp) (fun htold => absurd htold huntold) fun htold => absurd htold huntold)
  · cases hr
    exact h.goto (.inr ⟨by rw [Stage.calls_epoll], .inl (Stage.calls_epoll _)⟩) (fun _ _ => hended) (.inr rfl)

theorem Orderly.leave (h : Orderly q stage) (hr : q.perform .leave = some r) : Orderly r stage := by
  unfold Closing.perform at hr
  split at hr
  · cases hr
  dsimp only at hr
  split at hr
  case isFalse => cases hr
  next hstopped =>
  simp only [Closing.looping, Bool.and_eq_true, List.isEmpty_iff, Bool.not_eq_true'] at hstopped
  obtain ⟨⟨⟨hfree, hended⟩, _⟩, hrunning⟩ := hstopped
  cases hr
  exact {
    entered := h.entered
    called := h.called
    flags := h.flags
    alive := h.alive
    looping := fun hrun => by cases hrunning.symm.trans hrun
    ended := fun _ => rfl
    inCall := fun hin => absurd hfree hin
    inside := h.inside
    told := h.told.same rfl rfl (.inl rfl) fun h => h }

theorem Orderly.setOnClose (h : Orderly q stage) (hr : q.perform .setOnClose = some r) : Orderly r stage := by
  unfold Closing.perform at hr
  split at hr
  · cases hr
  dsimp only at hr
  cases hr
  exact h.stays h.called rfl rfl rfl h.inCall (fun _ => rfl) List.prefix_rfl
    (h.told.same rfl rfl (.inl rfl) fun h => h)

end

end Fmxp.Client
