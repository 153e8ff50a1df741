import Fmxp.Client.Orderly

/-! The call that closes.

The steps of this call, one statement after the other, keep the calls orderly, and so does every run that keeps
the rule. In an orderly state a close is final: a call that is not waiting has a next statement, and each
statement brings it closer to its end. -/
namespace Fmxp.Client
open Transition

section
variable {π : Type*} [DecidableEq π] {q r : Closing π} {stage : Stage π}

/-! ### The steps of the closing -/

/-- The call of a thread of the application comes to its next statement. -/
theorem Orderly.moves (h : Orderly q stage) {i : π} {stage' : Stage π}
    (hstage : stage = .before ∨ ∃ point, stage = .within i point)
    (hstage' : stage' = .after ∨ ∃ point, stage' = .within i point ∧ point ≠ .guard)
    (hcalls : r.calls = Function.update q.calls (.user i) (stage'.calls (.user i)))
    (hflags : r.flags = stage'.point.flags) (hended : r.ended = q.ended) (halive : r.thrown = none)
    (hrunning : r.endpoint.conn.running = true → q.endpoint.conn.running = true)
    (hjoinable : r.endpoint.conn.joinable = false → q.ended = true)
    (hinside : stage'.point = .calling → r.endpoint.conn.onClose = true ∧ .onClose ∈ r.endpoint.log)
    (htold : Told r stage'.point.told) : Orderly r stage' where
  entered := by
    rintro j rfl
    rcases hstage' with hstage' | ⟨point, hstage', hpoint⟩
    · cases hstage'
    · cases hstage'
      exact hpoint rfl
  called := by
    intro u
    rw [hcalls]
    by_cases hu : u = .user i
    · subst hu
      exact .inl (Function.update_self ..)
    · rw [Function.update_of_ne hu]
      have hbefore : stage.calls u = [] := by
        rcases hstage with rfl | ⟨point, rfl⟩
        · rfl
        · exact Stage.calls_other point hu
      have hafter : stage'.calls u = [] := by
        rcases hstage' with rfl | ⟨point, rfl, _⟩
        · rfl
        · exact Stage.calls_other point hu
      rcases h.called u with hcalls | ⟨hcalls, _⟩
      · exact .inl (by rw [hcalls, hbefore, hafter])
      · exact .inr ⟨by rw [hcalls, hbefore, hafter], .inl hafter⟩
  flags := hflags
  alive := halive
  looping := fun hrun => hended.trans (h.looping (hrunning hrun))
  ended := fun hjoin => hended.trans (hjoinable hjoin)
  inCall := by
    rw [hcalls, Function.update_of_ne (by intro heq; cases heq), hended]
    exact h.inCall
  inside := hinside
  told := htold

/-- A thread in a call is at its test, or it is the one that closes. -/
theorem Orderly.top (h : Orderly q stage) {thread : Caller π} {point : ClosePoint} {outer : List ClosePoint}
    (hcalls : q.calls thread = point :: outer) :
    (point = .guard ∧ outer = stage.calls thread) ∨
      (point ≠ .guard ∧ outer = [] ∧ ∃ i, thread = .user i ∧ stage = .within i point) := by
  rcases h.called thread with hstage | hguard
  · rw [hcalls] at hstage
    cases stage with
    | before => cases hstage
    | after => cases hstage
    | within i at_ =>
      by_cases hthread : thread = .user i
      · subst hthread
        rw [Stage.calls_self] at hstage
        cases hstage
        exact .inr ⟨fun hpoint => h.entered i (hpoint ▸ rfl), rfl, i, rfl, rfl⟩
      · rw [Stage.calls_other at_ hthread] at hstage
        cases hstage
  · cases hcalls.symm.trans hguard.1
    exact .inl ⟨rfl, rfl⟩

/-- A call that passes its test, with no other before the assignment of `_state`, is the first to do so. -/
theorem Orderly.first (h : Orderly q stage) (hrunning : q.endpoint.conn.running = true)
    (hopen : q.endpoint.conn.state ≠ .closed) (halone : ∀ u, ∀ point ∈ q.calls u, point.undecided = false) :
    stage = .before := by
  have hrun : stage.point.flags.1 = true := (congrArg (·.1) h.flags).symm.trans hrunning
  have hclosed : stage.point.flags.2.1 = false :=
    (congrArg (·.2.1) h.flags).symm.trans (decide_eq_false hopen)
  cases stage with
  | before => rfl
  | after => cases hrun
  | within i point =>
    have hin : point ∈ q.calls (.user i) := by
      rcases h.called (.user i) with hcalls | ⟨hcalls, _⟩ <;> rw [hcalls, Stage.calls_self]
      · exact List.mem_cons_self ..
      · exact List.mem_cons_of_mem _ (List.mem_cons_self ..)
    have hdecided := halone _ _ hin
    cases point with
    | guard => exact absurd rfl (h.entered i)
    | callback | calling | setClosed => cases hdecided
    | stop => cases hclosed
    | join | joining | closeFds => cases hrun

/-- The call that closes comes to its next statement, and nothing is logged. -/
theorem Orderly.goes {i : π} {point point' : ClosePoint} (h : Orderly q (.within i point)) {s : Endpoint}
    {joined : Bool} (hflags : ({q with joined := joined}.goto (.user i) [point'] s).flags = point'.flags)
    (hrunning : s.conn.running = true → q.endpoint.conn.running = true)
    (hjoinable : s.conn.joinable = false → q.ended = true) (hlog : s.log = q.endpoint.log)
    (hsession : s.conn.session = q.endpoint.conn.session) (htold : point.told = true → point'.told = true)
    (hpoint : point' ≠ .guard ∧ point' ≠ .calling) :
    Orderly ({q with joined := joined}.goto (.user i) [point'] s) (.within i point') := by
  refine h.moves (.inr ⟨_, rfl⟩) (.inr ⟨_, rfl, hpoint.1⟩) ?_ hflags rfl h.alive hrunning hjoinable
    (fun hcalling => absurd hcalling hpoint.2) (h.told.same hlog hsession (.inl rfl) htold)
  rw [Stage.calls_self]
  rfl

/-- The call that closes goes on. -/
theorem Orderly.proceeds {i : π} {point : ClosePoint} (h : Orderly q (.within i point)) (hpoint : point ≠ .guard)
    (hrule : point = .callback → q.endpoint.conn.onClose = true → q.endpoint.Refuses q.pending)
    (hr : q.advance (.user i) [] point = some r) : ∃ stage', Orderly r stage' := by
  have hflags : (q.endpoint.conn.running, decide (q.endpoint.conn.state = .closed), q.joined,
    q.endpoint.conn.joinable) = point.flags := h.flags
  cases point with
  | guard => exact absurd rfl hpoint
  | callback =>
    simp only [Closing.advance] at hr
    split at hr <;> cases hr
    · next hset =>
      refine ⟨.within i .calling, h.moves (.inr ⟨_, rfl⟩) (.inr ⟨_, rfl, by simp⟩) ?_ h.flags rfl h.alive
        (fun h => h) h.ended (fun _ => ⟨hset, List.mem_append_right _ (List.mem_cons_self ..)⟩) ?_⟩
      · rw [Stage.calls_self]
        rfl
      · exact h.told.callback rfl (hrule rfl hset)
    · exact ⟨_, h.goes h.flags (fun h => h) h.ended rfl rfl (fun h => by cases h) (by simp)⟩
  | calling =>
    cases hr
    exact ⟨_, h.goes h.flags (fun h => h) h.ended rfl rfl (fun h => h) (by simp)⟩
  | setClosed =>
    cases hr
    simp only [ClosePoint.flags, Prod.mk.injEq] at hflags
    have hstop : (q.endpoint.conn.running, true, q.joined, q.endpoint.conn.joinable) = ClosePoint.stop.flags := by
      rw [hflags.1, hflags.2.2.1, hflags.2.2.2]
      rfl
    exact ⟨_, h.goes hstop (fun h => h) h.ended rfl rfl (fun h => h) (by simp)⟩
  | stop =>
    cases hr
    simp only [ClosePoint.flags, Prod.mk.injEq] at hflags
    have hjoin : (false, decide (q.endpoint.conn.state = .closed), q.joined, q.endpoint.conn.joinable) =
        ClosePoint.join.flags := by
      rw [hflags.2.1, hflags.2.2.1, hflags.2.2.2]
      rfl
    exact ⟨_, h.goes hjoin (fun h => by cases h) h.ended rfl rfl (fun h => h) (by simp)⟩
  | join =>
    simp only [ClosePoint.flags, Prod.mk.injEq] at hflags
    simp only [Closing.advance, hflags.2.2.1, hflags.2.2.2, Bool.not_true, Bool.false_eq_true, if_false] at hr
    cases hr
    have hjoining : (q.endpoint.conn.running, decide (q.endpoint.conn.state = .closed), true,
        q.endpoint.conn.joinable) = ClosePoint.joining.flags := by
      rw [hflags.1, hflags.2.1, hflags.2.2.2]
      rfl
    exact ⟨_, h.goes hjoining (fun h => h) h.ended rfl rfl (fun h => h) (by simp)⟩
  | joining =>
    simp only [Closing.advance] at hr
    split at hr <;> cases hr
    next hended =>
    simp only [ClosePoint.flags, Prod.mk.injEq] at hflags
    have hclose : (q.endpoint.conn.running, decide (q.endpoint.conn.state = .closed), q.joined, false) =
        ClosePoint.closeFds.flags := by
      rw [hflags.1, hflags.2.1, hflags.2.2.1]
      rfl
    exact ⟨_, h.goes hclose (fun h => h) (fun _ => hended) rfl rfl (fun h => h) (by simp)⟩
  | closeFds =>
    cases hr
    refine ⟨.after, h.moves (.inr ⟨_, rfl⟩) (.inl rfl) rfl h.flags rfl h.alive (fun h => h) h.ended
      (fun h => by cases h) ?_⟩
    exact h.told.logged rfl (by simp) (by simp) h.told.refuses

theorem Orderly.step (h : Orderly q stage) {thread : Caller π} (hrule : Undisturbed q (.step thread))
    (hr : q.perform (.step thread) = some r) : ∃ stage', Orderly r stage' := by
  unfold Closing.perform at hr
  split at hr
  · cases hr
  dsimp only at hr
  split at hr
  · cases hr
  next point outer hcalls =>
  rcases h.top hcalls with ⟨rfl, rfl⟩ | ⟨hpoint, rfl, i, rfl, rfl⟩
  · simp only [Closing.advance] at hr
    split at hr <;> cases hr
    · exact ⟨stage, h.goto (.inl rfl) (fun hthread _ => h.inCall (by rw [← hthread, hcalls]; simp)) (.inl rfl)⟩
    · next hopen =>
      simp only [Bool.or_eq_true, Bool.not_eq_true', decide_eq_true_eq, not_or, Bool.not_eq_false] at hopen
      obtain ⟨huser, halone⟩ := hrule.1 ⟨by rw [hcalls]; rfl, hopen⟩
      have hstage := h.first hopen.1 hopen.2 halone
      subst hstage
      cases thread with
      | epoll => exact absurd rfl huser
      | user i =>
        refine ⟨.within i .callback, h.moves (.inl rfl) (.inr ⟨_, rfl, by simp⟩) ?_ h.flags rfl h.alive
          (fun h => h) h.ended (fun h => by cases h) (h.told.same rfl rfl (.inl rfl) fun h => h)⟩
        rw [Stage.calls_self]
        rfl
  · exact h.proceeds hpoint (fun heq hset => hrule.2 ⟨by rw [hcalls, heq]; rfl, hset⟩) hr

theorem Orderly.perform (h : Orderly q stage) {event : ClosingEvent π} (hrule : Undisturbed q event)
    (hr : q.perform event = some r) : ∃ stage', Orderly r stage' := by
  cases event with
  | call thread => exact ⟨stage, h.call hr⟩
  | step thread => exact h.step hrule hr
  | parsed confirmation frames => exact ⟨stage, h.parsed hrule hr⟩
  | deliver => exact ⟨stage, h.deliver hr⟩
  | leave => exact ⟨stage, h.leave hr⟩
  | setOnClose => exact ⟨stage, h.setOnClose hr⟩

theorem Unclosed.orderly {s : Endpoint} (hs : Unclosed s) : Orderly ({endpoint := s} : Closing π) .before where
  entered := by
    intro i heq
    cases heq
  called := fun _ => .inl rfl
  flags := by
    show (s.conn.running, decide (s.conn.state = .closed), false, s.conn.joinable) = _
    rw [hs.live.running, hs.live.joinable, decide_eq_false hs.live.state]
    rfl
  alive := rfl
  looping := fun _ => rfl
  ended := fun h => by cases hs.live.joinable.symm.trans h
  inCall := fun _ => rfl
  inside := fun h => by cases h
  told := {
    once := (List.count_eq_zero.mpr hs.log).le
    refuses := fun h => absurd h hs.log
    last := List.pairwise_of_forall_mem_list fun o ho _ _ heq => absurd (heq ▸ ho) hs.log }

theorem reachable_orderly (h : Reachable ((closing π).under Undisturbed) q) : ∃ stage, Orderly q stage := by
  induction h with
  | init hq =>
    obtain ⟨s, hs, rfl⟩ := hq
    exact ⟨.before, hs.orderly⟩
  | step _ hstep ih =>
    obtain ⟨stage, hstage⟩ := ih
    exact hstage.perform hstep.1 hstep.2

/-! ### Orderly calls are final -/

theorem left_goto (q : Closing π) (thread : Caller π) (calls : List ClosePoint) (s : Endpoint) :
    (q.goto thread calls s).left thread = (calls.map ClosePoint.left).sum := by
  unfold Closing.left
  rw [goto_calls]

/-- A statement that does not throw brings the call closer to its end. -/
theorem advance_left {thread : Caller π} {point : ClosePoint} {outer : List ClosePoint}
    (hr : q.advance thread outer point = some r) (halive : r.thrown = none) :
    r.left thread < point.left + (outer.map ClosePoint.left).sum := by
  have hgoto : ∀ {joined : Bool} {calls : List ClosePoint} {s : Endpoint},
      (calls.map ClosePoint.left).sum < point.left + (outer.map ClosePoint.left).sum →
        ({q with joined := joined}.goto thread calls s).left thread <
          point.left + (outer.map ClosePoint.left).sum := by
    intro joined calls s hless
    rw [left_goto]
    exact hless
  cases point with
  | guard | callback =>
    simp only [Closing.advance] at hr
    split at hr <;> cases hr <;> exact hgoto (by simp [ClosePoint.left])
  | calling | setClosed | stop | closeFds =>
    cases hr
    exact hgoto (by simp [ClosePoint.left])
  | join =>
    simp only [Closing.advance] at hr
    split at hr
    · cases hr
      exact hgoto (by simp [ClosePoint.left])
    · split at hr
      · cases hr
        cases halive
      · split at hr <;> cases hr
        · cases halive
        · exact hgoto (by simp [ClosePoint.left])
  | joining =>
    simp only [Closing.advance] at hr
    split at hr <;> cases hr
    exact hgoto (by simp [ClosePoint.left])

/-- A thread in a call goes on, unless it waits for the epoll thread. -/
theorem Orderly.advances (h : Orderly q stage) {thread : Caller π} {point : ClosePoint} {outer : List ClosePoint}
    (hcalls : q.calls thread = point :: outer) :
    q.Waits thread ∨ ∃ r, q.advance thread outer point = some r ∧ r.thrown = none := by
  rcases h.top hcalls with ⟨rfl, rfl⟩ | ⟨hpoint, rfl, i, rfl, rfl⟩
  · right
    unfold Closing.advance
    dsimp only
    split <;> exact ⟨_, rfl, h.alive⟩
  · cases point with
    | guard => exact absurd rfl hpoint
    | callback =>
      right
      simp only [Closing.advance]
      split <;> exact ⟨_, rfl, h.alive⟩
    | calling | setClosed | stop | closeFds => exact .inr ⟨_, rfl, h.alive⟩
    | join =>
      have hjoined : q.joined = false := congrArg (·.2.2.1) h.flags
      have hjoinable : q.endpoint.conn.joinable = true := congrArg (·.2.2.2) h.flags
      right
      simp only [Closing.advance, hjoined, hjoinable, Bool.not_true, Bool.false_eq_true, if_false]
      exact ⟨_, rfl, h.alive⟩
    | joining =>
      cases hended : q.ended with
      | false => exact .inl ⟨by simp, by rw [hcalls]; rfl, hended⟩
      | true =>
        right
        simp only [Closing.advance, hended, if_true]
        exact ⟨_, rfl, h.alive⟩

theorem Orderly.final (h : Orderly q stage) : q.Final where
  once := h.told.once.trans (Bool.toNat_le _)
  alive := h.alive
  returns := by
    intro thread hin
    obtain ⟨point, outer, hcalls⟩ := List.exists_cons_of_ne_nil hin
    refine (h.advances hcalls).imp_right ?_
    rintro ⟨r, hr, halive⟩
    refine ⟨r, (perform_step h.alive hcalls).trans hr, ?_⟩
    have hleft : q.left thread = point.left + (outer.map ClosePoint.left).sum := by
      unfold Closing.left
      rw [hcalls]
      rfl
    rw [hleft]
    exact advance_left hr halive
  last := h.told.last

end

end Fmxp.Client
