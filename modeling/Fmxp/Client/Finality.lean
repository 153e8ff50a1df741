import Fmxp.Client.Advancing

/-! That `close` is idempotent and final.

In the runs that keep the rule every close is final, and behind a step that breaks it a run can go on to a state
that is not (`close_final`): the epoll thread comes to join itself, the callback is called again or a second
thread joins, or the next frame is handed over behind the callback. -/
namespace Fmxp.Client
open Transition

section
variable {π : Type*} [DecidableEq π] {q r : Closing π} {stage : Stage π}

/-! ### Without the rule -/

/-- From here a run can come to a state that is not final. -/
def Spoils (q : Closing π) : Prop := ∃ labels t, Run (closing π) q labels t ∧ ¬ t.Final

theorem Spoils.of_run (h : Spoils r) {labels : List (ClosingEvent π)} (hrun : Run (closing π) q labels r) :
    Spoils q := by
  obtain ⟨labels', t, hrun', ht⟩ := h
  exact ⟨_, t, hrun.append hrun', ht⟩

theorem Spoils.of_step (h : Spoils r) {event : ClosingEvent π} (hstep : (closing π).step q event r) : Spoils q :=
  h.of_run (.cons hstep .nil)

theorem Spoils.here (h : ¬ q.Final) : Spoils q := ⟨[], q, .nil, h⟩

/-- A call whose `join` throws does not return. -/
theorem not_final_of_join {thread : Caller π} {outer : List ClosePoint} (hcalls : q.calls thread = .join :: outer)
    (hjoinable : q.endpoint.conn.joinable = true) (hthread : thread = .epoll ∨ q.joined = true) : ¬ q.Final := by
  intro hfinal
  rcases hfinal.returns thread (by rw [hcalls]; simp) with ⟨_, hjoining, _⟩ | ⟨r, hr, hless⟩
  · rw [hcalls] at hjoining
    cases hjoining
  · have hthrown : r.calls = q.calls := by
      rw [perform_step hfinal.alive hcalls] at hr
      simp only [Closing.advance, hjoinable, Bool.not_true, Bool.false_eq_true, if_false] at hr
      rcases hthread with rfl | hjoined
      · cases hr
        rfl
      · cases thread with
        | epoll =>
          cases hr
          rfl
        | user i =>
          simp only [hjoined, if_true] at hr
          cases hr
          rfl
    unfold Closing.left at hless
    rw [hthrown] at hless
    exact Nat.lt_irrefl _ hless

/-- A call that has passed its test on the epoll thread comes to join that thread. -/
theorem spoils_of_epoll {outer : List ClosePoint} {s : Endpoint} (halive : q.thrown = none)
    (hjoinable : s.conn.joinable = true) : Spoils (q.goto .epoll (.callback :: outer) s) := by
  obtain ⟨labels, hrun⟩ := reaches_join .epoll outer (.inl rfl) halive s
  refine ⟨labels, _, hrun, not_final_of_join (goto_calls ..) ?_ (.inl rfl)⟩
  show (s.closeFrom .callback).conn.joinable = true
  rw [closeFrom_conn]
  exact hjoinable

/-- A second call of the callback. -/
theorem spoils_of_callback {thread : Caller π} {outer : List ClosePoint} (halive : q.thrown = none)
    (hcalls : q.calls thread = .callback :: outer) (hset : q.endpoint.conn.onClose = true)
    (htold : .onClose ∈ q.endpoint.log) : Spoils q := by
  have htwice : (closing π).step q (.step thread) (q.goto thread (.calling :: outer) (q.endpoint.emit .onClose)) :=
    step_advance halive hcalls (if_pos hset)
  refine .of_step (.here fun hfinal => ?_) htwice
  have hone : 1 ≤ q.endpoint.log.count .onClose := List.count_pos_iff.mpr htold
  have htwo : List.count Output.onClose (q.endpoint.log ++ [.onClose]) ≤ 1 := hfinal.once
  rw [List.count_append, show List.count .onClose [Output.onClose] = 1 from rfl] at htwo
  omega

/-- A frame that is handed over behind the callback. -/
theorem spoils_of_frame {frame : Frame} {rest : List Frame} (halive : q.thrown = none) (hlooping : q.looping = true)
    (hpending : q.pending = frame :: rest) (hvalid : q.endpoint.conn.validates frame = true)
    (htold : .onClose ∈ q.endpoint.log) : Spoils q := by
  have hdelivered : (closing π).step q .deliver
      {q with endpoint := q.endpoint.handOver [frame], pending := rest} := by
    show q.perform .deliver = _
    simp only [Closing.perform, halive, hlooping, hpending, hvalid, Option.isSome_none, Bool.false_eq_true,
      if_false, if_true]
  refine .of_step (.here fun hfinal => ?_) hdelivered
  have hlast := (List.pairwise_append.mp hfinal.last).2.2 _ htold (.response frame) (List.mem_cons_self ..)
  exact hlast rfl frame rfl

/-- Of two calls that have passed their test, the second to come to `join` finds the first waiting there. -/
theorem spoils_of_two {i j : π} {point : ClosePoint} (hij : i ≠ j) (halive : q.thrown = none)
    (hi : q.calls (.user i) = [point]) (hj : q.calls (.user j) = [.callback])
    (hpoint : point = .callback ∨ point = .setClosed) (hjoined : q.joined = false)
    (hjoinable : q.endpoint.conn.joinable = true) : Spoils q := by
  obtain ⟨labels, hfirst⟩ := reaches_join (q := q) (.user i) [] (by tauto) halive q.endpoint
  rw [goto_self hi] at hfirst
  have hkeeps : (q.endpoint.closeFrom point).conn.joinable = true := by
    rw [closeFrom_conn]
    exact hjoinable
  have hwaits : (closing π).step (q.goto (.user i) [.join] (q.endpoint.closeFrom point)) (.step (.user i)) _ :=
    step_join halive hjoined hkeeps
  have hcallback : ({q with joined := true}.goto (.user i) [.joining] (q.endpoint.closeFrom point)).calls (.user j) =
      [.callback] := by
    have hne : (Caller.user j : Caller π) ≠ .user i := fun heq => hij (Caller.user.inj heq).symm
    exact (goto_other _ _ _ hne).trans hj
  obtain ⟨labels', hsecond⟩ := reaches_join
    (q := {q with joined := true}.goto (.user i) [.joining] (q.endpoint.closeFrom point)) (.user j) [] (.inl rfl)
    (by exact halive) (q.endpoint.closeFrom point)
  rw [show Closing.goto _ (.user j) [.callback] (q.endpoint.closeFrom point) = _ from goto_self hcallback] at hsecond
  refine ⟨_, _, hfirst.append (.cons hwaits hsecond), not_final_of_join (goto_calls ..) ?_ (.inr rfl)⟩
  show ((q.endpoint.closeFrom point).closeFrom .callback).conn.joinable = true
  rw [closeFrom_conn]
  exact hkeeps

/-- Past its test is only the call that closes. -/
theorem Orderly.closer (h : Orderly q stage) {u : Caller π} {point : ClosePoint} (hin : point ∈ q.calls u)
    (hpoint : point ≠ .guard) : ∃ i, u = .user i ∧ stage = .within i point := by
  have hstage : point ∈ stage.calls u := by
    rcases h.called u with hcalls | ⟨hcalls, _⟩ <;> rw [hcalls] at hin
    · exact hin
    · exact (List.mem_cons.mp hin).resolve_left hpoint
  cases stage with
  | before | after => cases hstage
  | within i at_ =>
    simp only [Stage.calls] at hstage
    split at hstage
    · next hu => exact ⟨i, hu, by rw [List.mem_singleton.mp hstage]⟩
    · cases hstage

/-- A call passes its test against the rule. -/
theorem Orderly.spoils_passing (h : Orderly q stage) {thread : Caller π} {outer : List ClosePoint}
    (hcalls : q.calls thread = .guard :: outer) (hrunning : q.endpoint.conn.running = true)
    (hrule : ¬ (thread ≠ .epoll ∧ ∀ u, ∀ point ∈ q.calls u, point.undecided = false)) :
    Spoils (q.goto thread (.callback :: outer) q.endpoint) := by
  have hjoinable : q.endpoint.conn.joinable = true := by
    cases hj : q.endpoint.conn.joinable with
    | true => rfl
    | false => cases (h.looping hrunning).symm.trans (h.ended hj)
  cases thread with
  | epoll => exact spoils_of_epoll h.alive hjoinable
  | user j =>
    obtain ⟨u, point, hin, hundecided⟩ : ∃ u, ∃ point ∈ q.calls u, point.undecided = true := by
      by_contra hnone
      exact hrule ⟨by simp, fun u point hin => Bool.eq_false_of_not_eq_true fun hp => hnone ⟨u, point, hin, hp⟩⟩
    obtain ⟨i, rfl, rfl⟩ := h.closer hin fun hguard => by
      rw [hguard] at hundecided
      cases hundecided
    have hself := Stage.calls_self i point
    by_cases hpoint : point = .calling
    · -- The callback is set and was called.
      obtain ⟨hset, htold⟩ := h.inside hpoint
      exact spoils_of_callback (by exact h.alive) (goto_calls ..) hset htold
    · have hnot : ¬ ([point] = [] ∨ [point] = [.calling]) := by simp [hpoint]
      have hi : q.calls (.user i) = [point] := by
        rcases h.called (.user i) with hcalled | ⟨_, hcalled⟩
        · exact hcalled.trans hself
        · exact absurd (hself ▸ hcalled) hnot
      have hij : i ≠ j := by
        rintro rfl
        cases hi.symm.trans hcalls
        cases hundecided
      have hne : (Caller.user j : Caller π) ≠ .user i := fun heq => hij (Caller.user.inj heq).symm
      have houter : outer = [] := by
        rcases h.top hcalls with ⟨_, houter⟩ | ⟨hguard, _⟩
        · exact houter.trans (Stage.calls_other point hne)
        · exact absurd rfl hguard
      subst houter
      have hi' : (q.goto (.user j) [.callback] q.endpoint).calls (.user i) = [point] :=
        (goto_other q _ _ (Ne.symm hne)).trans hi
      have hjoined : q.joined = point.flags.2.2.1 := congrArg (·.2.2.1) h.flags
      cases point with
      | callback => exact spoils_of_two hij h.alive hi' (goto_calls ..) (.inl rfl) hjoined hjoinable
      | setClosed => exact spoils_of_two hij h.alive hi' (goto_calls ..) (.inr rfl) hjoined hjoinable
      | calling => exact absurd rfl hpoint
      | guard | stop | join | joining | closeFds => cases hundecided

omit [DecidableEq π] in
theorem validates_of_not_refuses {s : Endpoint} {frames : List Frame} (h : ¬ s.Refuses frames) :
    ∃ frame rest, frames = frame :: rest ∧ s.conn.validates frame = true := by
  cases frames with
  | nil =>
    apply absurd _ h
    intro frame hframe
    cases hframe
  | cons frame rest =>
    refine ⟨frame, rest, rfl, ?_⟩
    by_contra hinvalid
    apply h
    intro frame' hframe
    cases hframe
    exact Bool.eq_false_of_not_eq_true hinvalid

/-- The callback is called against the rule. -/
theorem Orderly.spoils_calling {i : π} (h : Orderly q (.within i .callback))
    (hrule : ¬ q.endpoint.Refuses q.pending) :
    Spoils (q.goto (.user i) [.calling] (q.endpoint.emit .onClose)) := by
  have hrunning : q.endpoint.conn.running = true := congrArg (·.1) h.flags
  have hopen : decide (q.endpoint.conn.state = .closed) = false := congrArg (·.2.1) h.flags
  have hjoinable : q.endpoint.conn.joinable = true := congrArg (·.2.2.2) h.flags
  have hother : (q.goto (.user i) [.calling] (q.endpoint.emit .onClose)).calls .epoll = q.calls .epoll :=
    goto_other _ _ _ (by simp)
  rcases h.called .epoll with hcalls | ⟨hcalls, _⟩
  · obtain ⟨frame, rest, hpending, hvalid⟩ := validates_of_not_refuses hrule
    have hfree : q.calls .epoll = [] := hcalls.trans (Stage.calls_epoll _)
    have hlooping : (q.goto (.user i) [.calling] (q.endpoint.emit .onClose)).looping = true := by
      unfold Closing.looping
      rw [hother, hfree]
      exact congrArg (!·) (h.looping hrunning)
    exact spoils_of_frame h.alive hlooping hpending hvalid (List.mem_append_right _ (List.mem_cons_self ..))
  · -- The epoll thread is in a call too, and passes its test.
    have hguard : q.calls .epoll = [.guard] := by rw [hcalls, Stage.calls_epoll]
    have hpass : (closing π).step (q.goto (.user i) [.calling] (q.endpoint.emit .onClose)) (.step .epoll)
        ((q.goto (.user i) [.calling] (q.endpoint.emit .onClose)).goto .epoll [.callback]
          (q.endpoint.emit .onClose)) := by
      apply step_advance (by exact h.alive) (hother.trans hguard)
      refine if_neg ?_
      show ¬ (!q.endpoint.conn.running || decide (q.endpoint.conn.state = .closed)) = true
      rw [hrunning, hopen]
      exact Bool.false_ne_true
    have hjoins : Spoils ((q.goto (.user i) [.calling] (q.endpoint.emit .onClose)).goto .epoll [.callback]
        (q.endpoint.emit .onClose)) := spoils_of_epoll h.alive hjoinable
    exact hjoins.of_step hpass

/-- A step against the rule lets the run go wrong. -/
theorem Orderly.spoils (h : Orderly q stage) {event : ClosingEvent π} (hr : q.perform event = some r)
    (hrule : ¬ Undisturbed q event) : Spoils r := by
  cases event with
  | call | deliver | leave | setOnClose => exact absurd trivial hrule
  | parsed confirmation frames =>
    unfold Closing.perform at hr
    split at hr
    · cases hr
    dsimp only at hr
    split at hr <;> cases hr
    next hlooping =>
    obtain ⟨htold, hrefuses⟩ := Classical.not_imp.mp hrule
    obtain ⟨frame, rest, rfl, hvalid⟩ := validates_of_not_refuses hrefuses
    have hlog : .onClose ∈ (q.endpoint.parsing confirmation).log := by
      unfold Endpoint.parsing
      split
      · cases confirmation with
        | none => exact htold
        | some frame => exact List.mem_append_left _ htold
      · exact htold
    exact spoils_of_frame h.alive (Bool.and_eq_true_iff.mp hlooping).1 rfl hvalid hlog
  | step thread =>
    cases hcalls : q.calls thread with
    | nil =>
      apply absurd _ hrule
      constructor
      · rintro ⟨hhead, _⟩
        rw [hcalls] at hhead
        cases hhead
      · rintro ⟨hhead, _⟩
        rw [hcalls] at hhead
        cases hhead
    | cons point outer =>
      rw [perform_step h.alive hcalls] at hr
      by_cases hpasses : q.Passes thread
      · obtain ⟨hhead, hrunning, hopen⟩ := hpasses
        rw [hcalls] at hhead
        cases hhead
        have hagainst : ¬ (thread ≠ .epoll ∧ ∀ u, ∀ point ∈ q.calls u, point.undecided = false) := by
          intro halone
          refine hrule ⟨fun _ => halone, ?_⟩
          rintro ⟨hhead, _⟩
          rw [hcalls] at hhead
          cases hhead
        simp only [Closing.advance, hrunning, hopen, Bool.not_true, decide_false, Bool.or_self, Bool.false_eq_true,
          if_false] at hr
        cases hr
        exact h.spoils_passing hcalls hrunning hagainst
      · obtain ⟨⟨hhead, hset⟩, hrefuses⟩ :=
          Classical.not_imp.mp fun hinvokes => hrule ⟨fun h => absurd h hpasses, hinvokes⟩
        rw [hcalls] at hhead
        cases hhead
        rcases h.top hcalls with ⟨hguard, _⟩ | ⟨_, rfl, i, rfl, rfl⟩
        · cases hguard
        · simp only [Closing.advance, hset, if_true] at hr
          cases hr
          exact h.spoils_calling hrefuses

/-- **`close` is idempotent and final** in every run that keeps the rule: the callback is called at most once, each
call returns or waits for the epoll thread, and no response is handed over behind the callback. Behind a step that
breaks the rule a run can go on to where this fails. -/
theorem close_final (h : Reachable ((closing π).under Undisturbed) q) :
    q.Final ∧ ∀ event r, (closing π).step q event r → ¬ Undisturbed q event → Spoils r := by
  obtain ⟨stage, hstage⟩ := reachable_orderly h
  exact ⟨hstage.final, fun event r hr hrule => hstage.spoils hr hrule⟩

end

/-- Two responses on session 7. -/
def responses7 : List Frame := [⟨2, 1, 7, STATUS_OK, 0, [], [1]⟩, ⟨3, 2, 7, STATUS_OK, 0, [], [2]⟩]

/-- A callback is set, two responses are parsed and the first is handed over. -/
def deliverRun : List (ClosingEvent Unit) := [.setOnClose, .parsed (some confirmation7) responses7, .deliver]

/-- Two statements of the application's call. -/
def closeRun : List (ClosingEvent Unit) := [.call (.user ()), .step (.user ()), .step (.user ())]

theorem connected3_unclosed : Unclosed connected3.endpoint := ⟨⟨by decide, rfl, rfl⟩, by decide⟩

/-- The rest of the application's call, with the epoll thread leaving its loop, and a second call. -/
def finishRun : List (ClosingEvent Unit) :=
  [.step (.user ()), .step (.user ()), .step (.user ()), .step (.user ()), .leave, .step (.user ()), .step (.user ()),
    .call (.user ()), .step (.user ())]

/-- The application closes behind both responses, twice. -/
theorem responses_then_close : ∃ q : Closing Unit, q.Final ∧ q.calls (.user ()) = [] ∧
    q.endpoint.log.drop 2 = [.response ⟨3, 2, 7, STATUS_OK, 0, [], [2]⟩, .onClose, .closedFds 3 4 5] := by
  have hrun : (execute (guarded Undisturbed fun (q : Closing Unit) event => q.perform event)
      (deliverRun ++ .deliver :: closeRun ++ finishRun) {endpoint := connected3.endpoint}).map
        (fun q => (q.calls (.user ()), q.endpoint.log.drop 2)) =
      some ([], [.response ⟨3, 2, 7, STATUS_OK, 0, [], [2]⟩, .onClose, .closedFds 3 4 5]) := by
    decide +kernel
  obtain ⟨q, hq, hresult⟩ := Option.map_eq_some_iff.mp hrun
  have hnext : ∀ event (q r : Closing Unit), q.perform event = some r → (closing Unit).step q event r :=
    fun _ _ _ h => h
  have hreach : Reachable ((closing Unit).under Undisturbed) q :=
    Reachable.execute (fun event _ _ _ => guarded_step (hnext event)) (.init ⟨_, connected3_unclosed, rfl⟩) hq
  exact ⟨q, (close_final hreach).1, congrArg Prod.fst hresult, congrArg Prod.snd hresult⟩

/-- **No part holds without the rule**: a callback that calls `close` is called twice, a close on the epoll thread
joins that thread, and the second response of a batch follows the callback. -/
theorem close_not_final :
    (∃ q, Reachable (closing Unit) q ∧ ¬ q.endpoint.log.count .onClose ≤ 1) ∧
      (∃ q, Reachable (closing Unit) q ∧ q.thrown = some (.system "Resource deadlock avoided")) ∧
      ∃ q, Reachable (closing Unit) q ∧
        ¬ q.endpoint.log.Pairwise fun o later => o = .onClose → ∀ frame, later ≠ .response frame := by
  have hreach : ∀ {labels : List (ClosingEvent Unit)} {q : Closing Unit},
      execute (fun (q : Closing Unit) event => q.perform event) labels {endpoint := connected3.endpoint} = some q →
        Reachable (closing Unit) q :=
    Reachable.execute (fun _ _ _ _ h => h) (.init ⟨_, connected3_unclosed, rfl⟩)
  refine ⟨?_, ?_, ?_⟩
  · have hrun : (execute (fun (q : Closing Unit) event => q.perform event)
        (.setOnClose :: closeRun ++ closeRun) {endpoint := connected3.endpoint}).map
          (fun q => q.endpoint.log.count .onClose) = some 2 := by
      decide +kernel
    obtain ⟨q, hq, hcount⟩ := Option.map_eq_some_iff.mp hrun
    exact ⟨q, hreach hq, by omega⟩
  · have hrun : (execute (fun (q : Closing Unit) event => q.perform event)
        [.call .epoll, .step .epoll, .step .epoll, .step .epoll, .step .epoll, .step .epoll]
          {endpoint := connected3.endpoint}).map (fun q => q.thrown) =
            some (some (.system "Resource deadlock avoided")) := by
      decide +kernel
    obtain ⟨q, hq, hthrown⟩ := Option.map_eq_some_iff.mp hrun
    exact ⟨q, hreach hq, hthrown⟩
  · have hrun : (execute (fun (q : Closing Unit) event => q.perform event) (deliverRun ++ closeRun ++ [.deliver])
        {endpoint := connected3.endpoint}).map (fun q => q.endpoint.log.drop 2) =
          some [.onClose, .response ⟨3, 2, 7, STATUS_OK, 0, [], [2]⟩] := by
      decide +kernel
    obtain ⟨q, hq, hlog⟩ := Option.map_eq_some_iff.mp hrun
    refine ⟨q, hreach hq, fun hlast => ?_⟩
    have hdropped := hlast.sublist (List.drop_sublist 2 _)
    rw [hlog] at hdropped
    exact (List.pairwise_cons.mp hdropped).1 _ (List.mem_cons_self ..) rfl _ rfl

end Fmxp.Client
