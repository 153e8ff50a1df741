import Fmxp.Library.Settling
import Fmxp.Server.Condition

/-! Every task of the thread pool is executed.

What is asked of the threads: a call that has been begun notifies, a worker that is awake looks at the
queue, and tasks return. Workers that sleep are asked nothing, so the notifications alone bring every
task to a worker; and when tasks come to an end, the destructor returns. -/
namespace Fmxp.Server.Sleepers
open Transition
variable {τ : Type*} {s t : Sleepers τ} {event : SleeperEvent τ} {worker : Nat}

def At (worker : Nat) (w : Sleeper τ) (s : Sleepers τ) : Prop := s.workers[worker]? = some w

structure Fair {threads : Nat} (ρ : Trace (sleepers τ threads)) : Prop where
  notifies : ∀ n, (∀ m, n ≤ m → (ρ.state m).notifying ≠ 0) →
    ∃ m, n ≤ m ∧ ρ.Takes (fun event => event = .notifyNone ∨ ∃ worker, event = .notifyOne worker) m
  checks : ∀ n worker, (ρ.state n).At worker .checking →
    ρ.Eventually (fun s => ¬ s.At worker .checking) n
  /-- Tasks return. -/
  finishes : ∀ n worker task, (ρ.state n).At worker (.running task) →
    ρ.Eventually (fun s => ¬ s.At worker (.running task)) n
  setsStop : ∀ n, (ρ.state n).destructor = .called → ρ.Eventually (fun s => s.destructor ≠ .called) n
  announces : ∀ n, (ρ.state n).announcing = true → ρ.Eventually (fun s => s.announcing = false) n
  joins : ∀ n joined, (ρ.state n).destructor = .joining joined → (ρ.state n).At joined Sleeper.exited →
    (ρ.state n).announcing = false → ρ.Eventually (fun s => s.destructor ≠ .joining joined) n

/-! ### What a step does to one worker -/

/-- Tasks are added to those enqueued, taken and executed. -/
theorem Steps.grows (h : Steps s event t) :
    s.enqueued <+: t.enqueued ∧ s.taken <+: t.taken ∧ t.workers.length = s.workers.length := by
  cases h with
  | enqueue _ | spawn _ => exact ⟨List.prefix_append .., List.prefix_refl _, rfl⟩
  | take _ _ => exact ⟨List.prefix_refl _, List.prefix_append .., List.length_set ..⟩
  | notifyOne _ _ | wake _ | sleep _ _ _ | finish _ | leave _ _ _ =>
    exact ⟨List.prefix_refl _, List.prefix_refl _, List.length_set ..⟩
  | notifyAll _ => exact ⟨List.prefix_refl _, List.prefix_refl _, List.length_map ..⟩
  | _ => exact ⟨List.prefix_refl _, List.prefix_refl _, rfl⟩

/-- The ways of a worker: from one state to another, or nowhere. -/
inductive Ways (s t : Sleepers τ) : Sleeper τ → Sleeper τ → Prop
  | stay {w : Sleeper τ} : Ways s t w w
  | wake : Ways s t .asleep .checking
  | sleep : s.stop = false → s.tasks = [] → Ways s t .checking .asleep
  | take {task : τ} : s.taken.length < t.taken.length → Ways s t .checking (.running task)
  | finish {task : τ} : Ways s t (.running task) .checking
  | leave : s.tasks = [] → Ways s t .checking .exited

theorem ways_set {workers : List (Sleeper τ)} {i : Nat} {w v x : Sleeper τ} (hi : workers[i]? = some x)
    (hw : workers[worker]? = some w) (hx : Ways s t x v) :
    ∃ y, (workers.set i v)[worker]? = some y ∧ Ways s t w y := by
  by_cases heq : i = worker
  · subst heq
    cases hi.symm.trans hw
    exact ⟨v, List.getElem?_set_self (List.getElem?_eq_some_iff.mp hi).1, hx⟩
  · exact ⟨w, by rw [List.getElem?_set_ne heq]; exact hw, .stay⟩

theorem Steps.ways {w : Sleeper τ} (h : Steps s event t) (hw : s.workers[worker]? = some w) :
    ∃ y, t.workers[worker]? = some y ∧ Ways s t w y := by
  cases h with
  | notifyOne hworker _ | wake hworker => exact ways_set hworker hw .wake
  | sleep hworker hstop htasks => exact ways_set hworker hw (.sleep hstop htasks)
  | @take i task rest hworker htasks =>
    refine ways_set hworker hw (.take ?_)
    show s.taken.length < (s.taken ++ [task]).length
    rw [List.length_append]
    exact Nat.lt_succ_self _
  | finish hworker => exact ways_set hworker hw .finish
  | leave hworker _ htasks => exact ways_set hworker hw (.leave htasks)
  | notifyAll _ =>
    refine ⟨w.notified, ?_, ?_⟩
    · show (s.workers.map Sleeper.notified)[worker]? = _
      rw [List.getElem?_map, hw]
      rfl
    · cases w <;> first | exact .wake | exact .stay
  | _ => exact ⟨w, hw, .stay⟩

/-- A notification wakes a worker that sleeps. -/
theorem Steps.notified (h : Steps s event t) (hevent : event = .notifyNone ∨ ∃ worker, event = .notifyOne worker)
    (hasleep : .asleep ∈ s.workers) : ∃ worker, t.At worker .checking := by
  rcases hevent with rfl | ⟨worker, rfl⟩
  · cases h with
    | notifyNone _ hnone => exact absurd hasleep hnone
  · cases h with
    | notifyOne hworker _ => exact ⟨worker, List.getElem?_set_self (List.getElem?_eq_some_iff.mp hworker).1⟩

section
variable {threads : Nat} {ρ : Trace (sleepers τ threads)} {n m : Nat}

theorem next_steps (ρ : Trace (sleepers τ threads)) (n : Nat) :
    ρ.state (n + 1) = ρ.state n ∨ ∃ event, Steps (ρ.state n) event (ρ.state (n + 1)) := by
  rcases ρ.next n with hsame | ⟨event, hstep⟩
  · exact .inl hsame
  · exact .inr ⟨event, perform_steps hstep⟩

theorem next_ways (ρ : Trace (sleepers τ threads)) {w : Sleeper τ} (hw : (ρ.state n).At worker w) :
    ∃ y, (ρ.state (n + 1)).At worker y ∧ Ways (ρ.state n) (ρ.state (n + 1)) w y := by
  rcases next_steps ρ n with hsame | ⟨event, hstep⟩
  · rw [hsame]
    exact ⟨w, hw, .stay⟩
  · exact hstep.ways hw

theorem enqueued_grows (ρ : Trace (sleepers τ threads)) (hnm : n ≤ m) :
    (ρ.state n).enqueued <+: (ρ.state m).enqueued := by
  refine ρ.persists (fun s => (ρ.state n).enqueued <+: s.enqueued) (fun k _ h => ?_) (List.prefix_refl _) hnm
  rcases next_steps ρ k with hsame | ⟨event, hstep⟩
  · rw [hsame]
    exact h
  · exact h.trans hstep.grows.1

theorem taken_grows (ρ : Trace (sleepers τ threads)) (hnm : n ≤ m) : (ρ.state n).taken <+: (ρ.state m).taken := by
  refine ρ.persists (fun s => (ρ.state n).taken <+: s.taken) (fun k _ h => ?_) (List.prefix_refl _) hnm
  rcases next_steps ρ k with hsame | ⟨event, hstep⟩
  · rw [hsame]
    exact h
  · exact h.trans hstep.grows.2.1

theorem lossless (hthreads : 1 ≤ threads) (ρ : Trace (sleepers τ threads)) (n : Nat) :
    (ρ.state n).pool.Lossless :=
  ThreadPool.reachable_lossless hthreads (sleepers_pool (ρ.reachable n))

/-- A worker that runs a task comes back to the queue. -/
theorem Fair.returns (h : Fair ρ) {task : τ} (hn : (ρ.state n).At worker (.running task)) :
    ρ.Eventually (fun s => s.At worker .checking) n := by
  obtain ⟨m, hnm, hm⟩ := h.finishes n worker task hn
  obtain ⟨k, hnk, hsofar, hceased⟩ := ρ.ceases (fun s => s.At worker (.running task)) hn hm hnm
  obtain ⟨y, hy, hways⟩ := next_ways ρ (hsofar k hnk (Nat.le_refl k))
  refine ⟨k + 1, Nat.le_succ_of_le hnk, ?_⟩
  cases hways with
  | stay => exact absurd hy hceased
  | finish => exact hy

/-- A worker that is awake goes somewhere. -/
theorem Fair.goes (h : Fair ρ) (hn : (ρ.state n).At worker .checking) :
    ∃ k, n ≤ k ∧ (ρ.state k).At worker .checking ∧ ∃ y, y ≠ .checking ∧
      (ρ.state (k + 1)).At worker y ∧ Ways (ρ.state k) (ρ.state (k + 1)) .checking y := by
  obtain ⟨m, hnm, hm⟩ := h.checks n worker hn
  obtain ⟨k, hnk, hsofar, hceased⟩ := ρ.ceases (fun s => s.At worker .checking) hn hm hnm
  have hk := hsofar k hnk (Nat.le_refl k)
  obtain ⟨y, hy, hways⟩ := next_ways ρ hk
  exact ⟨k, hnk, hk, y, fun heq => hceased (heq ▸ hy), hy, hways⟩

/-! ### Every task is taken -/

theorem Fair.takes (hthreads : 1 ≤ threads) (h : Fair ρ)
    (hwaits : (ρ.state n).taken.length < (ρ.state n).enqueued.length) :
    ρ.Eventually (fun s => (ρ.state n).taken.length < s.taken.length) n := by
  apply Classical.byContradiction
  intro hnever
  have htaken : ∀ m, n ≤ m → (ρ.state m).taken.length = (ρ.state n).taken.length := fun m hm =>
    Nat.le_antisymm (Nat.le_of_not_lt fun hlt => hnever ⟨m, hm, hlt⟩) (taken_grows ρ hm).length_le
  have htasks : ∀ m, n ≤ m → (ρ.state m).tasks ≠ [] := by
    intro m hm hempty
    have hordered : (ρ.state m).taken ++ (ρ.state m).tasks = (ρ.state m).enqueued := (lossless hthreads ρ m).ordered
    rw [hempty, List.append_nil] at hordered
    have hlen := (enqueued_grows ρ hm).length_le
    rw [← hordered, htaken m hm] at hlen
    exact Nat.not_lt_of_le hlen hwaits
  -- A worker that looked at the queue would take a task.
  have hchecking : ∀ m, n ≤ m → ∀ worker, ¬ (ρ.state m).At worker .checking := by
    intro m hm worker hworker
    obtain ⟨k, hmk, hk, y, hy, _, hways⟩ := h.goes hworker
    have hnk : n ≤ k := Nat.le_trans hm hmk
    cases hways with
    | stay => exact hy rfl
    | sleep _ hempty | leave hempty => exact htasks k hnk hempty
    | take hlonger =>
      rw [htaken k hnk, htaken (k + 1) (Nat.le_succ_of_le hnk)] at hlonger
      exact Nat.lt_irrefl _ hlonger
  have hrunning : ∀ m, n ≤ m → ∀ worker task, ¬ (ρ.state m).At worker (.running task) := by
    intro m hm worker task hworker
    obtain ⟨k, hmk, hk⟩ := h.returns hworker
    exact hchecking k (Nat.le_trans hm hmk) worker hk
  have hasleep : ∀ m, n ≤ m → .asleep ∈ (ρ.state m).workers := by
    intro m hm
    apply Classical.byContradiction
    intro hnone
    refine htasks m hm ((lossless hthreads ρ m).served fun v hv => ?_)
    obtain ⟨w, hw, rfl⟩ := List.mem_map.mp hv
    obtain ⟨worker, hworker⟩ := List.mem_iff_getElem?.mp hw
    cases w with
    | checking => exact absurd hworker (hchecking m hm worker)
    | asleep => exact absurd hw hnone
    | running task => exact absurd hworker (hrunning m hm worker task)
    | exited => rfl
  -- So the workers sleep, and a notification is on its way for each task.
  have hnotifying : ∀ m, n ≤ m → (ρ.state m).notifying ≠ 0 := by
    intro m hm hnone
    have hawaited := (reachable_attentive (ρ.reachable m)).awaited (hasleep m hm)
    have hcount : (ρ.state m).workers.countP Sleeper.isChecking = 0 := by
      refine List.countP_eq_zero.mpr fun w hw hcheck => ?_
      obtain ⟨worker, hworker⟩ := List.mem_iff_getElem?.mp hw
      cases w <;> first | exact hchecking m hm worker hworker | cases hcheck
    rw [hnone, hcount] at hawaited
    exact htasks m hm (List.eq_nil_of_length_eq_zero (Nat.le_zero.mp hawaited))
  obtain ⟨m, hnm, event, hevent, hstep⟩ := h.notifies n hnotifying
  obtain ⟨worker, hworker⟩ := (perform_steps hstep).notified hevent (hasleep m hnm)
  exact hchecking (m + 1) (Nat.le_succ_of_le hnm) worker hworker

/-- Everything enqueued by now is taken. -/
theorem Fair.takes_all (hthreads : 1 ≤ threads) (h : Fair ρ) (n : Nat) :
    ρ.Eventually (fun s => (ρ.state n).enqueued <+: s.taken) n := by
  have hcome : ρ.Eventually (fun s => (ρ.state n).enqueued.length ≤ s.taken.length) n := by
    cases hlen : (ρ.state n).enqueued.length with
    | zero => exact .now (Nat.zero_le _)
    | succ k =>
      refine Trace.catches_up (f := fun s : Sleepers τ => s.taken.length) (g := fun s : Sleepers τ => s.enqueued.length)
        (fun j => (enqueued_grows ρ (Nat.le_succ j)).length_le) (fun j hj => h.takes hthreads hj) ?_
      rw [hlen]
      exact Nat.lt_succ_self k
  refine hcome.mono fun m hnm hle => ?_
  have hordered : (ρ.state m).taken ++ (ρ.state m).tasks = (ρ.state m).enqueued := (lossless hthreads ρ m).ordered
  have htaken : (ρ.state m).taken <+: (ρ.state m).enqueued := ⟨_, hordered⟩
  exact List.prefix_of_prefix_length_le (enqueued_grows ρ hnm) htaken hle

end

/-! ### Every task is executed -/

/-- The task a worker runs. -/
def running (s : Sleepers τ) (worker : Nat) : Option τ := (s.workers[worker]?).bind fun w => w.worker.task

theorem running_set {workers : List (Sleeper τ)} {w v : Sleeper τ} {i : Nat} (hi : workers[i]? = some w)
    (hsame : w.worker.task = none ∨ w.worker.task = v.worker.task) (j : Nat) :
    (workers[j]?).bind (fun w => w.worker.task) = none ∨
      (workers[j]?).bind (fun w => w.worker.task) = ((workers.set i v)[j]?).bind fun w => w.worker.task := by
  by_cases heq : i = j
  · subst heq
    rw [List.getElem?_set_self (List.getElem?_eq_some_iff.mp hi).1, hi]
    exact hsame
  · rw [List.getElem?_set_ne heq]
    exact .inr rfl

/-- What a worker runs stays with it until it has been executed. -/
theorem Steps.executes (h : Steps s event t) :
    (t.executed = s.executed ∧ ∀ i, s.running i = none ∨ s.running i = t.running i) ∨
    (∃ worker task, s.running worker = some task ∧ t.executed = s.executed ++ [task] ∧
      ∀ i, i ≠ worker → s.running i = t.running i) := by
  cases h with
  | notifyOne hworker _ | wake hworker => exact .inl ⟨rfl, running_set hworker (.inl rfl)⟩
  | sleep hworker _ _ | leave hworker _ _ | take hworker _ => exact .inl ⟨rfl, running_set hworker (.inl rfl)⟩
  | @finish worker task hworker =>
    refine .inr ⟨worker, task, ?_, rfl, fun i hi => ?_⟩
    · unfold running
      rw [hworker]
      rfl
    · show _ = ((s.workers.set worker .checking)[i]?).bind fun w => w.worker.task
      rw [List.getElem?_set_ne (Ne.symm hi)]
      rfl
  | notifyAll _ =>
    refine .inl ⟨rfl, fun i => .inr ?_⟩
    show _ = ((s.workers.map Sleeper.notified)[i]?).bind fun w => w.worker.task
    unfold running
    rw [List.getElem?_map]
    cases s.workers[i]? with
    | none => rfl
    | some w => cases w <;> rfl
  | _ => exact .inl ⟨rfl, fun _ => .inr rfl⟩

def held (s : Sleepers τ) (worker : Nat) : List τ := (s.running worker).toList

theorem Steps.moves (h : Steps s event t) : Slots.Moves Sleepers.executed held s t := by
  have hsame : ∀ {i}, s.running i = none ∨ s.running i = t.running i → (s.held i).Subperm (t.held i) := by
    intro i hi
    unfold held
    rcases hi with hnone | hkept
    · rw [hnone]
      exact List.nil_subperm
    · rw [hkept]
  rcases h.executes with ⟨hexecuted, hrunning⟩ | ⟨worker, task, hrunning, hexecuted, hothers⟩
  · exact ⟨0, [], hexecuted.trans (List.append_nil _).symm, hsame (hrunning 0), fun j _ => hsame (hrunning j)⟩
  · refine ⟨worker, [task], hexecuted, ?_, fun j hj => hsame (.inr (hothers j hj))⟩
    rw [held, hrunning]
    exact (List.sublist_append_left [task] _).subperm

theorem held_all (s : Sleepers τ) : (List.range s.workers.length).flatMap s.held = s.pool.running := by
  have hall : ∀ workers : List (Sleeper τ), (List.range workers.length).filterMap
      (fun i => (workers[i]?).bind fun w => w.worker.task) = (workers.map Sleeper.worker).filterMap Worker.task := by
    intro workers
    induction workers with
    | nil => rfl
    | cons w workers ih =>
      rw [List.length_cons, List.range_succ_eq_map, List.map_cons, List.filterMap_cons, List.filterMap_cons,
        List.filterMap_map, ← ih]
      rfl
  exact (List.filterMap_eq_flatMap_toList ..).symm.trans (hall s.workers)

section
variable {threads : Nat} {ρ : Trace (sleepers τ threads)} {n : Nat}

/-- A worker that runs a task is without one when the task returns. -/
theorem Fair.empties (h : Fair ρ) {worker : Nat} (hheld : (ρ.state n).held worker ≠ []) :
    ρ.Eventually (fun s => s.held worker = []) n := by
  cases hrunning : (ρ.state n).running worker with
  | none =>
    rw [held, hrunning] at hheld
    exact absurd rfl hheld
  | some task =>
    have hworker : (ρ.state n).At worker (.running task) := by
      obtain ⟨w, hw, htask⟩ := Option.bind_eq_some_iff.mp hrunning
      cases w <;> cases htask
      exact hw
    refine (h.returns hworker).mono fun m _ hback => ?_
    rw [held, Sleepers.running, show (ρ.state m).workers[worker]? = some Sleeper.checking from hback]
    rfl

/-- Everything enqueued by now is executed, as often as it was enqueued. -/
theorem Fair.executes (hthreads : 1 ≤ threads) (h : Fair ρ) (n : Nat) :
    ρ.Eventually (fun s => (ρ.state n).enqueued.Subperm s.executed) n := by
  refine (h.takes_all hthreads n).trans fun m _ htaken => ?_
  have hexecuted := (lossless hthreads ρ m).executed
  rw [← held_all] at hexecuted
  refine Slots.settles ρ (fun k => ?_) (fun _ _ => h.empties) List.nodup_range
    (htaken.sublist.subperm.trans hexecuted.symm.subperm)
  rcases next_steps ρ k with hsame | ⟨event, hstep⟩
  · rw [hsame]
    exact .refl _
  · exact hstep.moves

end

/-! ### The destructor -/

/-- The stop flag is set, and the destructor joins the workers. -/
def Halting (s : Sleepers τ) : Prop := s.stop = true ∧ ∃ joined, s.destructor = .joining joined

theorem Steps.halting (h : Steps s event t) (hs : Halting s) :
    Halting t ∧ (s.announcing = false → t.announcing = false) := by
  obtain ⟨hstop, joined, hdestructor⟩ := hs
  cases h with
  | enqueue hcalled | destroy hcalled | setStop hcalled => cases hdestructor.symm.trans hcalled
  | notifyAll _ => exact ⟨⟨hstop, joined, hdestructor⟩, fun _ => rfl⟩
  | join _ _ _ => exact ⟨⟨hstop, _, rfl⟩, id⟩
  | _ => exact ⟨⟨hstop, joined, hdestructor⟩, id⟩

/-- The destructor sets the flag before it joins. -/
theorem Steps.called (h : Steps s event t) (hs : s.destructor = .called) : t.destructor = .called ∨ Halting t := by
  cases h with
  | enqueue hcalled | destroy hcalled => cases hs.symm.trans hcalled
  | setStop _ => exact .inr ⟨rfl, 0, rfl⟩
  | join hjoining _ _ => cases hs.symm.trans hjoining
  | _ => exact .inl hs

/-- Workers are joined one after the other. -/
theorem Steps.joining {joined : Nat} (h : Steps s event t) (hs : s.destructor = .joining joined) :
    t.destructor = .joining joined ∨ t.destructor = .joining (joined + 1) := by
  cases h with
  | enqueue hcalled | destroy hcalled | setStop hcalled => cases hs.symm.trans hcalled
  | join hjoining _ _ =>
    cases hs.symm.trans hjoining
    exact .inr rfl
  | _ => exact .inl hs

theorem reachable_halting {threads : Nat} (h : Reachable (sleepers τ threads) s) :
    ∀ joined, s.destructor = .joining joined → s.stop = true := by
  apply h.invariant (I := fun s => ∀ joined, s.destructor = .joining joined → s.stop = true)
  · rintro s rfl joined hjoining
    cases hjoining
  · intro s event t hs hstep joined hjoining
    cases perform_steps hstep with
    | destroy _ => cases hjoining
    | setStop _ => rfl
    | join hbefore _ _ => exact hs _ hbefore
    | _ => exact hs joined hjoining

section
variable {threads : Nat} {ρ : Trace (sleepers τ threads)} {n m : Nat}

theorem halting_stays (ρ : Trace (sleepers τ threads)) (hn : Halting (ρ.state n)) (hnm : n ≤ m) :
    Halting (ρ.state m) := by
  refine ρ.persists Halting (fun k _ hk => ?_) hn hnm
  rcases next_steps ρ k with hsame | ⟨event, hstep⟩
  · rw [hsame]
    exact hk
  · exact (hstep.halting hk).1

/-- A destructor that has been called sets the stop flag. -/
theorem Fair.halts (h : Fair ρ) (hcalled : (ρ.state n).destructor ≠ .notCalled) : ρ.Eventually Halting n := by
  cases hdestructor : (ρ.state n).destructor with
  | notCalled => exact absurd hdestructor hcalled
  | joining joined => exact .now ⟨reachable_halting (ρ.reachable n) joined hdestructor, joined, hdestructor⟩
  | called =>
    obtain ⟨m, hnm, hm⟩ := h.setsStop n hdestructor
    obtain ⟨k, hnk, hsofar, hceased⟩ := ρ.ceases (fun s => s.destructor = .called) hdestructor hm hnm
    have hk := hsofar k hnk (Nat.le_refl k)
    refine ⟨k + 1, Nat.le_succ_of_le hnk, ?_⟩
    rcases next_steps ρ k with hsame | ⟨event, hstep⟩
    · rw [hsame] at hceased
      exact absurd hk hceased
    · exact (hstep.called hk).resolve_left hceased

/-- From `n` on all workers have been notified, and no more tasks are taken. -/
structure Quiet (ρ : Trace (sleepers τ threads)) (n : Nat) : Prop where
  halting : ∀ m, n ≤ m → Halting (ρ.state m)
  announced : ∀ m, n ≤ m → (ρ.state m).announcing = false
  taken : ∀ m, n ≤ m → (ρ.state m).taken = (ρ.state n).taken

theorem Fair.quiets (hthreads : 1 ≤ threads) (h : Fair ρ) {N : Nat} (hcalled : (ρ.state n).destructor ≠ .notCalled)
    (hends : ∀ m, N ≤ m → (ρ.state m).enqueued = (ρ.state N).enqueued) : ∃ m, n ≤ m ∧ Quiet ρ m := by
  obtain ⟨k, hnk, hhalting⟩ := h.halts hcalled
  obtain ⟨j, hkj, hannounced⟩ : ρ.Eventually (fun s => s.announcing = false) k := by
    cases hannouncing : (ρ.state k).announcing with
    | false => exact .now hannouncing
    | true => exact h.announces k hannouncing
  have hquiet : ∀ m, j ≤ m → (ρ.state m).announcing = false := by
    intro m hm
    refine ρ.persists (fun s => s.announcing = false) (fun i hi hnone => ?_) hannounced hm
    rcases next_steps ρ i with hsame | ⟨event, hstep⟩
    · rw [hsame]
      exact hnone
    · exact (hstep.halting (halting_stays ρ hhalting (Nat.le_trans hkj hi))).2 hnone
  obtain ⟨m, hm, htaken⟩ := h.takes_all hthreads (max j N)
  have hjm : j ≤ m := Nat.le_trans (Nat.le_max_left ..) hm
  have hNm : N ≤ m := Nat.le_trans (Nat.le_max_right ..) hm
  have hall : ∀ i, m ≤ i → (ρ.state i).taken = (ρ.state N).enqueued := by
    intro i hi
    have hlonger := htaken.trans (taken_grows ρ hi)
    rw [hends _ (Nat.le_max_right ..)] at hlonger
    have hordered : (ρ.state i).taken ++ (ρ.state i).tasks = (ρ.state i).enqueued := (lossless hthreads ρ i).ordered
    rw [hends i (Nat.le_trans hNm hi)] at hordered
    exact List.IsPrefix.eq_of_length_le ⟨_, hordered⟩ hlonger.length_le
  refine ⟨m, Nat.le_trans hnk (Nat.le_trans hkj hjm), fun i hi => ?_, fun i hi => hquiet i (Nat.le_trans hjm hi),
    fun i hi => (hall i hi).trans (hall m (Nat.le_refl m)).symm⟩
  exact halting_stays ρ hhalting (Nat.le_trans hkj (Nat.le_trans hjm hi))

/-- A worker that finds no task and sees the stop flag leaves. -/
theorem Fair.exits (h : Fair ρ) (hquiet : Quiet ρ n) (hnm : n ≤ m) {w : Sleeper τ} (hw : (ρ.state m).At worker w) :
    ρ.Eventually (fun s => s.At worker .exited) m := by
  have hleaves : ∀ k, n ≤ k → (ρ.state k).At worker .checking → ρ.Eventually (fun s => s.At worker .exited) k := by
    intro k hnk hk
    obtain ⟨j, hkj, _, y, hy, hnext, hways⟩ := h.goes hk
    have hnj : n ≤ j := Nat.le_trans hnk hkj
    cases hways with
    | stay => exact absurd rfl hy
    | sleep hstop _ => cases hstop.symm.trans (hquiet.halting j hnj).1
    | take hlonger =>
      rw [hquiet.taken j hnj, hquiet.taken (j + 1) (Nat.le_succ_of_le hnj)] at hlonger
      exact absurd hlonger (Nat.lt_irrefl _)
    | leave _ => exact ⟨j + 1, Nat.le_succ_of_le hkj, hnext⟩
  cases w with
  | exited => exact .now hw
  | checking => exact hleaves m hnm hw
  | running task => exact (h.returns hw).trans fun k hmk hk => hleaves k (Nat.le_trans hnm hmk) hk
  | asleep =>
    -- Nobody sleeps after `notify_all`.
    have hawake := (reachable_attentive (ρ.reachable m)).stopped (List.mem_of_getElem? hw) (hquiet.halting m hnm).1
    cases (hquiet.announced m hnm).symm.trans hawake

theorem workers_length (ρ : Trace (sleepers τ threads)) (n : Nat) : (ρ.state n).workers.length = threads := by
  apply (ρ.reachable n).invariant (I := fun s => s.workers.length = threads)
  · rintro s rfl
    exact List.length_replicate
  · intro s event t hs hstep
    exact (perform_steps hstep).grows.2.2.trans hs

theorem exited_stays (ρ : Trace (sleepers τ threads)) (hn : (ρ.state n).At worker .exited) (hnm : n ≤ m) :
    (ρ.state m).At worker .exited := by
  refine ρ.persists (fun s => s.At worker .exited) (fun k _ hk => ?_) hn hnm
  obtain ⟨y, hy, hways⟩ := next_ways ρ hk
  cases hways with
  | stay => exact hy

/-- All workers leave. -/
theorem Fair.exit (h : Fair ρ) (hquiet : Quiet ρ n) {left : Nat} (hleft : left ≤ threads) :
    ρ.Eventually (fun s => ∀ i, i < left → s.At i .exited) n := by
  induction left with
  | zero => exact .now fun i hi => absurd hi (Nat.not_lt_zero i)
  | succ left ih =>
    refine (ih (Nat.le_of_succ_le hleft)).trans fun m hnm hbefore => ?_
    have hlt : left < (ρ.state m).workers.length := by
      rw [workers_length]
      exact hleft
    refine (h.exits hquiet hnm (List.getElem?_eq_getElem hlt)).mono fun k hmk hexited i hi => ?_
    rcases Nat.lt_succ_iff_lt_or_eq.mp hi with hlt | rfl
    · exact exited_stays ρ (hbefore i hlt) hmk
    · exact hexited

/-- Workers that have left are joined. -/
theorem Fair.joined (h : Fair ρ) (hquiet : Quiet ρ n) (hexited : ∀ i, i < threads → (ρ.state n).At i .exited)
    {joined left : Nat} (hjoining : (ρ.state m).destructor = .joining joined) (hnm : n ≤ m)
    (hleft : joined + left = threads) : ρ.Eventually (fun s => s.pool.Joined) m := by
  induction left generalizing joined m with
  | zero =>
    refine .now ?_
    show (ρ.state m).destructor = .joining ((ρ.state m).workers.map Sleeper.worker).length
    rw [List.length_map, workers_length, hjoining, ← hleft]
    rfl
  | succ left ih =>
    have hworker : (ρ.state m).At joined .exited := exited_stays ρ (hexited joined (by omega)) hnm
    obtain ⟨i, hmi, hi⟩ := h.joins m joined hjoining hworker (hquiet.announced m hnm)
    obtain ⟨k, hmk, hsofar, hceased⟩ := ρ.ceases (fun s => s.destructor = .joining joined) hjoining hi hmi
    have hk := hsofar k hmk (Nat.le_refl k)
    have hnext : (ρ.state (k + 1)).destructor = .joining (joined + 1) := by
      rcases next_steps ρ k with hsame | ⟨event, hstep⟩
      · rw [hsame] at hceased
        exact absurd hk hceased
      · exact (hstep.joining hk).resolve_left hceased
    have hlater : m ≤ k + 1 := Nat.le_succ_of_le hmk
    exact (ih hnext (Nat.le_trans hnm hlater) (by omega)).later hlater

/-- A destructor returns when there are no more tasks. -/
theorem Fair.destroys (hthreads : 1 ≤ threads) (h : Fair ρ) {N : Nat} (hcalled : (ρ.state n).destructor ≠ .notCalled)
    (hends : ∀ m, N ≤ m → (ρ.state m).enqueued = (ρ.state N).enqueued) :
    ρ.Eventually (fun s => s.pool.Joined) n := by
  obtain ⟨m, hnm, hquiet⟩ := h.quiets hthreads hcalled hends
  obtain ⟨k, hmk, hexited⟩ := h.exit hquiet (Nat.le_refl threads)
  obtain ⟨_, joined, hjoining⟩ := hquiet.halting k hmk
  have hbound : joined ≤ threads := by
    apply Nat.le_of_not_lt
    intro hlt
    have hworker := (lossless hthreads ρ k).joined joined hjoining threads hlt
    have hlen := (List.getElem?_eq_some_iff.mp hworker).1
    rw [show (ρ.state k).pool.workers.length = threads from
      (List.length_map ..).trans (workers_length ρ k)] at hlen
    exact Nat.lt_irrefl _ hlen
  have hquiet' : Quiet ρ k := ⟨fun i hi => hquiet.halting i (Nat.le_trans hmk hi),
    fun i hi => hquiet.announced i (Nat.le_trans hmk hi),
    fun i hi => (hquiet.taken i (Nat.le_trans hmk hi)).trans (hquiet.taken k hmk).symm⟩
  have hend := h.joined hquiet' hexited hjoining (Nat.le_refl k) (Nat.add_sub_cancel' hbound)
  exact hend.later (Nat.le_trans hnm hmk)

/-- A run in which all workers are joined is fair. -/
theorem Fair.of_joined {N : Nat} {t : Sleepers τ} (hend : ∀ n, N ≤ n → ρ.state n = t)
    (hworkers : ∀ w ∈ t.workers, w = .exited) (hjoined : t.destructor = .joining threads) (hnotifying : t.notifying = 0)
    (hannouncing : t.announcing = false) : Fair ρ := by
  have hlate : ∀ n, n ≤ max n N ∧ ρ.state (max n N) = t :=
    fun n => ⟨Nat.le_max_left .., hend _ (Nat.le_max_right ..)⟩
  have hexited : ∀ worker w, t.At worker w → w = .exited := fun _ w hw => hworkers w (List.mem_of_getElem? hw)
  refine ⟨fun n hall => ?_, fun n worker _ => ?_, fun n worker task _ => ?_, fun n _ => ?_, fun n _ => ?_,
    fun n joined _ hworker _ => ?_⟩
  all_goals obtain ⟨hle, hlast⟩ := hlate n
  · have hne := hall _ hle
    rw [hlast] at hne
    exact absurd hnotifying hne
  · refine ⟨_, hle, fun hchecking => ?_⟩
    rw [hlast] at hchecking
    cases hexited worker _ hchecking
  · refine ⟨_, hle, fun hrunning => ?_⟩
    rw [hlast] at hrunning
    cases hexited worker _ hrunning
  · refine ⟨_, hle, fun hcalled => ?_⟩
    rw [hlast] at hcalled
    cases hjoined.symm.trans hcalled
  · exact ⟨_, hle, by rw [hlast]; exact hannouncing⟩
  · refine ⟨_, hle, fun hjoining => ?_⟩
    rw [hlast] at hjoining
    cases hjoined.symm.trans hjoining
    have hlt := (List.getElem?_eq_some_iff.mp hworker).1
    rw [workers_length] at hlt
    exact Nat.lt_irrefl _ hlt

end

/-- **Every task is executed, and the destructor returns** once no more are enqueued, in every fair run of a pool that
has a worker: without a wake-up that nobody asked for. -/
theorem tasks_executed {threads : Nat} {ρ : Trace (sleepers τ threads)} (hthreads : 1 ≤ threads) (h : Fair ρ) :
    (∀ n, ρ.Eventually (fun s => (ρ.state n).enqueued.Subperm s.executed) n) ∧
    (∀ n N, (ρ.state n).destructor ≠ .notCalled → (∀ m, N ≤ m → (ρ.state m).enqueued = (ρ.state N).enqueued) →
      ρ.Eventually (fun s => s.pool.Joined) n) :=
  ⟨h.executes hthreads, fun _ _ hcalled hends => h.destroys hthreads hcalled hends⟩

/-- Two workers sleep when the first task comes, and the destructor is called before a worker has been notified; the
task enqueues another. -/
theorem tasks_executed_spawned : ∃ (ρ : Trace (sleepers Nat 2)) (n : Nat), (ρ.state n).destructor = .called ∧
    (ρ.state n).workers = [.asleep, .asleep] ∧ (ρ.state n).enqueued = [1] ∧
    ρ.Eventually (fun s => (ρ.state n).enqueued.Subperm s.executed) n ∧ ρ.Eventually (fun s => s.pool.Joined) n := by
  have hrun : (execute (fun (s : Sleepers Nat) event => s.perform event)
      [.sleep 0, .sleep 1, .enqueue 1, .destroy] {workers := [.checking, .checking]}).bind (fun u =>
      (execute (fun (s : Sleepers Nat) event => s.perform event)
        [.setStop, .notifyOne 0, .take 0, .spawn 0 2, .notifyAll, .finish 0, .notifyNone, .take 0, .finish 0, .leave 0,
          .leave 1, .join, .join] u).map fun t => (u.destructor, u.workers, u.enqueued, t.workers, t.destructor,
            t.notifying, t.announcing)) =
        some (.called, [.asleep, .asleep], [1], [.exited, .exited], .joining 2, 0, false) := by
    rfl
  obtain ⟨u, hu, hrest⟩ := Option.bind_eq_some_iff.mp hrun
  obtain ⟨t, ht, hresult⟩ := Option.map_eq_some_iff.mp hrest
  simp only [Prod.mk.injEq] at hresult
  obtain ⟨hcalled, hasleep, henqueued, hexited, hjoined, hnotifying, hannouncing⟩ := hresult
  obtain ⟨ρ, hρu, hρ⟩ := Run.forever (S := sleepers Nat 2) rfl (.of_execute (fun _ _ _ _ h => h) hu)
    (.of_execute (fun _ _ _ _ h => h) ht)
  rw [← hρu] at hcalled hasleep henqueued
  have hends : ∀ m, 4 + 13 ≤ m → (ρ.state m).enqueued = (ρ.state (4 + 13)).enqueued := by
    intro m hm
    rw [hρ m hm, hρ (4 + 13) (Nat.le_refl _)]
  have hleft : ∀ w ∈ t.workers, w = .exited := by
    rw [hexited]
    decide
  have hserved := tasks_executed (show 1 ≤ 2 by decide) (Fair.of_joined hρ hleft hjoined hnotifying hannouncing)
  exact ⟨ρ, _, hcalled, hasleep, henqueued, hserved.1 _, hserved.2 _ _ (by rw [hcalled]; nofun) hends⟩

end Fmxp.Server.Sleepers
