import Fmxp.Library.Fair
import Fmxp.Server.ThreadPool

/-! `tpool.cpp`: the condition variable of the thread pool.

`ThreadPool` lets an idle worker look at its predicate whenever it likes. Here a worker whose predicate does not hold
sleeps until it is notified: `enqueue` notifies one worker after its task is on the queue, and the destructor
notifies all after it has set the stop flag. A pool with sleepers is a thread pool (`Sleepers.pool`), no
task waits behind a sleeping worker unless some other worker or a notification is on its way to it, and in a fair run
every task is executed, without one wake-up that nobody asked for. -/
namespace Fmxp.Server
open Transition

inductive Sleeper (τ : Type*) where
  | checking
  | asleep
  | running (task : τ)
  | exited
  deriving DecidableEq, Repr

/-- `notifying` are the calls of `enqueue` that have not called `notify_one` yet; `announcing` says that the destructor
has not called `notify_all` yet. -/
structure Sleepers (τ : Type*) where
  workers : List (Sleeper τ)
  tasks : List τ := []
  stop : Bool := false
  destructor : Destructor := .notCalled
  notifying : Nat := 0
  announcing : Bool := false
  enqueued : List τ := []
  taken : List τ := []
  executed : List τ := []
  deriving DecidableEq, Repr

/-- `wake` is a wait that ends without a notification. -/
inductive SleeperEvent (τ : Type*) where
  | enqueue (task : τ)
  | spawn (worker : Nat) (task : τ)
  | notifyOne (worker : Nat)
  | notifyNone
  | wake (worker : Nat)
  | sleep (worker : Nat)
  | take (worker : Nat)
  | finish (worker : Nat)
  | leave (worker : Nat)
  | destroy
  | setStop
  | notifyAll
  | join
  deriving DecidableEq, Repr

namespace Sleepers
variable {τ : Type*}

def enqueue (task : τ) (s : Sleepers τ) : Sleepers τ :=
  {s with tasks := s.tasks ++ [task], enqueued := s.enqueued ++ [task], notifying := s.notifying + 1}

def set (worker : Nat) (w : Sleeper τ) (s : Sleepers τ) : Sleepers τ :=
  {s with workers := s.workers.set worker w}

end Sleepers

def Sleeper.isAsleep {τ : Type*} : Sleeper τ → Bool
  | .asleep => true
  | _ => false

def Sleeper.isChecking {τ : Type*} : Sleeper τ → Bool
  | .checking => true
  | _ => false

/-- A worker that has been notified looks at its predicate. -/
def Sleeper.notified {τ : Type*} : Sleeper τ → Sleeper τ
  | .asleep => .checking
  | w => w

namespace Sleepers
variable {τ : Type*}

def perform (event : SleeperEvent τ) (s : Sleepers τ) : Option (Sleepers τ) :=
  match event with
  | .enqueue task => if s.destructor = .notCalled then some (s.enqueue task) else none
  | .spawn worker task =>
    match s.workers[worker]? with
    | some (.running _) => some (s.enqueue task)
    | _ => none
  | .notifyOne worker =>
    match s.workers[worker]? with
    | some .asleep =>
      if 0 < s.notifying then some ({s with notifying := s.notifying - 1}.set worker .checking) else none
    | _ => none
  | .notifyNone =>
    if 0 < s.notifying ∧ s.workers.all (fun w => !w.isAsleep) then some {s with notifying := s.notifying - 1} else none
  | .wake worker =>
    match s.workers[worker]? with
    | some .asleep => some (s.set worker .checking)
    | _ => none
  | .sleep worker =>
    match s.workers[worker]? with
    | some .checking => if s.stop ∨ !s.tasks.isEmpty then none else some (s.set worker .asleep)
    | _ => none
  | .take worker =>
    match s.workers[worker]?, s.tasks with
    | some .checking, task :: rest =>
      some ({s with tasks := rest, taken := s.taken ++ [task]}.set worker (.running task))
    | _, _ => none
  | .finish worker =>
    match s.workers[worker]? with
    | some (.running task) => some ({s with executed := s.executed ++ [task]}.set worker .checking)
    | _ => none
  | .leave worker =>
    match s.workers[worker]? with
    | some .checking => if s.stop ∧ s.tasks.isEmpty then some (s.set worker .exited) else none
    | _ => none
  | .destroy => if s.destructor = .notCalled then some {s with destructor := .called} else none
  | .setStop =>
    if s.destructor = .called then some {s with stop := true, destructor := .joining 0, announcing := true} else none
  | .notifyAll =>
    if s.announcing then some {s with workers := s.workers.map Sleeper.notified, announcing := false} else none
  | .join =>
    match s.destructor with
    | .joining joined =>
      match s.workers[joined]? with
      | some .exited => if s.announcing then none else some {s with destructor := .joining (joined + 1)}
      | _ => none
    | _ => none

end Sleepers

/-- A pool of `threads` workers, none of which has looked at its predicate yet. -/
def sleepers (τ : Type*) (threads : Nat) : System (Sleepers τ) (SleeperEvent τ) where
  init := fun s => s = {workers := List.replicate threads .checking}
  step := fun s event t => s.perform event = some t

namespace Sleepers
variable {τ : Type*} {s t : Sleepers τ} {event : SleeperEvent τ} {worker : Nat}

/-! ### What a step can do -/

/-- A step, with the tests it has passed. -/
inductive Steps (s : Sleepers τ) : SleeperEvent τ → Sleepers τ → Prop
  | enqueue {task : τ} : s.destructor = .notCalled → Steps s (.enqueue task) (s.enqueue task)
  | spawn {worker : Nat} {task by_ : τ} : s.workers[worker]? = some (.running by_) →
      Steps s (.spawn worker task) (s.enqueue task)
  | notifyOne {worker : Nat} : s.workers[worker]? = some .asleep → 0 < s.notifying →
      Steps s (.notifyOne worker) ({s with notifying := s.notifying - 1}.set worker .checking)
  | notifyNone : 0 < s.notifying → .asleep ∉ s.workers → Steps s .notifyNone {s with notifying := s.notifying - 1}
  | wake {worker : Nat} : s.workers[worker]? = some .asleep → Steps s (.wake worker) (s.set worker .checking)
  | sleep {worker : Nat} : s.workers[worker]? = some .checking → s.stop = false → s.tasks = [] →
      Steps s (.sleep worker) (s.set worker .asleep)
  | take {worker : Nat} {task : τ} {rest : List τ} : s.workers[worker]? = some .checking → s.tasks = task :: rest →
      Steps s (.take worker) ({s with tasks := rest, taken := s.taken ++ [task]}.set worker (.running task))
  | finish {worker : Nat} {task : τ} : s.workers[worker]? = some (.running task) →
      Steps s (.finish worker) ({s with executed := s.executed ++ [task]}.set worker .checking)
  | leave {worker : Nat} : s.workers[worker]? = some .checking → s.stop = true → s.tasks = [] →
      Steps s (.leave worker) (s.set worker .exited)
  | destroy : s.destructor = .notCalled → Steps s .destroy {s with destructor := .called}
  | setStop : s.destructor = .called →
      Steps s .setStop {s with stop := true, destructor := .joining 0, announcing := true}
  | notifyAll : s.announcing = true →
      Steps s .notifyAll {s with workers := s.workers.map Sleeper.notified, announcing := false}
  | join {joined : Nat} : s.destructor = .joining joined → s.workers[joined]? = some .exited →
      s.announcing = false → Steps s .join {s with destructor := .joining (joined + 1)}

theorem perform_steps (h : s.perform event = some t) : Steps s event t := by
  cases event with
  | enqueue task =>
    obtain ⟨hcalled, hv⟩ := Option.ite_none_right_eq_some.mp h
    cases hv
    exact .enqueue hcalled
  | spawn worker task =>
    simp only [perform] at h
    split at h
    · next hworker =>
      cases h
      exact .spawn hworker
    · cases h
  | notifyOne worker =>
    simp only [perform] at h
    split at h
    · next hworker =>
      obtain ⟨hnotifying, hv⟩ := Option.ite_none_right_eq_some.mp h
      cases hv
      exact .notifyOne hworker hnotifying
    · cases h
  | notifyNone =>
    obtain ⟨⟨hnotifying, hall⟩, hv⟩ := Option.ite_none_right_eq_some.mp h
    cases hv
    refine .notifyNone hnotifying fun hasleep => ?_
    have hawake := List.all_eq_true.mp hall _ hasleep
    cases hawake
  | wake worker =>
    simp only [perform] at h
    split at h
    · next hworker =>
      cases h
      exact .wake hworker
    · cases h
  | sleep worker =>
    simp only [perform] at h
    split at h
    · next hworker =>
      obtain ⟨hwait, hv⟩ := Option.ite_none_left_eq_some.mp h
      cases hv
      have hempty : s.tasks.isEmpty = true := by
        cases hcase : s.tasks.isEmpty
        · exact absurd (.inr (by rw [hcase]; rfl)) hwait
        · rfl
      exact .sleep hworker ((Bool.not_eq_true _).mp fun hstop => hwait (.inl hstop)) (List.isEmpty_iff.mp hempty)
    · cases h
  | take worker =>
    simp only [perform] at h
    split at h
    · next task rest hworker htasks =>
      cases h
      exact .take hworker htasks
    · cases h
  | finish worker =>
    simp only [perform] at h
    split at h
    · next task hworker =>
      cases h
      exact .finish hworker
    · cases h
  | leave worker =>
    simp only [perform] at h
    split at h
    · next hworker =>
      obtain ⟨⟨hstop, htasks⟩, hv⟩ := Option.ite_none_right_eq_some.mp h
      cases hv
      exact .leave hworker hstop (List.isEmpty_iff.mp htasks)
    · cases h
  | destroy =>
    obtain ⟨hcalled, hv⟩ := Option.ite_none_right_eq_some.mp h
    cases hv
    exact .destroy hcalled
  | setStop =>
    obtain ⟨hcalled, hv⟩ := Option.ite_none_right_eq_some.mp h
    cases hv
    exact .setStop hcalled
  | notifyAll =>
    obtain ⟨hannouncing, hv⟩ := Option.ite_none_right_eq_some.mp h
    cases hv
    exact .notifyAll hannouncing
  | join =>
    simp only [perform] at h
    split at h
    · next joined hdestructor =>
      split at h
      · next hworker =>
        obtain ⟨hannouncing, hv⟩ := Option.ite_none_left_eq_some.mp h
        cases hv
        exact .join hdestructor hworker ((Bool.not_eq_true _).mp hannouncing)
      · cases h
    · cases h

/-! ### A pool with sleepers is a thread pool -/

end Sleepers

def Sleeper.worker {τ : Type*} : Sleeper τ → Worker τ
  | .checking | .asleep => .idle
  | .running task => .running task
  | .exited => .exited

namespace Sleepers
variable {τ : Type*} {s t : Sleepers τ} {event : SleeperEvent τ} {worker : Nat}

/-- The pool, without its condition variable. -/
def pool (s : Sleepers τ) : ThreadPool τ where
  workers := s.workers.map Sleeper.worker
  tasks := s.tasks
  stop := s.stop
  destructor := s.destructor
  enqueued := s.enqueued
  taken := s.taken
  executed := s.executed

theorem pool_worker {w : Sleeper τ} (h : s.workers[worker]? = some w) : s.pool.workers[worker]? = some w.worker := by
  show (s.workers.map Sleeper.worker)[worker]? = _
  rw [List.getElem?_map, h]
  rfl

theorem pool_set (v : Sleeper τ) : (s.set worker v).pool = s.pool.set worker v.worker := by
  simp only [set, pool, ThreadPool.set, List.map_set]

/-- Sleeping and waking up are not seen from outside. -/
theorem pool_set_same {w v : Sleeper τ} (h : s.workers[worker]? = some w) (hsame : v.worker = w.worker) :
    (s.set worker v).pool = s.pool := by
  rw [pool_set, hsame]
  have hworker := pool_worker h
  obtain ⟨hlt, hget⟩ := List.getElem?_eq_some_iff.mp hworker
  unfold ThreadPool.set
  rw [← hget, List.set_getElem_self]

/-- Every step is one of the thread pool, or is not seen from outside. -/
theorem Steps.pool (h : Steps s event t) : t.pool = s.pool ∨ ∃ e, s.pool.perform e = some t.pool := by
  cases h with
  | @enqueue task hcalled => exact .inr ⟨.enqueue task, if_pos hcalled⟩
  | @spawn worker task _ hworker =>
    refine .inr ⟨.spawn worker task, ?_⟩
    simp only [ThreadPool.perform, pool_worker hworker, Sleeper.worker]
    rfl
  | notifyOne hworker _ | wake hworker => exact .inl (pool_set_same (w := .asleep) hworker rfl)
  | notifyNone _ _ => exact .inl rfl
  | sleep hworker _ _ => exact .inl (pool_set_same hworker rfl)
  | @take worker task rest hworker htasks =>
    refine .inr ⟨.take worker, ?_⟩
    have hpool : s.pool.tasks = task :: rest := htasks
    simp only [ThreadPool.perform, pool_worker hworker, Sleeper.worker, hpool, pool_set]
    rfl
  | @finish worker task hworker =>
    refine .inr ⟨.finish worker, ?_⟩
    simp only [ThreadPool.perform, pool_worker hworker, Sleeper.worker, pool_set]
    rfl
  | @leave worker hworker hstop htasks =>
    refine .inr ⟨.leave worker, ?_⟩
    have hpool : s.pool.tasks.isEmpty = true := List.isEmpty_iff.mpr htasks
    have hstop' : s.pool.stop = true := hstop
    simp only [ThreadPool.perform, pool_worker hworker, Sleeper.worker, hpool, hstop', pool_set, and_self, if_true]
  | destroy hcalled => exact .inr ⟨.destroy, if_pos hcalled⟩
  | setStop hcalled => exact .inr ⟨.setStop, if_pos hcalled⟩
  | notifyAll _ =>
    refine .inl ?_
    have hworkers : (s.workers.map Sleeper.notified).map Sleeper.worker = s.workers.map Sleeper.worker := by
      rw [List.map_map]
      refine List.map_congr_left fun w _ => ?_
      cases w <;> rfl
    simp only [Sleepers.pool, hworkers]
  | @join joined hdestructor hworker _ =>
    refine .inr ⟨.join, ?_⟩
    have hpool : s.pool.destructor = .joining joined := hdestructor
    simp only [ThreadPool.perform, hpool, pool_worker hworker, Sleeper.worker]
    rfl

theorem sleepers_pool {threads : Nat} (h : Reachable (sleepers τ threads) s) :
    Reachable (threadPool τ threads) s.pool := by
  apply h.simulates pool
  · rintro s rfl
    simp only [threadPool, pool, List.map_replicate, Sleeper.worker]
  · intro s event t _ hstep
    exact (perform_steps hstep).pool

/-! ### Notifications -/

/-- For each task that waits behind a sleeping worker, another worker or a notification is on its way to the queue, and
nobody sleeps once all have been notified that the pool is to stop. -/
structure Attentive (s : Sleepers τ) : Prop where
  awaited : .asleep ∈ s.workers → s.tasks.length ≤ s.notifying + s.workers.countP Sleeper.isChecking
  stopped : .asleep ∈ s.workers → s.stop = true → s.announcing = true

/-- What a worker that changes adds to those on their way to the queue. -/
theorem checking_set {workers : List (Sleeper τ)} {w v : Sleeper τ} (h : workers[worker]? = some w) :
    (workers.set worker v).countP Sleeper.isChecking =
      workers.countP Sleeper.isChecking - (if w.isChecking then 1 else 0) + if v.isChecking then 1 else 0 := by
  obtain ⟨hlt, hget⟩ := List.getElem?_eq_some_iff.mp h
  rw [← hget]
  exact List.countP_set hlt

/-- A worker that wakes up is one more on its way. -/
theorem checking_woken {workers : List (Sleeper τ)} {w : Sleeper τ} (h : workers[worker]? = some w)
    (hw : w.isChecking = false) :
    (workers.set worker .checking).countP Sleeper.isChecking = workers.countP Sleeper.isChecking + 1 := by
  rw [checking_set h, hw]
  rfl

theorem asleep_set {workers : List (Sleeper τ)} {v : Sleeper τ} (hv : v ≠ .asleep)
    (h : .asleep ∈ workers.set worker v) : .asleep ∈ workers :=
  (List.mem_or_eq_of_mem_set h).resolve_right (Ne.symm hv)

theorem Steps.attentive (hs : Attentive s) (h : Steps s event t) : Attentive t := by
  cases h with
  | enqueue _ | spawn _ =>
    refine ⟨fun hasleep => ?_, hs.stopped⟩
    have hawaited := hs.awaited hasleep
    simp only [Sleepers.enqueue, List.length_append, List.length_singleton]
    omega
  | @notifyOne worker hworker hnotifying =>
    have hasleep := List.mem_of_getElem? hworker
    have hawaited := hs.awaited hasleep
    refine ⟨fun _ => ?_, fun _ => hs.stopped hasleep⟩
    show s.tasks.length ≤ s.notifying - 1 + (s.workers.set worker .checking).countP Sleeper.isChecking
    rw [checking_woken hworker rfl]
    omega
  | notifyNone _ hnone => exact ⟨fun hasleep => absurd hasleep hnone, fun hasleep => absurd hasleep hnone⟩
  | @wake worker hworker =>
    have hasleep := List.mem_of_getElem? hworker
    have hawaited := hs.awaited hasleep
    refine ⟨fun _ => ?_, fun _ => hs.stopped hasleep⟩
    show s.tasks.length ≤ s.notifying + (s.workers.set worker .checking).countP Sleeper.isChecking
    rw [checking_woken hworker rfl]
    omega
  | sleep _ hstop htasks =>
    refine ⟨fun _ => ?_, fun _ hstop' => ?_⟩
    · show s.tasks.length ≤ _
      rw [htasks]
      exact Nat.zero_le _
    · cases hstop.symm.trans hstop'
  | @take worker task rest hworker htasks =>
    have hbefore : .asleep ∈ s.workers.set worker (.running task) → .asleep ∈ s.workers := asleep_set nofun
    refine ⟨fun hasleep => ?_, fun hasleep => hs.stopped (hbefore hasleep)⟩
    -- The worker was on its way, and takes one task.
    have hawaited := hs.awaited (hbefore hasleep)
    rw [htasks, List.length_cons] at hawaited
    show rest.length ≤ s.notifying + (s.workers.set worker (.running task)).countP Sleeper.isChecking
    rw [checking_set hworker]
    show rest.length ≤ s.notifying + (s.workers.countP Sleeper.isChecking - 1 + 0)
    omega
  | @finish worker task hworker =>
    have hbefore : .asleep ∈ s.workers.set worker .checking → .asleep ∈ s.workers := asleep_set nofun
    refine ⟨fun hasleep => ?_, fun hasleep => hs.stopped (hbefore hasleep)⟩
    have hawaited := hs.awaited (hbefore hasleep)
    show s.tasks.length ≤ s.notifying + (s.workers.set worker .checking).countP Sleeper.isChecking
    rw [checking_woken hworker rfl]
    omega
  | @leave worker _ _ htasks =>
    have hbefore : .asleep ∈ s.workers.set worker .exited → .asleep ∈ s.workers := asleep_set nofun
    refine ⟨fun _ => ?_, fun hasleep => hs.stopped (hbefore hasleep)⟩
    show s.tasks.length ≤ _
    rw [htasks]
    exact Nat.zero_le _
  | destroy _ | join _ _ _ => exact ⟨hs.awaited, hs.stopped⟩
  | setStop _ => exact ⟨hs.awaited, fun _ _ => rfl⟩
  | notifyAll _ =>
    have hnone : .asleep ∉ s.workers.map Sleeper.notified := by
      intro hasleep
      obtain ⟨w, _, hw⟩ := List.mem_map.mp hasleep
      cases w <;> cases hw
    exact ⟨fun hasleep => absurd hasleep hnone, fun hasleep => absurd hasleep hnone⟩

theorem reachable_attentive {threads : Nat} (h : Reachable (sleepers τ threads) s) : Attentive s := by
  apply h.invariant
  · rintro s rfl
    have hnone : .asleep ∉ List.replicate threads (Sleeper.checking : Sleeper τ) := by
      intro hasleep
      cases List.eq_of_mem_replicate hasleep
    exact ⟨fun hasleep => absurd hasleep hnone, fun hasleep => absurd hasleep hnone⟩
  · intro s event t hs hstep
    exact (perform_steps hstep).attentive hs

/-- The steps of the workers and of calls that have been begun: nobody has to call the pool for them, and no wait has
to end by itself. -/
def owed : SleeperEvent τ → Prop
  | .notifyOne _ | .notifyNone | .take _ | .finish _ => True
  | _ => False

/-- A worker that looks at the queue takes what it finds. -/
theorem checking_takes (threads : Nat) {task : τ} {rest : List τ} (hworker : s.workers[worker]? = some .checking)
    (hqueue : s.tasks = task :: rest) : ∃ t, (sleepers τ threads).step s (.take worker) t := by
  refine ⟨{s with tasks := rest, taken := s.taken ++ [task]}.set worker (.running task), ?_⟩
  simp only [sleepers, perform, hworker, hqueue]

/-- **No task is left to itself**: a task behind a sleeping worker has another worker or a notification on its way,
and while a task waits some worker or some call that has been begun can go on. -/
theorem task_attended {threads : Nat} (hthreads : 1 ≤ threads) (h : Reachable (sleepers τ threads) s) :
    (.asleep ∈ s.workers → s.tasks.length ≤ s.notifying + s.workers.countP Sleeper.isChecking) ∧
    (s.tasks ≠ [] → ∃ event t, owed event ∧ (sleepers τ threads).step s event t) := by
  have hs := reachable_attentive h
  refine ⟨hs.awaited, fun htasks => ?_⟩
  obtain ⟨task, rest, hqueue⟩ := List.exists_cons_of_ne_nil htasks
  have hlossless := ThreadPool.reachable_lossless hthreads (sleepers_pool h)
  obtain ⟨w, hw, hstays⟩ : ∃ w ∈ s.workers, w ≠ .exited := by
    apply Classical.byContradiction
    intro hnone
    refine htasks (hlossless.served fun v hv => ?_)
    obtain ⟨w, hw, rfl⟩ := List.mem_map.mp hv
    have hexited : w = .exited := Classical.byContradiction fun hne => hnone ⟨w, hw, hne⟩
    rw [hexited]
    rfl
  obtain ⟨worker, hworker⟩ := List.mem_iff_getElem?.mp hw
  cases w with
  | exited => exact absurd rfl hstays
  | checking =>
    obtain ⟨t, ht⟩ := checking_takes threads hworker hqueue
    exact ⟨.take worker, t, trivial, ht⟩
  | running task =>
    refine ⟨.finish worker, {s with executed := s.executed ++ [task]}.set worker .checking, trivial, ?_⟩
    simp only [sleepers, perform, hworker]
  | asleep =>
    have hawaited := hs.awaited hw
    rw [hqueue, List.length_cons] at hawaited
    by_cases hchecking : ∃ v ∈ s.workers, v.isChecking = true
    · obtain ⟨v, hv, hcheck⟩ := hchecking
      obtain ⟨other, hother⟩ := List.mem_iff_getElem?.mp hv
      have hv' : v = .checking := by
        cases v <;> first | rfl | cases hcheck
      subst hv'
      obtain ⟨t, ht⟩ := checking_takes threads hother hqueue
      exact ⟨.take other, t, trivial, ht⟩
    · have hcount : s.workers.countP Sleeper.isChecking = 0 :=
        List.countP_eq_zero.mpr fun v hv hcheck => hchecking ⟨v, hv, hcheck⟩
      have hnotifying : 0 < s.notifying := by omega
      refine ⟨.notifyOne worker, {s with notifying := s.notifying - 1}.set worker .checking, trivial, ?_⟩
      simp only [sleepers, perform, hworker, if_pos hnotifying]

/-- Two tasks, and a worker that sleeps while the first is executed. -/
theorem task_attended_second : ∃ s : Sleepers Nat, s.tasks = [2] ∧ .asleep ∈ s.workers ∧
    (.asleep ∈ s.workers → s.tasks.length ≤ s.notifying + s.workers.countP Sleeper.isChecking) ∧
    (s.tasks ≠ [] → ∃ event t, owed event ∧ (sleepers Nat 2).step s event t) := by
  have hrun : (execute (fun (s : Sleepers Nat) event => s.perform event)
      [.sleep 0, .sleep 1, .enqueue 1, .notifyOne 1, .take 1, .enqueue 2] {workers := [.checking, .checking]}).map
        (fun s => (s.tasks, s.workers)) = some ([2], [.asleep, .running 1]) := by
    decide
  obtain ⟨s, hs, hresult⟩ := Option.map_eq_some_iff.mp hrun
  obtain ⟨htasks, hworkers⟩ := Prod.mk.inj hresult
  have hasleep : .asleep ∈ s.workers := by
    rw [hworkers]
    exact List.mem_cons_self ..
  exact ⟨s, htasks, hasleep, task_attended (show 1 ≤ 2 by decide) (.execute (fun _ _ _ _ h => h) (.init rfl) hs)⟩

end Sleepers

end Fmxp.Server
