import Mathlib.Data.List.Perm.Basic
import Fmxp.Library.Transition

/-! `tpool.cpp`: the thread pool.

Each worker waits until there is a task or the pool is to stop, and leaves when both the stop flag is set
and the queue is empty. A wait may end without a notification, so an idle worker may look at its predicate
at any time. Tasks come from outside until destruction starts, and from running tasks for as long as these run: a worker
that has left never sees them, and the one that runs them does, since it looks at the queue again before it leaves. -/
namespace Fmxp.Server
open Transition

inductive Worker (τ : Type*) where
  | idle
  | running (task : τ)
  | exited
  deriving DecidableEq, Repr

/-- How far `~ThreadPool` is: it sets the stop flag, and then joins one worker after the other. -/
inductive Destructor where
  | notCalled
  | called
  | joining (joined : Nat)
  deriving DecidableEq, Repr

/-- The fields of `ThreadPool`, with all tasks that were enqueued, taken and executed. -/
structure ThreadPool (τ : Type*) where
  workers : List (Worker τ)
  tasks : List τ := []
  stop : Bool := false
  destructor : Destructor := .notCalled
  enqueued : List τ := []
  taken : List τ := []
  executed : List τ := []
  deriving DecidableEq, Repr

inductive PoolEvent (τ : Type*) where
  | enqueue (task : τ)
  | spawn (worker : Nat) (task : τ)
  | take (worker : Nat)
  | finish (worker : Nat)
  | leave (worker : Nat)
  | destroy
  | setStop
  | join
  deriving DecidableEq, Repr

namespace ThreadPool
variable {τ : Type*}

def enqueue (task : τ) (s : ThreadPool τ) : ThreadPool τ :=
  {s with tasks := s.tasks ++ [task], enqueued := s.enqueued ++ [task]}

def set (worker : Nat) (w : Worker τ) (s : ThreadPool τ) : ThreadPool τ :=
  {s with workers := s.workers.set worker w}

def perform (event : PoolEvent τ) (s : ThreadPool τ) : Option (ThreadPool τ) :=
  match event with
  | .enqueue task => if s.destructor = .notCalled then some (s.enqueue task) else none
  | .spawn worker task =>
    match s.workers[worker]? with
    | some (.running _) => some (s.enqueue task)
    | _ => none
  | .take worker =>
    match s.workers[worker]?, s.tasks with
    | some .idle, task :: rest => some ({s with tasks := rest, taken := s.taken ++ [task]}.set worker (.running task))
    | _, _ => none
  | .finish worker =>
    match s.workers[worker]? with
    | some (.running task) => some ({s with executed := s.executed ++ [task]}.set worker .idle)
    | _ => none
  | .leave worker =>
    match s.workers[worker]? with
    | some .idle => if s.stop ∧ s.tasks.isEmpty then some (s.set worker .exited) else none
    | _ => none
  | .destroy => if s.destructor = .notCalled then some {s with destructor := .called} else none
  | .setStop => if s.destructor = .called then some {s with stop := true, destructor := .joining 0} else none
  | .join =>
    match s.destructor with
    | .joining joined =>
      match s.workers[joined]? with
      | some .exited => some {s with destructor := .joining (joined + 1)}
      | _ => none
    | _ => none

end ThreadPool

/-- A pool of `threads` workers. -/
def threadPool (τ : Type*) (threads : Nat) : System (ThreadPool τ) (PoolEvent τ) where
  init := fun s => s = {workers := List.replicate threads .idle}
  step := fun s event t => s.perform event = some t

/-! ### What holds in every run -/

def Worker.task {τ : Type*} : Worker τ → Option τ
  | .running task => some task
  | _ => none

namespace ThreadPool
variable {τ : Type*} {s t : ThreadPool τ} {worker : Nat} {w : Worker τ}

/-- The tasks that are being executed. -/
def running (s : ThreadPool τ) : List τ := s.workers.filterMap Worker.task

/-- All workers have been joined. -/
def Joined (s : ThreadPool τ) : Prop := s.destructor = .joining s.workers.length

/-- A worker that changes gives up its task for another. -/
theorem running_set (h : s.workers[worker]? = some w) (v : Worker τ) :
    (w.task.toList ++ (s.set worker v).running).Perm (v.task.toList ++ s.running) := by
  obtain ⟨hlt, hw⟩ := List.getElem?_eq_some_iff.mp h
  have htasks : ∀ v : Worker τ, v.task.toList ++ (s.workers.eraseIdx worker).filterMap Worker.task =
      (v :: s.workers.eraseIdx worker).filterMap Worker.task := by
    intro v
    cases v <;> rfl
  have hbefore : s.running.Perm (w.task.toList ++ (s.workers.eraseIdx worker).filterMap Worker.task) := by
    rw [htasks, ← hw]
    exact (List.getElem_cons_eraseIdx_perm hlt).symm.filterMap _
  have hafter : (s.set worker v).running.Perm
      (v.task.toList ++ (s.workers.eraseIdx worker).filterMap Worker.task) := by
    rw [htasks]
    exact (List.set_perm_cons_eraseIdx hlt v).filterMap _
  have hswap := @List.perm_append_comm_assoc _ w.task.toList v.task.toList
    ((s.workers.eraseIdx worker).filterMap Worker.task)
  exact (hafter.append_left _).trans (hswap.trans (hbefore.symm.append_left _))

/-- A worker leaves only when nothing waits, so while tasks wait some worker is left to take them. -/
structure Lossless (s : ThreadPool τ) : Prop where
  workers : s.workers ≠ []
  ordered : s.taken ++ s.tasks = s.enqueued
  executed : (s.executed ++ s.running).Perm s.taken
  stopped : s.stop = true → s.destructor ≠ .notCalled
  exited : .exited ∈ s.workers → s.stop = true
  served : (∀ w ∈ s.workers, w = .exited) → s.tasks = []
  joined : ∀ n, s.destructor = .joining n → ∀ i < n, s.workers[i]? = some .exited

theorem Lossless.enqueue (hs : Lossless s) (hworker : ∃ w ∈ s.workers, w ≠ .exited) (task : τ) :
    Lossless (s.enqueue task) := by
  refine ⟨hs.workers, ?_, hs.executed, hs.stopped, hs.exited, fun hall => ?_, hs.joined⟩
  · show s.taken ++ (s.tasks ++ [task]) = s.enqueued ++ [task]
    rw [← hs.ordered, List.append_assoc]
  · obtain ⟨w, hw, hne⟩ := hworker
    exact absurd (hall w hw) hne

/-- A worker that is not past its loop takes a task or puts it down. -/
theorem Lossless.set (hs : Lossless s) {u : ThreadPool τ} {v : Worker τ} (hworker : s.workers[worker]? = some w)
    (hw : w ≠ .exited) (hv : v ≠ .exited) (hworkers : u.workers = s.workers) (hstop : u.stop = s.stop)
    (hdestructor : u.destructor = s.destructor) (hordered : u.taken ++ u.tasks = u.enqueued)
    (hexecuted : (u.executed ++ (u.set worker v).running).Perm u.taken) : Lossless (u.set worker v) := by
  obtain ⟨hlt, hget⟩ := List.getElem?_eq_some_iff.mp hworker
  have hmem : v ∈ (u.set worker v).workers := by
    show v ∈ u.workers.set worker v
    rw [hworkers]
    exact List.mem_set hlt v
  refine ⟨List.ne_nil_of_mem hmem, hordered, hexecuted, ?_, fun hexit => ?_, fun hall => absurd (hall v hmem) hv,
    fun n hn i hi => ?_⟩
  · show u.stop = true → u.destructor ≠ .notCalled
    rw [hstop, hdestructor]
    exact hs.stopped
  · show u.stop = true
    rw [hstop]
    have hexit' : .exited ∈ s.workers.set worker v := hworkers ▸ hexit
    exact hs.exited ((List.mem_or_eq_of_mem_set hexit').resolve_right fun heq => hv heq.symm)
  · have hbefore := hs.joined n (hdestructor.symm.trans hn) i hi
    have hne : worker ≠ i := by
      rintro rfl
      rw [hworker] at hbefore
      exact hw (Option.some.inj hbefore)
    show (u.workers.set worker v)[i]? = some .exited
    rw [hworkers, List.getElem?_set_ne hne]
    exact hbefore

theorem Lossless.step {event : PoolEvent τ} (hs : Lossless s) (h : s.perform event = some t) : Lossless t := by
  cases event with
  | enqueue task =>
    simp only [perform, Option.ite_none_right_eq_some, Option.some.injEq] at h
    obtain ⟨hcalled, rfl⟩ := h
    -- No worker has left, since nobody has set the stop flag.
    obtain ⟨w, hw⟩ := List.exists_mem_of_ne_nil _ hs.workers
    refine hs.enqueue ⟨w, hw, ?_⟩ task
    rintro rfl
    exact hs.stopped (hs.exited hw) hcalled
  | spawn worker task =>
    simp only [perform] at h
    split at h
    · next running hworker =>
      cases h
      exact hs.enqueue ⟨_, List.mem_of_getElem? hworker, nofun⟩ task
    · cases h
  | take worker =>
    simp only [perform] at h
    split at h
    · next task rest hworker htasks =>
      cases h
      have hrunning := running_set hworker (.running task)
      refine hs.set (v := .running task) hworker nofun nofun rfl rfl rfl ?_ ?_
      · show (s.taken ++ [task]) ++ rest = s.enqueued
        rw [← hs.ordered, htasks, List.append_assoc]
        rfl
      · have hmoved : (s.executed ++ (s.set worker (.running task)).running).Perm
            (s.executed ++ (task :: s.running)) :=
          hrunning.append_left _
        exact hmoved.trans (List.perm_middle.trans
          ((hs.executed.cons task).trans (List.perm_append_singleton ..).symm))
    · cases h
  | finish worker =>
    simp only [perform] at h
    split at h
    · next task hworker =>
      cases h
      have hrunning : (task :: (s.set worker .idle).running).Perm s.running := running_set hworker .idle
      refine hs.set (v := .idle) hworker nofun nofun rfl rfl rfl hs.ordered ?_
      show ((s.executed ++ [task]) ++ (s.set worker .idle).running).Perm s.taken
      rw [List.append_assoc]
      exact (hrunning.append_left _).trans hs.executed
    · cases h
  | leave worker =>
    simp only [perform] at h
    split at h
    · next hworker =>
      obtain ⟨⟨hstop, htasks⟩, h⟩ := Option.ite_none_right_eq_some.mp h
      cases h
      have hrunning : (s.set worker .exited).running.Perm s.running := running_set hworker .exited
      obtain ⟨hlt, _⟩ := List.getElem?_eq_some_iff.mp hworker
      refine ⟨List.ne_nil_of_mem (List.mem_set hlt .exited), hs.ordered, (hrunning.append_left _).trans hs.executed,
        hs.stopped, fun _ => hstop, fun _ => List.isEmpty_iff.mp htasks, fun n hn i hi => ?_⟩
      show (s.workers.set worker .exited)[i]? = some .exited
      by_cases heq : worker = i
      · rw [← heq, List.getElem?_set_self hlt]
      · rw [List.getElem?_set_ne heq]
        exact hs.joined n hn i hi
    · cases h
  | destroy =>
    simp only [perform, Option.ite_none_right_eq_some, Option.some.injEq] at h
    obtain ⟨_, rfl⟩ := h
    exact ⟨hs.workers, hs.ordered, hs.executed, fun _ => nofun, hs.exited, hs.served, nofun⟩
  | setStop =>
    simp only [perform, Option.ite_none_right_eq_some, Option.some.injEq] at h
    obtain ⟨_, rfl⟩ := h
    refine ⟨hs.workers, hs.ordered, hs.executed, fun _ => nofun, fun _ => rfl, hs.served, fun n hn i hi => ?_⟩
    cases hn
    exact absurd hi (Nat.not_lt_zero i)
  | join =>
    simp only [perform] at h
    split at h
    · next joined hdestructor =>
      split at h
      · next hworker =>
        cases h
        refine ⟨hs.workers, hs.ordered, hs.executed, fun _ => nofun, hs.exited, hs.served, fun n hn i hi => ?_⟩
        cases hn
        rcases Nat.lt_succ_iff_lt_or_eq.mp hi with hlt | rfl
        · exact hs.joined joined hdestructor i hlt
        · exact hworker
      · cases h
    · cases h

theorem lossless_of_init {threads : Nat} (hthreads : 1 ≤ threads) (hs : (threadPool τ threads).init s) :
    Lossless s := by
  subst hs
  have hidle : ∀ w ∈ List.replicate threads (Worker.idle : Worker τ), w = .idle := by
    intro w hw
    exact List.eq_of_mem_replicate hw
  have hsome : (.idle : Worker τ) ∈ List.replicate threads (Worker.idle : Worker τ) :=
    List.mem_replicate.mpr ⟨by omega, rfl⟩
  have hrunning : (List.replicate threads (Worker.idle : Worker τ)).filterMap Worker.task = [] := by
    rw [List.filterMap_eq_nil_iff]
    intro w hw
    rw [hidle w hw]
    rfl
  refine ⟨List.ne_nil_of_mem hsome, rfl, ?_, nofun, fun hexit => ?_, fun _ => rfl, nofun⟩
  · show ([] ++ (List.replicate threads (Worker.idle : Worker τ)).filterMap Worker.task).Perm []
    rw [hrunning]
    exact .nil
  · cases hidle _ hexit

/-- **In every run nothing is lost**: every task waits, is being executed or has been executed. -/
theorem reachable_lossless {threads : Nat} (hthreads : 1 ≤ threads) (h : Reachable (threadPool τ threads) s) :
    Lossless s := by
  apply h.invariant
  · intro s hs
    exact lossless_of_init hthreads hs
  · intro s event t hs hstep
    exact Lossless.step hs hstep

/-- **When the destructor has joined all workers, every task has been executed exactly once**, and tasks were taken
in the order in which they were enqueued. -/
theorem all_executed {threads : Nat} (hthreads : 1 ≤ threads) (h : Reachable (threadPool τ threads) s)
    (hjoined : s.Joined) : s.executed.Perm s.enqueued ∧ s.taken = s.enqueued := by
  have hs := reachable_lossless hthreads h
  have hall : ∀ w ∈ s.workers, w = .exited := by
    intro w hw
    obtain ⟨i, hi, rfl⟩ := List.mem_iff_getElem.mp hw
    have hexited := hs.joined s.workers.length hjoined i hi
    rw [List.getElem?_eq_getElem hi] at hexited
    exact Option.some.inj hexited
  have hrunning : s.running = [] := by
    apply List.filterMap_eq_nil_iff.mpr
    intro w hw
    rw [hall w hw]
    rfl
  have hordered := hs.ordered
  have hexecuted := hs.executed
  rw [hs.served hall, List.append_nil] at hordered
  rw [hrunning, List.append_nil] at hexecuted
  exact ⟨hordered ▸ hexecuted, hordered⟩

/-- Two workers: one leaves while the other still runs a task, which enqueues another after the stop flag is set. -/
theorem all_executed_late : ∃ s : ThreadPool Nat, s.Joined ∧ s.enqueued = [1, 2, 3] ∧
    s.executed.Perm s.enqueued ∧ s.taken = s.enqueued := by
  have hrun : (execute (fun (s : ThreadPool Nat) event => s.perform event)
      [.enqueue 1, .enqueue 2, .take 1, .take 0, .finish 0, .destroy, .setStop, .leave 0, .join, .spawn 1 3,
        .finish 1, .take 1, .finish 1, .leave 1, .join] {workers := [.idle, .idle]}).map
        (fun s => (s.destructor, s.workers.length, s.enqueued)) = some (.joining 2, 2, [1, 2, 3]) := by
    decide
  obtain ⟨s, hs, hresult⟩ := Option.map_eq_some_iff.mp hrun
  simp only [Prod.mk.injEq] at hresult
  obtain ⟨hdestructor, hlen, henqueued⟩ := hresult
  have hjoined : s.Joined := hdestructor.trans (by rw [hlen])
  exact ⟨s, hjoined, henqueued, all_executed (show 1 ≤ 2 by decide)
    (.execute (fun _ _ _ _ h => h) (.init rfl) hs) hjoined⟩

end ThreadPool

end Fmxp.Server
