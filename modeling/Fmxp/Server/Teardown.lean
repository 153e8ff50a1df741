import Mathlib.Data.List.Infix
import Fmxp.Server.Loop
import Fmxp.Server.ThreadPool

/-! `~Server`, once `stop` has returned and the epoll loop has ended.

The members are destroyed in the reverse order of their declaration. `_tpool` is one of the first that are declared, so
its destructor, which waits for the workers, comes when `_responder`, `_connections` and `_commandQueue` are gone; the
routes are still there. What a worker does until then it does with what is left (`teardown_safe_iff`). -/
namespace Fmxp.Server
open Transition

/-- The members that have a destructor. -/
inductive Member where
  | privKey
  | routes
  | funcRoutes
  | tpool
  | commandQueue
  | responder
  | onConn
  | onDisconn
  | connections
  | fdToId
  | onErr
  deriving DecidableEq, Repr

/-- As they are declared. -/
def Member.declared : List Member :=
  [.privKey, .routes, .funcRoutes, .tpool, .commandQueue, .responder, .onConn, .onDisconn, .connections, .fdToId,
    .onErr]

/-- What a worker does with the server while it executes a task. -/
inductive Use where
  | router
  | respond
  | serverPush
  | close
  deriving DecidableEq, Repr

/-- The members it does that with. `sendResponse` finds no connection, since `stop` has deleted them all, and so does
not come to the queue. -/
def Use.members : Use → List Member
  | .router => [.routes, .funcRoutes]
  | .respond | .serverPush => [.responder, .connections]
  | .close => [.responder, .commandQueue]

instance {τ : Type*} (s : ThreadPool τ) : Decidable s.Joined := inferInstanceAs (Decidable (s.destructor = _))

/-- `left` are the members that have not been destroyed, the next one first, and `dangling` those that a worker has
used after that. -/
structure Teardown where
  pool : ThreadPool Request
  left : List Member := Member.declared.reverse
  dangling : List Member := []

inductive TeardownEvent where
  | destroyMember
  | pool (event : PoolEvent Request)
  | use (worker : Nat) (use : Use)

/-- Nobody enqueues any more: that was the epoll loop. -/
def Teardown.perform (event : TeardownEvent) (s : Teardown) : Option Teardown :=
  if s.dangling ≠ [] then none
  else match event with
    | .destroyMember =>
      match s.left with
      | .tpool :: rest => if s.pool.Joined then some {s with left := rest} else none
      | _ :: rest => some {s with left := rest}
      | [] => none
    | .pool event =>
      match event with
      | .enqueue _ | .spawn _ _ => none
      | .take _ | .finish _ | .leave _ => (s.pool.perform event).map fun pool => {s with pool := pool}
      | .destroy | .setStop | .join =>
        if s.left.head? = some .tpool then (s.pool.perform event).map fun pool => {s with pool := pool} else none
    | .use worker use =>
      match s.pool.workers[worker]? with
      | some (.running _) => some {s with dangling := use.members.filter (· ∉ s.left)}
      | _ => none

/-- `~Server` begins, with the pool in whatever state it has come to. -/
def teardown (threads : Nat) : System Teardown TeardownEvent where
  init := fun s => ∃ pool,
    Reachable (threadPool Request threads) pool ∧ pool.destructor = .notCalled ∧ s = {pool := pool}
  step := fun s event t => s.perform event = some t

/-! ### What a step is -/

inductive TeardownStep (s : Teardown) : TeardownEvent → Teardown → Prop
  | destroyMember {member : Member} {rest : List Member} : s.left = member :: rest →
      (member = .tpool → s.pool.Joined) → TeardownStep s .destroyMember {s with left := rest}
  | pool {event : PoolEvent Request} {pool : ThreadPool Request} : s.pool.perform event = some pool →
      (∀ task, event ≠ .enqueue task) → TeardownStep s (.pool event) {s with pool := pool}
  | use {worker : Nat} {use : Use} {task : Request} : s.pool.workers[worker]? = some (.running task) →
      TeardownStep s (.use worker use) {s with dangling := use.members.filter (· ∉ s.left)}

variable {event : TeardownEvent} {s t : Teardown} {threads : Nat}

theorem teardown_step (h : s.perform event = some t) : s.dangling = [] ∧ TeardownStep s event t := by
  unfold Teardown.perform at h
  split at h
  · cases h
  next hnone =>
  refine ⟨not_not.mp hnone, ?_⟩
  cases event with
  | destroyMember =>
    dsimp only at h
    split at h
    · next hleft =>
      obtain ⟨hjoined, h⟩ := Option.ite_none_right_eq_some.mp h
      cases h
      exact .destroyMember hleft fun _ => hjoined
    · next member rest hne hleft =>
      cases h
      exact .destroyMember hleft fun heq => (hne heq).elim
    · cases h
  | pool event =>
    cases event with
    | enqueue | spawn => cases h
    | take | finish | leave =>
      obtain ⟨pool, hpool, rfl⟩ := Option.map_eq_some_iff.mp h
      exact .pool hpool fun _ hc => by cases hc
    | destroy | setStop | join =>
      obtain ⟨_, h⟩ := Option.ite_none_right_eq_some.mp h
      obtain ⟨pool, hpool, rfl⟩ := Option.map_eq_some_iff.mp h
      exact .pool hpool fun _ hc => by cases hc
  | use worker use =>
    dsimp only at h
    split at h
    · next hrunning =>
      cases h
      exact .use hrunning
    · cases h

/-! ### Where the workers are idle -/

/-- Nothing is being executed, and nothing ever will be. -/
def Quiet (pool : ThreadPool Request) : Prop := pool.running = [] ∧ (pool.tasks = [] ∨ pool.workers = [])

theorem Quiet.not_running {pool : ThreadPool Request} (h : Quiet pool) {worker : Nat} {task : Request} :
    pool.workers[worker]? ≠ some (.running task) := by
  intro hworker
  have hmem : task ∈ pool.running := List.mem_filterMap.mpr ⟨_, List.mem_of_getElem? hworker, rfl⟩
  rw [h.1] at hmem
  cases hmem

theorem Quiet.perform {pool pool' : ThreadPool Request} {event : PoolEvent Request} (h : Quiet pool)
    (hevent : ∀ task, event ≠ .enqueue task) (hstep : pool.perform event = some pool') : Quiet pool' := by
  cases event with
  | enqueue task => exact absurd rfl (hevent task)
  | spawn worker task =>
    simp only [ThreadPool.perform] at hstep
    split at hstep
    · next hworker => exact absurd hworker h.not_running
    · cases hstep
  | take worker =>
    simp only [ThreadPool.perform] at hstep
    split at hstep
    · next hworker htasks =>
      rcases h.2 with hnone | hnone
      · rw [hnone] at htasks
        cases htasks
      · rw [hnone] at hworker
        cases hworker
    · cases hstep
  | finish worker =>
    simp only [ThreadPool.perform] at hstep
    split at hstep
    · next hworker => exact absurd hworker h.not_running
    · cases hstep
  | leave worker =>
    simp only [ThreadPool.perform] at hstep
    split at hstep
    · next hworker =>
      obtain ⟨⟨_, htasks⟩, hstep⟩ := Option.ite_none_right_eq_some.mp hstep
      cases hstep
      have hrunning : (pool.set worker .exited).running.Perm pool.running := ThreadPool.running_set hworker .exited
      rw [h.1] at hrunning
      exact ⟨hrunning.eq_nil, .inl (List.isEmpty_iff.mp htasks)⟩
    · cases hstep
  | destroy | setStop =>
    obtain ⟨_, hstep⟩ := Option.ite_none_right_eq_some.mp hstep
    cases hstep
    exact h
  | join =>
    simp only [ThreadPool.perform] at hstep
    split at hstep
    · split at hstep
      · cases hstep
        exact h
      · cases hstep
    · cases hstep

theorem Quiet.run {labels : List TeardownEvent} (h : Quiet s.pool) (hnone : s.dangling = [])
    (hr : Run (teardown threads) s labels t) : t.dangling = [] := by
  induction hr with
  | nil => exact hnone
  | cons hstep _ ih =>
    cases (teardown_step hstep).2 with
    | destroyMember => exact ih h hnone
    | pool hpool hevent => exact ih (h.perform hevent hpool) hnone
    | use hworker => exact absurd hworker h.not_running

/-! ### What the workers find -/

section
variable {pool pool' : ThreadPool Request} {event : PoolEvent Request}

/-- A step of the pool: the workers are as many as before, and when all of them have been joined that stays so. -/
theorem pool_step (h : pool.perform event = some pool') :
    pool'.workers.length = pool.workers.length ∧ (pool.Joined → pool'.destructor = pool.destructor) := by
  have hset : ∀ (worker : Nat) (w : Worker Request), (pool.set worker w).workers.length = pool.workers.length :=
    fun _ _ => List.length_set
  cases event with
  | enqueue task =>
    obtain ⟨_, h⟩ := Option.ite_none_right_eq_some.mp h
    cases h
    exact ⟨rfl, fun _ => rfl⟩
  | spawn worker task | take worker | finish worker =>
    simp only [ThreadPool.perform] at h
    split at h
    · cases h
      first
      | exact ⟨rfl, fun _ => rfl⟩
      | exact ⟨List.length_set, fun _ => rfl⟩
    · cases h
  | leave worker =>
    simp only [ThreadPool.perform] at h
    split at h
    · obtain ⟨_, h⟩ := Option.ite_none_right_eq_some.mp h
      cases h
      exact ⟨hset worker .exited, fun _ => rfl⟩
    · cases h
  | destroy | setStop =>
    obtain ⟨hdestructor, h⟩ := Option.ite_none_right_eq_some.mp h
    cases h
    exact ⟨rfl, fun hjoined => by rw [ThreadPool.Joined, hdestructor] at hjoined; cases hjoined⟩
  | join =>
    simp only [ThreadPool.perform] at h
    split at h
    · next joined hdestructor =>
      split at h
      · next hworker =>
        cases h
        refine ⟨rfl, fun hjoined => ?_⟩
        rw [ThreadPool.Joined, hdestructor] at hjoined
        cases hjoined
        rw [List.getElem?_eq_none (Nat.le_refl _)] at hworker
        cases hworker
      · cases h
    · cases h

theorem reachable_workers (h : Reachable (threadPool Request threads) pool) : pool.workers.length = threads := by
  induction h with
  | init hinit =>
    cases hinit
    exact List.length_replicate
  | step _ hstep ih => exact (pool_step hstep).1.trans ih

/-- A pool all of whose workers have been joined executes nothing. -/
theorem joined_not_running (h : Reachable (threadPool Request threads) pool) (hjoined : pool.Joined) {worker : Nat}
    {task : Request} : pool.workers[worker]? ≠ some (.running task) := by
  intro hworker
  obtain ⟨hlt, _⟩ := List.getElem?_eq_some_iff.mp hworker
  have hthreads : 1 ≤ threads := by
    have hlength := reachable_workers h
    omega
  have hexited := (ThreadPool.reachable_lossless hthreads h).joined _ hjoined worker hlt
  cases hworker.symm.trans hexited

end

/-- The pool waits for its workers before the routes are destroyed. -/
structure Outlived (threads : Nat) (s : Teardown) : Prop where
  pool : Reachable (threadPool Request threads) s.pool
  left : s.left <:+ Member.declared.reverse
  joined : .tpool ∉ s.left → s.pool.Joined
  routes : ∀ member ∈ s.dangling, member ≠ .routes ∧ member ≠ .funcRoutes

theorem routes_left {left : List Member} (h : left <:+ Member.declared.reverse) (hpool : .tpool ∈ left) :
    .routes ∈ left ∧ .funcRoutes ∈ left := by
  have hall : ∀ left ∈ Member.declared.reverse.tails, .tpool ∈ left → .routes ∈ left ∧ .funcRoutes ∈ left := by decide
  exact hall left ((List.mem_tails left _).mpr h) hpool

theorem Outlived.step (hs : Outlived threads s) (h : TeardownStep s event t) : Outlived threads t := by
  cases h with
  | @destroyMember member rest hleft hjoined =>
    refine ⟨hs.pool, ?_, fun hgone => ?_, hs.routes⟩
    · exact (hleft ▸ List.suffix_cons member rest).trans hs.left
    · by_cases hmember : member = .tpool
      · exact hjoined hmember
      · refine hs.joined fun hmem => ?_
        rw [hleft] at hmem
        rcases List.mem_cons.mp hmem with heq | hmem
        · exact hmember heq.symm
        · exact hgone hmem
  | pool hpool _ =>
    refine ⟨.step hs.pool hpool, hs.left, fun hgone => ?_, hs.routes⟩
    obtain ⟨hlength, hdestructor⟩ := pool_step hpool
    have hjoined := hs.joined hgone
    exact (hdestructor hjoined).trans (hjoined.trans (by rw [hlength]))
  | @use worker use task hworker =>
    have hpool : .tpool ∈ s.left := by
      by_contra hgone
      exact joined_not_running hs.pool (hs.joined hgone) hworker
    obtain ⟨hroutes, hfuncRoutes⟩ := routes_left hs.left hpool
    refine ⟨hs.pool, hs.left, hs.joined, fun member hmember => ?_⟩
    have hgone := of_decide_eq_true (List.mem_filter.mp hmember).2
    exact ⟨fun heq => hgone (heq ▸ hroutes), fun heq => hgone (heq ▸ hfuncRoutes)⟩

theorem Outlived.run {labels : List TeardownEvent} (hs : Outlived threads s)
    (hr : Run (teardown threads) s labels t) : Outlived threads t := by
  induction hr with
  | nil => exact hs
  | cons hstep _ ih => exact ih (hs.step (teardown_step hstep).2)

/-! ### Where they are not -/

/-- What is left when `_responder` is gone. -/
def afterResponder : List Member := [.commandQueue, .tpool, .funcRoutes, .routes, .privKey]

theorem responder_gone (threads : Nat) (pool : ThreadPool Request) :
    Run (teardown threads) {pool := pool} (List.replicate 6 .destroyMember) {pool := pool, left := afterResponder} := by
  have hnext : ∀ event ∈ List.replicate 6 TeardownEvent.destroyMember, ∀ s t : Teardown,
      s.perform event = some t → (teardown threads).step s event t := fun _ _ _ _ h => h
  exact .of_execute hnext rfl

/-- What is being executed may respond by then. -/
theorem responds {pool : ThreadPool Request} {worker : Nat} {task : Request}
    (hworker : pool.workers[worker]? = some (.running task)) :
    (teardown threads).step {pool := pool, left := afterResponder} (.use worker .respond)
      {pool := pool, left := afterResponder, dangling := [.responder, .connections]} := by
  show Teardown.perform _ _ = _
  simp only [Teardown.perform, hworker]
  rfl

/-- What waits is taken by a worker that is idle. -/
theorem takes (threads : Nat) {pool : ThreadPool Request} {task : Request} {rest : List Request}
    (htasks : pool.tasks = task :: rest) {worker : Nat} (hworker : pool.workers[worker]? = some .idle) :
    ∃ pool', (teardown threads).step {pool := pool, left := afterResponder} (.pool (.take worker))
        {pool := pool', left := afterResponder} ∧ pool'.workers[worker]? = some (.running task) := by
  obtain ⟨hlt, _⟩ := List.getElem?_eq_some_iff.mp hworker
  refine ⟨{pool with tasks := rest, taken := pool.taken ++ [task], workers := pool.workers.set worker (.running task)},
    ?_, List.getElem?_set_self hlt⟩
  show Teardown.perform _ _ = _
  simp only [Teardown.perform, ThreadPool.perform, hworker, htasks]
  rfl

theorem dangling_of_not_quiet {pool : ThreadPool Request} (hpool : Reachable (threadPool Request threads) pool)
    (hnot : pool.destructor = .notCalled) (h : ¬ Quiet pool) :
    ∃ labels t, Run (teardown threads) {pool := pool} labels t ∧ t.dangling ≠ [] := by
  have hgone := responder_gone threads pool
  by_cases hrunning : pool.running = []
  · -- Something waits, and there is a worker.
    obtain ⟨htasks, hworkers⟩ := not_or.mp fun hor => h ⟨hrunning, hor⟩
    obtain ⟨task, rest, htasks⟩ := List.exists_cons_of_ne_nil htasks
    obtain ⟨worker, others, hworkers⟩ := List.exists_cons_of_ne_nil hworkers
    have hidle : worker = .idle := by
      cases worker with
      | idle => rfl
      | running task' =>
        rw [ThreadPool.running, hworkers] at hrunning
        cases hrunning
      | exited =>
        have hthreads : 1 ≤ threads := by
          rw [← reachable_workers hpool, hworkers]
          exact Nat.succ_le_succ (Nat.zero_le _)
        have hlossless := ThreadPool.reachable_lossless hthreads hpool
        have hstop := hlossless.exited (by rw [hworkers]; exact List.mem_cons_self ..)
        exact absurd hnot (hlossless.stopped hstop)
    have hworker : pool.workers[0]? = some .idle := by
      rw [hworkers, hidle]
      rfl
    obtain ⟨pool', htake, hworker'⟩ := takes threads htasks hworker
    exact ⟨_, _, hgone.append (.cons htake (.cons (responds hworker') .nil)), fun hnone => by cases hnone⟩
  · obtain ⟨task, others, hrunning⟩ := List.exists_cons_of_ne_nil hrunning
    have hmem : task ∈ pool.workers.filterMap Worker.task := by
      show task ∈ pool.running
      rw [hrunning]
      exact List.mem_cons_self ..
    obtain ⟨w, hw, htask⟩ := List.mem_filterMap.mp hmem
    obtain ⟨worker, hworker⟩ := List.mem_iff_getElem?.mp hw
    have hbusy : pool.workers[worker]? = some (.running task) := by
      cases w with
      | running task' =>
        cases htask
        exact hworker
      | idle | exited => cases htask
    exact ⟨_, _, hgone.append (.cons (responds hbusy) .nil), fun hnone => by cases hnone⟩

/-- **The destructor and the workers**: a worker uses a member that has been destroyed in some order of steps, exactly
if something waits or is being executed when the destructor begins. The routes are never among those members. -/
theorem teardown_safe_iff (hs : (teardown threads).init s) :
    ((∀ labels t, Run (teardown threads) s labels t → t.dangling = []) ↔ Quiet s.pool) ∧
      ∀ labels t, Run (teardown threads) s labels t → ∀ member ∈ t.dangling, member ≠ .routes ∧ member ≠ .funcRoutes := by
  obtain ⟨pool, hpool, hnot, rfl⟩ := hs
  refine ⟨⟨fun hsafe => ?_, fun hquiet labels t hr => hquiet.run rfl hr⟩, fun labels t hr => ?_⟩
  · by_contra hbusy
    obtain ⟨labels, t, hr, hdangling⟩ := dangling_of_not_quiet hpool hnot hbusy
    exact hdangling (hsafe labels t hr)
  · have hstart : Outlived threads {pool := pool} := by
      have hthere : .tpool ∈ Member.declared.reverse := by decide
      exact ⟨hpool, List.suffix_refl _, fun hgone => absurd hthere hgone, fun _ hmem => by cases hmem⟩
    exact (hstart.run hr).routes

/-- Two workers and one request, which nobody has taken. -/
theorem teardown_waiting : ∃ s : Teardown, s.pool.workers = [.idle, .idle] ∧ s.pool.tasks.length = 1 ∧
    ((∀ labels t, Run (teardown 2) s labels t → t.dangling = []) ↔ Quiet s.pool) ∧
      ∀ labels t, Run (teardown 2) s labels t → ∀ member ∈ t.dangling, member ≠ .routes ∧ member ≠ .funcRoutes := by
  have hpool : Reachable (threadPool Request 2)
      (ThreadPool.enqueue ⟨1, [], [], 1⟩ {workers := [.idle, .idle]}) :=
    .step (a := .enqueue ⟨1, [], [], 1⟩) (.init rfl) rfl
  exact ⟨{pool := _}, rfl, rfl, teardown_safe_iff ⟨_, hpool, rfl, rfl⟩⟩

end Fmxp.Server
