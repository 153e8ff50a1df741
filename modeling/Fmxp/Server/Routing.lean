import Fmxp.Server.Service

/-! Every request is routed once.

`Works` follows the requests from the epoll loop through the pool into `_router`: each is in the account of the workers
(`Accounts`) until it has been routed, and those that have no handler until they have been answered with
`STATUS_NOT_FOUND`. The pool is the one of `threadPool`, and the loop one of `epollLoop`, whatever it runs in
(`reachable_pool`, `reachable_loop`). -/
namespace Fmxp.Server
open Transition Slots

variable {ρ β δ : Type} {env : LoopEnv} {H : Setting env β δ} {threads depth : Nat} {event : ServiceEvent ρ δ}
  {s t : Service ρ β}

/-! ### The loop -/

theorem SettingStep.loop {call : Option LoopEvent} {host host' : β} (h : SettingStep H depth host call host') :
    H.loop host' = H.loop host ∨ (epollLoop env).step (H.loop host) (call.getD .accepted) (H.loop host') := by
  cases h with
  | none => exact .inl rfl
  | call hcall => exact .inr ⟨depth, H.performs hcall⟩

/-- A step of the service is one of the loop, or leaves the loop alone. -/
theorem ServiceStep.loop (h : ServiceStep H depth s event t) :
    H.loop t.host = H.loop s.host ∨ ∃ e, (epollLoop env).step (H.loop s.host) e (H.loop t.host) := by
  cases h with
  | route | take | finish => exact .inl rfl
  | epoll _ hhost | outside _ _ hhost | outsidePush _ hhost => exact .inr ⟨_, depth, H.performs hhost⟩
  | job _ hstep _ _ => exact hstep.loop.imp id fun hloop => ⟨_, hloop⟩
  | other hhost => exact .inl (H.apart hhost)

theorem reachable_loop (h : Reachable (service ρ H threads) s) : Reachable (epollLoop env) (H.loop s.host) := by
  refine h.simulates (fun s => H.loop s.host) ?_ ?_
  · exact fun s hs => H.started _ hs.1
  · rintro s event t _ ⟨depth, hstep⟩
    exact (service_step hstep).loop

/-- Requests come from the epoll thread alone. -/
theorem requests_kept {e : LoopEvent} {l l' : Loop} (he : e.epoll = false) (h : l.perform env depth e = some l') :
    l'.requests = l.requests := by
  have hresponse : ∀ resp, (l.sendResponse resp).requests = l.requests := by
    intro resp
    unfold Loop.sendResponse
    split <;> rfl
  cases (perform_step h).2 with
  | wait | wake | listen | event | accept | accepted | command | drained => cases he
  | respond | serverPush => exact hresponse _
  | push | closeConnection => rfl

theorem requests_arrived {e : LoopEvent} {l l' : Loop} (hl : Reachable (epollLoop env) l)
    (h : l.perform env depth e = some l') : l.requests ++ l.arrived l' = l'.requests := by
  rcases ((perform_step h).2.effect (reachable_each hl).registered).newRequests with
    hsame | ⟨_, _, _, _, _, _, _, _, hnew, _⟩
  · rw [Loop.arrived, hsame, List.drop_length, List.append_nil]
  · rw [Loop.arrived, hnew, List.drop_left]

/-- What a call leaves of the requests. -/
theorem SettingStep.requests {job : Job ρ} {event : JobEvent} {host host' : β}
    (h : SettingStep H depth host (job.call event) host') : (H.loop host').requests = (H.loop host).requests := by
  cases hcall : job.call event with
  | none =>
    rw [hcall] at h
    cases h
    rfl
  | some call =>
    rw [hcall] at h
    cases h with
    | call hhost =>
      refine requests_kept ?_ (H.performs hhost)
      cases event with
      | router | returns => cases hcall
      | respond | serverPush | close =>
        cases hcall
        rfl
      | push =>
        obtain ⟨cmd, _, rfl⟩ := Option.map_eq_some_iff.mp hcall
        rfl

/-! ### The pool -/

def workerOf : Option (Job ρ) → Worker Request
  | none => .idle
  | some job => .running job.request

/-- The thread pool of a service. -/
def Service.pool (s : Service ρ β) : ThreadPool Request where
  workers := s.workers.map workerOf
  tasks := s.tasks
  enqueued := s.enqueued
  taken := s.taken
  executed := s.executed

theorem enqueue_run (requests : List Request) (p : ThreadPool Request) (hp : p.destructor = .notCalled) :
    Run (threadPool Request threads) p (requests.map .enqueue)
      {p with tasks := p.tasks ++ requests, enqueued := p.enqueued ++ requests} := by
  induction requests generalizing p with
  | nil =>
    simp only [List.append_nil]
    exact .nil
  | cons request rest ih =>
    have hstep : (threadPool Request threads).step p (.enqueue request) (p.enqueue request) := by
      show p.perform (.enqueue request) = some (p.enqueue request)
      rw [ThreadPool.perform, if_pos hp]
    have hrest := ih (p.enqueue request) hp
    simp only [ThreadPool.enqueue, List.append_assoc, List.singleton_append] at hrest
    exact .cons hstep hrest

theorem pool_worker {i : Nat} {w : Option (Job ρ)} (h : s.workers[i]? = some w) :
    s.pool.workers[i]? = some (workerOf w) := by
  show (s.workers.map workerOf)[i]? = _
  rw [List.getElem?_map, h]
  rfl

/-- A step of the service is one of the pool, or leaves the pool alone; a step of the loop may enqueue several tasks. -/
theorem ServiceStep.pool (h : ServiceStep H depth s event t) :
    ∃ labels, Run (threadPool Request threads) s.pool labels t.pool := by
  have hone : ∀ label, s.pool.perform label = some t.pool →
      ∃ labels, Run (threadPool Request threads) s.pool labels t.pool :=
    fun label hstep => ⟨[label], .cons hstep .nil⟩
  cases h with
  | route | outside | outsidePush | other => exact ⟨[], .nil⟩
  | epoll => exact ⟨_, enqueue_run _ s.pool rfl⟩
  | @take i request rest hworker htasks =>
    refine hone (.take i) ?_
    simp only [ThreadPool.perform, pool_worker hworker, workerOf, show s.pool.tasks = request :: rest from htasks]
    simp only [Service.pool, ThreadPool.set, List.map_set]
    rfl
  | @job i event job job' host made hworker _ _ hstep =>
    -- The task is the same, wherever the worker is in it.
    have hsame : job'.request = job.request := by cases hstep <;> rfl
    have hpool : (s.worked i event job job' host).pool = s.pool := by
      have hworkers : (s.workers.set i (some job')).map workerOf = s.workers.map workerOf := by
        rw [List.map_set]
        obtain ⟨hlt, hget⟩ := List.getElem?_eq_some_iff.mp (pool_worker hworker)
        have hkept : (s.workers.map workerOf).set i (s.workers.map workerOf)[i] = s.workers.map workerOf :=
          List.set_getElem_self hlt
        rw [workerOf, hsame]
        exact (congrArg _ hget.symm).trans hkept
      simp only [Service.pool, Service.worked, hworkers]
    rw [hpool]
    exact ⟨[], .nil⟩
  | @finish i job hworker _ _ =>
    refine hone (.finish i) ?_
    simp only [ThreadPool.perform, pool_worker hworker, workerOf]
    simp only [Service.pool, ThreadPool.set, List.map_set]
    rfl

theorem reachable_pool (h : Reachable (service ρ H threads) s) : Reachable (threadPool Request threads) s.pool := by
  refine h.simulates_runs Service.pool ?_ ?_
  · rintro s ⟨_, hs⟩
    rw [hs]
    show _ = _
    rw [Service.pool, List.map_replicate]
    rfl
  · rintro s event t _ ⟨depth, hstep⟩
    exact (service_step hstep).pool

/-! ### The commands that have not been pushed -/

/-- A step of the epoll thread leaves them alone. -/
theorem responding_kept {l l' : Loop} {env : LoopEnv} {event : LoopEvent} (hl : Reachable (epollLoop env) l)
    (hepoll : event.epoll = true) (h : l.perform env depth event = some l') : l'.responding = l.responding := by
  have hafter : ∀ (r : Except Exn Unit) (u : Loop), (Loop.after (r, u)).responding = u.responding := by
    rintro (_ | _) u <;> rfl
  cases (perform_step h).2 with
  | wait | wake | listen | accept | accepted | drained => rfl
  | respond | serverPush | push | closeConnection => cases hepoll
  | event _ _ _ _ hu =>
    obtain ⟨rfl, heffect⟩ := handleEvent_effect
      (by exact fun _ _ hconn => reachable_wellFormed ((reachable_each hl).registered _ _ hconn)) hu
    rcases heffect.touches with rfl | ⟨_, _, _, htouches⟩
    · rfl
    · exact htouches.commands.2
  | command _ _ hu =>
    rw [hafter]
    cases handleCommand_effect hu <;> rfl

/-- A call adds the command it makes. -/
theorem responding_made {l l' : Loop} {env : LoopEnv} {event : LoopEvent} (hepoll : event.epoll = false)
    (hpush : ∀ cmd, event ≠ .push cmd) (h : l.perform env depth event = some l') :
    l'.responding = l.responding ++ l.made l' := by
  have hresponse : ∀ resp, (l.sendResponse resp).responding = l.responding ++ l.made (l.sendResponse resp) := by
    intro resp
    unfold Loop.made Loop.sendResponse
    split
    · rw [List.drop_length, List.append_nil]
    · rw [List.drop_left]
  cases (perform_step h).2 with
  | wait | wake | listen | event | accept | accepted | command | drained => cases hepoll
  | respond | serverPush => exact hresponse _
  | push => exact absurd rfl (hpush _)
  | closeConnection =>
    show l.responding = l.responding ++ l.responding.drop l.responding.length
    rw [List.drop_length, List.append_nil]

theorem responding_pushed {l l' : Loop} {env : LoopEnv} {cmd : ServerCommand}
    (h : l.perform env depth (.push cmd) = some l') : cmd ∈ l.responding ∧ l'.responding = l.responding.erase cmd := by
  cases (perform_step h).2 with
  | push hmem => exact ⟨hmem, rfl⟩

theorem responding_closed {l l' : Loop} {env : LoopEnv} {connID : Nat}
    (h : l.perform env depth (.closeConnection connID) = some l') : l'.responding = l.responding := by
  cases (perform_step h).2
  rfl

/-- What a worker has not pushed. -/
def pendings : Option (Job ρ) → List ServerCommand
  | none => []
  | some job => job.pending

/-- What a step of a task makes of the commands that have not been pushed. -/
theorem JobStep.made {registry : Registry ρ} {made : List ServerCommand} {job job' : Job ρ} {event : JobEvent} {i : Nat}
    {host host' : β} {outside : List ServerCommand} {workers : List (Option (Job ρ))}
    (h : JobStep registry made job event job') (hhost : SettingStep H depth host (job.call event) host')
    (hmade : made = if job.call event = none then [] else (H.loop host).made (H.loop host'))
    (hworker : workers[i]? = some (some job))
    (hs : Accounts pendings outside workers (H.loop host).responding) :
    Accounts pendings outside (workers.set i (some job')) (H.loop host').responding := by
  cases h with
  | found | missed | returned =>
    cases hhost
    exact hs.set_same hworker rfl
  | responded _ hpending | refused _ hpending | serverPush _ hpending =>
    cases hhost with
    | call hcall =>
      rw [if_neg (by intro hc; cases hc)] at hmade
      rw [responding_made rfl (by intro _ hc; cases hc) (H.performs hcall)]
      refine hs.take hworker ?_
      rw [pendings, pendings, hpending, hmade]
      rfl
  | close =>
    cases hhost with
    | call hcall =>
      rw [responding_closed (H.performs hcall)]
      exact hs.set_same hworker rfl
  | @push cmd rest hpending =>
    have hcall : job.call .push = some (.push cmd) := by
      simp only [Job.call, hpending]
      rfl
    rw [hcall] at hhost
    cases hhost with
    | call hcall =>
      rw [(responding_pushed (H.performs hcall)).2]
      exact hs.drop hworker hpending

/-! ### Every request -/

/-- What `_router` has found out, once it has. -/
def Position.found : Position ρ → Option (Option ρ)
  | .routing | .returning => none
  | .handling handler => some (some handler)
  | .notFound => some none

/-- The task's request, where a worker is at such a place. -/
def heldAt (place : Position ρ → Bool) : Option (Job ρ) → List Request
  | none => []
  | some job => if place job.position then [job.request] else []

def Position.isRouting : Position ρ → Bool
  | .routing => true
  | _ => false

def Position.isNotFound : Position ρ → Bool
  | .notFound => true
  | _ => false

/-- The request, where there is no handler. -/
def Routing.handlerless (r : Routing ρ) : Option Request :=
  match r.handler with
  | none => some r.request
  | some _ => none

namespace Service

/-- The requests for which no handler has been found. -/
def missing (s : Service ρ β) : List Request := s.routed.filterMap Routing.handlerless

/-- The requests that `_router` has answered itself. -/
def refused (s : Service ρ β) : List Request := s.answers.filterMap fun a => a.handlerless

end Service

structure Works (H : Setting env β δ) (s : Service ρ β) : Prop where
  delivered : s.enqueued = (H.loop s.host).requests
  routed : Accounts (heldAt Position.isRouting) (s.routed.map Routing.request) s.workers s.taken
  refused : Accounts (heldAt Position.isNotFound) s.refused s.workers s.missing
  determined : ∀ r ∈ s.routed, r.registered <+: s.registry.registered ∧ r.handler = handlerFor r.registered r.request
  found : ∀ job, some job ∈ s.workers → ∀ handler ∈ job.position.found,
    ⟨job.request, handler, job.registered⟩ ∈ s.routed
  answers : ∀ a ∈ s.answers, a.toRouting ∈ s.routed ∧ (a.handler = none → a.data = [] ∧ a.status = STATUS_NOT_FOUND)
  made : Accounts pendings s.outside s.workers (H.loop s.host).responding

theorem Works.start (hs : (service ρ H threads).init s) : Works H s := by
  obtain ⟨hhost, hs⟩ := hs
  obtain ⟨connCount, hloop⟩ := H.started _ hhost
  have hidle : ∀ w ∈ List.replicate threads (none : Option (Job ρ)), w = none := fun w hw => List.eq_of_mem_replicate hw
  have hnone : ∀ {α : Type} (f : Option (Job ρ) → List α), f none = [] →
      ∀ w ∈ List.replicate threads (none : Option (Job ρ)), f w = [] := by
    intro α f hf w hw
    rw [hidle w hw, hf]
  rw [hs]
  refine ⟨?_, .start (hnone _ rfl), .start (hnone _ rfl), fun _ hmem => (by cases hmem), fun job hjob => ?_,
    fun _ hmem => (by cases hmem), ?_⟩
  · show [] = (H.loop s.host).requests
    rw [hloop]
  · cases hidle _ hjob
  · show Accounts pendings [] _ (H.loop s.host).responding
    rw [hloop]
    exact .start (hnone _ rfl)

/-- A worker that changes, where what has been found out is still known. -/
theorem found_set {workers : List (Option (Job ρ))} {i : Nat} {w : Option (Job ρ)}
    {routed routed' : List (Routing ρ)}
    (hs : ∀ job, some job ∈ workers → ∀ handler ∈ job.position.found, ⟨job.request, handler, job.registered⟩ ∈ routed)
    (hkept : ∀ x ∈ routed, x ∈ routed')
    (hw : ∀ job, w = some job → ∀ handler ∈ job.position.found, ⟨job.request, handler, job.registered⟩ ∈ routed') :
    ∀ job, some job ∈ workers.set i w → ∀ handler ∈ job.position.found,
      ⟨job.request, handler, job.registered⟩ ∈ routed' := by
  intro job hjob handler hfound
  rcases List.mem_or_eq_of_mem_set hjob with hold | heq
  · exact hkept _ (hs job hold handler hfound)
  · exact hw job heq.symm handler hfound

theorem JobStep.routed {made : List ServerCommand} {job job' : Job ρ} {event : JobEvent}
    (h : JobStep s.registry made job event job') :
    (s.newlyRouted job event).map Routing.request ++ heldAt Position.isRouting (some job') =
      heldAt Position.isRouting (some job) := by
  cases h with
  | found hposition | missed hposition =>
    simp [Service.newlyRouted, heldAt, hposition, Position.isRouting]
  | responded hposition | refused hposition | returned hposition =>
    simp [Service.newlyRouted, heldAt, hposition, Position.isRouting]
  | serverPush | close | push => rfl

theorem JobStep.missing {made : List ServerCommand} {job job' : Job ρ} {event : JobEvent}
    (h : JobStep s.registry made job event job') :
    (job.answer event).filterMap (fun a => a.handlerless) ++ heldAt Position.isNotFound (some job') =
      heldAt Position.isNotFound (some job) ++ (s.newlyRouted job event).filterMap Routing.handlerless := by
  cases h with
  | found hposition _ hrouter | missed hposition _ hrouter =>
    simp [Service.newlyRouted, Job.answer, heldAt, hposition, hrouter, Position.isNotFound, Routing.handlerless]
  | responded hposition | refused hposition | returned hposition =>
    simp [Service.newlyRouted, Job.answer, heldAt, hposition, Position.isNotFound, Position.handler,
      Routing.handlerless]
  | serverPush | close | push => simp [Service.newlyRouted, Job.answer, heldAt]

/-- What is routed goes to the handler of what is registered at that moment. -/
theorem mem_newlyRouted {job : Job ρ} {event : JobEvent} {r : Routing ρ} (hnew : r ∈ s.newlyRouted job event) :
    r = ⟨job.request, handlerFor s.registry.registered job.request, s.registry.registered⟩ := by
  unfold Service.newlyRouted at hnew
  split at hnew
  · rw [← s.registry.router_eq]
    exact List.mem_singleton.mp hnew
  · cases hnew

/-- What a worker knows of its request it knew before, or has just found out. -/
theorem JobStep.known {made : List ServerCommand} {job job' : Job ρ} {event : JobEvent} {handler : Option ρ}
    (h : JobStep s.registry made job event job') (hfound : handler ∈ job'.position.found) :
    (job'.request = job.request ∧ job'.registered = job.registered ∧ handler ∈ job.position.found) ∨
      ⟨job'.request, handler, job'.registered⟩ ∈ s.newlyRouted job event := by
  cases h with
  | found _ _ hrouter | missed _ _ hrouter =>
    cases hfound
    exact .inr (by rw [Service.newlyRouted, if_pos rfl, hrouter]; exact List.mem_singleton.mpr rfl)
  | responded | serverPush | close | push => exact .inl ⟨rfl, rfl, hfound⟩
  | refused | returned => cases hfound

/-- An answer comes from the handler that has been found, or says that there is none. -/
theorem JobStep.answer {made : List ServerCommand} {job job' : Job ρ} {event : JobEvent} {a : Answer ρ}
    (h : JobStep s.registry made job event job') (ha : a ∈ job.answer event) :
    a.toRouting = ⟨job.request, a.handler, job.registered⟩ ∧ a.handler ∈ job.position.found ∧
      (a.handler = none → a.data = [] ∧ a.status = STATUS_NOT_FOUND) := by
  cases h with
  | responded hposition =>
    cases List.mem_singleton.mp ha
    exact ⟨rfl, by rw [hposition]; rfl, fun hnone => by rw [hposition] at hnone; cases hnone⟩
  | refused hposition =>
    cases List.mem_singleton.mp ha
    exact ⟨rfl, by rw [hposition]; rfl, fun _ => ⟨rfl, rfl⟩⟩
  | found | missed | serverPush | close | push | returned => cases ha

theorem Works.step (hs : Works H s) (hl : Reachable (epollLoop env) (H.loop s.host))
    (h : ServiceStep H depth s event t) : Works H t := by
  cases h with
  | @route registration =>
    refine ⟨hs.delivered, hs.routed, hs.refused, fun r hmem => ?_, hs.found, hs.answers, hs.made⟩
    obtain ⟨hearlier, heq⟩ := hs.determined r hmem
    exact ⟨hearlier.trans (List.prefix_append ..), heq⟩
  | @epoll e host hepoll hhost =>
    refine ⟨?_, hs.routed, hs.refused, hs.determined, hs.found, hs.answers, ?_⟩
    · show s.enqueued ++ _ = (H.loop host).requests
      rw [hs.delivered]
      exact requests_arrived hl (H.performs hhost)
    · show Accounts pendings s.outside s.workers (H.loop host).responding
      rw [responding_kept hl hepoll (H.performs hhost)]
      exact hs.made
  | @take i request rest hworker htasks =>
    refine ⟨hs.delivered, ?_, hs.refused.set_same hworker rfl, hs.determined,
      found_set hs.found (fun _ hx => hx) ?_, hs.answers, hs.made.set_same hworker rfl⟩
    · exact hs.routed.take hworker rfl
    · intro job hjob handler hfound
      cases hjob
      cases hfound
  | @job i event job job' host made hworker hhost hmade hstep =>
    have hkept : ∀ x ∈ s.routed, x ∈ s.routed ++ s.newlyRouted job event := fun _ hx => List.mem_append_left _ hx
    have hfound := hs.found job (List.mem_of_getElem? hworker)
    refine ⟨hs.delivered.trans hhost.requests.symm, ?_, ?_, ?_, found_set hs.found hkept ?_, ?_,
      hstep.made hhost hmade hworker hs.made⟩
    · show Accounts _ ((s.routed ++ s.newlyRouted job event).map Routing.request) _ _
      rw [List.map_append]
      exact hs.routed.finish hworker hstep.routed
    · show Accounts _ ((s.answers ++ job.answer event).filterMap _) _
        ((s.routed ++ s.newlyRouted job event).filterMap _)
      rw [List.filterMap_append, List.filterMap_append]
      exact hs.refused.set hworker hstep.missing
    · intro r hmem
      rcases List.mem_append.mp hmem with hold | hnew
      · exact hs.determined r hold
      · rw [mem_newlyRouted hnew]
        exact ⟨List.prefix_refl _, rfl⟩
    · rintro _ ⟨rfl⟩ handler hhandler
      rcases hstep.known hhandler with ⟨hrequest, hregistered, hold⟩ | hnew
      · rw [hrequest, hregistered]
        exact hkept _ (hfound handler hold)
      · exact List.mem_append_right _ hnew
    · intro a ha
      rcases List.mem_append.mp ha with hold | hnew
      · exact ⟨hkept _ (hs.answers a hold).1, (hs.answers a hold).2⟩
      · obtain ⟨hrouting, hhandler, hrefusal⟩ := hstep.answer hnew
        exact ⟨hkept _ (hrouting ▸ hfound _ hhandler), hrefusal⟩
  | @finish i job hworker hposition hpending =>
    have hnowhere : ∀ place : Position ρ → Bool, place .returning = false →
        heldAt place none = heldAt place (some job) := by
      intro place hplace
      rw [heldAt, heldAt, hposition, if_neg (Bool.eq_false_iff.mp hplace)]
    exact ⟨hs.delivered, hs.routed.set_same hworker (hnowhere _ rfl),
      hs.refused.set_same hworker (hnowhere _ rfl), hs.determined,
      found_set hs.found (fun _ hx => hx) (fun _ hjob => by cases hjob), hs.answers,
      hs.made.set_same hworker hpending.symm⟩
  | @outside e host hepoll hpush hhost =>
    refine ⟨?_, hs.routed, hs.refused, hs.determined, hs.found, hs.answers, ?_⟩
    · exact hs.delivered.trans (requests_kept hepoll (H.performs hhost)).symm
    · show Accounts pendings _ s.workers (H.loop host).responding
      rw [responding_made hepoll hpush (H.performs hhost)]
      exact hs.made.add _
  | @outsidePush cmd host hmem hhost =>
    refine ⟨?_, hs.routed, hs.refused, hs.determined, hs.found, hs.answers, ?_⟩
    · exact hs.delivered.trans (requests_kept rfl (H.performs hhost)).symm
    · show Accounts pendings _ s.workers (H.loop host).responding
      rw [(responding_pushed (H.performs hhost)).2]
      exact hs.made.undo hmem
  | @other e host hhost =>
    have hloop := H.apart hhost
    exact ⟨hloop ▸ hs.delivered, hs.routed, hs.refused, hs.determined, hs.found, hs.answers,
      hloop ▸ hs.made⟩

theorem reachable_works (h : Reachable (service ρ H threads) s) : Works H s := by
  induction h with
  | init hs => exact .start hs
  | step hreach hstep ih =>
    obtain ⟨depth, hperform⟩ := hstep
    exact ih.step (reachable_loop hreach) (service_step hperform)

/-- No task waits and no worker has one. -/
def Service.Idle (s : Service ρ β) : Prop := s.tasks = [] ∧ ∀ w ∈ s.workers, w = none

/-- Requests go to the handlers that the registrations determine. -/
structure Directed (H : Setting env β δ) (s : Service ρ β) : Prop where
  /-- A worker that looks now finds the handler for what has been registered by now. -/
  now : ∀ i depth t, s.perform H depth (.job i .router) = some t → ∃ job, s.workers[i]? = some (some job) ∧
    t.routed = s.routed ++ [⟨job.request, handlerFor s.registry.registered job.request, s.registry.registered⟩]
  /-- Others have found the one for what had been registered by then. -/
  determined : ∀ r ∈ s.routed, r.registered <+: s.registry.registered ∧ r.handler = handlerFor r.registered r.request
  /-- It is this handler that answers; where there is none, `_router` does. -/
  answers : ∀ a ∈ s.answers, a.toRouting ∈ s.routed ∧ (a.handler = none → a.data = [] ∧ a.status = STATUS_NOT_FOUND)

/-- What has become of the requests that the connections have handed over. -/
structure Dispatched (H : Setting env β δ) (s : Service ρ β) : Prop where
  /-- Workers take them in order. -/
  ordered : s.taken ++ s.tasks = (H.loop s.host).requests
  /-- Each that has been taken is routed once, or will be by the worker that has it. -/
  once : (s.routed.map Routing.request ++ s.workers.flatMap (heldAt Position.isRouting)).Perm s.taken
  directed : Directed H s
  /-- Each without a handler is answered by `_router` once, or will be by the worker that has it. -/
  refused : (s.refused ++ s.workers.flatMap (heldAt Position.isNotFound)).Perm s.missing
  /-- When the workers are idle, all of this is done. -/
  idle : s.Idle → (s.routed.map Routing.request).Perm (H.loop s.host).requests ∧ s.refused.Perm s.missing ∧
    s.executed.Perm (H.loop s.host).requests

theorem heldAt_idle (place : Position ρ → Bool) (hidle : s.Idle) : ∀ w ∈ s.workers, heldAt place w = [] := by
  intro w hw
  rw [hidle.2 w hw]
  rfl

theorem Works.directed (hs : Works H s) : Directed H s := by
  refine ⟨fun i depth t ht => ?_, hs.determined, hs.answers⟩
  cases service_step ht with
  | job hworker _ _ _ =>
    refine ⟨_, hworker, ?_⟩
    rw [← s.registry.router_eq]
    rfl

/-- **Every request is dispatched exactly once, to the handler that the registrations determine**, in every run, with
whatever the handlers, other threads and the rest of the system do; and `_router` answers exactly those for which there
is none. -/
theorem requests_dispatched (hthreads : 1 ≤ threads) (h : Reachable (service ρ H threads) s) : Dispatched H s := by
  have hs := reachable_works h
  have hpool := ThreadPool.reachable_lossless hthreads (reachable_pool h)
  have hordered : s.taken ++ s.tasks = (H.loop s.host).requests := hpool.ordered.trans hs.delivered
  refine ⟨hordered, hs.routed, hs.directed, hs.refused, fun hidle => ?_⟩
  · have htaken : s.taken = (H.loop s.host).requests := by rw [← hordered, hidle.1, List.append_nil]
    have hrunning : s.pool.running = [] := by
      refine List.filterMap_eq_nil_iff.mpr fun w hw => ?_
      obtain ⟨w', hw', rfl⟩ := List.mem_map.mp hw
      rw [hidle.2 w' hw']
      rfl
    have hexecuted := hpool.executed
    rw [hrunning, List.append_nil] at hexecuted
    exact ⟨htaken ▸ hs.routed.settled (heldAt_idle _ hidle), hs.refused.settled (heldAt_idle _ hidle),
      htaken ▸ hexecuted⟩

/-- A request without data, and one for the same path that has some. -/
def request8 : Frame := ⟨2, 3, 7, STATUS_REQ, 0, ascii ['/', 'q'], []⟩

def request9 : Frame := ⟨3, 4, 7, STATUS_REQ, 0, ascii ['/', 'q'], [5]⟩

/-- Of three requests the first has a handler for its path, the second one that a function chooses. The third has none
when a worker looks, and is refused though there is one by then. -/
def routedRun : List (ServiceEvent Nat Empty) :=
  [.route (.path (ascii ['/', 'p']) 1), .route (.func (fun request => request.data = []) 2)] ++
    (respondRun.take 7).map .epoll ++
    [.epoll (.event (.once (requestRaw ++ sealedFrame request8 0 ++ sealedFrame request9 0)) 101), .take 1,
      .job 1 .router, .take 0, .job 0 .router, .job 1 (.respond [3] STATUS_OK), .job 0 (.respond [4] STATUS_OK),
      .job 1 .push, .job 1 .returns, .finish 1, .take 1, .job 1 .router, .route (.path (ascii ['/', 'q']) 3),
      .job 1 (.respond [] STATUS_NOT_FOUND), .job 1 .push, .finish 1]

theorem three_dispatched : ∃ s : Service Nat Loop,
    s.routed.map (fun r => (r.request.rid, r.handler)) = [(2, some 1), (3, some 2), (4, none)] ∧
      s.host.commandQueue.length = 2 ∧ Dispatched (Setting.alone listening3) s := by
  have hrun : (execute (fun (s : Service Nat Loop) event => s.perform (Setting.alone listening3) 3 event) routedRun
      {host := {}, workers := [none, none]}).map
        (fun s => (s.routed.map fun r => (r.request.rid, r.handler), s.host.commandQueue.length)) =
        some ([(2, some 1), (3, some 2), (4, none)], 2) := by
    decide +kernel
  obtain ⟨s, hs, hresult⟩ := Option.map_eq_some_iff.mp hrun
  obtain ⟨hrouted, hqueue⟩ := Prod.mk.inj hresult
  have hreach : Reachable (service Nat (Setting.alone listening3) 2) s :=
    .execute (fun _ _ _ _ h => ⟨3, h⟩) (.init ⟨⟨0, rfl⟩, rfl⟩) hs
  exact ⟨s, hrouted, hqueue, requests_dispatched (by decide) hreach⟩

end Fmxp.Server
