import Fmxp.Library.Slots
import Fmxp.Server.Replies
import Fmxp.Server.Router
import Fmxp.Server.ThreadPool

/-! A server at work: the epoll loop, the thread pool and `_router` in its workers.

`_onRequest` makes a task of every request that the epoll thread hands over; a worker that takes the task looks
the request's handler up and calls it, or responds `STATUS_NOT_FOUND` itself. What a handler does is left open: it
may respond, push to any connection and close any, as often as it likes, before it returns. Other threads may do the
same at any time, and also respond to requests that a handler has kept. What the loop runs in is a parameter
(`Setting`): nothing else, or a network with a client. -/
namespace Fmxp.Server
open Transition Slots

/-- What an epoll loop runs in. -/
structure Setting (env : LoopEnv) (β δ : Type) where
  init : β → Prop
  loop : β → Loop
  server : Nat → LoopEvent → β → Option β
  other : Nat → δ → β → Option β
  started : ∀ s, init s → (loop s).Started
  performs : ∀ {depth event s t}, server depth event s = some t → (loop s).perform env depth event = some (loop t)
  apart : ∀ {depth event s t}, other depth event s = some t → loop t = loop s

/-- The loop and nothing else. -/
def Setting.alone (env : LoopEnv) : Setting env Loop Empty where
  init := Loop.Started
  loop := id
  server := fun depth event s => s.perform env depth event
  other := fun _ event _ => event.elim
  started := fun _ h => h
  performs := fun h => h
  apart := fun {_ event _ _} _ => event.elim

/-- Where a worker is in `_router`. -/
inductive Position (ρ : Type) where
  | routing
  | handling (handler : ρ)
  | notFound
  | returning
  deriving DecidableEq, Repr

/-- A request that `_router` has looked up: the handler it has found, and what had been registered by then. -/
structure Routing (ρ : Type) where
  request : Request
  handler : Option ρ
  registered : List (Registration ρ)

/-- A task that is being executed. `pending` is a command that `sendResponse` has made and not yet pushed, `answered`
whether there has been a response, `registered` what had been registered when `_router` looked. -/
structure Job (ρ : Type) where
  request : Request
  position : Position ρ := .routing
  pending : List ServerCommand := []
  answered : Bool := false
  registered : List (Registration ρ) := []

/-- What a worker does in a task. -/
inductive JobEvent where
  | router
  | respond (data : Bytes) (status : UInt8)
  | serverPush (connID : Nat) (path data : Bytes) (status : UInt8)
  | close (connID : Nat)
  | push
  | returns
  deriving DecidableEq, Repr

/-- A response that a worker has asked for, for its request; `handler` is none where `_router` does it. -/
structure Answer (ρ : Type) extends Routing ρ where
  data : Bytes
  status : UInt8

variable {ρ β δ : Type}

/-- The call of the server that it is. -/
def Job.call (job : Job ρ) : JobEvent → Option LoopEvent
  | .respond data status => some (.respond job.request data status)
  | .serverPush connID path data status => some (.serverPush connID path data status)
  | .close connID => some (.closeConnection connID)
  | .push => job.pending.head?.map .push
  | .router | .returns => none

/-- Where the worker is then; `made` is the command the call has made, if any. -/
def Job.next (registry : Registry ρ) (made : List ServerCommand) (job : Job ρ) (event : JobEvent) : Option (Job ρ) :=
  match event, job.position, job.pending with
  | .router, .routing, [] =>
    match registry.routes.router job.request with
    | some handler => some {job with position := .handling handler, registered := registry.registered}
    | none => some {job with position := .notFound, registered := registry.registered}
  | .respond _ _, .handling _, [] => some {job with pending := made, answered := true}
  | .respond data status, .notFound, [] =>
    if data = [] ∧ status = STATUS_NOT_FOUND then
      some {job with position := .returning, pending := made, answered := true}
    else none
  | .serverPush .., .handling _, [] => some {job with pending := made}
  | .close _, .handling _, [] => some job
  | .push, _, _ :: rest => some {job with pending := rest}
  | .returns, .handling _, [] => some {job with position := .returning}
  | _, _, _ => none

def Position.handler : Position ρ → Option ρ
  | .handling handler => some handler
  | _ => none

/-- The answer it gives. -/
def Job.answer (job : Job ρ) : JobEvent → List (Answer ρ)
  | .respond data status => [⟨⟨job.request, job.position.handler, job.registered⟩, data, status⟩]
  | _ => []

structure Service (ρ β : Type) where
  host : β
  registry : Registry ρ := {}
  tasks : List Request := []
  workers : List (Option (Job ρ))
  enqueued : List Request := []
  taken : List Request := []
  executed : List Request := []
  routed : List (Routing ρ) := []
  answers : List (Answer ρ) := []
  outside : List ServerCommand := []

inductive ServiceEvent (ρ δ : Type) where
  | route (registration : Registration ρ)
  | epoll (event : LoopEvent)
  | take (worker : Nat)
  | job (worker : Nat) (event : JobEvent)
  | finish (worker : Nat)
  | outside (event : LoopEvent)
  | other (event : δ)

/-- What the epoll thread does, as opposed to calls from other threads. -/
def LoopEvent.epoll : LoopEvent → Bool
  | .wait _ | .event _ _ | .accept _ | .accepted | .command | .drained => true
  | .respond .. | .serverPush .. | .push _ | .closeConnection _ => false

/-- The commands a call has made. -/
def Loop.made (s t : Loop) : List ServerCommand := t.responding.drop s.responding.length

/-- The requests a step of the epoll thread has handed over. -/
def Loop.arrived (s t : Loop) : List Request := t.requests.drop s.requests.length

namespace Service

/-- `_onRequest`, for all that has arrived. -/
def onRequests (requests : List Request) (s : Service ρ β) : Service ρ β :=
  {s with tasks := s.tasks ++ requests, enqueued := s.enqueued ++ requests}

/-- What a step of a task adds to what has been routed. -/
def newlyRouted (s : Service ρ β) (job : Job ρ) (event : JobEvent) : List (Routing ρ) :=
  if event = .router then [⟨job.request, s.registry.routes.router job.request, s.registry.registered⟩] else []

/-- What a step of a task leaves. -/
def worked (i : Nat) (event : JobEvent) (job job' : Job ρ) (host : β) (s : Service ρ β) : Service ρ β :=
  {s with
    host := host
    workers := s.workers.set i (some job')
    routed := s.routed ++ s.newlyRouted job event
    answers := s.answers ++ job.answer event}

def perform {env : LoopEnv} (H : Setting env β δ) (depth : Nat) (event : ServiceEvent ρ δ) (s : Service ρ β) :
    Option (Service ρ β) :=
  match event with
  | .route registration => some {s with registry := s.registry.route registration}
  | .epoll event =>
    if event.epoll then
      (H.server depth event s.host).map fun host =>
        {s.onRequests ((H.loop s.host).arrived (H.loop host)) with host := host}
    else none
  | .take i =>
    match s.workers[i]?, s.tasks with
    | some none, request :: rest =>
      some {s with tasks := rest, taken := s.taken ++ [request], workers := s.workers.set i (some {request := request})}
    | _, _ => none
  | .job i event =>
    match s.workers[i]? with
    | some (some job) =>
      match job.call event with
      | none => (job.next s.registry [] event).map fun job' => s.worked i event job job' s.host
      | some call =>
        (H.server depth call s.host).bind fun host =>
          (job.next s.registry ((H.loop s.host).made (H.loop host)) event).map fun job' =>
            s.worked i event job job' host
    | _ => none
  | .finish i =>
    match s.workers[i]? with
    | some (some job) =>
      match job.position, job.pending with
      | .returning, [] => some {s with executed := s.executed ++ [job.request], workers := s.workers.set i none}
      | _, _ => none
    | _ => none
  | .outside event =>
    match event with
    | .respond .. | .serverPush .. | .closeConnection _ =>
      (H.server depth event s.host).map fun host =>
        {s with host := host, outside := s.outside ++ (H.loop s.host).made (H.loop host)}
    | .push cmd =>
      if cmd ∈ s.outside then
        (H.server depth event s.host).map fun host => {s with host := host, outside := s.outside.erase cmd}
      else none
    | _ => none
  | .other event => (H.other depth event s.host).map fun host => {s with host := host}

end Service

/-- A server with a pool of `threads` workers. -/
def service (ρ : Type) {env : LoopEnv} (H : Setting env β δ) (threads : Nat) :
    System (Service ρ β) (ServiceEvent ρ δ) where
  init := fun s => H.init s.host ∧ s = {host := s.host, workers := List.replicate threads none}
  step := fun s event t => ∃ depth, s.perform H depth event = some t

/-! ### What a step is -/

/-- A step of a task, by where the worker is. -/
inductive JobStep (registry : Registry ρ) (made : List ServerCommand) (job : Job ρ) : JobEvent → Job ρ → Prop
  | found {handler : ρ} : job.position = .routing → job.pending = [] →
      registry.routes.router job.request = some handler →
      JobStep registry made job .router {job with position := .handling handler, registered := registry.registered}
  | missed : job.position = .routing → job.pending = [] → registry.routes.router job.request = none →
      JobStep registry made job .router {job with position := .notFound, registered := registry.registered}
  | responded {handler : ρ} {data : Bytes} {status : UInt8} : job.position = .handling handler → job.pending = [] →
      JobStep registry made job (.respond data status) {job with pending := made, answered := true}
  | refused : job.position = .notFound → job.pending = [] →
      JobStep registry made job (.respond [] STATUS_NOT_FOUND)
        {job with position := .returning, pending := made, answered := true}
  | serverPush {handler : ρ} {connID : Nat} {path data : Bytes} {status : UInt8} :
      job.position = .handling handler → job.pending = [] →
      JobStep registry made job (.serverPush connID path data status) {job with pending := made}
  | close {handler : ρ} {connID : Nat} : job.position = .handling handler → job.pending = [] →
      JobStep registry made job (.close connID) job
  | push {cmd : ServerCommand} {rest : List ServerCommand} : job.pending = cmd :: rest →
      JobStep registry made job .push {job with pending := rest}
  | returned {handler : ρ} : job.position = .handling handler → job.pending = [] →
      JobStep registry made job .returns {job with position := .returning}

theorem next_step {registry : Registry ρ} {made : List ServerCommand} {job job' : Job ρ} {event : JobEvent}
    (h : job.next registry made event = some job') : JobStep registry made job event job' := by
  unfold Job.next at h
  split at h
  · next hposition hpending =>
    split at h
    · next handler hrouter =>
      cases h
      exact .found hposition hpending hrouter
    · next hrouter =>
      cases h
      exact .missed hposition hpending hrouter
  · next hposition hpending =>
    cases h
    exact .responded hposition hpending
  · next hposition hpending =>
    obtain ⟨⟨rfl, rfl⟩, h⟩ := Option.ite_none_right_eq_some.mp h
    cases h
    exact .refused hposition hpending
  · next hposition hpending =>
    cases h
    exact .serverPush hposition hpending
  · next hposition hpending =>
    cases h
    exact .close hposition hpending
  · next hpending =>
    cases h
    exact .push hpending
  · next hposition hpending =>
    cases h
    exact .returned hposition hpending
  · cases h

/-- What a call from a worker, or from outside, does to the host. -/
inductive SettingStep {env : LoopEnv} (H : Setting env β δ) (depth : Nat) (host : β) : Option LoopEvent → β → Prop
  | none : SettingStep H depth host none host
  | call {call : LoopEvent} {host' : β} : H.server depth call host = some host' →
      SettingStep H depth host (some call) host'

inductive ServiceStep {env : LoopEnv} (H : Setting env β δ) (depth : Nat) (s : Service ρ β) :
    ServiceEvent ρ δ → Service ρ β → Prop
  | route {registration : Registration ρ} : ServiceStep H depth s (.route registration)
      {s with registry := s.registry.route registration}
  | epoll {event : LoopEvent} {host : β} : event.epoll = true → H.server depth event s.host = some host →
      ServiceStep H depth s (.epoll event)
        {s.onRequests ((H.loop s.host).arrived (H.loop host)) with host := host}
  | take {i : Nat} {request : Request} {rest : List Request} : s.workers[i]? = some none → s.tasks = request :: rest →
      ServiceStep H depth s (.take i)
        {s with tasks := rest, taken := s.taken ++ [request], workers := s.workers.set i (some {request := request})}
  | job {i : Nat} {event : JobEvent} {job job' : Job ρ} {host : β} {made : List ServerCommand} :
      s.workers[i]? = some (some job) → SettingStep H depth s.host (job.call event) host →
      made = (if job.call event = none then [] else (H.loop s.host).made (H.loop host)) →
      JobStep s.registry made job event job' →
      ServiceStep H depth s (.job i event) (s.worked i event job job' host)
  | finish {i : Nat} {job : Job ρ} : s.workers[i]? = some (some job) → job.position = .returning → job.pending = [] →
      ServiceStep H depth s (.finish i)
        {s with executed := s.executed ++ [job.request], workers := s.workers.set i none}
  | outside {event : LoopEvent} {host : β} : event.epoll = false → (∀ cmd, event ≠ .push cmd) →
      H.server depth event s.host = some host →
      ServiceStep H depth s (.outside event)
        {s with host := host, outside := s.outside ++ (H.loop s.host).made (H.loop host)}
  | outsidePush {cmd : ServerCommand} {host : β} : cmd ∈ s.outside → H.server depth (.push cmd) s.host = some host →
      ServiceStep H depth s (.outside (.push cmd)) {s with host := host, outside := s.outside.erase cmd}
  | other {event : δ} {host : β} : H.other depth event s.host = some host →
      ServiceStep H depth s (.other event) {s with host := host}

theorem service_step {env : LoopEnv} {H : Setting env β δ} {depth : Nat} {event : ServiceEvent ρ δ} {s t : Service ρ β}
    (h : s.perform H depth event = some t) : ServiceStep H depth s event t := by
  cases event with
  | route registration =>
    cases h
    exact .route
  | epoll event =>
    simp only [Service.perform, Option.ite_none_right_eq_some] at h
    obtain ⟨hepoll, h⟩ := h
    obtain ⟨host, hhost, rfl⟩ := Option.map_eq_some_iff.mp h
    exact .epoll hepoll hhost
  | take i =>
    simp only [Service.perform] at h
    split at h
    · next hworker htasks =>
      cases h
      exact .take hworker htasks
    · cases h
  | job i event =>
    simp only [Service.perform] at h
    split at h
    · next job hworker =>
      split at h
      · next hcall =>
        obtain ⟨job', hjob, rfl⟩ := Option.map_eq_some_iff.mp h
        exact .job hworker (hcall ▸ .none) (by rw [if_pos hcall]) (next_step hjob)
      · next call hcall =>
        obtain ⟨host, hhost, h⟩ := Option.bind_eq_some_iff.mp h
        obtain ⟨job', hjob, rfl⟩ := Option.map_eq_some_iff.mp h
        exact .job hworker (hcall ▸ .call hhost) (by rw [hcall, if_neg (by nofun)]) (next_step hjob)
    · cases h
  | finish i =>
    simp only [Service.perform] at h
    split at h
    · next job hworker =>
      split at h
      · next hposition hpending =>
        cases h
        exact .finish hworker hposition hpending
      · cases h
    · cases h
  | outside event =>
    simp only [Service.perform] at h
    split at h
    · obtain ⟨host, hhost, rfl⟩ := Option.map_eq_some_iff.mp h
      exact .outside rfl nofun hhost
    · obtain ⟨host, hhost, rfl⟩ := Option.map_eq_some_iff.mp h
      exact .outside rfl nofun hhost
    · obtain ⟨host, hhost, rfl⟩ := Option.map_eq_some_iff.mp h
      exact .outside rfl nofun hhost
    · obtain ⟨hmem, h⟩ := Option.ite_none_right_eq_some.mp h
      obtain ⟨host, hhost, rfl⟩ := Option.map_eq_some_iff.mp h
      exact .outsidePush hmem hhost
    · cases h
  | other event =>
    obtain ⟨host, hhost, rfl⟩ := Option.map_eq_some_iff.mp h
    exact .other hhost

end Fmxp.Server
