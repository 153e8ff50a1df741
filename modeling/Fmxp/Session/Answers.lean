import Fmxp.Server.Routing
import Fmxp.Session.Responses

/-! One response for every request.

A server with its workers and a client at the other end of one of its connections. Where every handler that is given a
request of that connection responds to it once, and nobody else sends anything to the client, the client is given one
response for each of its requests, with the request's path: what the handler has said, or `STATUS_NOT_FOUND`
(`one_response_each`). It does not matter how the workers take turns, or what they do for other connections. -/
namespace Fmxp.Server
open Transition Slots

theorem client_apart {e : ExchangeEnv} {depth : Nat} {event : Client.Event} {q r : Exchange}
    (h : q.perform e depth (.client event) = some r) : r.loop = q.loop ∧ r.called = q.called := by
  cases event with
  | readable input =>
    simp only [Exchange.perform, Option.ite_none_right_eq_some] at h
    obtain ⟨_, h⟩ := h
    obtain ⟨p, _, rfl⟩ := Option.map_eq_some_iff.mp h
    exact ⟨rfl, rfl⟩
  | _ =>
    obtain ⟨p, _, rfl⟩ := Option.map_eq_some_iff.mp h
    exact ⟨rfl, rfl⟩

/-- The loop, the link of one connection and the client. -/
def Setting.exchange (e : ExchangeEnv) : Setting e.server Exchange Client.Event where
  init := (Fmxp.exchange e).init
  loop := Exchange.loop
  server := fun depth event q => q.perform e depth (.server event)
  other := fun depth event q => q.perform e depth (.client event)
  started := fun _ h => h.1
  performs := by
    intro depth event q r h
    obtain ⟨t, ht, rfl⟩ := Option.map_eq_some_iff.mp h
    exact ht
  apart := fun h => (client_apart h).1

variable {ρ : Type} {e : ExchangeEnv} {threads depth : Nat} {event : ServiceEvent ρ Client.Event}
  {s t : Service ρ Exchange}

/-! ### What is asked of a run -/

/-- The step of the exchange that it is. -/
def Service.within (s : Service ρ Exchange) : ServiceEvent ρ Client.Event → Option ExchangeEvent
  | .epoll event | .outside event => some (.server event)
  | .other event => some (.client event)
  | .job i event =>
    match s.workers[i]? with
    | some (some job) => (job.call event).map .server
    | _ => none
  | .route _ | .take _ | .finish _ => none

/-- A step of a task whose request came from connection `c`: the handler responds once before it returns. No task
pushes anything to the connection. -/
def Job.Prompt (c : Nat) (job : Job ρ) : JobEvent → Prop
  | .respond _ _ => job.request.connID = c → job.answered = false
  | .returns => job.request.connID = c → job.answered = true
  | .serverPush connID _ _ _ => connID ≠ c
  | _ => True

/-- The exchange is not disturbed and the encoder takes its frames, handlers respond once, and nothing else is sent on
the connection. -/
def Answering (e : ExchangeEnv) (s : Service ρ Exchange) (event : ServiceEvent ρ Client.Event) : Prop :=
  (∀ x ∈ s.within event, Carried e s.host x) ∧ match event with
    | .job i event => ∀ w ∈ s.workers[i]?, ∀ job ∈ w, job.Prompt e.connId event
    | .outside (.respond request _ _) => request.connID ≠ e.connId
    | .outside (.serverPush connID _ _ _) => connID ≠ e.connId
    | _ => True

theorem reachable_exchange (h : Reachable ((service ρ (Setting.exchange e) threads).under (Answering e)) s) :
    Reachable ((Fmxp.exchange e).under (Carried e)) s.host := by
  refine h.simulates Service.host ?_ ?_
  · exact fun s hs => hs.1
  rintro s event t _ ⟨⟨hrule, _⟩, depth, hperform⟩
  cases service_step hperform with
  | route | take | finish => exact .inl rfl
  | epoll _ hhost | outside _ _ hhost | outsidePush _ hhost | other hhost => exact .inr ⟨_, hrule _ rfl, depth, hhost⟩
  | @job i event job job' host made hworker hhost _ _ =>
    have hwithin : s.within (.job i event) = (job.call event).map .server := by
      simp only [Service.within, hworker]
    rw [hwithin] at hrule
    show host = s.host ∨ _
    generalize job.call event = call at hhost hrule
    cases hhost with
    | none => exact .inl rfl
    | call hcall => exact .inr ⟨_, hrule _ rfl, depth, hcall⟩

/-! ### The answers -/

def Answer.response (a : Answer ρ) : Client.Response := ⟨a.request.path, a.data, a.status⟩

/-- The answers for the requests of connection `c`. -/
def Service.answersTo (c : Nat) (s : Service ρ Exchange) : List (Answer ρ) :=
  s.answers.filter fun a => a.request.connID = c

def Service.answered (c : Nat) (s : Service ρ Exchange) : List Request := (s.answersTo c).map fun a => a.request

/-- The task's request, where it came from connection `c` and there has been no response. -/
def unanswered (c : Nat) : Option (Job ρ) → List Request
  | none => []
  | some job => if job.request.connID = c ∧ job.answered = false then [job.request] else []

structure Prompted (e : ExchangeEnv) (s : Service ρ Exchange) : Prop where
  once : Accounts (unanswered e.connId) (s.answered e.connId) s.workers
    (s.taken.filter fun request => request.connID = e.connId)
  answered : ∀ job, some job ∈ s.workers → job.request.connID = e.connId → job.position = .returning →
    job.answered = true
  called : s.host.called = (s.answersTo e.connId).map Answer.response

theorem JobStep.unanswered {registry : Registry ρ} {made : List ServerCommand} {job job' : Job ρ}
    {event : JobEvent} {c : Nat} (h : JobStep registry made job event job') (hprompt : job.Prompt c event) :
    ((job.answer event).filter fun a => a.request.connID = c).map (fun a => a.request) ++ unanswered c (some job') =
      unanswered c (some job) := by
  cases h with
  | found | missed | serverPush | close | push | returned => rfl
  | responded | refused =>
    by_cases hc : job.request.connID = c
    · simp [Job.answer, Server.unanswered, hc, hprompt hc]
    · simp [Job.answer, Server.unanswered, hc]

theorem JobStep.answered {registry : Registry ρ} {made : List ServerCommand} {job job' : Job ρ}
    {event : JobEvent} {c : Nat} (h : JobStep registry made job event job') (hprompt : job.Prompt c event)
    (hjob : job.request.connID = c → job.position = .returning → job.answered = true) (hc : job'.request.connID = c)
    (hreturning : job'.position = .returning) : job'.answered = true := by
  cases h with
  | found | missed => cases hreturning
  | responded | refused => rfl
  | serverPush hposition | close hposition => exact hjob hc hreturning
  | push => exact hjob hc hreturning
  | returned => exact hprompt hc

/-- A task asks for a response of connection `c` exactly where it answers. -/
theorem JobStep.called {registry : Registry ρ} {made : List ServerCommand} {job job' : Job ρ}
    {event : JobEvent} {c : Nat} (h : JobStep registry made job event job') (hprompt : job.Prompt c event) :
    (job.call event).elim [] (Server.called c) =
      ((job.answer event).filter fun a => a.request.connID = c).map Answer.response := by
  cases h with
  | found | missed | returned | close => rfl
  | responded | refused =>
    by_cases hc : job.request.connID = c
    · simp [Job.call, Server.called, Job.answer, Answer.response, hc]
    · simp [Job.call, Server.called, Job.answer, hc]
  | serverPush => exact if_neg hprompt
  | push hpending =>
    simp only [Job.call, hpending]
    rfl

theorem SettingStep.called {call : Option LoopEvent} {q r : Exchange}
    (h : SettingStep (Setting.exchange e) depth q call r) :
    r.called = q.called ++ call.elim [] (Server.called e.connId) := by
  cases h with
  | none => exact (List.append_nil _).symm
  | call hcall =>
    obtain ⟨t, _, rfl⟩ := Option.map_eq_some_iff.mp hcall
    rfl

theorem Prompted.step (hs : Prompted e s) (hrule : Answering e s event)
    (h : ServiceStep (Setting.exchange e) depth s event t) : Prompted e t := by
  -- A call from outside asks for nothing on the connection.
  have hquiet : ∀ {call host}, Server.called e.connId call = [] →
      SettingStep (Setting.exchange e) depth s.host (some call) host →
      host.called = (s.answersTo e.connId).map Answer.response := by
    intro call host hnone hhost
    rw [hhost.called, hs.called]
    show _ ++ Server.called e.connId call = _
    rw [hnone, List.append_nil]
  cases h with
  | route => exact ⟨hs.once, hs.answered, hs.called⟩
  | @epoll event host hepoll hhost =>
    refine ⟨hs.once, hs.answered, hquiet ?_ (.call hhost)⟩
    cases event with
    | wait | event | accept | accepted | command | drained => rfl
    | respond | serverPush | push | closeConnection => cases hepoll
  | @take i request rest hworker htasks =>
    refine ⟨?_, fun job hjob hc hreturning => ?_, hs.called⟩
    · show Accounts _ _ _ ((s.taken ++ [request]).filter _)
      rw [List.filter_append]
      refine hs.once.take hworker ?_
      by_cases hc : request.connID = e.connId <;> simp [unanswered, hc]
    · rcases List.mem_or_eq_of_mem_set hjob with hold | heq
      · exact hs.answered job hold hc hreturning
      · cases heq
        cases hreturning
  | @job i event job job' host made hworker hhost hmade hstep =>
    have hprompt : job.Prompt e.connId event := hrule.2 _ hworker job rfl
    refine ⟨?_, fun job'' hjob hc hreturning => ?_, ?_⟩
    · show Accounts _ (((s.answers ++ job.answer event).filter _).map _) _ _
      rw [List.filter_append, List.map_append]
      exact hs.once.finish hworker (hstep.unanswered hprompt)
    · rcases List.mem_or_eq_of_mem_set hjob with hold | heq
      · exact hs.answered job'' hold hc hreturning
      · cases heq
        exact hstep.answered hprompt (hs.answered job (List.mem_of_getElem? hworker)) hc hreturning
    · show host.called = ((s.answers ++ job.answer event).filter _).map _
      rw [List.filter_append, List.map_append, hhost.called, hs.called, hstep.called hprompt]
      rfl
  | @finish i job hworker hposition hpending =>
    refine ⟨hs.once.set_same hworker ?_, fun job' hjob hc hreturning => ?_, hs.called⟩
    · show [] = if job.request.connID = e.connId ∧ job.answered = false then [job.request] else []
      rw [if_neg]
      rintro ⟨hc, hunanswered⟩
      rw [hs.answered job (List.mem_of_getElem? hworker) hc hposition] at hunanswered
      cases hunanswered
    · rcases List.mem_or_eq_of_mem_set hjob with hold | heq
      · exact hs.answered job' hold hc hreturning
      · cases heq
  | @outside event host hepoll hpush hhost =>
    refine ⟨hs.once, hs.answered, hquiet ?_ (.call hhost)⟩
    cases event with
    | wait | event | accept | accepted | command | drained => cases hepoll
    | respond | serverPush => exact if_neg hrule.2
    | push => exact absurd rfl (hpush _)
    | closeConnection => rfl
  | @outsidePush cmd host hmem hhost => exact ⟨hs.once, hs.answered, hquiet rfl (.call hhost)⟩
  | @other event host hhost =>
    exact ⟨hs.once, hs.answered, (client_apart hhost).2.trans hs.called⟩

theorem reachable_prompted (h : Reachable ((service ρ (Setting.exchange e) threads).under (Answering e)) s) :
    Prompted e s := by
  induction h with
  | @init s hs =>
    obtain ⟨⟨_, _, _, hcalled, _⟩, hs⟩ := hs
    have hidle : ∀ w ∈ List.replicate threads (none : Option (Job ρ)), w = none :=
      fun w hw => List.eq_of_mem_replicate hw
    rw [hs]
    refine ⟨.start fun w hw => ?_, fun job hjob => ?_, hcalled⟩
    · rw [hidle w hw]
      rfl
    · cases hidle _ hjob
  | step _ hstep ih =>
    obtain ⟨hrule, depth, hperform⟩ := hstep
    exact ih.step hrule (service_step hperform)

/-! ### What the client is given -/

/-- The workers are idle, and nothing for the client is on its way. -/
structure Service.Settled (e : ExchangeEnv) (s : Service ρ Exchange) : Prop where
  idle : s.Idle
  outside : s.outside = []
  queue : framesFor e.connId s.host.loop.commandQueue = []
  link : s.host.link = []
  pending : s.host.process.pending = []

structure OneEach (e : ExchangeEnv) (s : Service ρ Exchange) : Prop where
  /-- Of the requests of the connection that workers have taken, each has its one answer, or the worker that has it is
  yet to give it. -/
  once : (s.answered e.connId ++ s.workers.flatMap (unanswered e.connId)).Perm
    (s.taken.filter fun request => request.connID = e.connId)
  /-- The client is given nothing but these answers, and none of them twice. -/
  only : ∃ rest, (s.host.received ++ rest).Perm ((s.answersTo e.connId).map Answer.response)
  /-- In the end there is an answer for each request, and the client has been given it. -/
  settled : s.Settled e →
    (s.answered e.connId).Perm
      (s.host.loop.requests.filter fun request => request.connID = e.connId) ∧
    s.host.received.Perm ((s.answersTo e.connId).map Answer.response)
  /-- And it is the answer of the handler that the registrations determine, or says that there is none. -/
  directed : Directed (Setting.exchange e) s

/-- **One response for every request**, in every run in which handlers respond once and nothing disturbs the exchange:
however the workers take turns, and whatever happens on other connections. -/
theorem one_response_each (hthreads : 1 ≤ threads)
    (h : Reachable ((service ρ (Setting.exchange e) threads).under (Answering e)) s) : OneEach e s := by
  have hs := reachable_prompted h
  have hworks := reachable_works h.of_under
  have hpool := ThreadPool.reachable_lossless hthreads (reachable_pool h.of_under)
  obtain ⟨unread, hconveys⟩ := reachable_conveys (reachable_exchange h)
  obtain ⟨rest, hentered, hdone⟩ := hconveys.received
  have hcalled := hconveys.called
  rw [hs.called, hentered, List.append_assoc] at hcalled
  refine ⟨hs.once, ⟨_, hcalled.symm⟩, fun hsettled => ?_, hworks.directed⟩
  · have hidle : ∀ {α : Type} (f : Option (Job ρ) → List α), f none = [] → ∀ w ∈ s.workers, f w = [] := by
      intro α f hf w hw
      rw [hsettled.idle.2 w hw, hf]
    have htaken : s.taken = s.host.loop.requests := by
      have hordered : s.taken ++ s.tasks = s.host.loop.requests := hpool.ordered.trans hworks.delivered
      rw [← hordered, hsettled.idle.1, List.append_nil]
    have hresponding : s.host.loop.responding = [] := by
      have hmade := hworks.made.settled (hidle _ rfl)
      rw [hsettled.outside] at hmade
      exact List.nil_perm.mp hmade
    rw [hdone hsettled.queue hsettled.link hsettled.pending, hresponding] at hcalled
    refine ⟨htaken ▸ hs.once.settled (hidle _ rfl), ?_⟩
    simpa [framesFor] using hcalled.symm

/-! ### A request and its response -/

instance (c : Nat) (job : Job ρ) (event : JobEvent) : Decidable (job.Prompt c event) :=
  match event with
  | .respond _ _ | .returns => inferInstanceAs (Decidable (_ → _ = _))
  | .serverPush connID _ _ _ => inferInstanceAs (Decidable (connID ≠ c))
  | .router | .close _ | .push => .isTrue trivial

instance (s : Service ρ Exchange) (event : ServiceEvent ρ Client.Event) : Decidable (Answering e s event) :=
  match event with
  | .job i event =>
    inferInstanceAs (Decidable (_ ∧ ∀ w ∈ s.workers[i]?, ∀ job ∈ w, job.Prompt e.connId event))
  | .outside (.respond request _ _) => inferInstanceAs (Decidable (_ ∧ request.connID ≠ e.connId))
  | .outside (.serverPush connID _ _ _) => inferInstanceAs (Decidable (_ ∧ connID ≠ e.connId))
  | .outside (.wait _) | .outside (.event ..) | .outside (.accept _) | .outside .accepted | .outside .command
  | .outside .drained | .outside (.push _) | .outside (.closeConnection _) | .route _ | .epoll _ | .take _ | .finish _
  | .other _ => inferInstanceAs (Decidable (_ ∧ True))

/-- Of two requests one is taken by a function's handler, and one goes to the handler for its path. Two workers answer,
the first request last. -/
def respondedRun : List (ServiceEvent Nat Client.Event) :=
  [.route (.func (fun request => request.data = []) 1), .route (.path (ascii ['/', 'p']) 2)] ++
    (respondRun.take 7).map .epoll ++
    [.epoll (.event (.once (requestRaw ++ sealedFrame request8 0)) 101), .take 0, .take 1, .job 0 .router,
      .job 1 .router, .job 1 (.respond [4] STATUS_OK), .job 1 .push, .job 1 .returns, .finish 1,
      .job 0 (.respond [3] STATUS_OK), .job 0 .push, .job 0 .returns, .finish 0, .epoll (.wait [⟨4, false, true, 0⟩]), .epoll (.event (.once []) 102),
      .epoll .command, .epoll .command, .epoll .drained, .other (.start 100),
      .other (.readable (.once (Client.confirmationRaw ++
        sealedFrame ⟨2, 3, 7, STATUS_OK, 0, ascii ['/', 'q'], [4]⟩ 0 ++ sealedFrame Client.response7 3))),
      .other .dispatch, .other .dispatch]

theorem answered_once_each : ∃ s : Service Nat Exchange,
    s.host.received = [⟨ascii ['/', 'q'], [4], STATUS_OK⟩, ⟨ascii ['/', 'p'], [3], STATUS_OK⟩] ∧
      s.answers.map (fun a => (a.request.rid, a.handler)) = [(3, some 1), (2, some 2)] ∧ OneEach firstExchange s := by
  have hrun : (execute (guarded (Answering firstExchange)
      fun (s : Service Nat Exchange) event => s.perform (Setting.exchange firstExchange) 3 event) respondedRun
      {host := {loop := {}, process := Client.connected3}, workers := [none, none]}).map
        (fun s => (s.host.received, s.answers.map fun a => (a.request.rid, a.handler))) =
        some ([⟨ascii ['/', 'q'], [4], STATUS_OK⟩, ⟨ascii ['/', 'p'], [3], STATUS_OK⟩],
          [(3, some 1), (2, some 2)]) := by
    decide +kernel
  obtain ⟨s, hs, hresult⟩ := Option.map_eq_some_iff.mp hrun
  obtain ⟨hreceived, hanswers⟩ := Prod.mk.inj hresult
  have hinit : ((service Nat (Setting.exchange firstExchange) 2).under (Answering firstExchange)).init
      {host := {loop := {}, process := Client.connected3}, workers := [none, none]} :=
    ⟨⟨⟨0, rfl⟩, Client.connected3_fresh, rfl, rfl, rfl⟩, rfl⟩
  have hreach : Reachable ((service Nat (Setting.exchange firstExchange) 2).under (Answering firstExchange)) s :=
    .execute (fun _ _ _ _ h => guarded_step (fun _ _ h => ⟨3, h⟩) h) (.init hinit) hs
  exact ⟨s, hreceived, hanswers, one_response_each (by decide) hreach⟩

end Fmxp.Server
