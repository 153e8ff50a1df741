import Fmxp.Client.Numbering
import Fmxp.Library.Signal
import Fmxp.Server.Isolation

/-! Commands and the eventfd that announces them.

Every thread that pushes a command adds 1 to the counter of `_cmdEvFd` afterwards. The epoll
thread is woken while the counter is not 0, resets it with one read, and then handles commands until it
finds none. `Waking` adds the counter to the server's loop and to the client's process, from the moment the
descriptor exists; both are a `Signal` to their command queue, so no wake-up is lost. -/
namespace Fmxp
open Transition

/-- Adding 1 to a non-blocking eventfd. At the largest value its counter can have, the write fails. -/
def eventfdWrite (counter : UInt64) : UInt64 := if counter < 0xfffffffffffffffe then counter + 1 else counter

theorem eventfdWrite_ne_zero (counter : UInt64) : eventfdWrite counter ≠ 0 := by
  unfold eventfdWrite
  intro h
  have hnat := congrArg UInt64.toNat h
  split at hnat
  · next hlt =>
    have hlt' : counter.toNat < 0xfffffffffffffffe := UInt64.lt_iff_toNat_lt.mp hlt
    rw [UInt64.toNat_add] at hnat
    simp only [UInt64.reduceToNat] at hnat
    omega
  · next hge =>
    have hge' : ¬ counter.toNat < 0xfffffffffffffffe := fun hlt => hge (UInt64.lt_iff_toNat_lt.mpr hlt)
    simp only [UInt64.reduceToNat] at hnat
    omega

namespace Server

/-- A server, the counter of its command descriptor and the threads that have pushed a command and not yet
called `_wakeEpoll`, with all commands that were pushed and popped. -/
structure Waking (π : Type*) where
  loop : Loop
  counter : UInt64 := 0
  between : π → Bool := fun _ => false
  pushed : List ServerCommand := []
  popped : List ServerCommand := []

inductive WakingEvent (π : Type*) where
  | step (event : LoopEvent)
  | push (thread : π) (event : LoopEvent)
  | wakeEpoll (thread : π)

/-- The command a call pushes on the queue. -/
def LoopEvent.pushes : LoopEvent → Option ServerCommand
  | .push cmd => some cmd
  | .closeConnection connID => some ⟨.close, connID, none⟩
  | _ => none

section
variable {π : Type*} [DecidableEq π]

/-- What a step of the loop does to the counter: only an event of the command descriptor reads it. -/
def Waking.perform (env : LoopEnv) (depth : Nat) (event : WakingEvent π) (w : Waking π) : Option (Waking π) :=
  match event with
  | .step event =>
    match event with
    | .push _ | .closeConnection _ => none
    | .wait batch =>
      if w.counter = 0 ∧ env.cmdEvFd ∈ batch.map EpollEvent.fd then none
      else (w.loop.perform env depth event).map fun loop => {w with loop := loop}
    | .event _ _ => (w.loop.perform env depth event).map fun loop =>
        {w with
          loop := loop
          counter := if w.loop.events.head?.map EpollEvent.fd = some env.cmdEvFd then 0 else w.counter}
    | .command => (w.loop.perform env depth event).map fun loop =>
        {w with loop := loop, popped := w.popped ++ w.loop.commandQueue.head?.toList}
    | _ => (w.loop.perform env depth event).map fun loop => {w with loop := loop}
  | .push thread event =>
    match event.pushes with
    | none => none
    | some cmd =>
      if w.between thread then none
      else (w.loop.perform env depth event).map fun loop =>
        {w with loop := loop, between := Function.update w.between thread true, pushed := w.pushed ++ [cmd]}
  | .wakeEpoll thread =>
    if w.between thread then
      some {w with counter := eventfdWrite w.counter, between := Function.update w.between thread false}
    else none

def waking (π : Type*) [DecidableEq π] (env : LoopEnv) : System (Waking π) (WakingEvent π) where
  init := fun w => ∃ loop, loop.Started ∧ w = {loop := loop}
  step := fun w event v => ∃ depth, w.perform env depth event = some v

/-- The epoll thread is in `epoll_wait`. -/
def Loop.Waiting (s : Loop) : Prop := s.phase = .events ∧ s.events = [] ∧ s.uncaught = none

instance (s : Loop) : Decidable s.Waiting := inferInstanceAs (Decidable (_ ∧ _))

/-! ### The counter is a signal -/

theorem Waking.perform_loop {env : LoopEnv} {depth : Nat} {event : WakingEvent π} {w v : Waking π}
    (h : w.perform env depth event = some v) :
    v.loop = w.loop ∨ ∃ e, w.loop.perform env depth e = some v.loop := by
  unfold Waking.perform at h
  split at h
  · split at h
    case h_1 | h_2 => cases h
    case h_3 =>
      split at h
      · cases h
      · obtain ⟨loop, hloop, rfl⟩ := Option.map_eq_some_iff.mp h
        exact .inr ⟨_, hloop⟩
    all_goals
      obtain ⟨loop, hloop, rfl⟩ := Option.map_eq_some_iff.mp h
      exact .inr ⟨_, hloop⟩
  · split at h
    · cases h
    · split at h
      · cases h
      · obtain ⟨loop, hloop, rfl⟩ := Option.map_eq_some_iff.mp h
        exact .inr ⟨_, hloop⟩
  · split at h <;> cases h
    exact .inl rfl

/-- The counter takes nothing from the server's loop: its runs are runs of `epollLoop`. -/
theorem waking_loop {env : LoopEnv} {w : Waking π} (h : Reachable (waking π env) w) :
    Reachable (epollLoop env) w.loop := by
  apply h.simulates Waking.loop
  · rintro w ⟨loop, hloop, rfl⟩
    exact hloop
  · rintro w event v _ ⟨depth, hv⟩
    rcases Waking.perform_loop hv with hsame | ⟨e, he⟩
    · exact .inl hsame
    · exact .inr ⟨e, depth, he⟩

omit [DecidableEq π] in
/-- The command queue and its counter, without the rest of the server. -/
def Waking.signal (w : Waking π) : Signal.State ServerCommand π where
  queue := w.loop.commandQueue
  raised := w.counter ≠ 0
  draining := w.loop.phase = .commands
  halfway := w.between
  pushed := w.pushed
  popped := w.popped

theorem EventEffect.queue {env : LoopEnv} {depth : Nat} {e : EpollEvent} {input : Recv} {now : UInt32}
    {s t : Loop} (h : EventEffect env depth e input now s t) :
    t.commandQueue = s.commandQueue ∧ t.phase = s.phase := by
  cases h with
  | ignored ht =>
    subst ht
    exact ⟨rfl, rfl⟩
  | dropped _ _ hdeleted =>
    obtain ⟨u, _, rfl⟩ := hdeleted
    exact ⟨rfl, rfl⟩
  | read _ _ _ _ _ ht =>
    subst ht
    exact ⟨rfl, rfl⟩
  | readDropped _ _ _ _ hdeleted =>
    obtain ⟨u, _, rfl⟩ := hdeleted
    exact ⟨rfl, rfl⟩

theorem CommandEffect.queue {env : LoopEnv} {depth : Nat} {cmd : ServerCommand} {s t : Loop} {r : Except Exn Unit}
    (h : CommandEffect env depth cmd s r t) : t.commandQueue = s.commandQueue ∧ t.phase = s.phase := by
  cases h <;> exact ⟨rfl, rfl⟩

theorem after_queue (r : Except Exn Unit) (t : Loop) :
    (Loop.after (r, t)).commandQueue = t.commandQueue ∧ (Loop.after (r, t)).phase = t.phase := by
  cases r <;> exact ⟨rfl, rfl⟩

/-- A call that pushes puts its command on the queue and does nothing else the epoll thread looks at. -/
theorem Step.pushes {env : LoopEnv} {depth : Nat} {s t : Loop} {event : LoopEvent} {cmd : ServerCommand}
    (h : Step env depth s event t) (hcmd : event.pushes = some cmd) :
    t.commandQueue = s.commandQueue ++ [cmd] ∧ t.phase = s.phase := by
  cases h with
  | push | closeConnection =>
    cases hcmd
    exact ⟨rfl, rfl⟩
  | _ => cases hcmd

theorem sendResponse_queue (resp : Response) (s : Loop) :
    (s.sendResponse resp).commandQueue = s.commandQueue ∧ (s.sendResponse resp).phase = s.phase := by
  unfold Loop.sendResponse
  split <;> exact ⟨rfl, rfl⟩

omit [DecidableEq π] in
theorem Waking.signal_congr {w : Waking π} {loop : Loop} (hqueue : loop.commandQueue = w.loop.commandQueue)
    (hphase : loop.phase = .commands ↔ w.loop.phase = .commands) : ({w with loop := loop}).signal = w.signal := by
  simp only [Waking.signal, hqueue, hphase]

/-- An event of the command descriptor lowers the signal, a command is popped, and the end of the round is the end
of draining. -/
theorem Waking.step_signal {env : LoopEnv} {depth : Nat} {event : LoopEvent} {w v : Waking π}
    (hw : w.loop.Registered env) (h : w.perform env depth (.step event) = some v) :
    v.signal = w.signal ∨ ∃ e, Signal.Step w.signal e v.signal := by
  cases event with
  | push cmd => cases h
  | closeConnection connID => cases h
  | wait batch =>
    simp only [Waking.perform] at h
    split at h
    · cases h
    obtain ⟨loop, hloop, rfl⟩ := Option.map_eq_some_iff.mp h
    cases (perform_step hloop).2
    exact .inl (@Waking.signal_congr π w _ rfl Iff.rfl)
  | accept clientFd =>
    obtain ⟨loop, hloop, rfl⟩ := Option.map_eq_some_iff.mp h
    cases (perform_step hloop).2
    exact .inl (@Waking.signal_congr π w _ rfl Iff.rfl)
  | accepted =>
    obtain ⟨loop, hloop, rfl⟩ := Option.map_eq_some_iff.mp h
    cases (perform_step hloop).2 with
    | accepted hphase => exact .inl (@Waking.signal_congr π w _ rfl (by rw [hphase]; exact ⟨nofun, nofun⟩))
  | respond request data status =>
    obtain ⟨loop, hloop, rfl⟩ := Option.map_eq_some_iff.mp h
    cases (perform_step hloop).2
    obtain ⟨hqueue, hphase⟩ := sendResponse_queue (.ofRequest request data status) w.loop
    exact .inl (@Waking.signal_congr π w _ hqueue (by rw [hphase]))
  | serverPush connID path data status =>
    obtain ⟨loop, hloop, rfl⟩ := Option.map_eq_some_iff.mp h
    cases (perform_step hloop).2
    obtain ⟨hqueue, hphase⟩ := sendResponse_queue ⟨connID, path, data, status, 0⟩ w.loop
    exact .inl (@Waking.signal_congr π w _ hqueue (by rw [hphase]))
  | event input now =>
    obtain ⟨loop, hloop, rfl⟩ := Option.map_eq_some_iff.mp h
    cases (perform_step hloop).2 with
    | @wake _ _ e rest hphase hevents hcmd =>
      -- The counter is read.
      have hlowered : Signal.Step w.signal .lower {w.signal with raised := false, draining := true} :=
        .lower (decide_eq_false (by rw [hphase]; intro hne; cases hne))
      have hhead : w.loop.events.head?.map EpollEvent.fd = some env.cmdEvFd := by
        rw [hevents, ← hcmd]
        rfl
      refine .inr ⟨.lower, ?_⟩
      simpa only [Waking.signal, hhead, if_true, ne_eq, not_true_eq_false, decide_true, decide_false] using hlowered
    | @listen _ _ e rest hphase hevents hcmd _ =>
      have hhead : ¬ w.loop.events.head?.map EpollEvent.fd = some env.cmdEvFd := by
        rw [hevents]
        exact fun heq => hcmd (Option.some.inj heq)
      rw [if_neg hhead]
      exact .inl (@Waking.signal_congr π w _ rfl (by rw [hphase]; exact ⟨nofun, nofun⟩))
    | @event _ _ e rest r u hphase hevents hcmd _ hu =>
      have hhead : ¬ w.loop.events.head?.map EpollEvent.fd = some env.cmdEvFd := by
        rw [hevents]
        exact fun heq => hcmd (Option.some.inj heq)
      obtain ⟨_, heffect⟩ := handleEvent_effect (by exact fun _ _ hconn => hw.wellFormed hconn) hu
      obtain ⟨hqueue, hphase'⟩ := heffect.queue
      obtain ⟨hafter, hafterPhase⟩ := after_queue r u
      rw [if_neg hhead]
      exact .inl (@Waking.signal_congr π w _ (hafter.trans hqueue) (by rw [hafterPhase, hphase']))
  | command =>
    obtain ⟨loop, hloop, rfl⟩ := Option.map_eq_some_iff.mp h
    cases (perform_step hloop).2 with
    | @command cmd rest r u hphase hqueue hu =>
      obtain ⟨hsame, hsamePhase⟩ := (handleCommand_effect hu).queue
      obtain ⟨hafter, hafterPhase⟩ := after_queue r u
      have hpopped : Signal.Step w.signal .pop {w.signal with
          queue := rest, popped := w.popped ++ [cmd]} := .pop (decide_eq_true hphase) hqueue
      refine .inr ⟨.pop, ?_⟩
      simpa only [Waking.signal, hafter, hsame, hafterPhase, hsamePhase, hqueue, List.head?_cons,
        Option.toList_some] using hpopped
  | drained =>
    obtain ⟨loop, hloop, rfl⟩ := Option.map_eq_some_iff.mp h
    cases (perform_step hloop).2 with
    | drained hphase hqueue =>
      have hfinished : Signal.Step w.signal .finish {w.signal with draining := false} :=
        .finish (decide_eq_true hphase) hqueue
      refine .inr ⟨.finish, ?_⟩
      simpa only [Waking.signal, reduceCtorEq, decide_false] using hfinished

theorem Waking.perform_signal {env : LoopEnv} {depth : Nat} {event : WakingEvent π} {w v : Waking π}
    (hw : w.loop.Registered env) (h : w.perform env depth event = some v) :
    v.signal = w.signal ∨ ∃ e, Signal.Step w.signal e v.signal := by
  cases event with
  | wakeEpoll thread =>
    simp only [Waking.perform] at h
    split at h
    · next hbetween =>
      cases h
      have hraised : Signal.Step w.signal (.raise thread) {w.signal with
          raised := true, halfway := Function.update w.signal.halfway thread false} := .raise hbetween
      refine .inr ⟨.raise thread, ?_⟩
      simpa only [Waking.signal, ne_eq, eventfdWrite_ne_zero, not_false_eq_true, decide_true] using hraised
    · cases h
  | push thread event =>
    simp only [Waking.perform] at h
    split at h
    · cases h
    next cmd hcmd =>
    split at h
    · cases h
    next hbetween =>
    obtain ⟨loop, hloop, rfl⟩ := Option.map_eq_some_iff.mp h
    obtain ⟨hqueue, hphase⟩ := (perform_step hloop).2.pushes hcmd
    have hpushed : Signal.Step w.signal (.push thread cmd) {w.signal with
        queue := w.loop.commandQueue ++ [cmd]
        halfway := Function.update w.between thread true
        pushed := w.pushed ++ [cmd]} := .push (Bool.eq_false_of_not_eq_true hbetween)
    refine .inr ⟨.push thread cmd, ?_⟩
    simpa only [Waking.signal, hqueue, hphase] using hpushed
  | step event => exact Waking.step_signal hw h

/-- **The server loses no wake-up.** -/
theorem waking_announced {env : LoopEnv} {w : Waking π} (h : Reachable (waking π env) w) :
    Signal.Announced w.signal := by
  apply Signal.reachable_announced
  apply h.simulates Waking.signal
  · rintro w ⟨loop, ⟨connCount, rfl⟩, rfl⟩
    rfl
  · rintro w event v hw ⟨depth, hv⟩
    exact Waking.perform_signal (reachable_each (waking_loop hw)).registered hv

end

end Server

namespace Client

/-- Where the epoll thread is: going through a batch of events, which may still hold the one of the command
descriptor, handling commands, in `epoll_wait`, or past its loop. -/
inductive LoopPhase where
  | events (signalled : Bool)
  | commands
  | waiting
  | left
  deriving DecidableEq, Repr

/-- A client, the counter of its command descriptor and the threads that have pushed a command and not yet
written to it, with all commands that were pushed and popped. -/
structure Waking (π : Type*) where
  submitting : Submitting
  phase : LoopPhase := .events false
  counter : UInt64 := 0
  between : π → Bool := fun _ => false
  pushed : List ClientCommand := []
  popped : List ClientCommand := []

inductive WakingEvent (π : Type*) where
  | step (event : Event)
  | build (path data : Bytes)
  | push (thread : π) (cmd : ClientCommand)
  | write (thread : π)
  | closeWrite
  | wait
  | wake (signalled : Bool)
  | read
  | drained
  | leave

def Submitting.queue (q : Submitting) : List ClientCommand := q.process.endpoint.conn.commandQueue

/-- The epoll thread has gone through a batch: it looks at `_running` next. -/
def Submitting.BatchDone (q : Submitting) : Prop :=
  q.process.looping = true ∧ q.process.pending = [] ∧ q.process.uncaught = none

instance (q : Submitting) : Decidable q.BatchDone := inferInstanceAs (Decidable (_ ∧ _))

/-- Whether the epoll thread is where this event happens, or it happens on another thread. -/
def LoopPhase.allows : LoopPhase → Event → Bool
  | _, .beginClose | _, .setOnClose => true
  | phase, .endClose => phase = .left
  | phase, .command => phase = .commands
  | .events _, _ => true
  | _, _ => false

section
variable {π : Type*} [DecidableEq π]

def Waking.perform (env : Env) (event : WakingEvent π) (w : Waking π) : Option (Waking π) :=
  match event with
  | .step event =>
    if w.phase.allows event then
      (w.submitting.perform env (.step event)).map fun q =>
        {w with
          submitting := q
          popped := if event = .command then w.popped ++ w.submitting.queue.head?.toList else w.popped}
    else none
  | .build path data => (w.submitting.perform env (.build path data)).map fun q => {w with submitting := q}
  | .push thread cmd =>
    if w.between thread then none
    else (w.submitting.perform env (.push cmd)).map fun q =>
      {w with submitting := q, between := Function.update w.between thread true, pushed := w.pushed ++ [cmd]}
  | .write thread =>
    if w.between thread then
      some {w with counter := eventfdWrite w.counter, between := Function.update w.between thread false}
    else none
  -- `close` writes as well, to be heard by an epoll thread that waits.
  | .closeWrite =>
    if !w.submitting.process.endpoint.conn.running then some {w with counter := eventfdWrite w.counter} else none
  | .wait =>
    if w.phase = .events false ∧ w.submitting.BatchDone ∧ w.submitting.process.endpoint.conn.running then
      some {w with phase := .waiting}
    else none
  | .wake signalled =>
    if w.phase = .waiting ∧ (signalled → w.counter ≠ 0) then some {w with phase := .events signalled} else none
  | .read =>
    if w.phase = .events true ∧ w.submitting.BatchDone then some {w with counter := 0, phase := .commands} else none
  | .drained =>
    if w.phase = .commands ∧ w.submitting.BatchDone ∧ w.submitting.queue = [] then
      some {w with phase := .events false}
    else none
  | .leave =>
    if w.phase = .events false ∧ w.submitting.BatchDone ∧ !w.submitting.process.endpoint.conn.running then
      some {w with phase := .left}
    else none

def waking (π : Type*) [DecidableEq π] (env : Env) : System (Waking π) (WakingEvent π) where
  init := fun w => ∃ q, (submitting env).init q ∧ w = {submitting := q}
  step := fun w event v => w.perform env event = some v

theorem Waking.perform_submitting {env : Env} {event : WakingEvent π} {w v : Waking π}
    (h : w.perform env event = some v) :
    v.submitting = w.submitting ∨ ∃ e, w.submitting.perform env e = some v.submitting := by
  cases event with
  | step event =>
    simp only [Waking.perform] at h
    split at h
    · obtain ⟨q, hq, rfl⟩ := Option.map_eq_some_iff.mp h
      exact .inr ⟨_, hq⟩
    · cases h
  | build path data =>
    obtain ⟨q, hq, rfl⟩ := Option.map_eq_some_iff.mp h
    exact .inr ⟨_, hq⟩
  | push thread cmd =>
    simp only [Waking.perform] at h
    split at h
    · cases h
    · obtain ⟨q, hq, rfl⟩ := Option.map_eq_some_iff.mp h
      exact .inr ⟨_, hq⟩
  | _ =>
    simp only [Waking.perform] at h
    cases (Option.ite_none_right_eq_some.mp h).2
    exact .inl rfl

theorem waking_submitting {env : Env} {w : Waking π} (h : Reachable (waking π env) w) :
    Reachable (submitting env) w.submitting := by
  apply h.simulates Waking.submitting
  · rintro w ⟨q, hq, rfl⟩
    exact hq
  · intro w event v _ hv
    exact Waking.perform_submitting hv

/-- The epoll thread touches the command queue when it handles a command, and then it pops one. -/
theorem perform_queue {env : Env} {event : Event} {p r : Process}
    (hs : p.endpoint.conn.state ≠ .closed → Live p.endpoint) (hreq : ∀ path data, event ≠ .sendReq path data)
    (h : Client.perform env event p = some r) :
    if event = .command then
      ∃ cmd rest, p.endpoint.conn.commandQueue = cmd :: rest ∧ r.endpoint.conn.commandQueue = rest
    else r.endpoint.conn.commandQueue = p.endpoint.conn.commandQueue := by
  cases (perform_performs h).2 with
  | command cmd rest hqueue _ =>
    refine (if_pos rfl).mpr ⟨cmd, rest, hqueue, ?_⟩
    rw [(after_same ..).1]
    exact (handleCommand_waits env cmd _).1
  | sendReq path data => exact absurd rfl (hreq path data)
  | start now _ =>
    rw [if_neg nofun, (after_same ..).1]
    exact doHandshake_queue env now p.endpoint
  | readable input _ =>
    rw [if_neg nofun, after_endpoint p (receive env input p.endpoint) (fun frames p => {p with pending := frames})
      fun _ _ => rfl]
    rcases @receive_still env input _ hs with hstill | ⟨_, frame, _, hstill⟩
    · exact hstill.commandQueue
    · exact hstill.commandQueue
  | dispatch frame rest _ =>
    rw [if_neg nofun, after_endpoint p (dispatchFrame frame p.endpoint)
      (fun taken p => {p with pending := if taken then rest else []}) fun _ _ => rfl]
    exact (dispatchFrame_still frame p.endpoint).commandQueue
  | hangup _ =>
    rw [if_neg nofun, (after_same ..).1]
    exact (close_still .epoll p.endpoint).commandQueue
  | beginClose _ _ =>
    rw [if_neg nofun]
    exact (beginClose_still p.endpoint).commandQueue
  | endClose _ _ _ | setOnClose => rfl

omit [DecidableEq π] in
/-- The command queue and its counter, without the rest of the client. -/
def Waking.signal (w : Waking π) : Signal.State ClientCommand π where
  queue := w.submitting.queue
  raised := w.counter ≠ 0
  draining := w.phase = .commands
  halfway := w.between
  pushed := w.pushed
  popped := w.popped

/-- A step of the client itself pops a command, or leaves the queue alone. -/
theorem Waking.step_signal {env : Env} {event : Event} {w v : Waking π}
    (hw : WellFormed env w.submitting.process) (h : w.perform env (.step event) = some v) :
    v.signal = w.signal ∨ ∃ e, Signal.Step w.signal e v.signal := by
  simp only [Waking.perform] at h
  split at h
  case isFalse => cases h
  next hallowed =>
  obtain ⟨q, hq, rfl⟩ := Option.map_eq_some_iff.mp h
  have hreq : ∀ path data, event ≠ .sendReq path data := by
    rintro path data rfl
    cases hq
  have hprocess : ∃ r, Client.perform env event w.submitting.process = some r ∧ q.process = r := by
    cases event with
    | sendReq path data => exact absurd rfl (hreq path data)
    | _ =>
      obtain ⟨r, hr, rfl⟩ := Option.map_eq_some_iff.mp hq
      exact ⟨r, hr, rfl⟩
  obtain ⟨r, hr, hqr⟩ := hprocess
  have hqueue := perform_queue hw.live hreq hr
  by_cases hcommand : event = .command
  · subst hcommand
    rw [if_pos rfl] at hqueue
    obtain ⟨cmd, rest, hcmd, hrest⟩ := hqueue
    have hdraining : w.phase = .commands := of_decide_eq_true hallowed
    have hpopped : Signal.Step w.signal .pop {w.signal with queue := rest, popped := w.popped ++ [cmd]} :=
      .pop (decide_eq_true hdraining) hcmd
    refine .inr ⟨.pop, ?_⟩
    simpa only [Waking.signal, Submitting.queue, hqr, hrest, hcmd, if_true, List.head?_cons, Option.toList_some]
      using hpopped
  · rw [if_neg hcommand] at hqueue
    refine .inl ?_
    simp only [Waking.signal, Submitting.queue, hqr, hqueue, if_neg hcommand]

theorem Waking.perform_signal {env : Env} {event : WakingEvent π} {w v : Waking π}
    (hw : WellFormed env w.submitting.process) (h : w.perform env event = some v) :
    v.signal = w.signal ∨ ∃ e, Signal.Step w.signal e v.signal := by
  cases event with
  | step event => exact Waking.step_signal hw h
  | build path data =>
    obtain ⟨q, hq, rfl⟩ := Option.map_eq_some_iff.mp h
    have hqueue : q.queue = w.submitting.queue := by
      simp only [Submitting.perform] at hq
      split at hq
      · cases hq
      · cases hq
        unfold buildReq
        split <;> rfl
    exact .inl (by simp only [Waking.signal, hqueue])
  | push thread cmd =>
    simp only [Waking.perform] at h
    split at h
    · cases h
    next hbetween =>
    obtain ⟨q, hq, rfl⟩ := Option.map_eq_some_iff.mp h
    have hqueue : q.queue = w.submitting.queue ++ [cmd] := by
      simp only [Submitting.perform] at hq
      split at hq
      · cases hq
      · cases hq
        rfl
    have hpushed : Signal.Step w.signal (.push thread cmd) {w.signal with
        queue := w.submitting.queue ++ [cmd]
        halfway := Function.update w.between thread true
        pushed := w.pushed ++ [cmd]} := .push (Bool.eq_false_of_not_eq_true hbetween)
    refine .inr ⟨.push thread cmd, ?_⟩
    simpa only [Waking.signal, hqueue] using hpushed
  | write thread =>
    simp only [Waking.perform] at h
    obtain ⟨hbetween, hv⟩ := Option.ite_none_right_eq_some.mp h
    cases hv
    have hraised : Signal.Step w.signal (.raise thread) {w.signal with
        raised := true, halfway := Function.update w.between thread false} := .raise hbetween
    refine .inr ⟨.raise thread, ?_⟩
    simpa only [Waking.signal, ne_eq, eventfdWrite_ne_zero, not_false_eq_true, decide_true] using hraised
  | closeWrite =>
    simp only [Waking.perform] at h
    cases (Option.ite_none_right_eq_some.mp h).2
    have halerted : Signal.Step w.signal .alert {w.signal with raised := true} := .alert
    refine .inr ⟨.alert, ?_⟩
    simpa only [Waking.signal, ne_eq, eventfdWrite_ne_zero, not_false_eq_true, decide_true] using halerted
  | wait =>
    simp only [Waking.perform] at h
    obtain ⟨⟨hphase, _⟩, hv⟩ := Option.ite_none_right_eq_some.mp h
    cases hv
    exact .inl (by simp only [Waking.signal, hphase, reduceCtorEq])
  | wake signalled =>
    simp only [Waking.perform] at h
    obtain ⟨⟨hphase, _⟩, hv⟩ := Option.ite_none_right_eq_some.mp h
    cases hv
    exact .inl (by simp only [Waking.signal, hphase, reduceCtorEq])
  | read =>
    simp only [Waking.perform] at h
    obtain ⟨⟨hphase, _⟩, hv⟩ := Option.ite_none_right_eq_some.mp h
    cases hv
    have hlowered : Signal.Step w.signal .lower {w.signal with raised := false, draining := true} :=
      .lower (decide_eq_false (by rw [hphase]; intro hne; cases hne))
    refine .inr ⟨.lower, ?_⟩
    simpa only [Waking.signal, ne_eq, not_true_eq_false, decide_true, decide_false] using hlowered
  | drained =>
    simp only [Waking.perform] at h
    obtain ⟨⟨hphase, _, hqueue⟩, hv⟩ := Option.ite_none_right_eq_some.mp h
    cases hv
    have hfinished : Signal.Step w.signal .finish {w.signal with draining := false} :=
      .finish (decide_eq_true hphase) hqueue
    refine .inr ⟨.finish, ?_⟩
    simpa only [Waking.signal, reduceCtorEq, decide_false] using hfinished
  | leave =>
    simp only [Waking.perform] at h
    obtain ⟨⟨hphase, _⟩, hv⟩ := Option.ite_none_right_eq_some.mp h
    cases hv
    exact .inl (by simp only [Waking.signal, hphase, reduceCtorEq])

/-- **The client loses no wake-up.** -/
theorem waking_announced {env : Env} {w : Waking π} (h : Reachable (waking π env) w) :
    Signal.Announced w.signal := by
  apply Signal.reachable_announced
  apply h.simulates Waking.signal
  · rintro w ⟨⟨process, building, accepted⟩, ⟨hfresh, _, _⟩, rfl⟩
    obtain ⟨pubKey, maxFrameSize, socket, epollFd, cmdEvFd, _, rfl⟩ := hfresh
    rfl
  · intro w event v hw hv
    exact Waking.perform_signal (submitting_wellFormed (waking_submitting hw)) hv

end

end Client

/-- **No wake-up is lost on either side**: what has been pushed is what has been popped and what still waits, in
that order, and nothing waits while the epoll thread does, its counter is 0 and no thread is between its push and
its write. -/
theorem no_lost_wakeup {π : Type*} [DecidableEq π] (server : Server.LoopEnv) (client : Client.Env) :
    (∀ w, Reachable (Server.waking π server) w → w.pushed = w.popped ++ w.loop.commandQueue ∧
      (w.loop.Waiting → w.counter = 0 → (∀ thread, w.between thread = false) →
        w.loop.commandQueue = [] ∧ w.popped = w.pushed)) ∧
    (∀ w, Reachable (Client.waking π client) w → w.pushed = w.popped ++ w.submitting.queue ∧
      (w.phase = .waiting → w.counter = 0 → (∀ thread, w.between thread = false) →
        w.submitting.queue = [] ∧ w.popped = w.pushed)) := by
  constructor
  · intro w hw
    have hannounced := Server.waking_announced hw
    refine ⟨hannounced.conserved, fun hwaiting hcounter hbetween => ?_⟩
    apply hannounced.asleep _ _ hbetween
    · exact decide_eq_false (by rw [hwaiting.1]; exact nofun)
    · exact decide_eq_false (not_not_intro hcounter)
  · intro w hw
    have hannounced := Client.waking_announced hw
    refine ⟨hannounced.conserved, fun hwaiting hcounter hbetween => ?_⟩
    apply hannounced.asleep _ _ hbetween
    · exact decide_eq_false (by rw [hwaiting]; exact nofun)
    · exact decide_eq_false (not_not_intro hcounter)

/-- Two threads push, and the second announces its command after the counter has been reset; a request of the client
is popped as well. -/
theorem no_lost_wakeup_late :
    (∃ w, Reachable (Server.waking Bool Server.listening3) w ∧ w.loop.Waiting ∧ w.pushed.length = 2 ∧
      w.loop.commandQueue = [] ∧ w.popped = w.pushed) ∧
    (∃ w, Reachable (Client.waking Bool Client.quietEnv) w ∧ w.phase = .waiting ∧ w.pushed.length = 1 ∧
      w.submitting.queue = [] ∧ w.popped = w.pushed) := by
  constructor
  · have hrun : (execute (fun (w : Server.Waking Bool) event => w.perform Server.listening3 3 event)
        [.step (.wait [⟨3, false, true, 0⟩]), .step (.event (.once []) 100), .step (.accept 5), .step .accepted,
          .push true (.closeConnection 1), .push false (.closeConnection 1), .wakeEpoll true,
          .step (.wait [⟨4, false, true, 0⟩]), .step (.event (.once []) 101), .step .command, .wakeEpoll false,
          .step .command, .step .drained, .step (.wait [⟨4, false, true, 0⟩]), .step (.event (.once []) 102),
          .step .drained] {loop := {}}).map (fun w =>
            (decide w.loop.Waiting, w.counter, w.pushed.length, w.between true, w.between false)) =
          some (true, 0, 2, false, false) := by
      decide +kernel
    obtain ⟨w, hw, hresult⟩ := Option.map_eq_some_iff.mp hrun
    simp only [Prod.mk.injEq] at hresult
    obtain ⟨hwaiting, hcounter, hlen, htrue, hfalse⟩ := hresult
    have hreach : Reachable (Server.waking Bool Server.listening3) w :=
      .execute (fun _ _ _ _ h => ⟨3, h⟩) (.init ⟨_, ⟨0, rfl⟩, rfl⟩) hw
    have hserved := ((no_lost_wakeup Server.listening3 Client.quietEnv).1 w hreach).2
      (of_decide_eq_true hwaiting) hcounter (by intro thread; cases thread; exacts [hfalse, htrue])
    exact ⟨w, hreach, of_decide_eq_true hwaiting, hlen, hserved⟩
  · have hrun : (execute (fun (w : Client.Waking Bool) event => w.perform Client.quietEnv event)
        [.step (.start 100), .wait, .build (ascii ['/', 'p']) [1, 2],
          .push true ⟨.send, some ⟨0, 2, 0, STATUS_REQ, 0, ascii ['/', 'p'], [1, 2]⟩⟩, .write true, .wake true, .read,
          .step .command, .drained, .wait] {submitting := ⟨Client.connected3, [], []⟩}).map (fun w =>
            (w.phase, w.counter, w.pushed.length, w.between true, w.between false)) =
          some (.waiting, 0, 1, false, false) := by
      decide +kernel
    obtain ⟨w, hw, hresult⟩ := Option.map_eq_some_iff.mp hrun
    simp only [Prod.mk.injEq] at hresult
    obtain ⟨hwaiting, hcounter, hlen, htrue, hfalse⟩ := hresult
    have hreach : Reachable (Client.waking Bool Client.quietEnv) w :=
      .execute (fun _ _ _ _ h => h) (.init ⟨_, ⟨Client.connected3_fresh, rfl, rfl⟩, rfl⟩) hw
    have hserved := ((no_lost_wakeup Server.listening3 Client.quietEnv).2 w hreach).2
      hwaiting hcounter (by intro thread; cases thread; exacts [hfalse, htrue])
    exact ⟨w, hreach, hwaiting, hlen, hserved⟩

end Fmxp
