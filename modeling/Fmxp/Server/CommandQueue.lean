import Fmxp.Core.ConcurrentQueue
import Fmxp.Session.Wakeup

/-! The command queue of the server is a `ConcurrentQueue`.

In `epollLoop` a call of the queue is one step. That is what the calls of a `ConcurrentQueue` are from outside
(`ConcurrentQueue.linearizable`): in every run of the loop the queue goes through a sequential run of them. -/
namespace Fmxp.Server
open Transition

/-- The call of the queue that is part of a step. -/
def LoopEvent.queueCall : LoopEvent → Option (ConcurrentQueue.Op ServerCommand)
  | .push cmd => some (.push cmd)
  | .closeConnection connID => some (.push ⟨.close, connID, none⟩)
  | .command | .drained => some .tryPop
  | _ => none

/-- What it hands out is what the step handles. -/
theorem perform_queueCall {env : LoopEnv} {depth : Nat} {event : LoopEvent} {s t : Loop} (hs : s.Registered env)
    (h : s.perform env depth event = some t) :
    t.commandQueue = event.queueCall.elim s.commandQueue fun call => (ConcurrentQueue.apply call s.commandQueue).2 := by
  cases (perform_step h).2 with
  | wait | wake | listen | accept | accepted | push | closeConnection => rfl
  | @event _ _ e _ r u _ _ _ _ hu =>
    obtain ⟨_, heffect⟩ := handleEvent_effect (by exact fun _ _ hconn => hs.wellFormed hconn) hu
    exact (after_queue r u).1.trans heffect.queue.1
  | @command cmd rest r u _ hqueue hu =>
    rw [(after_queue r u).1, (handleCommand_effect hu).queue.1, hqueue]
    rfl
  | drained _ hqueue =>
    rw [hqueue]
    rfl
  | respond | serverPush => exact (sendResponse_queue ..).1

/-- The calls of a run, one after the other. -/
theorem run_queueCalls {env : LoopEnv} {events : List LoopEvent} {s t : Loop} (hs : Reachable (epollLoop env) s)
    (h : Run (epollLoop env) s events t) :
    t.commandQueue = (events.filterMap LoopEvent.queueCall).foldl
      (fun q call => (ConcurrentQueue.apply call q).2) s.commandQueue := by
  induction h with
  | nil => rfl
  | @cons s u _ event _ hstep _ ih =>
    have hu := ih (hs.step hstep)
    obtain ⟨depth, hperform⟩ := hstep
    have hqueue := perform_queueCall (reachable_each hs).registered hperform
    rw [hu, hqueue, List.filterMap_cons]
    cases event.queueCall <;> rfl

end Fmxp.Server
