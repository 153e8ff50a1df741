import Fmxp.Server.Isolation

/-! `setOnError`: a command whose connection is gone.

`_onErr` is called at one place, where `_handleCommand` does not find the connection of a command. At first it is the
default handler, which throws; `setOnError` puts a callback in front of it, which may throw something else, say that
it has dealt with the error, or leave it to the default handler. Nothing but what `_onErr` throws ever ends the epoll
loop (`loop_ends_by_handler`); with a callback that deals with every error nothing ends it, and the connections stay
apart from each other whatever commands come (`isolation_by_callback`). -/
namespace Fmxp.Server
open Transition

/-- The arguments of a call of `_onErr`. -/
structure Report where
  code : UInt8
  message : String
  deriving DecidableEq, Repr

/-- A callback for errors. It may remember what it has been given. -/
abbrev OnError := List Report → Report → Except Exn Bool

/-- `_onErr` -/
def onErr (callback : Option OnError) (before : List Report) (report : Report) : Except Exn Unit :=
  match callback with
  | none => defaultErrorHandler report.code report.message
  | some cb =>
    match cb before report with
    | .error e => .error e
    | .ok true => .ok ()
    | .ok false => defaultErrorHandler report.code report.message

/-- What `_handleCommand` reports. -/
def notFound (connID : Nat) : Report := ⟨ERR_CONNECTION, toString connID ++ ": Connection not found"⟩

/-- A server with its error handler, and all that has been reported. -/
structure Handling where
  loop : Loop
  callback : Option OnError := none
  reports : List Report := []

inductive HandlingEvent where
  | setOnError (cb : OnError)
  | loop (event : LoopEvent)

/-- `_handleCommand` -/
def Handling.handleCommand (env : LoopEnv) (depth : Nat) (cmd : ServerCommand) (q : Handling) :
    Option (Except Exn Unit × Handling) :=
  match q.loop.connections.lookup cmd.connID with
  | none =>
    some (onErr q.callback q.reports (notFound cmd.connID), {q with reports := q.reports ++ [notFound cmd.connID]})
  | some _ => (q.loop.handleCommand env depth cmd).map fun (r, t) => (r, {q with loop := t})

def Handling.perform (env : LoopEnv) (depth : Nat) (event : HandlingEvent) (q : Handling) : Option Handling :=
  if q.loop.uncaught.isSome then none
  else match event with
    | .setOnError cb => some {q with callback := some cb}
    | .loop .command =>
      match q.loop.phase, q.loop.commandQueue with
      | .commands, cmd :: rest =>
        (Handling.handleCommand env depth cmd {q with loop := {q.loop with commandQueue := rest}}).map fun (r, t) =>
          {t with loop := Loop.after (r, t.loop)}
      | _, _ => none
    | .loop event => (q.loop.perform env depth event).map fun t => {q with loop := t}

def handling (env : LoopEnv) : System Handling HandlingEvent where
  init := fun q => q.loop.Started ∧ q.callback = none ∧ q.reports = []
  step := fun q event r => ∃ depth, q.perform env depth event = some r

theorem handleCommand_unset (env : LoopEnv) (depth : Nat) (cmd : ServerCommand) {q : Handling}
    (hunset : q.callback = none) :
    (Handling.handleCommand env depth cmd q).map (fun x => (x.1, x.2.loop)) = q.loop.handleCommand env depth cmd := by
  unfold Handling.handleCommand
  split
  · next hnone =>
    rw [hunset, Loop.handleCommand, hnone]
    rfl
  · rw [Option.map_map]
    exact congrFun Option.map_id_fun' _

/-- Without a callback a step is what it is in `epollLoop`. -/
theorem perform_unset {env : LoopEnv} {depth : Nat} {event : LoopEvent} {q : Handling} (hunset : q.callback = none) :
    (q.perform env depth (.loop event)).map Handling.loop = q.loop.perform env depth event := by
  unfold Handling.perform
  split
  · next huncaught =>
    rw [Loop.perform.eq_def, if_pos huncaught]
    rfl
  · next hgo =>
    cases event with
    | command =>
      rw [Loop.perform.eq_def, if_neg hgo]
      dsimp only
      cases hphase : q.loop.phase with
      | events | accepting => rfl
      | commands =>
        cases hqueue : q.loop.commandQueue with
        | nil => rfl
        | cons cmd rest =>
          have hsame := handleCommand_unset env depth cmd
            (q := {q with loop := {q.loop with phase := .commands, commandQueue := rest}}) hunset
          dsimp only
          refine Eq.trans ?_ (congrArg (Option.map Loop.after) hsame)
          rw [Option.map_map, Option.map_map]
          rfl
    | wait | event | accept | accepted | drained | respond | serverPush | push | closeConnection =>
      rw [Option.map_map]
      exact congrFun Option.map_id_fun' _

theorem reachable_epollLoop {env : LoopEnv} {q : Handling}
    (h : Reachable ((handling env).under fun q _ => q.callback = none) q) : Reachable (epollLoop env) q.loop := by
  refine h.simulates Handling.loop (fun _ hinit => And.left hinit) fun q event r _ hstep => ?_
  obtain ⟨hunset, depth, hperform⟩ := hstep
  cases event with
  | loop event => exact .inr ⟨event, depth, by rw [← perform_unset hunset, hperform]; rfl⟩
  | setOnError =>
    unfold Handling.perform at hperform
    split at hperform
    · cases hperform
    · cases hperform
      exact .inl rfl

/-! ### What a step is -/

/-- A step is one of the loop, or a command is reported. -/
inductive HandlingStep (env : LoopEnv) (depth : Nat) (q : Handling) : HandlingEvent → Handling → Prop
  | set {cb : OnError} : HandlingStep env depth q (.setOnError cb) {q with callback := some cb}
  | loop {event : LoopEvent} {t : Loop} : q.loop.perform env depth event = some t →
      (event = .command → ∀ cmd ∈ q.loop.commandQueue.head?, cmd.connID ∈ q.loop.connections) →
      HandlingStep env depth q (.loop event) {q with loop := t}
  | reported {cmd : ServerCommand} {rest : List ServerCommand} : q.loop.phase = .commands →
      q.loop.commandQueue = cmd :: rest → q.loop.connections.lookup cmd.connID = none →
      HandlingStep env depth q (.loop .command)
        {q with
          loop := Loop.after (onErr q.callback q.reports (notFound cmd.connID), {q.loop with commandQueue := rest})
          reports := q.reports ++ [notFound cmd.connID]}

variable {env : LoopEnv} {depth : Nat} {event : HandlingEvent} {q r : Handling}

theorem handling_step (h : q.perform env depth event = some r) :
    q.loop.uncaught = none ∧ HandlingStep env depth q event r := by
  unfold Handling.perform at h
  split at h
  · cases h
  next hgo =>
  refine ⟨Option.not_isSome_iff_eq_none.mp hgo, ?_⟩
  split at h
  · cases h
    exact .set
  · split at h
    · next cmd rest hphase hqueue =>
      obtain ⟨⟨result, q'⟩, hcmd, rfl⟩ := Option.map_eq_some_iff.mp h
      unfold Handling.handleCommand at hcmd
      dsimp only at hcmd
      split at hcmd
      · next hnone =>
        cases hcmd
        exact .reported hphase hqueue hnone
      · next conn hconn =>
        obtain ⟨⟨result', t⟩, ht, heq⟩ := Option.map_eq_some_iff.mp hcmd
        cases heq
        refine .loop ?_ fun _ cmd' hcmd' => ?_
        · unfold Loop.perform
          rw [if_neg hgo]
          dsimp only
          split
          · next cmd' rest' _ hqueue' =>
            obtain ⟨rfl, rfl⟩ := List.cons.inj (hqueue'.symm.trans hqueue)
            rw [ht]
            rfl
          · next hnone => exact absurd hqueue (hnone cmd rest hphase)
        · rw [hqueue] at hcmd'
          cases hcmd'
          exact AList.lookup_isSome.mp (by rw [hconn]; rfl)
    · cases h
  · next hother =>
    obtain ⟨t, ht, rfl⟩ := Option.map_eq_some_iff.mp h
    exact .loop ht fun hc => absurd hc hother

/-! ### The only way out -/

/-- What is put on the queue keeps its frame on the way through it. -/
theorem Loop.Framed.mono {s t : Loop} (hs : s.Framed)
    (h : ∀ cmd ∈ t.commandQueue ++ t.responding, cmd ∈ s.commandQueue ++ s.responding) : t.Framed :=
  fun cmd hcmd => hs cmd (h cmd hcmd)

/-- The connections are in order, and every command that sends has a frame. -/
structure Loop.Kept (env : LoopEnv) (s : Loop) : Prop where
  registered : s.Registered env
  framed : s.Framed

variable {s t : Loop}

theorem Loop.Kept.popped {rest : List ServerCommand} {cmd : ServerCommand} (hs : s.Kept env)
    (hqueue : s.commandQueue = cmd :: rest) : Loop.Kept env {s with commandQueue := rest} := by
  refine ⟨hs.registered, hs.framed.mono fun c hc => ?_⟩
  rw [hqueue]
  exact List.mem_cons_of_mem cmd hc

/-- A step throws nothing, where a command finds its connection. -/
theorem Loop.Kept.perform {event : LoopEvent} (hs : s.Kept env) (huncaught : s.uncaught = none)
    (hfound : event = .command → ∀ cmd ∈ s.commandQueue.head?, cmd.connID ∈ s.connections)
    (h : s.perform env depth event = some t) : t.Kept env ∧ t.uncaught = none := by
  have hregistered : t.Registered env := by
    refine ((perform_step h).2.effect hs.registered).registered ?_ ?_ hs.registered
    · exact fun c conn call u _ hconn hu => .step (hs.registered c conn hconn) ⟨depth, hu⟩
    · exact fun clientFd _ hfree => .init (env.accepts_fresh hfree.1 _)
  have hsound : Sound env s := ⟨huncaught, hs.registered, hs.framed⟩
  have hrest : Addressed s event → t.Kept env ∧ t.uncaught = none := by
    intro hrule
    obtain ⟨ht, _⟩ := perform_sound hsound hrule h
    exact ⟨⟨ht.registered, ht.framed⟩, ht.uncaught⟩
  cases event with
  | command => exact hrest (hfound rfl)
  | wait | accepted | drained | respond | serverPush | push | closeConnection => exact hrest trivial
  | accept clientFd =>
    cases (perform_step h).2
    exact ⟨⟨hregistered, hs.framed⟩, huncaught⟩
  | event input now =>
    cases (perform_step h).2 with
    | wake | listen => exact ⟨⟨hs.registered, hs.framed⟩, huncaught⟩
    | @event _ _ e rest result u _ _ _ _ hu =>
      have htaken : Sound env {s with events := rest} := ⟨huncaught, hs.registered, hs.framed⟩
      obtain ⟨rfl, heffect⟩ := handleEvent_effect (by exact fun _ _ hconn => hs.registered.wellFormed hconn) hu
      rcases heffect.touches with hsame | ⟨connId, _, _, htouches⟩
      · subst hsame
        exact ⟨⟨hs.registered, hs.framed⟩, huncaught⟩
      · have ht := htouches.sound htaken
        exact ⟨⟨ht.registered, ht.framed⟩, ht.uncaught⟩

/-- The exception is what `_onErr` has made of the last report, which is of a connection that is not registered. -/
def Handling.EndedBy (q : Handling) (e : Exn) : Prop :=
  ∃ before connID, connID ∉ q.loop.connections ∧ q.reports = before ++ [notFound connID] ∧
    onErr q.callback before (notFound connID) = .error e

theorem HandlingStep.kept (hq : q.loop.Kept env) (huncaught : q.loop.uncaught = none)
    (h : HandlingStep env depth q event r) :
    r.loop.Kept env ∧ ∀ e, r.loop.uncaught = some e → r.EndedBy e := by
  cases h with
  | set => exact ⟨hq, fun e he => by rw [huncaught] at he; cases he⟩
  | loop ht hfound =>
    obtain ⟨hkept, hnone⟩ := hq.perform huncaught hfound ht
    exact ⟨hkept, fun e he => by rw [hnone] at he; cases he⟩
  | @reported cmd rest _ hqueue hnone =>
    have hpopped := hq.popped hqueue
    cases hresult : onErr q.callback q.reports (notFound cmd.connID) with
    | ok =>
      refine ⟨⟨hpopped.registered, hpopped.framed⟩, fun e he => ?_⟩
      rw [show (Loop.after _).uncaught = q.loop.uncaught from rfl, huncaught] at he
      cases he
    | error e =>
      refine ⟨⟨hpopped.registered, hpopped.framed⟩, fun e' he => ?_⟩
      cases he
      exact ⟨q.reports, cmd.connID, AList.lookup_eq_none.mp hnone, rfl, hresult⟩

theorem reachable_kept (h : Reachable (handling env) q) :
    q.loop.Kept env ∧ ∀ e, q.loop.uncaught = some e → q.EndedBy e := by
  induction h with
  | init hq =>
    obtain ⟨⟨connCount, hloop⟩, _⟩ := hq
    rw [hloop]
    exact ⟨⟨fun c conn hconn => (by cases hconn), fun cmd hcmd => (by cases hcmd)⟩, fun e he => by cases he⟩
  | step _ hstep ih =>
    obtain ⟨depth, hperform⟩ := hstep
    obtain ⟨huncaught, hstep⟩ := handling_step hperform
    exact hstep.kept ih.1 huncaught

/-- **The only way out of the loop**: an exception that has left it is what `_onErr` has made of the last report, and
that one was of a connection that is not registered. -/
theorem loop_ends_by_handler (h : Reachable (handling env) q) {e : Exn} (hended : q.loop.uncaught = some e) :
    q.EndedBy e :=
  (reachable_kept h).2 e hended

/-- The client disconnects before its response is sent. -/
def goneRun : List LoopEvent :=
  respondRun ++
    [.wait [⟨5, true, false, 1⟩, ⟨4, false, true, 0⟩], .event (.once []) 102, .event (.once []) 102, .command]

/-- What is left to the default handler ends the loop as it does without a callback. -/
theorem defaulted_ends_loop :
    ∃ q : Handling, Handling.EndedBy q (.fmxp ⟨ERR_CONNECTION, "1: Connection not found"⟩) := by
  have hrun : (execute (fun (q : Handling) event => q.perform listening3 3 event)
      (.setOnError (fun _ _ => .ok false) :: goneRun.map .loop) ⟨{}, none, []⟩).map (fun q => q.loop.uncaught) =
        some (some (Exn.fmxp ⟨ERR_CONNECTION, "1: Connection not found"⟩)) := by
    decide +kernel
  obtain ⟨q, hq, hresult⟩ := Option.map_eq_some_iff.mp hrun
  exact ⟨q, loop_ends_by_handler (Reachable.execute (fun _ _ _ _ h => ⟨3, h⟩) (.init ⟨⟨0, rfl⟩, rfl, rfl⟩) hq) hresult⟩

/-! ### A callback that deals with every error -/

/-- Only callbacks that deal with every error are set, and one is before a command comes up. -/
def Dealt (q : Handling) : HandlingEvent → Prop
  | .setOnError cb => ∀ before report, cb before report = .ok true
  | .loop .command => q.callback.isSome
  | .loop _ => True

/-- The descriptor of an event has not been given to another connection within the batch, and the id of a new
connection is no other's. Of commands nothing is asked. -/
def Alone (q : Handling) : HandlingEvent → Prop
  | .setOnError _ | .loop .command => True
  | .loop event => Addressed q.loop event

def Handling.concerns (env : LoopEnv) (q : Handling) : HandlingEvent → Option Nat
  | .setOnError _ => none
  | .loop event => q.loop.concerns env event

/-- Every error is dealt with. -/
structure Composed (env : LoopEnv) (q : Handling) : Prop where
  kept : q.loop.Kept env
  uncaught : q.loop.uncaught = none
  callback : ∀ cb ∈ q.callback, ∀ before report, cb before report = .ok true

theorem Composed.onErr (hq : Composed env q) (hset : q.callback.isSome) (report : Report) :
    onErr q.callback q.reports report = .ok () := by
  obtain ⟨cb, hcb⟩ := Option.isSome_iff_exists.mp hset
  simp only [Server.onErr, hcb, hq.callback cb hcb]

theorem HandlingStep.composed (hq : Composed env q) (hrule : Dealt q event) (h : HandlingStep env depth q event r) :
    Composed env r := by
  cases h with
  | set =>
    refine ⟨hq.kept, hq.uncaught, fun cb hcb => ?_⟩
    cases hcb
    exact hrule
  | loop ht hfound =>
    obtain ⟨hkept, huncaught⟩ := hq.kept.perform hq.uncaught hfound ht
    exact ⟨hkept, huncaught, hq.callback⟩
  | @reported cmd rest _ hqueue _ =>
    have hpopped := hq.kept.popped hqueue
    rw [hq.onErr hrule]
    exact ⟨⟨hpopped.registered, hpopped.framed⟩, hq.uncaught, hq.callback⟩

theorem HandlingStep.unchanged (hq : Composed env q) (halone : Alone q event) (h : HandlingStep env depth q event r)
    {c : Nat} (hc : q.concerns env event ≠ some c) : q.loop.Unchanged c r.loop := by
  cases h with
  | set => exact unchanged_of_eq rfl rfl c
  | @loop event _ ht hfound =>
    have haddressed : Addressed q.loop event := by
      cases event with
      | command => exact hfound rfl
      | wait | event | accept | accepted | drained | respond | serverPush | push | closeConnection => exact halone
    have hsound : Sound env q.loop := ⟨hq.uncaught, hq.kept.registered, hq.kept.framed⟩
    exact (perform_sound hsound haddressed ht).2 c hc
  | reported => exact unchanged_of_eq (by rw [after_connections]) (by rw [after_fdToId]) c

/-- **With a callback that deals with every error no exception leaves the loop**, whatever commands come, and every
next step, if it is alone, leaves alone every connection that it is not about. -/
theorem isolation_by_callback (h : Reachable ((handling env).under Dealt) q) :
    q.loop.uncaught = none ∧ ∀ event r, Dealt q event → (handling env).step q event r →
      r.loop.uncaught = none ∧ (Alone q event → ∀ c, q.concerns env event ≠ some c → q.loop.Unchanged c r.loop) := by
  have hq : Composed env q := by
    refine h.invariant ?_ ?_
    · intro q hinit
      obtain ⟨⟨connCount, hloop⟩, hcallback, _⟩ := hinit
      refine ⟨?_, by rw [hloop], fun cb hcb => by rw [hcallback] at hcb; cases hcb⟩
      rw [hloop]
      exact ⟨fun c conn hconn => (by cases hconn), fun cmd hcmd => (by cases hcmd)⟩
    · intro q event r hq hstep
      obtain ⟨hrule, depth, hperform⟩ := hstep
      exact (handling_step hperform).2.composed hq hrule
  refine ⟨hq.uncaught, fun event r hrule hstep => ?_⟩
  obtain ⟨depth, hperform⟩ := hstep
  have hstep := (handling_step hperform).2
  exact ⟨(hstep.composed hq hrule).uncaught, fun halone c hc => hstep.unchanged hq halone hc⟩

/-- A step of the loop, once a callback has been set. What a callback does is not decided by looking at it. -/
def handlingStep (q : Handling) : HandlingEvent → Option Handling
  | .loop event => if q.callback.isSome then q.perform listening3 3 (.loop event) else none
  | .setOnError _ => none

theorem handlingStep_step {q r : Handling} {event : HandlingEvent} (h : handlingStep q event = some r) :
    ((handling listening3).under Dealt).step q event r := by
  cases event with
  | setOnError => cases h
  | loop event =>
    simp only [handlingStep] at h
    split at h
    · next hset =>
      refine ⟨?_, 3, h⟩
      cases event with
      | command => exact hset
      | wait | event | accept | accepted | drained | respond | serverPush | push | closeConnection => trivial
    · cases h

/-- Another client connects, and then the first one disconnects before its response is sent. -/
def goneBesideAnother : List LoopEvent :=
  respondRun ++ [.wait [⟨3, false, true, 0⟩], .event (.once []) 102, .accept 6, .accepted,
    .wait [⟨5, true, false, 1⟩, ⟨4, false, true, 0⟩], .event (.once []) 102, .event (.once []) 102]

/-- The command that would have ended the loop does not end it, and leaves the other connection alone. -/
theorem dealt_goes_on :
    ∃ q r, (handling listening3).step q (.loop .command) r ∧ r.reports = [notFound 1] ∧ 2 ∈ q.loop.connections ∧
      r.loop.uncaught = none ∧ q.loop.Unchanged 2 r.loop := by
  have hset : Reachable ((handling listening3).under Dealt) ⟨{}, some fun _ _ => .ok true, []⟩ :=
    .step (.init (s := ⟨{}, none, []⟩) ⟨⟨0, rfl⟩, rfl, rfl⟩) (a := .setOnError fun _ _ => .ok true)
      ⟨fun _ _ => rfl, 0, rfl⟩
  have hrun : ((execute handlingStep (goneBesideAnother.map .loop) ⟨{}, some fun _ _ => .ok true, []⟩).bind fun q =>
      (handlingStep q (.loop .command)).map fun r =>
        (r.reports, decide (2 ∈ q.loop.connections), q.loop.commandQueue.map ServerCommand.connID)) =
      some ([notFound 1], true, [1]) := by
    decide +kernel
  obtain ⟨q, hq, hlast⟩ := Option.bind_eq_some_iff.mp hrun
  obtain ⟨r, hr, hresult⟩ := Option.map_eq_some_iff.mp hlast
  simp only [Prod.mk.injEq, decide_eq_true_eq] at hresult
  obtain ⟨hreports, hother, hqueue⟩ := hresult
  obtain ⟨hrule, hstep⟩ := handlingStep_step hr
  obtain ⟨_, hsteps⟩ := isolation_by_callback (Reachable.execute (fun _ _ _ _ => handlingStep_step) hset hq)
  obtain ⟨huncaught, halone⟩ := hsteps (.loop .command) r hrule hstep
  refine ⟨q, r, hstep, hreports, hother, huncaught, halone trivial 2 ?_⟩
  rw [Handling.concerns, Loop.concerns, ← List.head?_map, hqueue]
  decide

end Fmxp.Server
