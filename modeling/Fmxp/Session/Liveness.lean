import Fmxp.Library.Liveness
import Fmxp.Session.Wakeup

/-! Every command is handled.

That no wake-up is lost says that a command does not wait for nothing; here it is handled. What is asked
of the threads is that they go on: a thread that has pushed writes to the descriptor, and an epoll thread that is
not in `epoll_wait` takes its next step. The kernel has to report the descriptor some time while it can
be read. Nothing is asked about the order in which the threads move or events are reported. -/
namespace Fmxp
open Transition

namespace Server
variable {π : Type*}

/-- A step of the epoll thread, and not of a thread that calls into the server. -/
def LoopEvent.onLoop : LoopEvent → Bool
  | .wait _ | .event _ _ | .accept _ | .accepted | .command | .drained => true
  | _ => false

def WakingEvent.onLoop : WakingEvent π → Bool
  | .step event => event.onLoop
  | _ => false

/-! ### Where the epoll thread is -/

/-- How a step moves the epoll thread, and what becomes of the counter. -/
inductive Moved (env : LoopEnv) (event : WakingEvent π) (w v : Waking π) : Prop
  | beside : event.onLoop = false → v.loop.phase = w.loop.phase → v.loop.events = w.loop.events →
      (w.counter ≠ 0 → v.counter ≠ 0) → Moved env event w v
  | wait : w.loop.Waiting → v.counter = w.counter → Moved env event w v
  | event {e : EpollEvent} : w.loop.phase = .events → w.loop.events = e :: v.loop.events → e.fd ≠ env.cmdEvFd →
      v.counter = w.counter → Moved env event w v
  | wake : w.loop.phase = .events → v.loop.phase = .commands → Moved env event w v
  | accept : w.loop.phase = .accepting → v.loop.events = w.loop.events → v.counter = w.counter → Moved env event w v
  | command : w.loop.phase = .commands → w.popped.length < v.popped.length → Moved env event w v
  | drained : w.loop.phase = .commands → v.loop.phase = .events → Moved env event w v

theorem EventEffect.events {env : LoopEnv} {depth : Nat} {e : EpollEvent} {input : Recv} {now : UInt32}
    {s t : Loop} (h : EventEffect env depth e input now s t) : t.events = s.events := by
  cases h with
  | ignored ht | read _ _ _ _ _ ht =>
    subst ht
    rfl
  | dropped _ _ hdeleted | readDropped _ _ _ _ hdeleted =>
    obtain ⟨u, _, rfl⟩ := hdeleted
    rfl

theorem Step.beside {env : LoopEnv} {depth : Nat} {s t : Loop} {event : LoopEvent} (h : Step env depth s event t)
    (hloop : event.onLoop = false) : t.phase = s.phase ∧ t.events = s.events := by
  cases h with
  | respond | serverPush =>
    unfold Loop.sendResponse
    split <;> exact ⟨rfl, rfl⟩
  | push | closeConnection => exact ⟨rfl, rfl⟩
  | _ => cases hloop

variable [DecidableEq π]

theorem Waking.step_moved {env : LoopEnv} {depth : Nat} {event : LoopEvent} {w v : Waking π}
    (hw : w.loop.Registered env) (h : w.perform env depth (.step event) = some v) :
    Moved env (.step event) w v := by
  cases event with
  | push cmd => cases h
  | closeConnection connID => cases h
  | wait batch =>
    simp only [Waking.perform] at h
    split at h
    · cases h
    obtain ⟨loop, hloop, rfl⟩ := Option.map_eq_some_iff.mp h
    obtain ⟨hcaught, hstep⟩ := perform_step hloop
    cases hstep with
    | wait hphase hevents _ => exact .wait ⟨hphase, hevents, hcaught⟩ rfl
  | accept clientFd =>
    obtain ⟨loop, hloop, rfl⟩ := Option.map_eq_some_iff.mp h
    cases (perform_step hloop).2 with
    | accept hphase _ => exact .accept hphase rfl rfl
  | accepted =>
    obtain ⟨loop, hloop, rfl⟩ := Option.map_eq_some_iff.mp h
    cases (perform_step hloop).2 with
    | accepted hphase => exact .accept hphase rfl rfl
  | respond request data status =>
    obtain ⟨loop, hloop, rfl⟩ := Option.map_eq_some_iff.mp h
    obtain ⟨hphase, hevents⟩ := (perform_step hloop).2.beside rfl
    exact .beside rfl hphase hevents id
  | serverPush connID path data status =>
    obtain ⟨loop, hloop, rfl⟩ := Option.map_eq_some_iff.mp h
    obtain ⟨hphase, hevents⟩ := (perform_step hloop).2.beside rfl
    exact .beside rfl hphase hevents id
  | event input now =>
    obtain ⟨loop, hloop, rfl⟩ := Option.map_eq_some_iff.mp h
    have hread : ∀ e rest, w.loop.events = e :: rest → e.fd ≠ env.cmdEvFd →
        (if w.loop.events.head?.map EpollEvent.fd = some env.cmdEvFd then 0 else w.counter) = w.counter := by
      intro e rest hevents hcmd
      rw [hevents]
      exact if_neg fun heq => hcmd (Option.some.inj heq)
    cases (perform_step hloop).2 with
    | wake hphase _ _ => exact .wake hphase rfl
    | listen hphase hevents hcmd _ => exact .event hphase hevents hcmd (hread _ _ hevents hcmd)
    | event hphase hevents hcmd _ hu =>
      obtain ⟨_, heffect⟩ := handleEvent_effect (by exact fun _ _ hconn => hw.wellFormed hconn) hu
      refine .event hphase ?_ hcmd (hread _ _ hevents hcmd)
      rw [after_events, heffect.events]
      exact hevents
  | command =>
    obtain ⟨loop, hloop, rfl⟩ := Option.map_eq_some_iff.mp h
    cases (perform_step hloop).2 with
    | @command cmd rest r u hphase hqueue hu =>
      refine .command hphase ?_
      simp only [hqueue, List.head?_cons, Option.toList_some, List.length_append, List.length_singleton]
      exact Nat.lt_succ_self _
  | drained =>
    obtain ⟨loop, hloop, rfl⟩ := Option.map_eq_some_iff.mp h
    cases (perform_step hloop).2 with
    | drained hphase _ => exact .drained hphase rfl

theorem Waking.perform_moved {env : LoopEnv} {depth : Nat} {event : WakingEvent π} {w v : Waking π}
    (hw : w.loop.Registered env) (h : w.perform env depth event = some v) : Moved env event w v := by
  cases event with
  | step event => exact Waking.step_moved hw h
  | wakeEpoll thread =>
    simp only [Waking.perform] at h
    split at h <;> cases h
    exact .beside rfl rfl rfl fun _ => eventfdWrite_ne_zero w.counter
  | push thread event =>
    simp only [Waking.perform] at h
    split at h
    · cases h
    next cmd hcmd =>
    split at h
    · cases h
    obtain ⟨loop, hloop, rfl⟩ := Option.map_eq_some_iff.mp h
    have hloop' : event.onLoop = false := by
      cases event <;> first | rfl | cases hcmd
    obtain ⟨hphase, hevents⟩ := (perform_step hloop).2.beside hloop'
    exact .beside rfl hphase hevents id

omit [DecidableEq π] in
/-- How far the epoll thread is from its next `epoll_wait`, besides the commands and connections it meets there. -/
def Waking.ahead (w : Waking π) : Nat := 2 * w.loop.events.length + if w.loop.phase = .accepting then 1 else 0

omit [DecidableEq π] in
theorem Moved.ahead {env : LoopEnv} {event : WakingEvent π} {w v : Waking π} (h : Moved env event w v)
    (hwaiting : ¬ w.loop.Waiting) (hw : w.loop.phase ≠ .commands) (hv : v.loop.phase ≠ .commands) :
    v.ahead ≤ w.ahead := by
  have hone : (if v.loop.phase = .accepting then 1 else 0) ≤ 1 := by
    split <;> decide
  unfold Waking.ahead
  cases h with
  | beside _ hphase hevents _ => rw [hphase, hevents]
  | wait hwait _ => exact absurd hwait hwaiting
  | event _ hevents _ _ =>
    rw [hevents, List.length_cons]
    omega
  | wake _ hphase => exact absurd hphase hv
  | accept hphase hevents _ =>
    rw [hevents, if_pos hphase]
    omega
  | command hphase _ | drained hphase _ => exact absurd hphase hw

/-! ### Fair runs -/

structure Fair {env : LoopEnv} (ρ : Trace (waking π env)) : Prop where
  /-- A thread that has pushed a command is scheduled. -/
  writes : ∀ n thread, (ρ.state n).between thread = true → ρ.Eventually (fun w => w.between thread = false) n
  /-- The epoll thread is scheduled, and the calls it makes return. -/
  moves : ∀ n, (∀ m, n ≤ m → ¬ (ρ.state m).loop.Waiting ∧ (ρ.state m).loop.uncaught = none) →
    ∃ m, n ≤ m ∧ ρ.Takes (fun event => event.onLoop = true) m
  /-- Connections come no faster than they are accepted. -/
  accepts : ∀ n, (ρ.state n).loop.phase = .accepting → ρ.Eventually (fun w => w.loop.phase ≠ .accepting) n
  /-- A descriptor that can always be read is reported, if one waits for it time and again. -/
  reports : ∀ n, (∀ m, n ≤ m → (ρ.state m).counter ≠ 0 ∧ ρ.Eventually (fun w => w.loop.Waiting) m) →
    ρ.Eventually (fun w => env.cmdEvFd ∈ w.loop.events.map EpollEvent.fd) n

section
variable {env : LoopEnv} {ρ : Trace (waking π env)} {n : Nat}

theorem next_moved (ρ : Trace (waking π env)) (n : Nat) :
    ρ.state (n + 1) = ρ.state n ∨ ∃ event, Moved env event (ρ.state n) (ρ.state (n + 1)) := by
  rcases ρ.next n with hsame | ⟨event, depth, hstep⟩
  · exact .inl hsame
  · exact .inr ⟨event, Waking.perform_moved (reachable_each (waking_loop (ρ.reachable n))).registered hstep⟩

/-- Away from `epoll_wait` and from the commands the epoll thread comes no further away from its next wait. -/
theorem ahead_le (ρ : Trace (waking π env)) (hwaiting : ¬ (ρ.state n).loop.Waiting)
    (hn : (ρ.state n).loop.phase ≠ .commands) (hnext : (ρ.state (n + 1)).loop.phase ≠ .commands) :
    (ρ.state (n + 1)).ahead ≤ (ρ.state n).ahead := by
  rcases next_moved ρ n with hsame | ⟨event, hmoved⟩
  · rw [hsame]
  · exact hmoved.ahead hwaiting hn hnext

/-- An epoll thread that handles no commands comes to its next `epoll_wait`. -/
theorem Fair.waits (h : Fair ρ)
    (hrun : ∀ m, n ≤ m → (ρ.state m).loop.phase ≠ .commands ∧ (ρ.state m).loop.uncaught = none) :
    ρ.Eventually (fun w => w.loop.Waiting) n := by
  apply Trace.Eventually.of_descent (f := Waking.ahead)
  · intro k hk hwaiting
    exact ahead_le ρ hwaiting (hrun k hk).1 (hrun (k + 1) (Nat.le_succ_of_le hk)).1
  intro k hk hnever
  have hdescends : ∀ m, k ≤ m → (ρ.state m).ahead ≤ (ρ.state k).ahead := by
    intro m hkm
    refine ρ.persists (fun w => w.ahead ≤ (ρ.state k).ahead) (fun j hj hle => ?_) (Nat.le_refl _) hkm
    have hnj : n ≤ j := Nat.le_trans hk hj
    exact Nat.le_trans (ahead_le ρ (hnever j hj) (hrun j hnj).1 (hrun (j + 1) (Nat.le_succ_of_le hnj)).1) hle
  by_cases haccepting : (ρ.state k).loop.phase = .accepting
  · obtain ⟨m, hkm, hm⟩ := h.accepts k haccepting
    have hle := hdescends m hkm
    refine ⟨m, hkm, ?_⟩
    unfold Waking.ahead at hle ⊢
    rw [if_neg hm, if_pos haccepting] at hle ⊢
    omega
  · obtain ⟨m, hkm, event, hloop, depth, hstep⟩ :=
      h.moves k fun j hj => ⟨hnever j hj, (hrun j (Nat.le_trans hk hj)).2⟩
    have hnm : n ≤ m := Nat.le_trans hk hkm
    have hle := hdescends m hkm
    cases Waking.perform_moved (reachable_each (waking_loop (ρ.reachable m))).registered hstep with
    | beside hbeside _ _ _ =>
      rw [hloop] at hbeside
      cases hbeside
    | wait hwait _ => exact absurd hwait (hnever m hkm)
    | event hphase hevents _ _ =>
      refine ⟨m + 1, Nat.le_succ_of_le hkm, Nat.lt_of_lt_of_le ?_ hle⟩
      have hone : (if (ρ.state (m + 1)).loop.phase = .accepting then 1 else 0) ≤ 1 := by
        split <;> decide
      unfold Waking.ahead
      rw [hevents, List.length_cons]
      omega
    | wake _ hphase => exact absurd hphase (hrun (m + 1) (Nat.le_succ_of_le hnm)).1
    | accept hphase _ _ =>
      refine ⟨m, hkm, ?_⟩
      unfold Waking.ahead at hle ⊢
      rw [if_pos hphase, if_neg haccepting] at hle ⊢
      omega
    | command hphase _ | drained hphase _ => exact absurd hphase (hrun m hnm).1

/-- A counter that is not 0 is read. -/
theorem Fair.wakes (h : Fair ρ) (hgo : ∀ m, (ρ.state m).loop.uncaught = none) (hcounter : (ρ.state n).counter ≠ 0) :
    ρ.Eventually (fun w => w.loop.phase = .commands) n := by
  apply Classical.byContradiction
  intro hnever
  have hrun : ∀ m, n ≤ m → (ρ.state m).loop.phase ≠ .commands ∧ (ρ.state m).loop.uncaught = none :=
    fun m hm => ⟨fun hphase => hnever ⟨m, hm, hphase⟩, hgo m⟩
  have hwaits : ∀ m, n ≤ m → ρ.Eventually (fun w => w.loop.Waiting) m :=
    fun m hm => h.waits fun j hj => hrun j (Nat.le_trans hm hj)
  -- Nobody reads the counter, so the event is reported, and stays in the batch.
  have hkept : ∀ m, n ≤ m → (ρ.state m).counter ≠ 0 := by
    intro m hm
    refine ρ.persists (fun w => w.counter ≠ 0) (fun k hk hne => ?_) hcounter hm
    rcases next_moved ρ k with hsame | ⟨event, hmoved⟩
    · rw [hsame]
      exact hne
    cases hmoved with
    | beside _ _ _ hcounts => exact hcounts hne
    | wait _ hsame | event _ _ _ hsame | accept _ _ hsame =>
      rw [hsame]
      exact hne
    | wake _ hphase => exact absurd hphase (hrun (k + 1) (Nat.le_succ_of_le hk)).1
    | command hphase _ | drained hphase _ => exact absurd hphase (hrun k hk).1
  obtain ⟨m, hnm, hreported⟩ := h.reports n fun m hm => ⟨hkept m hm, hwaits m hm⟩
  obtain ⟨j, hmj, hwaiting⟩ := hwaits m hnm
  have hstays : env.cmdEvFd ∈ (ρ.state j).loop.events.map EpollEvent.fd := by
    refine ρ.persists (fun w => env.cmdEvFd ∈ w.loop.events.map EpollEvent.fd) (fun k hk hmem => ?_) hreported hmj
    have hnk : n ≤ k := Nat.le_trans hnm hk
    rcases next_moved ρ k with hsame | ⟨event, hmoved⟩
    · rw [hsame]
      exact hmem
    cases hmoved with
    | beside _ _ hevents _ | accept _ hevents _ =>
      rw [hevents]
      exact hmem
    | wait hwait _ =>
      rw [hwait.2.1] at hmem
      cases hmem
    | event _ hevents hcmd _ =>
      rw [hevents, List.map_cons, List.mem_cons] at hmem
      exact hmem.resolve_left (Ne.symm hcmd)
    | wake _ hphase => exact absurd hphase (hrun (k + 1) (Nat.le_succ_of_le hnk)).1
    | command hphase _ | drained hphase _ => exact absurd hphase (hrun k hnk).1
  rw [hwaiting.2.1] at hstays
  cases hstays

/-- The server as its command queue sees it. -/
def signalled (ρ : Trace (waking π env)) : Trace (Signal.system ServerCommand π) :=
  ρ.map Waking.signal (fun w hw => by
    obtain ⟨loop, ⟨connCount, rfl⟩, rfl⟩ := hw
    rfl) (fun w event v hw hv => by
    obtain ⟨depth, hv⟩ := hv
    exact Waking.perform_signal (reachable_each (waking_loop hw)).registered hv)

theorem Fair.handles (h : Fair ρ) (hgo : ∀ m, (ρ.state m).loop.uncaught = none) : Signal.Fair (signalled ρ) := by
  refine ⟨h.writes, fun n hraised => ?_, fun n hdraining => ?_⟩
  · obtain ⟨m, hnm, hphase⟩ := h.wakes hgo (of_decide_eq_true hraised)
    exact ⟨m, hnm, decide_eq_true hphase⟩
  · apply Classical.byContradiction
    intro hnever
    have hrun : ∀ m, n ≤ m → (ρ.state m).loop.phase = .commands ∧
        (ρ.state m).popped.length ≤ (ρ.state n).popped.length := by
      intro m hm
      refine ⟨Classical.byContradiction fun hphase => hnever ⟨m, hm, .inl (decide_eq_false hphase)⟩, ?_⟩
      exact Nat.le_of_not_lt fun hlt => hnever ⟨m, hm, .inr hlt⟩
    have hbusy : ∀ m, n ≤ m → ¬ (ρ.state m).loop.Waiting := by
      intro m hm hwaiting
      cases (hrun m hm).1.symm.trans hwaiting.1
    obtain ⟨m, hnm, event, hloop, depth, hstep⟩ := h.moves n fun m hm => ⟨hbusy m hm, hgo m⟩
    obtain ⟨hphase, _⟩ := hrun m hnm
    obtain ⟨hphase', hnone⟩ := hrun (m + 1) (Nat.le_succ_of_le hnm)
    cases Waking.perform_moved (reachable_each (waking_loop (ρ.reachable m))).registered hstep with
    | beside hbeside _ _ _ =>
      rw [hloop] at hbeside
      cases hbeside
    | wait hwait _ => cases hphase.symm.trans hwait.1
    | event hevents _ _ _ => cases hphase.symm.trans hevents
    | wake hevents _ => cases hphase.symm.trans hevents
    | accept haccept _ _ => cases hphase.symm.trans haccept
    | command _ hlonger =>
      have hgrown := Signal.popped_grows (signalled ρ) hnm
      exact Nat.not_lt_of_le (Nat.le_trans hnone hgrown) hlonger
    | drained _ hdrained => cases hphase'.symm.trans hdrained

/-- An exception that has left the epoll loop stays where it is. -/
theorem uncaught_stays (ρ : Trace (waking π env)) {m : Nat} (hcaught : (ρ.state n).loop.uncaught ≠ none)
    (hnm : n ≤ m) : (ρ.state m).loop.uncaught ≠ none := by
  refine ρ.persists (fun w => w.loop.uncaught ≠ none) (fun k _ hk => ?_) hcaught hnm
  rcases ρ.next k with hsame | ⟨event, depth, hstep⟩
  · rw [hsame]
    exact hk
  · rcases Waking.perform_loop hstep with hsame | ⟨e, he⟩
    · rw [hsame]
      exact hk
    · exact absurd (perform_step he).1 hk

/-- **Every command is handled**, unless an exception leaves the epoll loop. -/
theorem Fair.serves (h : Fair ρ) {k : Nat} {cmd : ServerCommand} (hcmd : (ρ.state n).pushed[k]? = some cmd) :
    ρ.Eventually (fun w => w.popped[k]? = some cmd ∨ w.loop.uncaught ≠ none) n := by
  by_cases hgo : ∀ m, (ρ.state m).loop.uncaught = none
  · obtain ⟨m, hnm, hpopped⟩ := (h.handles hgo).serves (n := n) hcmd
    exact ⟨m, hnm, .inl hpopped⟩
  · rw [not_forall] at hgo
    obtain ⟨m, hm⟩ := hgo
    exact ⟨max n m, Nat.le_max_left .., .inr (uncaught_stays ρ hm (Nat.le_max_right ..))⟩

/-- A run that ends in `epoll_wait`, with nothing to be read, is fair. -/
theorem Fair.of_waiting {N : Nat} {t : Waking π} (hend : ∀ n, N ≤ n → ρ.state n = t) (hwaiting : t.loop.Waiting)
    (hcounter : t.counter = 0) (hbetween : ∀ thread, t.between thread = false) : Fair ρ := by
  have hlate : ∀ n, n ≤ max n N ∧ ρ.state (max n N) = t :=
    fun n => ⟨Nat.le_max_left .., hend _ (Nat.le_max_right ..)⟩
  refine ⟨fun n thread _ => ?_, fun n hall => ?_, fun n _ => ?_, fun n hall => ?_⟩
  all_goals obtain ⟨hle, hlast⟩ := hlate n
  · exact ⟨_, hle, by rw [hlast]; exact hbetween thread⟩
  · have hbusy := (hall _ hle).1
    rw [hlast] at hbusy
    exact absurd hwaiting hbusy
  · refine ⟨_, hle, ?_⟩
    rw [hlast]
    intro haccepting
    cases haccepting.symm.trans hwaiting.1
  · have hne := (hall _ hle).1
    rw [hlast] at hne
    exact absurd hcounter hne

end

end Server

namespace Client
variable {π : Type*} [DecidableEq π]

omit [DecidableEq π] in
/-- The epoll thread is past its loop, which it leaves for good. -/
def Waking.Ended (w : Waking π) : Prop := w.phase = .left ∨ w.submitting.process.uncaught ≠ none

/-- How a step moves the epoll thread, and what becomes of the counter. -/
inductive Moved (event : WakingEvent π) (w v : Waking π) : Prop
  | beside : v.phase = w.phase → (w.counter ≠ 0 → v.counter ≠ 0) → event ≠ .step .command → event ≠ .drained →
      Moved event w v
  | wait : w.phase = .events false → v.phase = .waiting → v.counter = w.counter → Moved event w v
  | wake : w.phase = .waiting → v.counter = w.counter → Moved event w v
  | read : w.phase = .events true → v.phase = .commands → Moved event w v
  | command : w.phase = .commands → w.popped.length < v.popped.length → Moved event w v
  | drained : w.phase = .commands → v.phase = .events false → Moved event w v
  | leave : v.phase = .left → Moved event w v

theorem Waking.perform_moved {env : Env} {event : WakingEvent π} {w v : Waking π}
    (h : w.perform env event = some v) : Moved event w v := by
  cases event with
  | step event =>
    simp only [Waking.perform] at h
    split at h
    case isFalse => cases h
    next hallowed =>
    obtain ⟨q, hq, rfl⟩ := Option.map_eq_some_iff.mp h
    by_cases hcommand : event = .command
    · subst hcommand
      obtain ⟨r, hr, rfl⟩ := Option.map_eq_some_iff.mp hq
      cases (perform_performs hr).2 with
      | command cmd rest hqueue _ =>
        refine .command (of_decide_eq_true hallowed) ?_
        simp only [Submitting.queue, hqueue, if_true, List.head?_cons, Option.toList_some, List.length_append,
          List.length_singleton]
        exact Nat.lt_succ_self _
    · exact .beside rfl id (fun heq => hcommand (WakingEvent.step.inj heq)) fun heq => by cases heq
  | build path data =>
    obtain ⟨q, _, rfl⟩ := Option.map_eq_some_iff.mp h
    exact .beside rfl id (fun heq => by cases heq) fun heq => by cases heq
  | push thread cmd =>
    simp only [Waking.perform] at h
    split at h
    · cases h
    obtain ⟨q, _, rfl⟩ := Option.map_eq_some_iff.mp h
    exact .beside rfl id (fun heq => by cases heq) fun heq => by cases heq
  | write thread =>
    cases (Option.ite_none_right_eq_some.mp h).2
    exact .beside rfl (fun _ => eventfdWrite_ne_zero w.counter) (fun heq => by cases heq) fun heq => by cases heq
  | closeWrite =>
    cases (Option.ite_none_right_eq_some.mp h).2
    exact .beside rfl (fun _ => eventfdWrite_ne_zero w.counter) (fun heq => by cases heq) fun heq => by cases heq
  | wait =>
    obtain ⟨⟨hphase, _⟩, hv⟩ := Option.ite_none_right_eq_some.mp h
    cases hv
    exact .wait hphase rfl rfl
  | wake signalled =>
    obtain ⟨⟨hphase, _⟩, hv⟩ := Option.ite_none_right_eq_some.mp h
    cases hv
    exact .wake hphase rfl
  | read =>
    obtain ⟨⟨hphase, _⟩, hv⟩ := Option.ite_none_right_eq_some.mp h
    cases hv
    exact .read hphase rfl
  | drained =>
    obtain ⟨⟨hphase, _⟩, hv⟩ := Option.ite_none_right_eq_some.mp h
    cases hv
    exact .drained hphase rfl
  | leave =>
    cases (Option.ite_none_right_eq_some.mp h).2
    exact .leave rfl

/-! ### Fair runs -/

structure Fair {env : Env} (ρ : Trace (waking π env)) : Prop where
  /-- A thread that has pushed a command is scheduled. -/
  writes : ∀ n thread, (ρ.state n).between thread = true → ρ.Eventually (fun w => w.between thread = false) n
  /-- The epoll thread is scheduled, and the calls it makes for the events of a batch return. -/
  batches : ∀ n signalled, ¬ ∀ m, n ≤ m → ¬ (ρ.state m).Ended ∧ (ρ.state m).phase = .events signalled
  commands : ∀ n, (∀ m, n ≤ m → ¬ (ρ.state m).Ended ∧ (ρ.state m).phase = .commands) →
    ∃ m, n ≤ m ∧ ρ.Takes (fun event => event = .step .command ∨ event = .drained) m
  /-- A descriptor that can always be read is reported, if one waits for it time and again. -/
  reports : ∀ n, (∀ m, n ≤ m → (ρ.state m).counter ≠ 0 ∧ ρ.Eventually (fun w => w.phase = .waiting) m) →
    ρ.Eventually (fun w => w.phase = .events true) n

section
variable {env : Env} {ρ : Trace (waking π env)} {n : Nat}

theorem next_moved (ρ : Trace (waking π env)) (n : Nat) :
    ρ.state (n + 1) = ρ.state n ∨ ∃ event, Moved event (ρ.state n) (ρ.state (n + 1)) := by
  rcases ρ.next n with hsame | ⟨event, hstep⟩
  · exact .inl hsame
  · exact .inr ⟨event, Waking.perform_moved hstep⟩

/-- A batch is left for `epoll_wait`, if the command descriptor is not in it and `_running` stays set. -/
theorem Fair.leaves (h : Fair ρ) {signalled : Bool} (hgo : ∀ m, ¬ (ρ.state m).Ended)
    (hn : (ρ.state n).phase = .events signalled) :
    ∃ m, n ≤ m ∧ (ρ.state (m + 1)).phase = if signalled then .commands else .waiting := by
  obtain ⟨m, hnm, hm⟩ : ∃ m, n ≤ m ∧ (ρ.state m).phase ≠ .events signalled := by
    apply Classical.byContradiction
    intro hnever
    exact h.batches n signalled fun m hm => ⟨hgo m, Classical.byContradiction fun hne => hnever ⟨m, hm, hne⟩⟩
  obtain ⟨k, hnk, hsofar, hceased⟩ := ρ.ceases (fun w => w.phase = .events signalled) hn hm hnm
  have hk := hsofar k hnk (Nat.le_refl k)
  refine ⟨k, hnk, ?_⟩
  rcases next_moved ρ k with hsame | ⟨event, hmoved⟩
  · rw [hsame] at hceased
    exact absurd hk hceased
  cases hmoved with
  | beside hphase _ _ _ => exact absurd (hphase.trans hk) hceased
  | wait hphase hnext _ =>
    cases hk.symm.trans hphase
    exact hnext
  | read hphase hnext =>
    cases hk.symm.trans hphase
    exact hnext
  | wake hphase _ | command hphase _ | drained hphase _ => cases hk.symm.trans hphase
  | leave hphase => exact absurd (.inl hphase) (hgo (k + 1))

/-- A counter that is not 0 is read. -/
theorem Fair.wakes (h : Fair ρ) (hgo : ∀ m, ¬ (ρ.state m).Ended) (hcounter : (ρ.state n).counter ≠ 0) :
    ρ.Eventually (fun w => w.phase = .commands) n := by
  apply Classical.byContradiction
  intro hnever
  have hrun : ∀ m, n ≤ m → (ρ.state m).phase ≠ .commands := fun m hm hphase => hnever ⟨m, hm, hphase⟩
  have hquiet : ∀ m, n ≤ m → (ρ.state m).phase ≠ .events true := by
    intro m hm hphase
    obtain ⟨k, hmk, hk⟩ := h.leaves hgo hphase
    exact hrun (k + 1) (Nat.le_succ_of_le (Nat.le_trans hm hmk)) hk
  have hwaits : ∀ m, n ≤ m → ρ.Eventually (fun w => w.phase = .waiting) m := by
    intro m hm
    match hphase : (ρ.state m).phase with
    | .events true => exact absurd hphase (hquiet m hm)
    | .events false =>
      obtain ⟨k, hmk, hk⟩ := h.leaves hgo hphase
      exact ⟨k + 1, Nat.le_succ_of_le hmk, hk⟩
    | .commands => exact absurd hphase (hrun m hm)
    | .waiting => exact ⟨m, Nat.le_refl m, hphase⟩
    | .left => exact absurd (.inl hphase) (hgo m)
  have hkept : ∀ m, n ≤ m → (ρ.state m).counter ≠ 0 := by
    intro m hm
    refine ρ.persists (fun w => w.counter ≠ 0) (fun k hk hne => ?_) hcounter hm
    rcases next_moved ρ k with hsame | ⟨event, hmoved⟩
    · rw [hsame]
      exact hne
    cases hmoved with
    | beside _ hcounts _ _ => exact hcounts hne
    | wait _ _ hsame | wake _ hsame =>
      rw [hsame]
      exact hne
    | read hphase _ => exact absurd hphase (hquiet k hk)
    | command hphase _ | drained hphase _ => exact absurd hphase (hrun k hk)
    | leave hphase => exact absurd (.inl hphase) (hgo (k + 1))
  obtain ⟨m, hnm, hreported⟩ := h.reports n fun m hm => ⟨hkept m hm, hwaits m hm⟩
  exact hquiet m hnm hreported

/-- The client as its command queue sees it. -/
def signalled (ρ : Trace (waking π env)) : Trace (Signal.system ClientCommand π) :=
  ρ.map Waking.signal (fun w hw => by
    obtain ⟨⟨process, building, accepted⟩, ⟨hfresh, _, _⟩, rfl⟩ := hw
    obtain ⟨pubKey, maxFrameSize, socket, epollFd, cmdEvFd, _, rfl⟩ := hfresh
    rfl) fun _ _ _ hw hv => Waking.perform_signal (submitting_wellFormed (waking_submitting hw)) hv

theorem Fair.handles (h : Fair ρ) (hgo : ∀ m, ¬ (ρ.state m).Ended) : Signal.Fair (signalled ρ) := by
  refine ⟨h.writes, fun n hraised => ?_, fun n hdraining => ?_⟩
  · obtain ⟨m, hnm, hphase⟩ := h.wakes hgo (of_decide_eq_true hraised)
    exact ⟨m, hnm, decide_eq_true hphase⟩
  · apply Classical.byContradiction
    intro hnever
    have hrun : ∀ m, n ≤ m → (ρ.state m).phase = .commands ∧
        (ρ.state m).popped.length ≤ (ρ.state n).popped.length := by
      intro m hm
      refine ⟨Classical.byContradiction fun hphase => hnever ⟨m, hm, .inl (decide_eq_false hphase)⟩, ?_⟩
      exact Nat.le_of_not_lt fun hlt => hnever ⟨m, hm, .inr hlt⟩
    obtain ⟨m, hnm, event, hevent, hstep⟩ := h.commands n fun m hm => ⟨hgo m, (hrun m hm).1⟩
    obtain ⟨hphase, _⟩ := hrun m hnm
    obtain ⟨hphase', hnone⟩ := hrun (m + 1) (Nat.le_succ_of_le hnm)
    cases Waking.perform_moved hstep with
    | beside _ _ hcommand hdrained => exact hevent.elim hcommand hdrained
    | wait hother _ _ | wake hother _ | read hother _ => cases hphase.symm.trans hother
    | command _ hlonger =>
      have hgrown := Signal.popped_grows (signalled ρ) hnm
      exact Nat.not_lt_of_le (Nat.le_trans hnone hgrown) hlonger
    | drained _ hdrained => cases hphase'.symm.trans hdrained
    | leave hleft => cases hphase'.symm.trans hleft

theorem ended_stays (ρ : Trace (waking π env)) {m : Nat} (hended : (ρ.state n).Ended) (hnm : n ≤ m) :
    (ρ.state m).Ended := by
  refine ρ.persists Waking.Ended (fun k _ hk => ?_) hended hnm
  rcases ρ.next k with hsame | ⟨event, hstep⟩
  · rw [hsame]
    exact hk
  rcases hk with hleft | hcaught
  · cases Waking.perform_moved hstep with
    | beside hphase _ _ _ => exact .inl (hphase.trans hleft)
    | wait hphase _ _ | wake hphase _ | read hphase _ | command hphase _ | drained hphase _ =>
      cases hleft.symm.trans hphase
    | leave hphase => exact .inl hphase
  · rcases Waking.perform_submitting hstep with hsame | ⟨e, he⟩
    · refine .inr ?_
      rw [hsame]
      exact hcaught
    · have hlive := (submitting_wellFormed (waking_submitting (ρ.reachable k))).live
      exact absurd (perform_progress hlive he).1 hcaught

/-- **Every command is handled**, unless the epoll thread leaves its loop. -/
theorem Fair.serves (h : Fair ρ) {k : Nat} {cmd : ClientCommand} (hcmd : (ρ.state n).pushed[k]? = some cmd) :
    ρ.Eventually (fun w => w.popped[k]? = some cmd ∨ w.Ended) n := by
  by_cases hgo : ∀ m, ¬ (ρ.state m).Ended
  · obtain ⟨m, hnm, hpopped⟩ := (h.handles hgo).serves (n := n) hcmd
    exact ⟨m, hnm, .inl hpopped⟩
  · rw [not_forall] at hgo
    obtain ⟨m, hm⟩ := hgo
    exact ⟨max n m, Nat.le_max_left .., .inr (ended_stays ρ (not_not.mp hm) (Nat.le_max_right ..))⟩

/-- A run that ends in `epoll_wait`, with nothing to be read, is fair. -/
theorem Fair.of_waiting {N : Nat} {t : Waking π} (hend : ∀ n, N ≤ n → ρ.state n = t) (hphase : t.phase = .waiting)
    (hcounter : t.counter = 0) (hbetween : ∀ thread, t.between thread = false) : Fair ρ := by
  have hlate : ∀ n, n ≤ max n N ∧ ρ.state (max n N) = t :=
    fun n => ⟨Nat.le_max_left .., hend _ (Nat.le_max_right ..)⟩
  refine ⟨fun n thread _ => ?_, fun n signalled hall => ?_, fun n hall => ?_, fun n hall => ?_⟩
  all_goals obtain ⟨hle, hlast⟩ := hlate n
  · exact ⟨_, hle, by rw [hlast]; exact hbetween thread⟩
  · have hevents := (hall _ hle).2
    rw [hlast, hphase] at hevents
    cases hevents
  · have hcommands := (hall _ hle).2
    rw [hlast, hphase] at hcommands
    cases hcommands
  · have hne := (hall _ hle).1
    rw [hlast] at hne
    exact absurd hcounter hne

end

end Client

/-- **Every command is handled**, on both sides and in every fair run: it is handled in its turn, or the epoll
loop comes to its end. -/
theorem commands_handled {π : Type*} [DecidableEq π] {server : Server.LoopEnv} {client : Client.Env}
    {ρ : Trace (Server.waking π server)} {σ : Trace (Client.waking π client)} (hρ : Server.Fair ρ)
    (hσ : Client.Fair σ) :
    (∀ (n k : Nat) cmd, (ρ.state n).pushed[k]? = some cmd →
      ρ.Eventually (fun w => w.popped[k]? = some cmd ∨ w.loop.uncaught ≠ none) n) ∧
    (∀ (n k : Nat) cmd, (σ.state n).pushed[k]? = some cmd →
      σ.Eventually (fun w => w.popped[k]? = some cmd ∨ w.phase = .left ∨ w.submitting.process.uncaught ≠ none) n) :=
  ⟨fun _ _ _ hcmd => hρ.serves hcmd, fun _ _ _ hcmd => hσ.serves hcmd⟩

/-- Two threads push on the server, and nothing has been written yet; a request of the client waits as well. -/
theorem commands_handled_both :
    ∃ (ρ : Trace (Server.waking Bool Server.listening3)) (σ : Trace (Client.waking Bool Client.quietEnv)) (n m : Nat),
      (ρ.state n).pushed[1]? = some ⟨.close, 1, none⟩ ∧ (ρ.state n).popped = [] ∧
      ρ.Eventually (fun w => w.popped[1]? = some ⟨.close, 1, none⟩ ∨ w.loop.uncaught ≠ none) n ∧
      (σ.state m).pushed[0]? = some ⟨.send, some ⟨0, 2, 0, STATUS_REQ, 0, ascii ['/', 'p'], [1, 2]⟩⟩ ∧
      (σ.state m).popped = [] ∧
      σ.Eventually (fun w => w.popped[0]? = some ⟨.send, some ⟨0, 2, 0, STATUS_REQ, 0, ascii ['/', 'p'], [1, 2]⟩⟩ ∨
        w.phase = .left ∨ w.submitting.process.uncaught ≠ none) m := by
  have hserver : (execute (fun (w : Server.Waking Bool) event => w.perform Server.listening3 3 event)
      [.step (.wait [⟨3, false, true, 0⟩]), .step (.event (.once []) 100), .step (.accept 5), .step .accepted,
        .push true (.closeConnection 1), .push false (.closeConnection 1)] {loop := {}}).bind (fun u =>
      (execute (fun (w : Server.Waking Bool) event => w.perform Server.listening3 3 event)
        [.wakeEpoll true, .step (.wait [⟨4, false, true, 0⟩]), .step (.event (.once []) 101), .step .command,
          .wakeEpoll false, .step .command, .step .drained, .step (.wait [⟨4, false, true, 0⟩]),
          .step (.event (.once []) 102), .step .drained] u).map fun t =>
            (u.pushed[1]?, u.popped, decide t.loop.Waiting, t.counter, t.between true, t.between false)) =
        some (some ⟨.close, 1, none⟩, [], true, 0, false, false) := by
    decide +kernel
  have hclient : (execute (fun (w : Client.Waking Bool) event => w.perform Client.quietEnv event)
      [.step (.start 100), .wait, .build (ascii ['/', 'p']) [1, 2],
        .push true ⟨.send, some ⟨0, 2, 0, STATUS_REQ, 0, ascii ['/', 'p'], [1, 2]⟩⟩]
        {submitting := ⟨Client.connected3, [], []⟩}).bind (fun u =>
      (execute (fun (w : Client.Waking Bool) event => w.perform Client.quietEnv event)
        [.write true, .wake true, .read, .step .command, .drained, .wait] u).map fun t =>
            (u.pushed[0]?, u.popped, t.phase, t.counter, t.between true, t.between false)) =
        some (some ⟨.send, some ⟨0, 2, 0, STATUS_REQ, 0, ascii ['/', 'p'], [1, 2]⟩⟩, [], .waiting, 0, false, false) := by
    decide +kernel
  obtain ⟨u, hu, hrest⟩ := Option.bind_eq_some_iff.mp hserver
  obtain ⟨t, ht, hresult⟩ := Option.map_eq_some_iff.mp hrest
  obtain ⟨v, hv, hrest'⟩ := Option.bind_eq_some_iff.mp hclient
  obtain ⟨w, hw, hresult'⟩ := Option.map_eq_some_iff.mp hrest'
  simp only [Prod.mk.injEq] at hresult hresult'
  obtain ⟨hpushed, hpopped, hwaiting, hcounter, htrue, hfalse⟩ := hresult
  obtain ⟨hpushed', hpopped', hwaiting', hcounter', htrue', hfalse'⟩ := hresult'
  obtain ⟨ρ, hρu, hρ⟩ := Run.forever (S := Server.waking Bool Server.listening3) ⟨_, ⟨0, rfl⟩, rfl⟩
    (.of_execute (fun _ _ _ _ h => ⟨3, h⟩) hu) (.of_execute (fun _ _ _ _ h => ⟨3, h⟩) ht)
  obtain ⟨σ, hσv, hσ⟩ := Run.forever (S := Client.waking Bool Client.quietEnv)
    ⟨_, ⟨Client.connected3_fresh, rfl, rfl⟩, rfl⟩ (.of_execute (fun _ _ _ _ h => h) hv)
    (.of_execute (fun _ _ _ _ h => h) hw)
  rw [← hρu] at hpushed hpopped
  rw [← hσv] at hpushed' hpopped'
  have hhandled := commands_handled
    (Server.Fair.of_waiting hρ (of_decide_eq_true hwaiting) hcounter (fun thread => by cases thread <;> assumption))
    (Client.Fair.of_waiting hσ hwaiting' hcounter' (fun thread => by cases thread <;> assumption))
  exact ⟨ρ, σ, _, _, hpushed, hpopped, hhandled.1 _ _ _ hpushed, hpushed', hpopped', hhandled.2 _ _ _ hpushed'⟩

end Fmxp
