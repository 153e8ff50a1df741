import Mathlib.Logic.Function.Basic
import Fmxp.Core.Bytes
import Fmxp.Library.Transition

/-! The descriptors of the connections of a process.

`_connect` opens a socket, an epoll descriptor and an event descriptor, and may fail at any of the things it does. Then
the constructor throws, and the destructor, which would close what has been opened, is never called. A connection that
has been constructed has all three, and closes them in `close`, which the destructor calls too, when the epoll thread
been joined. Two threads may both pass the test at its beginning, and then close the same numbers twice
(`closed_twice`); `Apart` is the rule that the calls of one connection do not overlap. Here are any number of
connections, and other code that opens and closes descriptors of its own at any point. Every descriptor that is opened
is kept until it is closed, or for ever (`descriptors_kept`). -/
namespace Fmxp.Client
open Transition

/-- What `_connect` does, in order. -/
inductive ConnectStep where
  | socket
  | address
  | connect
  | epollFd
  | cmdEvFd
  | addSocket
  | addCmdEvFd
  | thread
  deriving DecidableEq, Repr

/-- What it throws where that fails. -/
def ConnectStep.thrown : ConnectStep → Exn
  | .socket => .runtime (throwErr ERR_CONNECTION "socket failed")
  | .address => .runtime (throwErr ERR_CONNECTION "invalid address")
  | .connect => .runtime (throwErr ERR_CONNECTION "connect failed")
  | .epollFd => .runtime (throwErr ERR_CONNECTION "epoll_create failed")
  | .cmdEvFd => .runtime (throwErr ERR_CONNECTION "eventfd failed")
  | .addSocket => .runtime (throwErr ERR_CONNECTION "epoll socket add failed")
  | .addCmdEvFd => .runtime (throwErr ERR_CONNECTION "epoll eventfd add failed")
  | .thread => .system "Resource temporarily unavailable"

def ConnectStep.next : ConnectStep → Option ConnectStep
  | .socket => some .address
  | .address => some .connect
  | .connect => some .epollFd
  | .epollFd => some .cmdEvFd
  | .cmdEvFd => some .addSocket
  | .addSocket => some .addCmdEvFd
  | .addCmdEvFd => some .thread
  | .thread => none

/-- What a call of `close` does next, when it has passed the test. -/
inductive CloseStep where
  | state
  | socket
  | epollFd
  | cmdEvFd
  | reset
  deriving DecidableEq, Repr

/-- Where an object is; `closed` from when `_state` says so. -/
inductive HolderStage where
  | absent
  | connecting (step : ConnectStep)
  | threw (step : ConnectStep)
  | running
  | closed
  | destroyed
  deriving DecidableEq, Repr

/-- The three fields, and the calls of `close` that have not returned. -/
structure Holder where
  socket : Int := -1
  epollFd : Int := -1
  cmdEvFd : Int := -1
  stage : HolderStage := .absent
  thrown : Option Exn := none
  closers : List CloseStep := []
  deriving DecidableEq, Repr

def Holder.fields (c : Holder) : List Int := [c.socket, c.epollFd, c.cmdEvFd]

/-- Connections by name, and who has opened the descriptor under each number in use: a connection, or other code. The
calls of `close` that connections make are recorded, with the owner of what they found. -/
structure Holders (ι : Type*) where
  conns : ι → Holder := fun _ => {}
  owner : Int → Option (Option ι)
  closes : List (ι × Int × Option (Option ι)) := []

inductive HolderEvent (ι : Type*) where
  | construct (i : ι)
  | succeed (i : ι) (n : Int)
  | fail (i : ι)
  | close (i : ι)
  | closeNext (i : ι) (caller : Nat)
  | destroy (i : ι)
  | otherOpens (n : Int)
  | otherCloses (n : Int)
  deriving DecidableEq, Repr

variable {ι : Type*} [DecidableEq ι]

def Holders.set (i : ι) (c : Holder) (s : Holders ι) : Holders ι := {s with conns := Function.update s.conns i c}

/-- The system picks a number that is not in use. -/
def Holders.opened (who : Option ι) (n : Int) (s : Holders ι) : Option (Holders ι) :=
  if 0 ≤ n ∧ s.owner n = none then some {s with owner := Function.update s.owner n (some who)} else none

/-- `if (_socket != -1) ::close(_socket);` -/
def Holders.closeFd (i : ι) (n : Int) (s : Holders ι) : Holders ι :=
  if n = -1 then s
  else {s with owner := Function.update s.owner n none, closes := s.closes ++ [(i, n, s.owner n)]}

/-- One of the things `_connect` does, which succeeds; `n` is what it opens, if that is what it does. -/
def Holders.succeed (i : ι) (step : ConnectStep) (n : Int) (s : Holders ι) : Option (Holders ι) :=
  let c := s.conns i
  let stage := match step.next with
    | some step => HolderStage.connecting step
    | none => .running
  match step with
  | .socket => (s.opened (some i) n).map (.set i {c with socket := n, stage := stage})
  | .epollFd => (s.opened (some i) n).map (.set i {c with epollFd := n, stage := stage})
  | .cmdEvFd => (s.opened (some i) n).map (.set i {c with cmdEvFd := n, stage := stage})
  | .address | .connect | .addSocket | .addCmdEvFd | .thread => some (s.set i {c with stage := stage})

/-- A call of `close` goes on: `_state` is set, the three are closed, their fields are reset. -/
def Holders.closeNext (i : ι) (caller : Nat) (step : CloseStep) (s : Holders ι) : Holders ι :=
  let c := s.conns i
  match step with
  | .state => s.set i {c with stage := .closed, closers := c.closers.set caller .socket}
  | .socket => (s.closeFd i c.socket).set i {c with closers := c.closers.set caller .epollFd}
  | .epollFd => (s.closeFd i c.epollFd).set i {c with closers := c.closers.set caller .cmdEvFd}
  | .cmdEvFd => (s.closeFd i c.cmdEvFd).set i {c with closers := c.closers.set caller .reset}
  | .reset => s.set i {c with socket := -1, epollFd := -1, cmdEvFd := -1, closers := c.closers.eraseIdx caller}

def Holders.perform (event : HolderEvent ι) (s : Holders ι) : Option (Holders ι) :=
  match event with
  | .construct i =>
    match (s.conns i).stage with
    | .absent => some (s.set i {stage := .connecting .socket})
    | _ => none
  | .succeed i n =>
    match (s.conns i).stage with
    | .connecting step => s.succeed i step n
    | _ => none
  | .fail i =>
    match (s.conns i).stage with
    | .connecting step => some (s.set i {s.conns i with stage := .threw step, thrown := some step.thrown})
    | _ => none
  | .close i =>
    match (s.conns i).stage with
    | .running => some (s.set i {s.conns i with closers := (s.conns i).closers ++ [.state]})
    | _ => none
  | .closeNext i caller => (s.conns i).closers[caller]?.map fun step => s.closeNext i caller step
  | .destroy i =>
    match (s.conns i).stage, (s.conns i).closers with
    | .closed, [] => some (s.set i {s.conns i with stage := .destroyed})
    | _, _ => none
  | .otherOpens n => s.opened none n
  | .otherCloses n =>
    if s.owner n = some none then some {s with owner := Function.update s.owner n none} else none

variable (ι) in
def holders : System (Holders ι) (HolderEvent ι) where
  init := fun s => ∃ owner, (∀ n i, owner n ≠ some (some i)) ∧ owner (-1) = none ∧ s = {owner := owner}
  step := fun s event t => s.perform event = some t

/-- A connection is closed by one call at a time. -/
def Apart (s : Holders ι) : HolderEvent ι → Prop
  | .close i => (s.conns i).closers = []
  | _ => True

/-! ### What is kept -/

/-- What has been opened before a step. -/
def ConnectStep.opened : ConnectStep → Nat
  | .socket => 0
  | .address | .connect | .epollFd => 1
  | .cmdEvFd => 2
  | .addSocket | .addCmdEvFd | .thread => 3

def HolderStage.opened : HolderStage → Nat
  | .connecting step | .threw step => step.opened
  | .running | .closed => 3
  | .absent | .destroyed => 0

/-- How many a call has closed. -/
def CloseStep.done : CloseStep → Nat
  | .state | .socket => 0
  | .epollFd => 1
  | .cmdEvFd => 2
  | .reset => 3

def Holder.done (c : Holder) : Nat :=
  match c.stage, c.closers with
  | .closed, [] => 3
  | .closed, step :: _ => step.done
  | _, _ => 0

/-- What has been opened and not closed. When the constructor has thrown there is no object that would hold it. -/
def Holder.kept (c : Holder) : List Int := (c.fields.take c.stage.opened).drop c.done

/-- One call at most is closing it, and that call has gone as far as `_state` says. -/
def Holder.Ordered (c : Holder) : Prop :=
  match c.stage, c.closers with
  | _, [] => True
  | .running, [step] => step = .state
  | .closed, [step] => step ≠ .state
  | _, _ => False

/-- The books are in order: a connection owns what it keeps and nothing else, and closes nothing else. -/
structure Exact (s : Holders ι) : Prop where
  owned : ∀ n i, s.owner n = some (some i) ↔ n ∈ (s.conns i).kept
  single : ∀ i, (s.conns i).kept.Nodup
  ordered : ∀ i, (s.conns i).Ordered
  unused : s.owner (-1) = none
  own : ∀ e ∈ s.closes, e.2.2 = some (some e.1)

variable {s t : Holders ι} {i : ι} {c : Holder} {n : Int}

omit [DecidableEq ι] in
theorem opened_spec {who : Option ι} (h : s.opened who n = some t) :
    0 ≤ n ∧ s.owner n = none ∧ t = {s with owner := Function.update s.owner n (some who)} := by
  obtain ⟨hfree, h⟩ := Option.ite_none_right_eq_some.mp h
  cases h
  exact ⟨hfree.1, hfree.2, rfl⟩

/-- The call that goes on is the only one. -/
theorem Holder.Ordered.only {caller : Nat} {step : CloseStep} (h : c.Ordered) (hstep : c.closers[caller]? = some step) :
    c.closers = [step] ∧ caller = 0 ∧ c.stage = if step = .state then .running else .closed := by
  unfold Holder.Ordered at h
  split at h
  · next hnone =>
    rw [hnone] at hstep
    cases hstep
  · next hstage hone =>
    rw [hone, List.getElem?_singleton, Option.ite_none_right_eq_some] at hstep
    obtain ⟨rfl, hsome⟩ := hstep
    obtain rfl := Option.some.inj hsome
    exact ⟨hone, rfl, by rw [if_pos h, hstage]⟩
  · next hstage hone =>
    rw [hone, List.getElem?_singleton, Option.ite_none_right_eq_some] at hstep
    obtain ⟨rfl, hsome⟩ := hstep
    obtain rfl := Option.some.inj hsome
    exact ⟨hone, rfl, by rw [if_neg h, hstage]⟩
  · cases h

theorem Holder.ordered_of_idle (h : c.closers = []) : c.Ordered := by
  unfold Holder.Ordered
  rw [h]
  cases c.stage <;> trivial

theorem Holder.Ordered.idle (h : c.Ordered) (hstage : c.stage ≠ .running ∧ c.stage ≠ .closed) : c.closers = [] := by
  cases hclosers : c.closers with
  | nil => rfl
  | cons step rest =>
    obtain ⟨_, _, heq⟩ := h.only (show c.closers[0]? = some step by rw [hclosers]; rfl)
    split at heq
    · exact absurd heq hstage.1
    · exact absurd heq hstage.2

theorem ordered_set (h : ∀ i, (s.conns i).Ordered) (hc : c.Ordered) (j : ι) : ((s.set i c).conns j).Ordered := by
  by_cases hji : j = i
  · subst hji
    simp only [Holders.set, Function.update_self, hc]
  · simp only [Holders.set, Function.update_of_ne hji]
    exact h j

/-- A connection goes on and keeps what it has. -/
theorem Exact.quiet (h : Exact s) (hkept : c.kept = (s.conns i).kept) (hc : c.Ordered) : Exact (s.set i c) := by
  have hsame : ∀ j, ((s.set i c).conns j).kept = (s.conns j).kept := by
    intro j
    by_cases hji : j = i
    · subst hji
      simp only [Holders.set, Function.update_self, hkept]
    · simp only [Holders.set, Function.update_of_ne hji]
  refine ⟨fun n j => ?_, fun j => ?_, ordered_set h.ordered hc, h.unused, h.own⟩
  · rw [hsame]
    exact h.owned n j
  · rw [hsame]
    exact h.single j

omit [DecidableEq ι] in
/-- Other code opens or closes a descriptor. -/
theorem Exact.foreign {x : Option (Option ι)} (h : Exact s) (hn : n ≠ -1) (hbefore : ∀ i, s.owner n ≠ some (some i))
    (hafter : ∀ i, x ≠ some (some i)) : Exact {s with owner := Function.update s.owner n x} := by
  refine ⟨fun m j => ?_, h.single, h.ordered, ?_, h.own⟩
  · by_cases hmn : m = n
    · subst hmn
      refine iff_of_false ?_ fun hmem => hbefore j ((h.owned m j).mpr hmem)
      show Function.update s.owner m x m ≠ _
      rw [Function.update_self]
      exact hafter j
    · show Function.update s.owner n x m = _ ↔ _
      rw [Function.update_of_ne hmn]
      exact h.owned m j
  · show Function.update s.owner n x (-1) = none
    rw [Function.update_of_ne (Ne.symm hn)]
    exact h.unused

/-- A connection opens a descriptor. -/
theorem Exact.taken (h : Exact s) (hopened : s.opened (some i) n = some t)
    (hkept : c.kept = (s.conns i).kept ++ [n]) (hc : c.Ordered) : Exact (t.set i c) := by
  obtain ⟨hn, hfree, rfl⟩ := opened_spec hopened
  have hnew : ∀ j, n ∉ (s.conns j).kept := by
    intro j hmem
    rw [(h.owned n j).mpr hmem] at hfree
    cases hfree
  refine ⟨fun m j => ?_, fun j => ?_, ordered_set h.ordered hc, ?_, h.own⟩
  · by_cases hji : j = i
    · subst hji
      simp only [Holders.set, Function.update_self, hkept, List.mem_append, List.mem_singleton]
      by_cases hmn : m = n
      · subst hmn
        simp only [Function.update_self, or_true]
      · simp only [Function.update_of_ne hmn, hmn, or_false]
        exact h.owned m j
    · simp only [Holders.set, Function.update_of_ne hji]
      by_cases hmn : m = n
      · subst hmn
        refine iff_of_false (fun howner => ?_) (hnew j)
        rw [Function.update_self] at howner
        exact hji (Option.some.inj (Option.some.inj howner)).symm
      · rw [Function.update_of_ne hmn]
        exact h.owned m j
  · by_cases hji : j = i
    · subst hji
      simp only [Holders.set, Function.update_self, hkept]
      exact List.nodup_append.mpr ⟨h.single j, List.pairwise_singleton .., fun m hm m' hm' heq => by
        rw [List.mem_singleton.mp hm'] at heq
        exact hnew j (heq ▸ hm)⟩
    · simp only [Holders.set, Function.update_of_ne hji]
      exact h.single j
  · show Function.update s.owner n _ (-1) = none
    rw [Function.update_of_ne (by omega)]
    exact h.unused

/-- A connection closes a descriptor. -/
theorem Exact.returned {rest : List Int} (h : Exact s) (hbefore : (s.conns i).kept = n :: rest)
    (hkept : c.kept = rest) (hc : c.Ordered) : Exact ((s.closeFd i n).set i c) := by
  have hmine : s.owner n = some (some i) := (h.owned n i).mpr (by rw [hbefore]; exact List.mem_cons_self ..)
  have hn : n ≠ -1 := by
    rintro rfl
    rw [h.unused] at hmine
    cases hmine
  have hnodup := h.single i
  rw [hbefore, List.nodup_cons] at hnodup
  rw [Holders.closeFd, if_neg hn]
  refine ⟨fun m j => ?_, fun j => ?_, ordered_set h.ordered hc, ?_, fun e he => ?_⟩
  · by_cases hmn : m = n
    · subst hmn
      simp only [Holders.set, Function.update_self]
      refine iff_of_false (fun howner => by cases howner) fun hmem => ?_
      by_cases hji : j = i
      · subst hji
        rw [Function.update_self, hkept] at hmem
        exact hnodup.1 hmem
      · rw [Function.update_of_ne hji] at hmem
        rw [(h.owned m j).mpr hmem] at hmine
        exact hji (Option.some.inj (Option.some.inj hmine))
    · simp only [Holders.set, Function.update_of_ne hmn]
      by_cases hji : j = i
      · subst hji
        rw [Function.update_self, hkept, h.owned m j, hbefore]
        exact ⟨fun hmem => (List.mem_cons.mp hmem).resolve_left hmn, List.mem_cons_of_mem n⟩
      · rw [Function.update_of_ne hji]
        exact h.owned m j
  · by_cases hji : j = i
    · subst hji
      simp only [Holders.set, Function.update_self, hkept]
      exact hnodup.2
    · simp only [Holders.set, Function.update_of_ne hji]
      exact h.single j
  · show Function.update s.owner n none (-1) = none
    rw [Function.update_of_ne (Ne.symm hn)]
    exact h.unused
  · rcases List.mem_append.mp he with he | he
    · exact h.own e he
    · rw [List.mem_singleton.mp he]
      exact hmine

theorem Exact.succeed {step : ConnectStep} (h : Exact s) (hstage : (s.conns i).stage = .connecting step)
    (ht : s.succeed i step n = some t) : Exact t := by
  have hidle : (s.conns i).closers = [] := by
    refine (h.ordered i).idle ?_
    rw [hstage]
    exact ⟨fun heq => (by cases heq), fun heq => (by cases heq)⟩
  cases step with
  | socket | epollFd | cmdEvFd =>
    obtain ⟨u, hu, rfl⟩ := Option.map_eq_some_iff.mp ht
    refine h.taken hu ?_ (Holder.ordered_of_idle hidle)
    simp only [Holder.kept, Holder.done, hstage]
    rfl
  | address | connect | addSocket | addCmdEvFd | thread =>
    cases ht
    refine h.quiet ?_ (Holder.ordered_of_idle hidle)
    simp only [Holder.kept, Holder.done, hstage, hidle]
    rfl

/-- The one call that is closing a connection goes on. -/
theorem Exact.closeNext {caller : Nat} {step : CloseStep} (h : Exact s)
    (hstep : (s.conns i).closers[caller]? = some step) : Exact (s.closeNext i caller step) := by
  obtain ⟨hone, rfl, hstage⟩ := (h.ordered i).only hstep
  have hkept : (s.conns i).kept = (s.conns i).fields.drop step.done := by
    simp only [Holder.kept, Holder.done, hstage, hone]
    cases step <;> rfl
  cases step with
  | state =>
    refine h.quiet (hkept ▸ ?_) ?_
    · simp only [Holder.kept, Holder.done, hone]
      rfl
    · simp only [Holder.Ordered, hone]
      intro hc
      cases hc
  | socket | epollFd | cmdEvFd =>
    refine h.returned hkept ?_ ?_
    · simp only [Holder.kept, Holder.done, hstage, hone]
      rfl
    · simp only [Holder.Ordered, hstage, hone]
      intro hc
      cases hc
  | reset =>
    have hnone : (s.conns i).closers.eraseIdx 0 = [] := by rw [hone]; rfl
    refine h.quiet (hkept ▸ ?_) (Holder.ordered_of_idle hnone)
    simp only [Holder.kept, Holder.done, hstage, hnone]
    rfl

theorem Exact.step {event : HolderEvent ι} (h : Exact s) (hrule : Apart s event) (ht : s.perform event = some t) :
    Exact t := by
  cases event with
  | construct i =>
    simp only [Holders.perform] at ht
    split at ht
    · next hstage =>
      cases ht
      refine h.quiet ?_ (Holder.ordered_of_idle rfl)
      simp only [Holder.kept, Holder.done, hstage]
      rfl
    · cases ht
  | fail i =>
    simp only [Holders.perform] at ht
    split at ht
    · next hstage =>
      cases ht
      refine h.quiet ?_ (Holder.ordered_of_idle ((h.ordered i).idle ?_))
      · simp only [Holder.kept, Holder.done, hstage]
        rfl
      · rw [hstage]
        exact ⟨fun heq => (by cases heq), fun heq => (by cases heq)⟩
    · cases ht
  | close i =>
    have hidle : (s.conns i).closers = [] := hrule
    simp only [Holders.perform] at ht
    split at ht
    · next hstage =>
      cases ht
      refine h.quiet ?_ ?_
      · simp only [Holder.kept, Holder.done, hstage]
        rfl
      · simp only [Holder.Ordered, hstage, hidle]
        rfl
    · cases ht
  | destroy i =>
    simp only [Holders.perform] at ht
    split at ht
    · next hstage hidle =>
      cases ht
      refine h.quiet ?_ (Holder.ordered_of_idle hidle)
      simp only [Holder.kept, Holder.done, hstage, hidle]
      rfl
    · cases ht
  | succeed i n =>
    simp only [Holders.perform] at ht
    split at ht
    · next hstage => exact h.succeed hstage ht
    · cases ht
  | closeNext i caller =>
    obtain ⟨step, hstep, rfl⟩ := Option.map_eq_some_iff.mp ht
    exact h.closeNext hstep
  | otherOpens n =>
    obtain ⟨hn, hfree, rfl⟩ := opened_spec ht
    exact h.foreign (by omega) (fun i hi => by rw [hfree] at hi; cases hi) fun _ hx => by cases hx
  | otherCloses n =>
    obtain ⟨hother, ht⟩ := Option.ite_none_right_eq_some.mp ht
    cases ht
    refine h.foreign (fun hn => ?_) (fun i hi => by rw [hother] at hi; cases hi) fun _ hx => by cases hx
    rw [hn, h.unused] at hother
    cases hother

theorem reachable_exact (h : Reachable ((holders ι).under Apart) s) : Exact s := by
  refine h.invariant (fun s hinit => ?_) fun s event t hs hstep => hs.step hstep.1 hstep.2
  obtain ⟨owner, hothers, hunused, rfl⟩ := hinit
  exact ⟨fun n i => iff_of_false (hothers n i) (List.not_mem_nil), fun _ => .nil, fun _ => trivial, hunused,
    fun _ he => by cases he⟩

/-! ### What nobody closes -/

omit [DecidableEq ι] in
theorem closeFd_conns (i : ι) (n : Int) (s : Holders ι) : (s.closeFd i n).conns = s.conns := by
  unfold Holders.closeFd
  split <;> rfl

/-- A step is about one object, whose constructor has not thrown, or about none. -/
theorem perform_conns {event : HolderEvent ι} (hs : Exact s) (ht : s.perform event = some t) :
    t.conns = s.conns ∨ ∃ i c, t.conns = Function.update s.conns i c ∧ ∀ step, (s.conns i).stage ≠ .threw step := by
  have hstage : ∀ {i stage}, (s.conns i).stage = stage → (∀ step, stage ≠ .threw step) →
      ∀ step, (s.conns i).stage ≠ .threw step := fun heq h => heq ▸ h
  cases event with
  | construct i | fail i | close i | destroy i =>
    simp only [Holders.perform] at ht
    split at ht
    · cases ht
      exact .inr ⟨i, _, rfl, hstage ‹_› fun _ heq => (by cases heq)⟩
    · cases ht
  | succeed i n =>
    simp only [Holders.perform] at ht
    split at ht
    · next step hconnecting =>
      have hother := hstage hconnecting fun _ heq => (by cases heq)
      cases step with
      | socket | epollFd | cmdEvFd =>
        obtain ⟨u, hu, rfl⟩ := Option.map_eq_some_iff.mp ht
        obtain ⟨_, _, rfl⟩ := opened_spec hu
        exact .inr ⟨i, _, rfl, hother⟩
      | address | connect | addSocket | addCmdEvFd | thread =>
        cases ht
        exact .inr ⟨i, _, rfl, hother⟩
    · cases ht
  | closeNext i caller =>
    obtain ⟨step, hstep, rfl⟩ := Option.map_eq_some_iff.mp ht
    have hother : ∀ step, (s.conns i).stage ≠ .threw step := by
      refine hstage ((hs.ordered i).only hstep).2.2 fun _ heq => ?_
      split at heq <;> cases heq
    cases step with
    | state | reset => exact .inr ⟨i, _, rfl, hother⟩
    | socket | epollFd | cmdEvFd =>
      exact .inr ⟨i, _, congrArg (fun conns => Function.update conns i _) (closeFd_conns ..), hother⟩
  | otherOpens n =>
    obtain ⟨_, _, rfl⟩ := opened_spec ht
    exact .inl rfl
  | otherCloses n =>
    obtain ⟨_, ht⟩ := Option.ite_none_right_eq_some.mp ht
    cases ht
    exact .inl rfl

theorem threw_step {event : HolderEvent ι} {step : ConnectStep} (hs : Exact s)
    (hthrew : (s.conns i).stage = .threw step) (ht : s.perform event = some t) : t.conns i = s.conns i := by
  rcases perform_conns hs ht with hsame | ⟨j, c, hconns, hother⟩
  · rw [hsame]
  · have hne : i ≠ j := fun heq => hother step (heq ▸ hthrew)
    rw [hconns, Function.update_of_ne hne]

theorem threw_run {events : List (HolderEvent ι)} {step : ConnectStep} (hs : Exact s)
    (hthrew : (s.conns i).stage = .threw step) (hrun : Run ((holders ι).under Apart) s events t) :
    Exact t ∧ t.conns i = s.conns i := by
  induction hrun with
  | nil => exact ⟨hs, rfl⟩
  | cons hstep _ ih =>
    have hsame := threw_step hs hthrew hstep.2
    obtain ⟨ht, heq⟩ := ih (hs.step hstep.1 hstep.2) (by rw [hsame, hthrew])
    exact ⟨ht, heq.trans hsame⟩

/-! ### Every run -/

/-- What connections have of the descriptors in use. -/
structure Holders.Kept (s : Holders ι) : Prop where
  /-- Those that a connection has opened are those that it has opened and not closed, each number once. -/
  owned : ∀ n i, s.owner n = some (some i) ↔ n ∈ (s.conns i).kept
  single : ∀ i, (s.conns i).kept.Nodup
  /-- A connection closes no other. -/
  own : ∀ e ∈ s.closes, e.2.2 = some (some e.1)
  /-- None is left when `close` has returned. -/
  count : ∀ i, (s.conns i).kept.length = (s.conns i).stage.opened - (s.conns i).done
  /-- What a constructor has opened that throws, stays in use for ever. -/
  leaked : ∀ i step, (s.conns i).stage = .threw step → ∀ events t, Run ((holders ι).under Apart) s events t →
    (t.conns i).kept = (s.conns i).kept ∧ ∀ n ∈ (s.conns i).kept, t.owner n = some (some i)

/-- **Every descriptor of a connection is kept, each by its own**, in every run in which the calls that close one
connection do not overlap: until it is closed, and for ever where the constructor has thrown. -/
theorem descriptors_kept (h : Reachable ((holders ι).under Apart) s) : s.Kept := by
  have hs := reachable_exact h
  refine ⟨hs.owned, hs.single, hs.own, fun i => ?_, fun i step hthrew events t hrun => ?_⟩
  · have hfields : (s.conns i).stage.opened ≤ (s.conns i).fields.length := by
      show (s.conns i).stage.opened ≤ 3
      cases (s.conns i).stage with
      | connecting step | threw step => cases step <;> decide
      | running | closed => exact Nat.le_refl 3
      | absent | destroyed => exact Nat.zero_le 3
    rw [Holder.kept, List.length_drop, List.length_take, Nat.min_eq_left hfields]
  · obtain ⟨ht, hsame⟩ := threw_run hs hthrew hrun
    refine ⟨by rw [hsame], fun n hn => (ht.owned n i).mpr ?_⟩
    rw [hsame]
    exact hn

instance (s : Holders ι) (event : HolderEvent ι) : Decidable (Apart s event) :=
  match event with
  | .close i => inferInstanceAs (Decidable ((s.conns i).closers = []))
  | .construct _ | .succeed .. | .fail _ | .closeNext .. | .destroy _ | .otherOpens _ | .otherCloses _ =>
    .isTrue trivial

/-- A connection that has been made. -/
def connectedRun : List (HolderEvent Bool) :=
  [.construct true, .succeed true 3, .otherOpens 4, .succeed true 0, .succeed true 0, .succeed true 5,
    .succeed true 6, .succeed true 0, .succeed true 0, .succeed true 0]

/-- It is closed and destroyed, while another one fails when two of its descriptors are open. -/
def closedAndThrew : List (HolderEvent Bool) :=
  connectedRun ++ [.close true, .closeNext true 0, .closeNext true 0, .construct false, .succeed false 3,
    .succeed false 0, .closeNext true 0, .succeed false 0, .closeNext true 0, .succeed false 5, .closeNext true 0,
    .destroy true, .fail false]

theorem descriptors_of_two : ∃ s : Holders Bool, (s.conns true).stage = .destroyed ∧
    (s.conns false).stage = .threw .cmdEvFd ∧ (s.conns false).kept = [3, 5] ∧ s.Kept := by
  have hrun : (execute (guarded Apart fun (s : Holders Bool) event => s.perform event) closedAndThrew
      {owner := fun _ => none}).map (fun s => ((s.conns true).stage, (s.conns false).stage, (s.conns false).kept)) =
        some (.destroyed, .threw .cmdEvFd, [3, 5]) := by
    decide +kernel
  obtain ⟨s, hs, hresult⟩ := Option.map_eq_some_iff.mp hrun
  simp only [Prod.mk.injEq] at hresult
  obtain ⟨htrue, hfalse, hkept⟩ := hresult
  have hinit : ((holders Bool).under Apart).init {owner := fun _ => none} := ⟨_, fun _ _ h => (by cases h), rfl, rfl⟩
  have hreach : Reachable ((holders Bool).under Apart) s :=
    .execute (fun _ _ _ _ h => guarded_step (fun _ _ (ht : Holders.perform _ _ = _) => ht) h) (.init hinit) hs
  exact ⟨s, htrue, hfalse, hkept, descriptors_kept hreach⟩

/-- **Two calls of `close` overlap**: the second closes a descriptor that other code has opened. -/
theorem closed_twice : ∃ s : Holders Bool, Reachable (holders Bool) s ∧ (true, 3, some none) ∈ s.closes := by
  have hrun : (execute (fun (s : Holders Bool) event => s.perform event)
      (connectedRun ++ [.close true, .close true, .closeNext true 0, .closeNext true 0, .otherOpens 3,
        .closeNext true 1, .closeNext true 1]) {owner := fun _ => none}).map
          (fun s => decide ((true, 3, some none) ∈ s.closes)) = some true := by
    decide +kernel
  obtain ⟨s, hs, hresult⟩ := Option.map_eq_some_iff.mp hrun
  have hinit : (holders Bool).init {owner := fun _ => none} := ⟨_, fun _ _ h => (by cases h), rfl, rfl⟩
  exact ⟨s, .execute (fun _ _ _ _ h => h) (.init hinit) hs, of_decide_eq_true hresult⟩

end Fmxp.Client
