import Mathlib.Logic.Function.Basic
import Fmxp.Library.Transition

/-! Queues with a signal.

Any number of producers put items on a queue, and each raises a signal after its item is
there; one consumer lowers the signal before it looks at the queue, and then takes items until it
finds none. An item that waits is then always announced (`Announced`): the consumer is
draining the queue, the signal is up, or a producer has still to raise it. -/
namespace Signal
open Transition

/-- `halfway` are the producers whose item is on the queue and whose signal is not up yet; `pushed` and
`popped` are all items that went onto the queue and that came off it. -/
structure State (κ π : Type*) where
  queue : List κ := []
  raised : Bool := false
  draining : Bool := false
  halfway : π → Bool := fun _ => false
  pushed : List κ := []
  popped : List κ := []

inductive Event (κ π : Type*) where
  | push (producer : π) (item : κ)
  | raise (producer : π)
  | alert
  | lower
  | pop
  | finish

variable {κ π : Type*} [DecidableEq π]

/-- `alert` raises the signal without an item. -/
inductive Step : State κ π → Event κ π → State κ π → Prop
  | push {s : State κ π} {producer : π} {item : κ} : s.halfway producer = false →
      Step s (.push producer item) {s with
        queue := s.queue ++ [item]
        halfway := Function.update s.halfway producer true
        pushed := s.pushed ++ [item]}
  | raise {s : State κ π} {producer : π} : s.halfway producer = true →
      Step s (.raise producer) {s with raised := true, halfway := Function.update s.halfway producer false}
  | alert {s : State κ π} : Step s .alert {s with raised := true}
  | lower {s : State κ π} : s.draining = false → Step s .lower {s with raised := false, draining := true}
  | pop {s : State κ π} {item : κ} {rest : List κ} : s.draining = true → s.queue = item :: rest →
      Step s .pop {s with queue := rest, popped := s.popped ++ [item]}
  | finish {s : State κ π} : s.draining = true → s.queue = [] → Step s .finish {s with draining := false}

variable (κ π) in
def system : System (State κ π) (Event κ π) where
  init := fun s => s = {}
  step := Step

/-- Whatever waits on the queue is announced, and nothing has been lost, repeated or reordered. -/
structure Announced (s : State κ π) : Prop where
  announced : s.queue ≠ [] → s.draining = true ∨ s.raised = true ∨ ∃ producer, s.halfway producer = true
  conserved : s.pushed = s.popped ++ s.queue

theorem Step.announced {s t : State κ π} {e : Event κ π} (hs : Announced s) (h : Step s e t) : Announced t := by
  cases h with
  | @push producer item _ =>
    constructor
    · intro _
      exact .inr (.inr ⟨producer, Function.update_self ..⟩)
    · show s.pushed ++ [item] = s.popped ++ (s.queue ++ [item])
      rw [hs.conserved, List.append_assoc]
  | raise _ => exact ⟨fun _ => .inr (.inl rfl), hs.conserved⟩
  | alert => exact ⟨fun _ => .inr (.inl rfl), hs.conserved⟩
  | lower _ => exact ⟨fun _ => .inl rfl, hs.conserved⟩
  | @pop item rest hdraining hqueue =>
    constructor
    · intro _
      exact .inl hdraining
    · show s.pushed = (s.popped ++ [item]) ++ rest
      rw [hs.conserved, hqueue, List.append_assoc]
      rfl
  | finish _ hqueue => exact ⟨fun hne => absurd hqueue hne, hs.conserved⟩

theorem reachable_announced {s : State κ π} (h : Reachable (system κ π) s) : Announced s := by
  apply h.invariant
  · intro s hs
    subst hs
    exact ⟨fun hne => absurd rfl hne, rfl⟩
  · intro s e t hs hstep
    exact Step.announced hs hstep

omit [DecidableEq π] in
/-- **No lost wake-up**: while the consumer sleeps and no producer is halfway, everything pushed has been popped. -/
theorem Announced.asleep {s : State κ π} (h : Announced s) (hdraining : s.draining = false)
    (hraised : s.raised = false) (hhalfway : ∀ producer, s.halfway producer = false) :
    s.queue = [] ∧ s.popped = s.pushed := by
  have hempty : s.queue = [] := by
    apply Classical.byContradiction
    intro hne
    rcases h.announced hne with hd | hr | ⟨producer, hp⟩
    · rw [hdraining] at hd
      cases hd
    · rw [hraised] at hr
      cases hr
    · rw [hhalfway producer] at hp
      cases hp
  have hconserved := h.conserved
  rw [hempty, List.append_nil] at hconserved
  exact ⟨hempty, hconserved.symm⟩

end Signal
