import Fmxp.Library.Fair
import Fmxp.Library.Signal

/-! What a signal owes in the long run.

A fair producer raises the signal some time after its item, a fair consumer hears a signal that is up and
goes on taking items while it drains. Every item is then popped, in the order of the pushes. -/
namespace Signal
open Transition
variable {κ π : Type*} [DecidableEq π]

structure Fair (ρ : Trace (system κ π)) : Prop where
  raises : ∀ n producer, (ρ.state n).halfway producer = true → ρ.Eventually (fun s => s.halfway producer = false) n
  hears : ∀ n, (ρ.state n).raised = true → ρ.Eventually (fun s => s.draining = true) n
  drains : ∀ n, (ρ.state n).draining = true →
    ρ.Eventually (fun s => s.draining = false ∨ (ρ.state n).popped.length < s.popped.length) n

/-- Items are added to what has been pushed and popped, and none is taken away. -/
theorem Step.grows {s t : State κ π} {e : Event κ π} (h : Step s e t) :
    s.pushed <+: t.pushed ∧ s.popped.length ≤ t.popped.length := by
  cases h with
  | push _ => exact ⟨List.prefix_append .., Nat.le_refl _⟩
  | pop _ _ => exact ⟨List.prefix_refl _, by simp only [List.length_append, Nat.le_add_right]⟩
  | _ => exact ⟨List.prefix_refl _, Nat.le_refl _⟩

/-- Draining ends when nothing waits. -/
theorem Step.drained {s t : State κ π} {e : Event κ π} (h : Step s e t) (hs : s.draining = true)
    (ht : t.draining ≠ true) : s.queue = [] := by
  cases h with
  | finish _ hqueue => exact hqueue
  | lower _ => exact absurd rfl ht
  | _ => exact absurd hs ht

/-- A producer is no longer halfway when it has raised the signal. -/
theorem Step.raised {s t : State κ π} {e : Event κ π} {producer : π} (h : Step s e t)
    (hs : s.halfway producer = true) (ht : t.halfway producer ≠ true) : t.raised = true := by
  cases h with
  | raise _ => rfl
  | @push other _ _ =>
    refine absurd ?_ ht
    show Function.update s.halfway other true producer = true
    by_cases hother : producer = other
    · subst hother
      exact Function.update_self ..
    · rw [Function.update_of_ne hother]
      exact hs
  | _ => exact absurd hs ht

section
variable {ρ : Trace (system κ π)} {n m : Nat}

theorem next_grows (ρ : Trace (system κ π)) (n : Nat) :
    (ρ.state n).pushed <+: (ρ.state (n + 1)).pushed ∧
      (ρ.state n).popped.length ≤ (ρ.state (n + 1)).popped.length := by
  rcases ρ.next n with hsame | ⟨e, he⟩
  · rw [hsame]
    exact ⟨List.prefix_refl _, Nat.le_refl _⟩
  · exact Step.grows he

theorem pushed_grows (ρ : Trace (system κ π)) (hnm : n ≤ m) : (ρ.state n).pushed <+: (ρ.state m).pushed :=
  ρ.persists (fun s => (ρ.state n).pushed <+: s.pushed) (fun k _ h => h.trans (next_grows ρ k).1)
    (List.prefix_refl _) hnm

theorem popped_grows (ρ : Trace (system κ π)) (hnm : n ≤ m) : (ρ.state n).popped.length ≤ (ρ.state m).popped.length :=
  ρ.persists (fun s => (ρ.state n).popped.length ≤ s.popped.length)
    (fun k _ h => Nat.le_trans h (next_grows ρ k).2) (Nat.le_refl _) hnm

/-- What has been pushed before has been popped where nothing waits. -/
theorem popped_of_empty (hqueue : (ρ.state m).queue = []) (hnm : n ≤ m) :
    (ρ.state n).pushed.length ≤ (ρ.state m).popped.length := by
  have hconserved := (reachable_announced (ρ.reachable m)).conserved
  rw [hqueue, List.append_nil] at hconserved
  rw [← hconserved]
  exact (pushed_grows ρ hnm).length_le

/-- A consumer that drains pops one more item, if one waits. -/
theorem Fair.pops_draining (h : Fair ρ) (hdraining : (ρ.state n).draining = true)
    (hwaits : (ρ.state n).popped.length < (ρ.state n).pushed.length) :
    ρ.Eventually (fun s => (ρ.state n).popped.length < s.popped.length) n := by
  obtain ⟨m, hnm, hstopped | hpopped⟩ := h.drains n hdraining
  · have hm : (ρ.state m).draining ≠ true := by
      rw [hstopped]
      nofun
    obtain ⟨k, hnk, hsofar, hceased⟩ := ρ.ceases (fun s => s.draining = true) hdraining hm hnm
    refine ⟨k, hnk, Nat.lt_of_lt_of_le hwaits (popped_of_empty ?_ hnk)⟩
    have hk := hsofar k hnk (Nat.le_refl k)
    rcases ρ.next k with hsame | ⟨e, he⟩
    · rw [hsame] at hceased
      exact absurd hk hceased
    · exact Step.drained he hk hceased
  · exact ⟨m, hnm, hpopped⟩

/-- A signal that is up leads to one more item. -/
theorem Fair.pops_raised (h : Fair ρ) (hraised : (ρ.state n).raised = true)
    (hwaits : (ρ.state n).popped.length < (ρ.state n).pushed.length) :
    ρ.Eventually (fun s => (ρ.state n).popped.length < s.popped.length) n := by
  obtain ⟨m, hnm, hdraining⟩ := h.hears n hraised
  have hgrown := popped_grows ρ hnm
  by_cases hleft : (ρ.state m).popped.length < (ρ.state m).pushed.length
  · exact ((h.pops_draining hdraining hleft).mono fun k _ hk => Nat.lt_of_le_of_lt hgrown hk).later hnm
  · have hpushed := (pushed_grows ρ hnm).length_le
    exact ⟨m, hnm, by omega⟩

theorem Fair.pops (h : Fair ρ) (hwaits : (ρ.state n).popped.length < (ρ.state n).pushed.length) :
    ρ.Eventually (fun s => (ρ.state n).popped.length < s.popped.length) n := by
  have hannounced := reachable_announced (ρ.reachable n)
  have hqueue : (ρ.state n).queue ≠ [] := by
    intro hempty
    exact Nat.not_le_of_lt hwaits (popped_of_empty hempty (Nat.le_refl n))
  rcases hannounced.announced hqueue with hdraining | hraised | ⟨producer, hhalfway⟩
  · exact h.pops_draining hdraining hwaits
  · exact h.pops_raised hraised hwaits
  · obtain ⟨m, hnm, hdone⟩ := h.raises n producer hhalfway
    have hm : (ρ.state m).halfway producer ≠ true := by
      rw [hdone]
      nofun
    obtain ⟨k, hnk, hsofar, hceased⟩ := ρ.ceases (fun s => s.halfway producer = true) hhalfway hm hnm
    have hk := hsofar k hnk (Nat.le_refl k)
    have hraised : (ρ.state (k + 1)).raised = true := by
      rcases ρ.next k with hsame | ⟨e, he⟩
      · rw [hsame] at hceased
        exact absurd hk hceased
      · exact Step.raised he hk hceased
    have hnk' : n ≤ k + 1 := Nat.le_succ_of_le hnk
    have hgrown := popped_grows ρ hnk'
    have hpushed := (pushed_grows ρ hnk').length_le
    by_cases hleft : (ρ.state (k + 1)).popped.length < (ρ.state (k + 1)).pushed.length
    · exact ((h.pops_raised hraised hleft).mono fun j _ hj => Nat.lt_of_le_of_lt hgrown hj).later hnk'
    · exact ⟨k + 1, hnk', by omega⟩

/-- **Every item is served**: what is pushed is popped, as the same item in the order of the pushes. -/
theorem Fair.serves (h : Fair ρ) {k : Nat} {item : κ} (hitem : (ρ.state n).pushed[k]? = some item) :
    ρ.Eventually (fun s => s.popped[k]? = some item) n := by
  have hk : k < (ρ.state n).pushed.length := (List.getElem?_eq_some_iff.mp hitem).1
  have hcome : ρ.Eventually (fun s => k < s.popped.length) n :=
    Trace.catches_up (g := fun s => s.pushed.length) (fun j => (next_grows ρ j).1.length_le) (fun j hj => h.pops hj) hk
  refine hcome.mono fun m hnm hpopped => ?_
  have hlater : (ρ.state m).pushed[k]? = some item := by
    obtain ⟨rest, hrest⟩ := pushed_grows ρ hnm
    rw [← hrest, List.getElem?_append_left hk]
    exact hitem
  rw [(reachable_announced (ρ.reachable m)).conserved, List.getElem?_append_left hpopped] at hlater
  exact hlater

end

end Signal
