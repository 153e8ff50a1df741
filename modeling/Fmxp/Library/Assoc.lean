import Mathlib.Data.List.AList

/-! Finite maps: what holds of every entry after one has been put in or taken out. -/
namespace Assoc
variable {α β : Type*} [DecidableEq α] {P : α → β → Prop} {m : AList fun _ : α => β}

/-- Whatever holds of the other entries and of a new one holds of all. -/
theorem forall_insert {a : α} {b : β} (hb : P a b) (hm : ∀ a', a' ≠ a → ∀ b', m.lookup a' = some b' → P a' b') :
    ∀ a' b', (m.insert a b).lookup a' = some b' → P a' b' := by
  intro a' b' h
  by_cases ha : a' = a
  · subst ha
    rw [AList.lookup_insert] at h
    cases h
    exact hb
  · rw [AList.lookup_insert_ne ha] at h
    exact hm a' ha b' h

theorem forall_erase {a : α} (hm : ∀ a', a' ≠ a → ∀ b', m.lookup a' = some b' → P a' b') :
    ∀ a' b', (m.erase a).lookup a' = some b' → P a' b' := by
  intro a' b' h
  by_cases ha : a' = a
  · subst ha
    rw [AList.lookup_erase] at h
    cases h
  · rw [AList.lookup_erase_ne ha] at h
    exact hm a' ha b' h

/-- What is not a key is at none of the entries. -/
theorem ne_of_lookup {a a' : α} {b : β} (ha : a ∉ m) (h : m.lookup a' = some b) : a' ≠ a := by
  rintro rfl
  exact ha (AList.lookup_isSome.mp (by rw [h]; rfl))

end Assoc
