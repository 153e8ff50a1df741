import Mathlib.Algebra.Order.Group.Multiset
import Mathlib.Tactic.Abel

/-! Accounts over slots.

Several parties are at work, each in its slot, and each holds something of what there is in all; the rest is
done. A step changes one slot. Whether the account still holds then is a question about
that slot alone (`Accounts.set`). -/
namespace Slots

variable {α β : Type*}

/-- What is done and what the slots hold is what there is in all, each as often. -/
def Accounts (f : α → List β) (done : List β) (slots : List α) (total : List β) : Prop :=
  (done ++ slots.flatMap f).Perm total

variable {f : α → List β} {slots : List α} {done total finished added : List β} {i : Nat} {w v : α}

theorem flatMap_set_perm (f : α → List β) (h : slots[i]? = some w) (v : α) :
    ((slots.set i v).flatMap f ++ f w).Perm (slots.flatMap f ++ f v) := by
  obtain ⟨hlt, rfl⟩ := List.getElem?_eq_some_iff.mp h
  have hbefore : (slots.flatMap f).Perm (f slots[i] ++ (slots.eraseIdx i).flatMap f) :=
    (List.getElem_cons_eraseIdx_perm hlt).symm.flatMap_right f
  have hafter : ((slots.set i v).flatMap f).Perm (f v ++ (slots.eraseIdx i).flatMap f) :=
    (List.set_perm_cons_eraseIdx hlt v).flatMap_right f
  -- Both sides are what the other slots hold, with what this one holds before and after.
  have hafter' := hafter.append_right (f slots[i])
  have hbefore' := hbefore.symm.append_left (f v)
  rw [List.append_assoc] at hafter'
  exact (hafter'.trans (List.perm_append_comm.append_left _)).trans (hbefore'.trans List.perm_append_comm)

theorem Accounts.start (hnone : ∀ w ∈ slots, f w = []) : Accounts f [] slots [] := by
  rw [Accounts, List.flatMap_eq_nil_iff.mpr hnone]
  exact .nil

/-- The rule for a step of one slot: what is newly done, and what the slot then holds, is what it held before and what
is new in all. -/
theorem Accounts.set (hslots : Accounts f done slots total) (h : slots[i]? = some w)
    (hmoved : finished ++ f v = f w ++ added) : Accounts f (done ++ finished) (slots.set i v) (total ++ added) := by
  have hset := flatMap_set_perm f h v
  rw [Accounts] at hslots ⊢
  have hmoved : (finished ++ f v : Multiset β) = f w ++ added := congrArg _ hmoved
  rw [← Multiset.coe_eq_coe] at hset hslots ⊢
  simp only [← Multiset.coe_add] at hset hslots hmoved ⊢
  apply add_right_cancel (b := (f w : Multiset β))
  rw [← hslots]
  calc (done + finished + (slots.set i v).flatMap f + f w : Multiset β)
      = done + finished + ((slots.set i v).flatMap f + f w) := by abel
    _ = done + slots.flatMap f + (finished + f v) := by rw [hset]; abel
    _ = done + slots.flatMap f + added + f w := by rw [hmoved]; abel

/-- A step by which nothing is done. -/
theorem Accounts.take (hslots : Accounts f done slots total) (h : slots[i]? = some w)
    (hheld : f v = f w ++ added) : Accounts f done (slots.set i v) (total ++ added) := by
  have hset := hslots.set h ((List.nil_append (f v)).trans hheld)
  rwa [List.append_nil] at hset

/-- A step by which nothing is new. -/
theorem Accounts.finish (hslots : Accounts f done slots total) (h : slots[i]? = some w)
    (hheld : finished ++ f v = f w) : Accounts f (done ++ finished) (slots.set i v) total := by
  have hset := hslots.set h (hheld.trans (List.append_nil (f w)).symm)
  rwa [List.append_nil] at hset

/-- A step that the account does not concern. -/
theorem Accounts.set_same (hslots : Accounts f done slots total) (h : slots[i]? = some w) (hsame : f v = f w) :
    Accounts f done (slots.set i v) total := by
  have hset := hslots.take h (hsame.trans (List.append_nil (f w)).symm)
  rwa [List.append_nil] at hset

/-- A step besides the slots. -/
theorem Accounts.add (hslots : Accounts f done slots total) (added : List β) :
    Accounts f (done ++ added) slots (total ++ added) := by
  have hmoved : (done ++ added ++ slots.flatMap f).Perm (done ++ slots.flatMap f ++ added) := by
    rw [List.append_assoc, List.append_assoc]
    exact List.perm_append_comm.append_left done
  exact hmoved.trans (hslots.append_right added)

section
variable [DecidableEq β] {b : β}

/-- A slot gives something up, and it is no longer there. -/
theorem Accounts.drop (hslots : Accounts f done slots total) (h : slots[i]? = some w) (hheld : f w = b :: f v) :
    Accounts f done (slots.set i v) (total.erase b) := by
  have hset := flatMap_set_perm f h v
  rw [hheld] at hset
  have hheld' : (b :: (slots.set i v).flatMap f).Perm (slots.flatMap f) := by
    refine (List.perm_append_right_iff (f v)).mp ?_
    exact (List.perm_middle.symm).trans hset
  have hall := (List.perm_middle.symm.trans (hheld'.append_left done)).trans hslots
  have herased := hall.erase b
  rwa [List.erase_cons_head] at herased

/-- Something that had been done is undone, and is no longer there. -/
theorem Accounts.undo (hslots : Accounts f done slots total) (hb : b ∈ done) :
    Accounts f (done.erase b) slots (total.erase b) := by
  have herased := List.Perm.erase b hslots
  rwa [List.erase_append_left _ hb] at herased

end

/-- When no slot holds anything, all is done. -/
theorem Accounts.settled (hslots : Accounts f done slots total) (hnone : ∀ w ∈ slots, f w = []) : done.Perm total := by
  have hempty : slots.flatMap f = [] := List.flatMap_eq_nil_iff.mpr hnone
  rw [Accounts, hempty, List.append_nil] at hslots
  exact hslots

end Slots
