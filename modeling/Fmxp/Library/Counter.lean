import Mathlib.Order.Basic
import Mathlib.Data.List.Basic

/-! Receivers that keep one counter.

A receiver remembers the counter of the last item it took and refuses an item
whose counter is not above it. What it has taken is then strictly increasing
(`Increasing`), so no item is taken twice (`Increasing.nodup`); batches compose
through the counter the last one left (`increasing_append_iff`). -/
namespace Counter
variable {α κ : Type*} (count : α → κ)

section
variable [LT κ]

/-- The counters of the items increase from above `last`. -/
def Increasing : κ → List α → Prop
  | _, [] => True
  | last, x :: xs => last < count x ∧ Increasing (count x) xs

end

/-- The counter a receiver is left with. -/
def final : κ → List α → κ
  | last, [] => last
  | _, x :: xs => final (count x) xs

@[simp] theorem final_append (last : κ) (xs ys : List α) :
    final count last (xs ++ ys) = final count (final count last xs) ys := by
  induction xs generalizing last with
  | nil => rfl
  | cons x xs ih => exact ih (count x)

theorem increasing_append_iff [LT κ] {last : κ} {xs ys : List α} :
    Increasing count last (xs ++ ys) ↔
      Increasing count last xs ∧ Increasing count (final count last xs) ys := by
  induction xs generalizing last with
  | nil => simp only [List.nil_append, Increasing, final, true_and]
  | cons x xs ih => simp only [List.cons_append, Increasing, final, ih, and_assoc]

section
variable [Preorder κ] {count : α → κ}

theorem Increasing.lt_of_mem {last : κ} {xs : List α} (h : Increasing count last xs) {x : α}
    (hx : x ∈ xs) : last < count x := by
  induction xs generalizing last with
  | nil => cases hx
  | cons y ys ih =>
    rcases List.mem_cons.mp hx with rfl | hx
    · exact h.1
    · exact h.1.trans (ih h.2 hx)

theorem Increasing.pairwise {last : κ} {xs : List α} (h : Increasing count last xs) :
    xs.Pairwise fun x y => count x < count y := by
  induction xs generalizing last with
  | nil => exact .nil
  | cons x xs ih => exact .cons (fun y hy => h.2.lt_of_mem hy) (ih h.2)

/-- **No item is taken twice.** -/
theorem Increasing.nodup {last : κ} {xs : List α} (h : Increasing count last xs) : xs.Nodup :=
  h.pairwise.imp fun hlt heq => absurd (congrArg count heq) hlt.ne

/-! ### The items of a batch that are taken -/

variable [DecidableLT κ]

variable (count) in
/-- The items taken before the first that is refused, for its counter or otherwise. -/
def accepted (ok : α → Bool) : κ → List α → List α
  | _, [] => []
  | last, x :: xs => if ok x ∧ last < count x then x :: accepted ok (count x) xs else []

theorem accepted_increasing (ok : α → Bool) (last : κ) (xs : List α) :
    Increasing count last (accepted count ok last xs) := by
  induction xs generalizing last with
  | nil => trivial
  | cons x xs ih =>
    rw [accepted]
    split
    · next h => exact ⟨h.2, ih (count x)⟩
    · trivial

theorem accepted_isPrefix (ok : α → Bool) (last : κ) (xs : List α) : accepted count ok last xs <+: xs := by
  induction xs generalizing last with
  | nil => exact List.prefix_rfl
  | cons x xs ih =>
    rw [accepted]
    split
    · exact (List.prefix_cons_inj x).mpr (ih (count x))
    · exact List.nil_prefix

/-- Where all of a batch was taken, what follows it is looked at next. -/
theorem accepted_append_of_eq {ok : α → Bool} {last : κ} {xs : List α} (h : accepted count ok last xs = xs)
    (ys : List α) : accepted count ok last (xs ++ ys) = xs ++ accepted count ok (final count last xs) ys := by
  induction xs generalizing last with
  | nil => rfl
  | cons x xs ih =>
    simp only [List.cons_append, accepted, final] at h ⊢
    split at h
    · next hx =>
      rw [if_pos hx, ih (List.cons.inj h).2]
    · cases h

/-- Where a batch was refused, nothing that follows it is taken. -/
theorem accepted_append_of_ne {ok : α → Bool} {last : κ} {xs : List α} (h : accepted count ok last xs ≠ xs)
    (ys : List α) : accepted count ok last (xs ++ ys) = accepted count ok last xs := by
  induction xs generalizing last with
  | nil => exact absurd rfl h
  | cons x xs ih =>
    simp only [List.cons_append, accepted] at h ⊢
    split
    · next hx =>
      rw [if_pos hx] at h
      rw [ih fun heq => h (congrArg _ heq)]
    · rfl

theorem ok_of_mem_accepted {ok : α → Bool} {last : κ} {xs : List α} {x : α}
    (hx : x ∈ accepted count ok last xs) : ok x = true := by
  induction xs generalizing last with
  | nil => cases hx
  | cons y ys ih =>
    rw [accepted] at hx
    split at hx
    · next h =>
      rcases List.mem_cons.mp hx with rfl | hx
      · exact h.1
      · exact ih hx
    · cases hx

theorem accepted_of_increasing {ok : α → Bool} {last : κ} {xs : List α} (h : Increasing count last xs)
    (hok : ∀ x ∈ xs, ok x = true) : accepted count ok last xs = xs := by
  induction xs generalizing last with
  | nil => rfl
  | cons x xs ih =>
    rw [accepted, if_pos ⟨hok x (List.mem_cons_self ..), h.1⟩,
      ih h.2 fun y hy => hok y (List.mem_cons_of_mem _ hy)]

end

end Counter
