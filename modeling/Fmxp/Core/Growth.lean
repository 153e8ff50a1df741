import Fmxp.Core.ByteBuffer
import Mathlib.Algebra.Group.Nat.Defs

/-! The growth of a buffer.

A capacity is 0 or 64 times a power of two (`Grown`), and doubling one modulo 2^64 gives another. The largest is
2^63. A loop that looks for less than that finds it; one that looks for more goes through 2^63 to 0 and never
ends (`doubled_none`). -/
namespace Fmxp.ByteBuffer

/-- The capacities a buffer can have. -/
def Grown (capacity : UInt64) : Prop := capacity = 0 ∨ ∃ k ≤ 57, capacity.toNat = 64 * 2 ^ k

theorem Grown.le {c : UInt64} (h : Grown c) : c.toNat ≤ 2 ^ 63 := by
  rcases h with rfl | ⟨k, hk, hc⟩
  · decide
  · calc c.toNat = 64 * 2 ^ k := hc
      _ ≤ 64 * 2 ^ 57 := Nat.mul_le_mul_left _ (Nat.pow_le_pow_right (by omega) hk)
      _ = 2 ^ 63 := by decide

theorem toNat_double (c : UInt64) : (c * 2).toNat = c.toNat * 2 % 2 ^ 64 := by
  rw [UInt64.toNat_mul]
  rfl

/-- No bit is lost below the largest capacity. -/
theorem double_of_lt {c : UInt64} {k : Nat} (hk : k < 57) (hc : c.toNat = 64 * 2 ^ k) :
    (c * 2).toNat = 64 * 2 ^ (k + 1) := by
  have hle : 64 * 2 ^ (k + 1) ≤ 64 * 2 ^ 57 := Nat.mul_le_mul_left _ (Nat.pow_le_pow_right (by omega) hk)
  have hmul : c.toNat * 2 = 64 * 2 ^ (k + 1) := by
    rw [hc, Nat.mul_assoc, ← Nat.pow_succ]
  rw [toNat_double, hmul]
  exact Nat.mod_eq_of_lt (Nat.lt_of_le_of_lt hle (by decide))

theorem Grown.double {c : UInt64} (h : Grown c) : Grown (c * 2) := by
  rcases h with rfl | ⟨k, hk, hc⟩
  · exact .inl rfl
  · by_cases hlast : k = 57
    · subst hlast
      exact .inl (UInt64.toNat_inj.mp ((toNat_double c).trans (by rw [hc]; decide)))
    · exact .inr ⟨k + 1, by omega, double_of_lt (by omega) hc⟩

theorem grown_first {capacity : UInt64} (h : Grown capacity) : Grown (firstCapacity capacity) := by
  unfold firstCapacity
  split
  · exact h.double
  · exact .inr ⟨0, by omega, rfl⟩

/-! ### What the loop ends with -/

theorem doubled_stop {newCap c : UInt64} (fuel : Nat) (h : newCap ≤ c) : doubled newCap (fuel + 1) c = some c := by
  rw [doubled, if_neg (UInt64.not_lt.mpr h)]

theorem doubled_again {newCap c : UInt64} (fuel : Nat) (h : c < newCap) :
    doubled newCap (fuel + 1) c = doubled newCap fuel (c * 2) := by
  rw [doubled, if_pos h]

/-- A loop that ends does so with a capacity that is large enough. -/
theorem doubled_spec {newCap c c' : UInt64} {fuel : Nat} (hc : Grown c) (h : doubled newCap fuel c = some c') :
    Grown c' ∧ newCap ≤ c' := by
  induction fuel generalizing c with
  | zero => cases h
  | succ fuel ih =>
    by_cases hlt : c < newCap
    · rw [doubled_again fuel hlt] at h
      exact ih hc.double h
    · rw [doubled_stop fuel (UInt64.not_lt.mp hlt)] at h
      cases h
      exact ⟨hc, UInt64.not_lt.mp hlt⟩

/-- Every value of the loop is less than such a request. -/
theorem doubled_none {newCap c : UInt64} (fuel : Nat) (hc : Grown c) (h : 2 ^ 63 < newCap.toNat) :
    doubled newCap fuel c = none := by
  induction fuel generalizing c with
  | zero => rfl
  | succ fuel ih =>
    have hlt : c < newCap := UInt64.lt_iff_toNat_lt.mpr (Nat.lt_of_le_of_lt hc.le h)
    rw [doubled_again fuel hlt]
    exact ih hc.double

/-- From 64 times a power of two on, the loop reaches any request up to the largest capacity. -/
theorem doubled_of_le {newCap c : UInt64} {k fuel : Nat} (hk : k ≤ 57) (hc : c.toNat = 64 * 2 ^ k)
    (h : newCap.toNat ≤ 2 ^ 63) (hfuel : 57 - k < fuel) : ∃ c', doubled newCap fuel c = some c' := by
  induction fuel generalizing c k with
  | zero => omega
  | succ fuel ih =>
    by_cases hlt : c < newCap
    · rw [doubled_again fuel hlt]
      have hlast : k ≠ 57 := by
        rintro rfl
        have := UInt64.lt_iff_toNat_lt.mp hlt
        omega
      exact ih (by omega) (double_of_lt (by omega) hc) (by omega)
    · exact ⟨c, doubled_stop fuel (UInt64.not_lt.mp hlt)⟩

/-- The loop ends for a request that is larger than the capacity and not larger than the largest one. -/
theorem doubled_first {newCap capacity : UInt64} (hc : Grown capacity) (hlt : capacity < newCap)
    (h : newCap.toNat ≤ 2 ^ 63) : ∃ c', doubled newCap 64 (firstCapacity capacity) = some c' := by
  rcases hc with rfl | ⟨k, hk, hc⟩
  · exact doubled_of_le (k := 0) (by omega) rfl h (by omega)
  · have hlt' := UInt64.lt_iff_toNat_lt.mp hlt
    have hlast : k ≠ 57 := by
      rintro rfl
      omega
    have hne : capacity ≠ 0 := by
      rintro rfl
      have hpos : 0 < 2 ^ k := Nat.pow_pos (by omega)
      simp only [UInt64.toNat_zero] at hc
      omega
    rw [firstCapacity, if_pos hne]
    exact doubled_of_le (by omega) (double_of_lt (by omega) hc) h (by omega)

/-! ### Enough rounds -/

theorem doubled_zero {newCap : UInt64} (fuel : Nat) (h : newCap ≠ 0) : doubled newCap fuel 0 = none := by
  induction fuel with
  | zero => rfl
  | succ fuel ih =>
    have hlt : 0 < newCap := UInt64.pos_iff_ne_zero.mpr h
    rw [doubled_again fuel hlt]
    exact ih

/-- Whatever a loop ends with, it ends with before it has shifted everything out. -/
theorem doubled_bound {newCap c c' : UInt64} {fuel : Nat} (rounds : Nat) (hc : 2 ^ 64 ∣ c.toNat * 2 ^ rounds)
    (hne : newCap ≠ 0) (h : doubled newCap fuel c = some c') : doubled newCap rounds c = some c' := by
  induction rounds generalizing c fuel with
  | zero =>
    have hzero : c = 0 := by
      rw [Nat.pow_zero, Nat.mul_one] at hc
      exact UInt64.toNat_inj.mp (Nat.eq_zero_of_dvd_of_lt hc c.toNat_lt)
    rw [hzero, doubled_zero fuel hne] at h
    cases h
  | succ rounds ih =>
    cases fuel with
    | zero => cases h
    | succ fuel =>
      by_cases hlt : c < newCap
      · rw [doubled_again fuel hlt] at h
        rw [doubled_again rounds hlt]
        refine ih ?_ h
        have hmul : c.toNat * 2 * 2 ^ rounds = c.toNat * 2 ^ (rounds + 1) := by
          rw [Nat.pow_succ', Nat.mul_assoc]
        rw [toNat_double, Nat.dvd_iff_mod_eq_zero, Nat.mod_mul_mod, hmul]
        exact Nat.mod_eq_zero_of_dvd hc
      · rw [doubled_stop _ (UInt64.not_lt.mp hlt)] at h ⊢
        exact h

/-- 64 rounds are enough: what ends in any number of them ends in these. -/
theorem doubled_enough {newCap c c' : UInt64} {fuel : Nat} (h : doubled newCap fuel c = some c') :
    doubled newCap 64 c = some c' := by
  by_cases hne : newCap = 0
  · cases fuel with
    | zero => cases h
    | succ fuel =>
      have hle : newCap ≤ c := by
        rw [hne]
        exact UInt64.zero_le
      rw [doubled_stop _ hle] at h ⊢
      exact h
  · exact doubled_bound 64 (Nat.dvd_mul_left ..) hne h

/-! ### What is arrived at -/

/-- The capacity `ensureCapacity` arrives at: what it has if that is enough, or what the loop ends with. -/
def Arrives (capacity newCap c : UInt64) : Prop :=
  newCap ≤ capacity ∧ c = capacity ∨ capacity < newCap ∧ ∃ fuel, doubled newCap fuel (firstCapacity capacity) = some c

/-- What the code arrives at is found in 64 rounds. -/
theorem arrives_iff {capacity newCap c : UInt64} : Arrives capacity newCap c ↔
    (if newCap ≤ capacity then some capacity else doubled newCap 64 (firstCapacity capacity)) = some c := by
  by_cases hle : newCap ≤ capacity
  · simp [Arrives, hle, UInt64.not_lt.mpr hle, eq_comm]
  · have hlt := UInt64.not_le.mp hle
    simp only [Arrives, hle, hlt, false_and, true_and, false_or, if_false]
    exact ⟨fun ⟨_, h⟩ => doubled_enough h, fun h => ⟨64, h⟩⟩

/-- A request is met exactly if it is not larger than the largest capacity. -/
theorem arrives_enough_iff {capacity newCap : UInt64} (hc : Grown capacity) :
    (∃ c, Arrives capacity newCap c ∧ newCap ≤ c) ↔ newCap.toNat ≤ 2 ^ 63 := by
  constructor
  · rintro ⟨c, ⟨hle, -⟩ | ⟨-, fuel, h⟩, -⟩
    · exact Nat.le_trans (UInt64.le_iff_toNat_le.mp hle) hc.le
    · by_contra hgt
      rw [doubled_none fuel (grown_first hc) (Nat.not_le.mp hgt)] at h
      cases h
  · intro h
    by_cases hle : newCap ≤ capacity
    · exact ⟨capacity, .inl ⟨hle, rfl⟩, hle⟩
    · have hlt := UInt64.not_le.mp hle
      obtain ⟨c, hdoubled⟩ := doubled_first hc hlt h
      exact ⟨c, .inr ⟨hlt, 64, hdoubled⟩, (doubled_spec (grown_first hc) hdoubled).2⟩

end Fmxp.ByteBuffer
