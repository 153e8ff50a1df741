import Mathlib.Tactic.Ring
import Mathlib.Data.Nat.Bitwise

/-! Natural numbers as big-endian byte strings of a fixed width.

`ofNat n v` is the `n` low bytes of `v`, most significant first; `toNat` reads a
byte string back. On `n` bytes they are inverse to each other. -/
namespace BigEndian

def ofNat : Nat → Nat → List UInt8
  | 0, _ => []
  | n + 1, v => UInt8.ofNat (v / 256 ^ n) :: ofNat n v

def toNat : List UInt8 → Nat
  | [] => 0
  | b :: bs => b.toNat * 256 ^ bs.length + toNat bs

@[simp] theorem length_ofNat (n v : Nat) : (ofNat n v).length = n := by
  induction n with
  | zero => rfl
  | succ n ih => simp [ofNat, ih]

theorem toNat_lt (bs : List UInt8) : toNat bs < 256 ^ bs.length := by
  induction bs with
  | nil => simp [toNat]
  | cons b bs ih =>
    have hb : b.toNat < 256 := b.toNat_lt
    calc toNat (b :: bs) < b.toNat * 256 ^ bs.length + 256 ^ bs.length := by simp only [toNat]; omega
      _ = (b.toNat + 1) * 256 ^ bs.length := by ring
      _ ≤ 256 * 256 ^ bs.length := Nat.mul_le_mul_right _ hb
      _ = 256 ^ (b :: bs).length := by simp only [List.length_cons, pow_succ]; ring

/-- Reading what was written gives the value modulo the width. -/
theorem toNat_ofNat (n v : Nat) : toNat (ofNat n v) = v % 256 ^ n := by
  induction n with
  | zero => simp [ofNat, toNat, Nat.mod_one]
  | succ n ih =>
    have hb : (UInt8.ofNat (v / 256 ^ n)).toNat = v / 256 ^ n % 256 := by simp
    simp only [ofNat, toNat, length_ofNat, ih, hb]
    rw [pow_succ, Nat.mod_mul]
    ring

/-- The low bytes of a number do not see its multiples of `256 ^ n`. -/
theorem ofNat_add_mul (n v k : Nat) : ofNat n (k * 256 ^ n + v) = ofNat n v := by
  induction n generalizing k with
  | zero => rfl
  | succ n ih =>
    have hsplit : k * 256 ^ (n + 1) + v = k * 256 * 256 ^ n + v := by rw [pow_succ]; ring
    have hpos : 0 < 256 ^ n := pow_pos (by decide) n
    have htop : (k * 256 * 256 ^ n + v) / 256 ^ n = v / 256 ^ n + 256 * k := by
      rw [Nat.add_comm, Nat.add_mul_div_right _ _ hpos, Nat.mul_comm k]
    rw [hsplit]
    simp only [ofNat, ih, htop]
    congr 1
    apply UInt8.toNat_inj.mp
    simp

/-- Writing what was read gives the bytes back. -/
theorem ofNat_toNat (bs : List UInt8) : ofNat bs.length (toNat bs) = bs := by
  induction bs with
  | nil => rfl
  | cons b bs ih =>
    have hdiv : (b.toNat * 256 ^ bs.length + toNat bs) / 256 ^ bs.length = b.toNat := by
      rw [Nat.add_comm, Nat.add_mul_div_right _ _ (pow_pos (by decide) _),
        Nat.div_eq_of_lt (toNat_lt bs), Nat.zero_add]
    simp only [List.length_cons, ofNat, toNat, hdiv, ofNat_add_mul, ih]
    simp

end BigEndian
