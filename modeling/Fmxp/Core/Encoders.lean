import Fmxp.Core.Bytes
import Fmxp.Library.BigEndian

/-! `encoders.cpp`: integers to big-endian strings and back through pointers.

Each writer is the big-endian string of the value (`u32ToStr_eq`), each reader
the value of the bytes behind the pointer (`ptrToU32_eq`), so the round trips in
both directions are the library's. -/
namespace Fmxp

def u8ToStr (value : UInt8) : Bytes := [value]

def u16ToStr (v : UInt16) : Bytes := [((v >>> 8) &&& 0xFF).toUInt8, (v &&& 0xFF).toUInt8]

def u32ToStr (v : UInt32) : Bytes :=
  [((v >>> 24) &&& 0xFF).toUInt8, ((v >>> 16) &&& 0xFF).toUInt8, ((v >>> 8) &&& 0xFF).toUInt8,
    (v &&& 0xFF).toUInt8]

def u64ToStr (v : UInt64) : Bytes :=
  (List.range 8).map fun i => ((v >>> UInt64.ofNat ((7 - i) * 8)) &&& 0xFF).toUInt8

def ptrToU16 : Bytes → Option UInt16
  | p0 :: p1 :: _ => some ((p0.toUInt16 <<< 8) ||| p1.toUInt16)
  | _ => none

def ptrToU32 : Bytes → Option UInt32
  | p0 :: p1 :: p2 :: p3 :: _ =>
    some ((p0.toUInt32 <<< 24) ||| (p1.toUInt32 <<< 16) ||| (p2.toUInt32 <<< 8) ||| p3.toUInt32)
  | _ => none

def ptrToU64 : Bytes → Option UInt64
  | p0 :: p1 :: p2 :: p3 :: p4 :: p5 :: p6 :: p7 :: _ =>
    some ((p0.toUInt64 <<< 56) ||| (p1.toUInt64 <<< 48) ||| (p2.toUInt64 <<< 40) |||
      (p3.toUInt64 <<< 32) ||| (p4.toUInt64 <<< 24) ||| (p5.toUInt64 <<< 16) |||
      (p6.toUInt64 <<< 8) ||| p7.toUInt64)
  | _ => none

/-! ### Writers -/

/-- Masking with `0xFF` keeps the low byte. -/
theorem and_mask (n : Nat) : n &&& 255 = n % 256 := Nat.and_two_pow_sub_one_eq_mod n 8

theorem u16ToStr_eq (v : UInt16) : u16ToStr v = BigEndian.ofNat 2 v.toNat := by
  simp only [u16ToStr, BigEndian.ofNat, List.cons.injEq, and_true]
  refine ⟨?_, ?_⟩ <;> apply UInt8.toNat_inj.mp <;> simp [Nat.shiftRight_eq_div_pow, and_mask]

theorem u32ToStr_eq (v : UInt32) : u32ToStr v = BigEndian.ofNat 4 v.toNat := by
  simp only [u32ToStr, BigEndian.ofNat, List.cons.injEq, and_true]
  refine ⟨?_, ?_, ?_, ?_⟩ <;> apply UInt8.toNat_inj.mp <;>
    simp [Nat.shiftRight_eq_div_pow, and_mask]

theorem u64ToStr_eq (v : UInt64) : u64ToStr v = BigEndian.ofNat 8 v.toNat := by
  simp only [u64ToStr, BigEndian.ofNat, List.range, List.range.loop, List.map, List.cons.injEq, and_true]
  refine ⟨?_, ?_, ?_, ?_, ?_, ?_, ?_, ?_⟩ <;> apply UInt8.toNat_inj.mp <;>
    simp [Nat.shiftRight_eq_div_pow, and_mask]

@[simp] theorem length_u8ToStr (v : UInt8) : (u8ToStr v).length = 1 := rfl
@[simp] theorem length_u16ToStr (v : UInt16) : (u16ToStr v).length = 2 := rfl
@[simp] theorem length_u32ToStr (v : UInt32) : (u32ToStr v).length = 4 := rfl
@[simp] theorem length_u64ToStr (v : UInt64) : (u64ToStr v).length = 8 := rfl

/-! ### Readers -/

/-- A byte placed below the bits of `a` extends it by one big-endian digit. -/
theorem join_byte (a k : Nat) (b : UInt8) :
    a * 2 ^ (k + 8) ||| b.toNat * 2 ^ k = (a * 256 + b.toNat) * 2 ^ k := by
  have hb : b.toNat * 2 ^ k < 2 ^ (k + 8) := by
    have h := Nat.mul_lt_mul_of_pos_right b.toNat_lt (Nat.two_pow_pos k)
    rwa [← pow_add, Nat.add_comm] at h
  rw [← Nat.shiftLeft_eq, ← Nat.shiftLeft_add_eq_or_of_lt hb, Nat.shiftLeft_eq, pow_add]
  ring

theorem toNat_shift16 (b : UInt8) : (b.toUInt16 <<< 8).toNat = b.toNat * 2 ^ 8 := by
  have hb := b.toNat_lt
  simp [Nat.shiftLeft_eq]
  omega

theorem toNat_shift32 (b : UInt8) (k : UInt32) (hk : k.toNat ≤ 24) :
    (b.toUInt32 <<< k).toNat = b.toNat * 2 ^ k.toNat := by
  have hlt : b.toNat * 2 ^ k.toNat < 2 ^ 32 :=
    calc b.toNat * 2 ^ k.toNat < 2 ^ 8 * 2 ^ k.toNat :=
          Nat.mul_lt_mul_of_pos_right b.toNat_lt (Nat.two_pow_pos _)
      _ ≤ 2 ^ 8 * 2 ^ 24 := Nat.mul_le_mul_left _ (Nat.pow_le_pow_right (by decide) hk)
      _ = 2 ^ 32 := by decide
  rw [UInt32.toNat_shiftLeft, Nat.mod_eq_of_lt (show k.toNat < 32 by omega), UInt8.toNat_toUInt32,
    Nat.shiftLeft_eq, Nat.mod_eq_of_lt hlt]

theorem toNat_shift64 (b : UInt8) (k : UInt64) (hk : k.toNat ≤ 56) :
    (b.toUInt64 <<< k).toNat = b.toNat * 2 ^ k.toNat := by
  have hlt : b.toNat * 2 ^ k.toNat < 2 ^ 64 :=
    calc b.toNat * 2 ^ k.toNat < 2 ^ 8 * 2 ^ k.toNat :=
          Nat.mul_lt_mul_of_pos_right b.toNat_lt (Nat.two_pow_pos _)
      _ ≤ 2 ^ 8 * 2 ^ 56 := Nat.mul_le_mul_left _ (Nat.pow_le_pow_right (by decide) hk)
      _ = 2 ^ 64 := by decide
  rw [UInt64.toNat_shiftLeft, Nat.mod_eq_of_lt (show k.toNat < 64 by omega), UInt8.toNat_toUInt64,
    Nat.shiftLeft_eq, Nat.mod_eq_of_lt hlt]

theorem ptrToU16_eq {p : Bytes} (h : 2 ≤ p.length) :
    ptrToU16 p = some (UInt16.ofNat (BigEndian.toNat (p.take 2))) := by
  match p, h with
  | p0 :: p1 :: rest, _ =>
    have hlt : BigEndian.toNat [p0, p1] < 2 ^ 16 := by
      simpa using BigEndian.toNat_lt [p0, p1]
    have hjoin := join_byte p0.toNat 0 p1
    simp only [ptrToU16, List.take, Option.some.injEq]
    apply UInt16.toNat_inj.mp
    rw [UInt16.toNat_or, toNat_shift16, UInt8.toNat_toUInt16, UInt16.toNat_ofNat',
      Nat.mod_eq_of_lt hlt]
    simp only [Nat.zero_add, pow_zero, Nat.mul_one] at hjoin
    rw [hjoin]
    simp [BigEndian.toNat]

theorem ptrToU32_eq {p : Bytes} (h : 4 ≤ p.length) :
    ptrToU32 p = some (UInt32.ofNat (BigEndian.toNat (p.take 4))) := by
  match p, h with
  | p0 :: p1 :: p2 :: p3 :: rest, _ =>
    have hlt : BigEndian.toNat [p0, p1, p2, p3] < 2 ^ 32 := by
      simpa using BigEndian.toNat_lt [p0, p1, p2, p3]
    have hjoin := join_byte ((p0.toNat * 256 + p1.toNat) * 256 + p2.toNat) 0 p3
    simp only [Nat.zero_add, pow_zero, Nat.mul_one] at hjoin
    simp only [ptrToU32, List.take, Option.some.injEq]
    apply UInt32.toNat_inj.mp
    rw [UInt32.toNat_or, UInt32.toNat_or, UInt32.toNat_or, toNat_shift32 p0 24 (by decide),
      toNat_shift32 p1 16 (by decide), toNat_shift32 p2 8 (by decide), UInt8.toNat_toUInt32,
      UInt32.toNat_ofNat',
      Nat.mod_eq_of_lt hlt]
    show p0.toNat * 2 ^ (16 + 8) ||| p1.toNat * 2 ^ 16 ||| p2.toNat * 2 ^ 8 ||| p3.toNat = _
    rw [join_byte _ 16, show 16 = 8 + 8 from rfl, join_byte _ 8, hjoin]
    simp [BigEndian.toNat]
    ring

theorem ptrToU64_eq {p : Bytes} (h : 8 ≤ p.length) :
    ptrToU64 p = some (UInt64.ofNat (BigEndian.toNat (p.take 8))) := by
  match p, h with
  | p0 :: p1 :: p2 :: p3 :: p4 :: p5 :: p6 :: p7 :: rest, _ =>
    have hlt : BigEndian.toNat [p0, p1, p2, p3, p4, p5, p6, p7] < 2 ^ 64 := by
      simpa using BigEndian.toNat_lt [p0, p1, p2, p3, p4, p5, p6, p7]
    have hjoin := fun a => join_byte a 0 p7
    simp only [Nat.zero_add, pow_zero, Nat.mul_one] at hjoin
    simp only [ptrToU64, List.take, Option.some.injEq]
    apply UInt64.toNat_inj.mp
    rw [UInt64.toNat_or, UInt64.toNat_or, UInt64.toNat_or, UInt64.toNat_or, UInt64.toNat_or,
      UInt64.toNat_or, UInt64.toNat_or, toNat_shift64 p0 56 (by decide),
      toNat_shift64 p1 48 (by decide), toNat_shift64 p2 40 (by decide),
      toNat_shift64 p3 32 (by decide), toNat_shift64 p4 24 (by decide),
      toNat_shift64 p5 16 (by decide), toNat_shift64 p6 8 (by decide), UInt8.toNat_toUInt64,
      UInt64.toNat_ofNat',
      Nat.mod_eq_of_lt hlt]
    show p0.toNat * 2 ^ (48 + 8) ||| p1.toNat * 2 ^ 48 ||| p2.toNat * 2 ^ 40 |||
      p3.toNat * 2 ^ 32 ||| p4.toNat * 2 ^ 24 ||| p5.toNat * 2 ^ 16 ||| p6.toNat * 2 ^ 8 |||
      p7.toNat = _
    rw [join_byte _ 48, show 48 = 40 + 8 from rfl, join_byte _ 40, show 40 = 32 + 8 from rfl,
      join_byte _ 32, show 32 = 24 + 8 from rfl, join_byte _ 24, show 24 = 16 + 8 from rfl,
      join_byte _ 16, show 16 = 8 + 8 from rfl, join_byte _ 8, hjoin]
    simp [BigEndian.toNat]
    ring

/-! ### Round trips -/

@[simp] theorem ptrToU16_u16ToStr (v : UInt16) (rest : Bytes) :
    ptrToU16 (u16ToStr v ++ rest) = some v := by
  rw [ptrToU16_eq (by simp), List.take_left' (length_u16ToStr v), u16ToStr_eq, BigEndian.toNat_ofNat,
    Nat.mod_eq_of_lt (by simpa using v.toNat_lt), UInt16.ofNat_toNat]

@[simp] theorem ptrToU32_u32ToStr (v : UInt32) (rest : Bytes) :
    ptrToU32 (u32ToStr v ++ rest) = some v := by
  rw [ptrToU32_eq (by simp), List.take_left' (length_u32ToStr v), u32ToStr_eq, BigEndian.toNat_ofNat,
    Nat.mod_eq_of_lt (by simpa using v.toNat_lt), UInt32.ofNat_toNat]

@[simp] theorem ptrToU64_u64ToStr (v : UInt64) (rest : Bytes) :
    ptrToU64 (u64ToStr v ++ rest) = some v := by
  rw [ptrToU64_eq (by simp), List.take_left' (length_u64ToStr v), u64ToStr_eq, BigEndian.toNat_ofNat,
    Nat.mod_eq_of_lt (by simpa using v.toNat_lt), UInt64.ofNat_toNat]

/-- Any `n` bytes in front are the string of a value of that width. -/
theorem take_eq_ofNat {p : Bytes} {n : Nat} (h : n ≤ p.length) :
    p.take n = BigEndian.ofNat n (BigEndian.toNat (p.take n)) := by
  have hlen : (p.take n).length = n := by simp [h]
  conv_lhs => rw [← BigEndian.ofNat_toNat (p.take n), hlen]

theorem split_u16 {p : Bytes} (h : 2 ≤ p.length) : ∃ v, p = u16ToStr v ++ p.drop 2 := by
  refine ⟨UInt16.ofNat (BigEndian.toNat (p.take 2)), ?_⟩
  have hlt := BigEndian.toNat_lt (p.take 2)
  rw [List.length_take, Nat.min_eq_left h] at hlt
  rw [u16ToStr_eq, UInt16.toNat_ofNat', Nat.mod_eq_of_lt (by simpa using hlt), ← take_eq_ofNat h,
    List.take_append_drop]

theorem split_u32 {p : Bytes} (h : 4 ≤ p.length) : ∃ v, p = u32ToStr v ++ p.drop 4 := by
  refine ⟨UInt32.ofNat (BigEndian.toNat (p.take 4)), ?_⟩
  have hlt := BigEndian.toNat_lt (p.take 4)
  rw [List.length_take, Nat.min_eq_left h] at hlt
  rw [u32ToStr_eq, UInt32.toNat_ofNat', Nat.mod_eq_of_lt (by simpa using hlt), ← take_eq_ofNat h,
    List.take_append_drop]

theorem split_u64 {p : Bytes} (h : 8 ≤ p.length) : ∃ v, p = u64ToStr v ++ p.drop 8 := by
  refine ⟨UInt64.ofNat (BigEndian.toNat (p.take 8)), ?_⟩
  have hlt := BigEndian.toNat_lt (p.take 8)
  rw [List.length_take, Nat.min_eq_left h] at hlt
  rw [u64ToStr_eq, UInt64.toNat_ofNat', Nat.mod_eq_of_lt (by simpa using hlt), ← take_eq_ofNat h,
    List.take_append_drop]

theorem split_u8 {p : Bytes} (h : 1 ≤ p.length) : ∃ v, p = u8ToStr v ++ p.drop 1 := by
  match p, h with
  | p0 :: rest, _ => exact ⟨p0, rfl⟩

end Fmxp
