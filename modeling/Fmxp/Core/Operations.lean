import Fmxp.Core.Storage

/-! The other operations of a buffer, by `append` and `ensureCapacity`. -/
namespace Fmxp.ByteBuffer
open Heap (Reseats)

variable {A : Allocator} {heap : Memory} {b other : ByteBuffer} {o : Outcome} {len : UInt64} {src : Pointer}
  {y str : Bytes}

/-! ### What is appended -/

theorem copyFrom_eq_some {p : Bytes} {n : Nat} : copyFrom p n = some y ↔ n ≤ p.length ∧ p.take n = y := by
  simp [copyFrom]

theorem readable_memory {data : Bytes} (h : copyFrom data len.toNat = some y) :
    Readable (.memory data) len y heap b := by
  obtain ⟨hle, hy⟩ := copyFrom_eq_some.mp h
  exact ⟨by rw [← hy, List.length_take_of_le hle], fun _ => h, fun _ _ hc => by cases hc⟩

theorem toNat_length (h : str.length ≤ 2 ^ 63) : (UInt64.ofNat str.length).toNat = str.length :=
  UInt64.toNat_ofNat_of_lt' (Nat.lt_of_le_of_lt h (by decide))

/-- `str.data()` and `str.size()`. -/
theorem readable_string (h : str.length ≤ 2 ^ 63) : Readable (.memory str) (UInt64.ofNat str.length) str heap b := by
  have hlength := toNat_length h
  exact readable_memory (copyFrom_eq_some.mpr ⟨Nat.le_of_eq hlength, by rw [hlength, List.take_length]⟩)

/-- Some of the bytes of a buffer with storage of its own. -/
theorem Valid.readable_part {offset : Nat} (h : Valid heap other)
    (hapart : ∀ a, other.data = some a → b.data ≠ some a)
    (hy : copyFrom ((other.bytes heap).drop offset) len.toNat = some y) :
    Readable (other.cdata.add offset) len y heap b := by
  obtain ⟨hle, htake⟩ := copyFrom_eq_some.mp hy
  refine ⟨by rw [← htake, List.length_take_of_le hle], fun hlen => ?_, fun a place hc => ?_⟩
  · have hpos := toNat_pos hlen
    rw [List.length_drop, h.length_bytes] at hle
    obtain ⟨a, block, ha, hblock, hlength⟩ := h.data_of_capacity (by have := h.size_le; omega)
    have hsize := h.size_le
    have hcdata : other.cdata.add offset = .block a (0 + offset) := by
      rw [cdata, ha]
      rfl
    rw [hcdata, Nat.zero_add]
    refine Heap.load_eq_some.mpr ⟨block, hblock, by omega, ?_⟩
    rw [← htake, bytes, storage_of_block ha hblock, List.drop_take, List.take_take, Nat.min_eq_left (by omega)]
  · cases ha : other.data with
    | none =>
      rw [cdata, ha] at hc
      cases hc
    | some c =>
      rw [cdata, ha] at hc
      cases hc
      exact hapart a ha

/-- All the bytes of a buffer with storage of its own. -/
theorem Valid.readable (h : Valid heap other) (hapart : ∀ a, other.data = some a → b.data ≠ some a) :
    Readable other.cdata other.size (other.bytes heap) heap b := by
  have hall : copyFrom ((other.bytes heap).drop 0) other.size.toNat = some (other.bytes heap) := by
    rw [List.drop_zero, ← h.length_bytes]
    exact copyFrom_eq_some.mpr ⟨Nat.le_refl _, List.take_length⟩
  have hpart := h.readable_part hapart hall
  have hzero : other.cdata.add 0 = other.cdata := by
    unfold cdata
    split <;> rfl
  rw [hzero] at hpart
  exact hpart

theorem strlen_eq_some {string : Bytes} (h : strlen string = some len)
    (hle : (string.takeWhile (· ≠ 0)).length ≤ 2 ^ 63) :
    len.toNat = (string.takeWhile (· ≠ 0)).length := by
  unfold strlen at h
  split at h
  · cases h
    exact toNat_length hle
  · cases h

/-- What stands before the terminator. -/
theorem readable_cstring {string : Bytes} (h : strlen string = some len)
    (hle : (string.takeWhile (· ≠ 0)).length ≤ 2 ^ 63) :
    Readable (.memory string) len (string.takeWhile (· ≠ 0)) heap b := by
  have hlen := strlen_eq_some h hle
  refine readable_memory (copyFrom_eq_some.mpr ⟨?_, ?_⟩)
  · rw [hlen]
    exact (List.takeWhile_prefix _).length_le
  · rw [hlen]
    exact (List.prefix_iff_eq_take.mp (List.takeWhile_prefix _)).symm

theorem fromCString_keeps {string : Bytes} (h : fromCString A string heap = some o) : Keeps heap {} o := by
  obtain ⟨len, -, h⟩ := Option.bind_eq_some_iff.mp h
  exact append_keeps .empty h

/-! ### `clear`, `resize`, `operator[]` -/

theorem Valid.clear (h : Valid heap b) : Valid heap b.clear :=
  ⟨Nat.zero_le _, h.length, h.allocated, h.grown⟩

theorem bytes_clear : b.clear.bytes heap = [] := List.take_zero

theorem resize_cases (h : resize A len heap b = some o) : ∃ p, ensureCapacity A len heap b = some p ∧
    (o = p ∧ p.thrown ≠ none ∨ p.thrown = none ∧ o = ⟨p.heap, {p.this with size := len}, none⟩) := by
  obtain ⟨p, hp, h⟩ := Option.bind_eq_some_iff.mp h
  refine ⟨p, hp, ?_⟩
  rcases Outcome.andThen_cases h with ⟨hthrown, h⟩ | ⟨hthrown, rfl⟩
  · cases h
    exact .inr ⟨hthrown, rfl⟩
  · exact .inl ⟨rfl, hthrown⟩

theorem resize_keeps (hb : Valid heap b) (h : resize A len heap b = some o) : Keeps heap b o := by
  obtain ⟨p, hp, ⟨rfl, -⟩ | ⟨hthrown, rfl⟩⟩ := resize_cases h
  · exact (ensureCapacity_ensures hb hp).keeps
  · have hensures := ensureCapacity_ensures hb hp
    have hvalid := hensures.keeps.valid
    exact ⟨hensures.keeps.reseats, ⟨UInt64.le_iff_toNat_le.mp (hensures.enough hthrown), hvalid.length,
      hvalid.allocated, hvalid.grown⟩, fun he => absurd rfl he⟩

/-- A resized list has the new length, and the two begin alike as far as both of them go. -/
theorem resize_gives (hb : Valid heap b) (h : resize A len heap b = some o) :
    Gives heap b o fun z => z.length = len.toNat ∧ z.take (b.bytes heap).length = (b.bytes heap).take z.length := by
  have hkeeps := resize_keeps hb h
  obtain ⟨p, hp, ⟨rfl, hthrown⟩ | ⟨hthrown, rfl⟩⟩ := resize_cases h
  · have hensures := ensureCapacity_ensures hb hp
    exact ⟨fun hnone => absurd hnone hthrown, fun e he => ⟨hensures.threw e he, hensures.bytes⟩⟩
  · have hensures := ensureCapacity_ensures hb hp
    have hlength := hkeeps.valid.length_bytes
    refine ⟨fun _ => ⟨hlength, ?_⟩, fun _ he => by cases he⟩
    rw [hlength, hb.length_bytes, ← hensures.bytes]
    simp only [bytes, List.take_take, hensures.size, Nat.min_comm]
    rfl

theorem resize_isSome (hb : Valid heap b) (h : len.toNat ≤ 2 ^ 63) : (resize A len heap b).isSome := by
  obtain ⟨p, hp⟩ := Option.isSome_iff_exists.mp (ensureCapacity_isSome (A := A) hb h)
  rw [resize, hp, Option.bind_some]
  by_cases hthrown : p.thrown = none
  · rw [Outcome.andThen_of_returned hthrown]
    rfl
  · rw [Outcome.andThen_of_threw hthrown]
    rfl

theorem set_spec {index : UInt64} {v : UInt8} (hb : Valid heap b) (h : set index v heap b = some o) :
    Keeps heap b o ∧
      (o.thrown = none → index.toNat < b.size.toNat ∧ o.this.bytes o.heap = (b.bytes heap).set index.toNat v) ∧
      ∀ e, o.thrown = some e → b.size.toNat ≤ index.toNat ∧ e = .outOfRange "Index out of range" ∧
        o.this.bytes o.heap = b.bytes heap := by
  unfold set at h
  split at h
  · next hle =>
    cases h
    refine ⟨hb.keeps _, fun he => (by cases he), fun _ he => ?_⟩
    cases he
    exact ⟨UInt64.le_iff_toNat_le.mp hle, rfl, rfl⟩
  · next hlt =>
    rw [UInt64.not_le, UInt64.lt_iff_toNat_lt] at hlt
    split at h
    · cases h
    · next a ha =>
      obtain ⟨heap', hstore, rfl⟩ := Option.map_eq_some_iff.mp h
      obtain ⟨block, hblock, hle, rfl⟩ := Heap.store_eq_some.mp hstore
      have hstorage : b.storage heap = block := storage_of_block ha hblock
      have hset : Heap.splice block index.toNat [v] = block.set index.toNat v := by
        have hlt : index.toNat < block.length := hle
        rw [List.set_eq_take_append_cons_drop, if_pos hlt]
        rfl
      have hstorage' : storage (Function.update heap a (some (Heap.splice block index.toNat [v]))) b =
          block.set index.toNat v := by
        rw [storage_of_block ha (Function.update_self ..), hset]
      have hreseats : Reseats heap (some a) (Function.update heap a (some (Heap.splice block index.toNat [v])))
          (some a) := .rewrite _
      rw [← ha] at hreseats
      have hlength := hb.length
      rw [hstorage] at hlength
      refine ⟨⟨hreseats, ⟨hb.size_le, ?_, hreseats.allocated, hb.grown⟩, fun he => absurd rfl he⟩,
        fun _ => ⟨hlt, ?_⟩, fun _ he => by cases he⟩
      · rw [hstorage', List.length_set, hlength]
      · rw [bytes, hstorage', bytes, hstorage, List.take_set]

theorem set_isSome {index : UInt64} {v : UInt8} (hb : Valid heap b) : (set index v heap b).isSome := by
  unfold set
  split
  · rfl
  · next hlt =>
    rw [UInt64.not_le, UInt64.lt_iff_toNat_lt] at hlt
    have hsize := hb.size_le
    obtain ⟨a, block, ha, hblock, hlength⟩ := hb.data_of_capacity (by omega)
    have hstore := Heap.store_eq_some.mpr ⟨block, hblock, (by simp only [List.length_singleton]; omega :
      index.toNat + [v].length ≤ block.length), rfl⟩
    rw [ha]
    simp only [hstore, Option.map_some, Option.isSome_some]

/-! ### `operator+` -/

/-- What an operation leaves alone is another buffer with storage of its own. -/
theorem Keeps.others (h : Keeps heap b o) (hother : Valid heap other)
    (hapart : ∀ a, other.data = some a → b.data ≠ some a) :
    Valid o.heap other ∧ other.bytes o.heap = other.bytes heap ∧ ∀ a, other.data = some a → o.this.data ≠ some a := by
  have helse : ∀ a, other.data = some a → o.this.data ≠ some a ∧ o.heap a = heap a := fun a ha =>
    h.reseats.elsewhere (hother.allocated a ha) (hapart a ha)
  exact ⟨hother.congr fun a ha => (helse a ha).2, bytes_congr fun a ha => (helse a ha).2,
    fun a ha => (helse a ha).1⟩

theorem unwind_spec {p : Outcome} (hreseats : Reseats heap none p.heap p.this.data) (hvalid : Valid p.heap p.this)
    (h : unwind p = some o) :
    Keeps heap {} o ∧ o.thrown = p.thrown ∧ (p.thrown = none → o = p) ∧ (p.thrown ≠ none → o.this = {}) := by
  unfold unwind at h
  split at h
  · next hthrown =>
    cases h
    exact ⟨⟨hreseats, hvalid, fun he => absurd hthrown he⟩, rfl, fun _ => rfl, fun he => absurd hthrown he⟩
  · next e hthrown =>
    obtain ⟨heap', hrelease, rfl⟩ := Option.map_eq_some_iff.mp h
    exact ⟨⟨hreseats.trans (.release hrelease), .empty, fun _ => rfl⟩, hthrown.symm,
      fun hnone => (by rw [hthrown] at hnone; cases hnone), fun _ => rfl⟩

theorem unwind_isSome {p : Outcome} (hp : Valid p.heap p.this) : (unwind p).isSome := by
  unfold unwind
  split
  · rfl
  · rw [Option.isSome_map]
    exact Heap.release_isSome hp.allocated

theorem copy_keeps (h : copy A b heap = some o) : Keeps heap {} o := append_keeps .empty h

theorem copy_gives (hb : Valid heap b) (h : copy A b heap = some o) : Gives heap {} o (· = b.bytes heap) :=
  append_gives .empty (hb.readable fun _ _ hc => by cases hc) h

theorem copy_isSome (hb : Valid heap b) : (copy A b heap).isSome := by
  refine append_isSome .empty (hb.readable fun _ _ hc => by cases hc) ?_
  rw [UInt64.toNat_zero, Nat.zero_add]
  exact hb.size_le_max

section Plus
variable {added : Memory → ByteBuffer → Option Outcome}

theorem plus_cases (h : plus A added heap b = some o) : ∃ p, copy A b heap = some p ∧
    (o = p ∧ p.thrown ≠ none ∨ ∃ q, p.thrown = none ∧ added p.heap p.this = some q ∧ unwind q = some o) := by
  obtain ⟨p, hp, h⟩ := Option.bind_eq_some_iff.mp h
  refine ⟨p, hp, ?_⟩
  rcases Outcome.andThen_cases h with ⟨hthrown, h⟩ | ⟨hthrown, rfl⟩
  · obtain ⟨q, hq, h⟩ := Option.bind_eq_some_iff.mp h
    exact .inr ⟨q, hthrown, hq, h⟩
  · exact .inl ⟨rfl, hthrown⟩

theorem plus_keeps (hadded : ∀ p q, Keeps heap {} p → added p.heap p.this = some q → Keeps p.heap p.this q)
    (h : plus A added heap b = some o) : Keeps heap {} o := by
  obtain ⟨p, hp, ⟨rfl, -⟩ | ⟨q, -, hq, hunwind⟩⟩ := plus_cases h
  · exact copy_keeps hp
  · have hcopy := copy_keeps hp
    have hkeeps := hadded p q hcopy hq
    exact (unwind_spec (hcopy.reseats.trans hkeeps.reseats) hkeeps.valid hunwind).1

theorem plus_gives (hb : Valid heap b)
    (hadded : ∀ p q, Keeps heap {} p → added p.heap p.this = some q →
      Keeps p.heap p.this q ∧ Gives p.heap p.this q (· = p.this.bytes p.heap ++ y))
    (h : plus A added heap b = some o) : Gives heap {} o (· = b.bytes heap ++ y) := by
  obtain ⟨p, hp, ⟨rfl, hthrown⟩ | ⟨q, hthrown, hq, hunwind⟩⟩ := plus_cases h
  · exact ⟨fun hnone => absurd hnone hthrown, (copy_gives hb hp).threw⟩
  · have hcopy := copy_keeps hp
    obtain ⟨hkeeps, hgives⟩ := hadded p q hcopy hq
    obtain ⟨-, heq, hsame, hgone⟩ := unwind_spec (hcopy.reseats.trans hkeeps.reseats) hkeeps.valid hunwind
    refine ⟨fun hnone => ?_, fun e he => ?_⟩
    · have hq' : q.thrown = none := heq.symm.trans hnone
      rw [hsame hq', hgives.returned hq', (copy_gives hb hp).returned hthrown]
    · rw [heq] at he
      rw [hgone (by rw [he]; exact Option.some_ne_none e)]
      exact ⟨(hgives.threw e he).1, rfl⟩

theorem plus_isSome (hb : Valid heap b)
    (hadded : ∀ p, Keeps heap {} p → p.this.bytes p.heap = b.bytes heap → (added p.heap p.this).isSome)
    (hkeeps : ∀ p q, Keeps heap {} p → added p.heap p.this = some q → Keeps p.heap p.this q) :
    (plus A added heap b).isSome := by
  obtain ⟨p, hp⟩ := Option.isSome_iff_exists.mp (copy_isSome (A := A) hb)
  rw [plus, hp, Option.bind_some]
  by_cases hthrown : p.thrown = none
  · have hcopy := copy_keeps hp
    obtain ⟨q, hq⟩ := Option.isSome_iff_exists.mp (hadded p hcopy ((copy_gives hb hp).returned hthrown))
    rw [Outcome.andThen_of_returned hthrown, hq]
    exact unwind_isSome (hkeeps p q hcopy hq).valid
  · rw [Outcome.andThen_of_threw hthrown]
    rfl

end Plus

theorem add_keeps (h : add A other heap b = some o) : Keeps heap {} o :=
  plus_keeps (fun _ _ hp hq => append_keeps hp.valid hq) h

theorem addString_keeps (h : addString A str heap b = some o) : Keeps heap {} o :=
  plus_keeps (fun _ _ hp hq => append_keeps hp.valid hq) h

/-- The other operand can be read after the copy has been made, also where it is the buffer that was copied. -/
theorem Keeps.readable (hp : Keeps heap {} o) (hother : Valid heap other) :
    Readable other.cdata other.size (other.bytes heap) o.heap o.this := by
  obtain ⟨hvalid, hbytes, hapart⟩ := hp.others hother (fun _ _ hn => by cases hn)
  rw [← hbytes]
  exact hvalid.readable hapart

theorem add_gives (hb : Valid heap b) (hother : Valid heap other) (h : add A other heap b = some o) :
    Gives heap {} o (· = b.bytes heap ++ other.bytes heap) :=
  plus_gives hb (fun _ _ hp hq => ⟨append_keeps hp.valid hq, append_gives hp.valid (hp.readable hother) hq⟩) h

theorem addString_gives (hb : Valid heap b) (hstr : str.length ≤ 2 ^ 63) (h : addString A str heap b = some o) :
    Gives heap {} o (· = b.bytes heap ++ str) :=
  plus_gives hb (fun _ _ hp hq => ⟨append_keeps hp.valid hq, append_gives hp.valid (readable_string hstr) hq⟩) h

theorem add_isSome (hb : Valid heap b) (hother : Valid heap other)
    (h : (b.bytes heap).length + (other.bytes heap).length ≤ 2 ^ 63) : (add A other heap b).isSome := by
  refine plus_isSome hb (fun p hp hbytes => ?_) (fun _ _ hp hq => append_keeps hp.valid hq)
  refine append_isSome hp.valid (hp.readable hother) ?_
  rw [← hp.valid.length_bytes, hbytes, ← hother.length_bytes]
  exact h

theorem addString_isSome (hb : Valid heap b) (h : (b.bytes heap).length + str.length ≤ 2 ^ 63) :
    (addString A str heap b).isSome := by
  have hstr : str.length ≤ 2 ^ 63 := by omega
  refine plus_isSome hb (fun p hp hbytes => ?_) (fun _ _ hp hq => append_keeps hp.valid hq)
  refine append_isSome hp.valid (readable_string hstr) ?_
  rw [← hp.valid.length_bytes, hbytes, toNat_length hstr]
  exact h

/-! ### `slice` -/

theorem slice_keeps {start stop : UInt64} (h : slice A start stop heap b = some o) : Keeps heap {} o := by
  unfold slice at h
  split at h
  · cases h
    exact Valid.empty.keeps _
  · exact append_keeps .empty h

theorem slice_range {start stop : UInt64} : (start > stop || stop > b.size) = true ↔
    ¬ (start.toNat ≤ stop.toNat ∧ stop.toNat ≤ b.size.toNat) := by
  simp only [Bool.or_eq_true, decide_eq_true_eq, gt_iff_lt, UInt64.lt_iff_toNat_lt]
  omega

/-- What a slice copies, where it is in the buffer. -/
theorem slice_readable {start stop : UInt64} (hb : Valid heap b) (hle : start.toNat ≤ stop.toNat)
    (hstop : stop.toNat ≤ b.size.toNat) : (stop - start).toNat = stop.toNat - start.toNat ∧
      Readable (b.cdata.add start.toNat) (stop - start)
        (((b.bytes heap).drop start.toNat).take (stop.toNat - start.toNat)) heap {} := by
  have hlength : (stop - start).toNat = stop.toNat - start.toNat :=
    UInt64.toNat_sub_of_le _ _ (UInt64.le_iff_toNat_le.mpr hle)
  refine ⟨hlength, hb.readable_part (fun _ _ hc => by cases hc) ?_⟩
  rw [hlength]
  refine copyFrom_of_le ?_
  rw [List.length_drop, hb.length_bytes]
  omega

/-- `slice` is the slice of the list. -/
theorem slice_spec {start stop : UInt64} (hb : Valid heap b) (h : slice A start stop heap b = some o) :
    match Fmxp.slice (b.bytes heap) start.toNat stop.toNat with
    | .ok y => Gives heap {} o (· = y)
    | .error e => ∃ what, e = .outOfRange what ∧ o.thrown = some (.outOfRange what) := by
  have hrange : (start.toNat > stop.toNat || stop.toNat > (b.bytes heap).length) = true ↔
      ¬ (start.toNat ≤ stop.toNat ∧ stop.toNat ≤ b.size.toNat) := by
    simp only [hb.length_bytes, Bool.or_eq_true, decide_eq_true_eq]
    omega
  unfold slice at h
  split at h
  · next hout =>
    cases h
    rw [Fmxp.slice, if_pos (hrange.mpr (slice_range.mp hout)), hb.length_bytes]
    exact ⟨_, rfl, rfl⟩
  · next hin =>
    have hin := not_not.mp (mt slice_range.mpr hin)
    rw [Fmxp.slice, if_neg (fun hout => hrange.mp hout hin)]
    exact append_gives .empty (slice_readable hb hin.1 hin.2).2 h

theorem slice_isSome {start stop : UInt64} (hb : Valid heap b) : (slice A start stop heap b).isSome := by
  unfold slice
  split
  · rfl
  · next hin =>
    obtain ⟨hle, hstop⟩ := not_not.mp (mt slice_range.mpr hin)
    obtain ⟨hlength, hr⟩ := slice_readable hb hle hstop
    refine append_isSome .empty hr ?_
    have hsize := hb.size_le_max
    rw [hlength, UInt64.toNat_zero]
    omega

end Fmxp.ByteBuffer
