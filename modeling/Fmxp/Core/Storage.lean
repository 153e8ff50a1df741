import Fmxp.Core.Growth

/-! What a buffer holds, and what each of its operations makes of that.

`Valid` is the invariant of one buffer: the storage has as many bytes as the capacity says and the size is not
larger. An operation `Keeps` it and touches no storage but its own buffer's. What it leaves in the buffer is said
by `Gives`, and that it comes to an end by the lemmas in `isSome`. -/
namespace Fmxp
open Heap (Reseats)

theorem Pointer.read_length {src : Pointer} {heap : Memory} {n : Nat} {cells : Bytes}
    (h : src.read heap n = some cells) : cells.length = n := by
  cases src with
  | null => cases h
  | memory bytes =>
    simp only [Pointer.read, copyFrom] at h
    split at h
    · cases h
      exact List.length_take_of_le ‹_›
    · cases h
  | block a offset => exact Heap.load_length h

theorem memcpy_eq_some {dst : Addr} {place n : Nat} {src : Pointer} {heap heap' : Memory}
    (h : memcpy dst place src n heap = some heap') :
    ∃ cells block, src.read heap n = some cells ∧ heap dst = some block ∧ place + n ≤ block.length ∧
      heap' = Function.update heap dst (some (Heap.splice block place cells)) := by
  unfold memcpy at h
  split at h
  · cases h
  · obtain ⟨cells, hread, hstore⟩ := Option.bind_eq_some_iff.mp h
    obtain ⟨block, hblock, hle, rfl⟩ := Heap.store_eq_some.mp hstore
    rw [Pointer.read_length hread] at hle
    exact ⟨cells, block, hread, hblock, hle, rfl⟩

theorem memcpy_of_read {dst : Addr} {place n : Nat} {src : Pointer} {heap : Memory} {cells block : Bytes}
    (hapart : ∀ a offset, src = .block a offset → a ≠ dst) (hread : src.read heap n = some cells)
    (hblock : heap dst = some block) (hle : place + n ≤ block.length) :
    memcpy dst place src n heap = some (Function.update heap dst (some (Heap.splice block place cells))) := by
  have hoverlaps : src.overlaps dst place n = false := by
    cases src with
    | null => rfl
    | memory bytes => rfl
    | block a offset => simp [Pointer.overlaps, hapart a offset rfl]
  rw [memcpy, if_neg (by simp [hoverlaps]), hread, Option.bind_some]
  exact Heap.store_eq_some.mpr ⟨block, hblock, by rw [Pointer.read_length hread]; exact hle, rfl⟩

namespace ByteBuffer
variable {A : Allocator} {heap heap' : Memory} {b : ByteBuffer} {o : Outcome} {newCap len : UInt64} {src : Pointer}
  {y : Bytes} {a : Addr}

/-- The block behind `_data`; the null pointer has none. -/
def storage (heap : Memory) (b : ByteBuffer) : Bytes := (b.data.bind heap).getD []

/-- The list a buffer stands for. -/
def bytes (heap : Memory) (b : ByteBuffer) : Bytes := (b.storage heap).take b.size.toNat

structure Valid (heap : Memory) (b : ByteBuffer) : Prop where
  size_le : b.size.toNat ≤ b.capacity.toNat
  length : (b.storage heap).length = b.capacity.toNat
  allocated : ∀ a, b.data = some a → (heap a).isSome
  grown : Grown b.capacity

theorem storage_of_block {block : Bytes} (ha : b.data = some a) (hblock : heap a = some block) :
    b.storage heap = block := by
  simp [storage, ha, hblock]

theorem Valid.empty : Valid heap {} :=
  ⟨Nat.le_refl _, rfl, fun _ h => (by cases h), .inl rfl⟩

theorem Valid.length_bytes (h : Valid heap b) : (b.bytes heap).length = b.size.toNat :=
  List.length_take_of_le (by rw [h.length]; exact h.size_le)

theorem Valid.size_le_max (h : Valid heap b) : b.size.toNat ≤ 2 ^ 63 := Nat.le_trans h.size_le h.grown.le

/-- A capacity that meets a request which the old one did not meet has room for what was in the buffer. -/
theorem Valid.room {newCapacity : UInt64} (h : Valid heap b) (hlt : b.capacity < newCap)
    (hle : newCap ≤ newCapacity) : b.size.toNat ≤ newCapacity.toNat := by
  have hsize := h.size_le
  rw [UInt64.lt_iff_toNat_lt] at hlt
  rw [UInt64.le_iff_toNat_le] at hle
  omega

theorem toNat_pos (h : len ≠ 0) : 0 < len.toNat := Nat.pos_of_ne_zero fun hz => h (UInt64.toNat_inj.mp hz)

/-- A buffer that could be larger than nothing has a block. -/
theorem Valid.data_of_capacity (h : Valid heap b) (hpos : 0 < b.capacity.toNat) :
    ∃ a block, b.data = some a ∧ heap a = some block ∧ block.length = b.capacity.toNat := by
  cases hdata : b.data with
  | none =>
    have hlength := h.length
    rw [storage, hdata] at hlength
    simp only [Option.bind_none, Option.getD_none, List.length_nil] at hlength
    omega
  | some a =>
    obtain ⟨block, hblock⟩ := Option.isSome_iff_exists.mp (h.allocated a hdata)
    exact ⟨a, block, rfl, hblock, by rw [← h.length, storage_of_block hdata hblock]⟩

theorem storage_congr (h : ∀ a, b.data = some a → heap' a = heap a) : b.storage heap' = b.storage heap := by
  cases hdata : b.data with
  | none => simp [storage, hdata]
  | some a => simp [storage, hdata, h a hdata]

theorem Valid.congr (hb : Valid heap b) (h : ∀ a, b.data = some a → heap' a = heap a) : Valid heap' b where
  size_le := hb.size_le
  length := (congrArg List.length (storage_congr h)).trans hb.length
  allocated := fun a ha => by
    rw [h a ha]
    exact hb.allocated a ha
  grown := hb.grown

theorem bytes_congr (h : ∀ a, b.data = some a → heap' a = heap a) : b.bytes heap' = b.bytes heap := by
  rw [bytes, bytes, storage_congr h]

/-- A call has touched no storage but that of its buffer, which is in order. One that throws has not touched the
buffer either. -/
structure Keeps (heap : Memory) (b : ByteBuffer) (o : Outcome) : Prop where
  reseats : Reseats heap b.data o.heap o.this.data
  valid : Valid o.heap o.this
  threw : o.thrown ≠ none → o.this = b

theorem Valid.keeps (h : Valid heap b) (thrown : Option Thrown) : Keeps heap b ⟨heap, b, thrown⟩ :=
  ⟨.refl h.allocated, h, fun _ => rfl⟩

/-- What a call that returns leaves in its buffer. One that throws for want of memory leaves what was there. -/
structure Gives (heap : Memory) (b : ByteBuffer) (o : Outcome) (P : Bytes → Prop) : Prop where
  returned : o.thrown = none → P (o.this.bytes o.heap)
  threw : ∀ e, o.thrown = some e → e = .badAlloc ∧ o.this.bytes o.heap = b.bytes heap

/-! ### `ensureCapacity` -/

/-- The new block starts with what the buffer holds, and the old one is gone. -/
theorem relocate_spec {fresh : Bytes} (hb : Valid heap b) (ha : heap a = none)
    (hle : b.size.toNat ≤ fresh.length) :
    ∃ heap', relocate a (Function.update heap a (some fresh)) b = some heap' ∧
      Reseats heap b.data heap' (some a) ∧ heap' a = some (Heap.splice fresh 0 (b.bytes heap)) := by
  cases hdata : b.data with
  | none =>
    have hbytes : b.bytes heap = [] := by simp [bytes, storage, hdata]
    have hspec : Reseats heap none (Function.update heap a (some fresh)) (some a) ∧
        Function.update heap a (some fresh) a = some fresh := Reseats.replace (fun _ h => by cases h) ha rfl
    refine ⟨_, by rw [relocate, hdata], hspec.1, ?_⟩
    rw [hspec.2, hbytes]
    rfl
  | some old =>
    obtain ⟨block, hblock⟩ := Option.isSome_iff_exists.mp (hb.allocated old hdata)
    have hne : old ≠ a := by
      rintro rfl
      rw [ha] at hblock
      cases hblock
    have hlength : block.length = b.capacity.toNat := by rw [← hb.length, storage_of_block hdata hblock]
    have hread : Pointer.read (Function.update heap a (some fresh)) b.size.toNat (.block old 0) =
        some (b.bytes heap) := by
      refine Heap.load_eq_some.mpr ⟨block, ?_, ?_, ?_⟩
      · rw [Function.update_of_ne hne, hblock]
      · rw [hlength, Nat.zero_add]
        exact hb.size_le
      · rw [List.drop_zero, bytes, storage_of_block hdata hblock]
    have hapart : ∀ c offset, Pointer.block old 0 = .block c offset → c ≠ a := fun c offset hc => by
      cases hc
      exact hne
    have hfits : 0 + b.size.toNat ≤ fresh.length := by omega
    have hcopy := memcpy_of_read hapart hread (Function.update_self ..) hfits
    rw [Function.update_idem] at hcopy
    have halloc : ∀ c, some old = some c → (heap c).isSome := fun c hc => hb.allocated c (hdata.trans hc)
    have halloc' : ∀ c, some old = some c →
        (Function.update heap a (some (Heap.splice fresh 0 (b.bytes heap))) c).isSome := fun c hc => by
      cases hc
      rw [Function.update_of_ne hne]
      exact halloc old rfl
    obtain ⟨heap', hrelease⟩ := Option.isSome_iff_exists.mp (Heap.release_isSome halloc')
    have hspec := Reseats.replace halloc ha hrelease
    refine ⟨heap', ?_, hspec⟩
    rw [relocate, hdata]
    simp only [hcopy, Option.bind_some, hrelease]

/-- Everything `ensureCapacity` can do. -/
theorem ensureCapacity_cases (hb : Valid heap b) (h : ensureCapacity A newCap heap b = some o) :
    o = ⟨heap, b, none⟩ ∧ newCap ≤ b.capacity ∨ o = ⟨heap, b, some .badAlloc⟩ ∨
    ∃ a newCapacity fresh heap', o = ⟨heap', {b with data := some a, capacity := newCapacity}, none⟩ ∧
      Grown newCapacity ∧ b.capacity < newCap ∧ newCap ≤ newCapacity ∧ Reseats heap b.data heap' (some a) ∧
      heap' a = some (Heap.splice fresh 0 (b.bytes heap)) ∧ fresh.length = newCapacity.toNat := by
  unfold ensureCapacity at h
  split at h
  · next hle =>
    cases h
    exact .inl ⟨rfl, hle⟩
  · next hlt =>
    rw [UInt64.not_le] at hlt
    obtain ⟨newCapacity, hdoubled, h⟩ := Option.bind_eq_some_iff.mp h
    obtain ⟨hgrown, hle⟩ := doubled_spec (grown_first hb.grown) hdoubled
    split at h
    · cases h
      exact .inr (.inl rfl)
    · next a fresh hnew =>
      have hlength := A.length _ _ _ _ hnew
      have hroom : b.size.toNat ≤ fresh.length := by
        rw [hlength]
        exact hb.room hlt hle
      obtain ⟨heap', hrelocate, hreseats, hblock⟩ := relocate_spec hb (A.free _ _ _ _ hnew) hroom
      rw [hrelocate] at h
      cases h
      exact .inr (.inr ⟨a, newCapacity, fresh, heap', rfl, hgrown, hlt, hle, hreseats, hblock, hlength⟩)

/-- The buffer is as large as was asked, with the same bytes in it, unless there is no memory. -/
structure Ensures (newCap : UInt64) (heap : Memory) (b : ByteBuffer) (o : Outcome) : Prop where
  keeps : Keeps heap b o
  size : o.this.size = b.size
  bytes : o.this.bytes o.heap = b.bytes heap
  enough : o.thrown = none → newCap ≤ o.this.capacity
  threw : ∀ e, o.thrown = some e → e = .badAlloc

theorem take_splice_zero {fresh cells : Bytes} (h : cells.length ≤ fresh.length) :
    (Heap.splice fresh 0 cells).take cells.length = cells := by
  have htake : (Heap.splice fresh 0 cells).take (0 + cells.length) = fresh.take 0 ++ cells :=
    Heap.take_splice (by omega)
  rw [Nat.zero_add, List.take_zero, List.nil_append] at htake
  exact htake

theorem ensureCapacity_ensures (hb : Valid heap b) (h : ensureCapacity A newCap heap b = some o) :
    Ensures newCap heap b o := by
  rcases ensureCapacity_cases hb h with
    ⟨rfl, hle⟩ | rfl | ⟨a, newCapacity, fresh, heap', rfl, hgrown, hlt, hle, hreseats, hblock, hlength⟩
  · exact ⟨hb.keeps _, rfl, rfl, fun _ => hle, fun _ he => by cases he⟩
  · refine ⟨hb.keeps _, rfl, rfl, fun he => (by cases he), fun _ he => ?_⟩
    cases he
    rfl
  · have hsize := hb.room hlt hle
    have hroom : (b.bytes heap).length ≤ fresh.length := by
      rw [hb.length_bytes, hlength]
      exact hsize
    have hstorage : storage heap' {b with data := some a, capacity := newCapacity} =
        Heap.splice fresh 0 (b.bytes heap) := storage_of_block rfl hblock
    refine ⟨⟨hreseats, ⟨hsize, ?_, hreseats.allocated, hgrown⟩, fun he => absurd rfl he⟩, rfl, ?_, fun _ => hle,
      fun _ he => by cases he⟩
    · rw [hstorage, Heap.length_splice (by omega), hlength]
    · rw [bytes, hstorage]
      have htake := take_splice_zero hroom
      rw [hb.length_bytes] at htake
      exact htake

/-- `ensureCapacity` ends exactly if its loop does. -/
theorem ensureCapacity_ends_iff (A : Allocator) (newCap : UInt64) (hb : Valid heap b) :
    (ensureCapacity A newCap heap b).isSome ↔ ∃ c, Arrives b.capacity newCap c := by
  simp only [arrives_iff]
  unfold ensureCapacity
  split
  · exact ⟨fun _ => ⟨_, rfl⟩, fun _ => rfl⟩
  · next hlt =>
    rw [UInt64.not_le] at hlt
    constructor
    · intro h
      obtain ⟨o, ho⟩ := Option.isSome_iff_exists.mp h
      obtain ⟨newCapacity, hdoubled, -⟩ := Option.bind_eq_some_iff.mp ho
      exact ⟨newCapacity, hdoubled⟩
    · rintro ⟨newCapacity, hdoubled⟩
      rw [hdoubled, Option.bind_some]
      split
      · rfl
      · next a fresh hnew =>
        have hroom : b.size.toNat ≤ fresh.length := by
          rw [A.length _ _ _ _ hnew]
          exact hb.room hlt (doubled_spec (grown_first hb.grown) hdoubled).2
        obtain ⟨heap', hrelocate, -⟩ := relocate_spec hb (A.free _ _ _ _ hnew) hroom
        rw [hrelocate]
        rfl

theorem ensureCapacity_isSome (hb : Valid heap b) (h : newCap.toNat ≤ 2 ^ 63) :
    (ensureCapacity A newCap heap b).isSome := by
  obtain ⟨c, hc, -⟩ := (arrives_enough_iff hb.grown).mpr h
  exact (ensureCapacity_ends_iff A newCap hb).mpr ⟨c, hc⟩

/-! ### `append` -/

/-- `len` bytes that can be read, and are not in the storage of the buffer they go to. -/
structure Readable (src : Pointer) (len : UInt64) (y : Bytes) (heap : Memory) (b : ByteBuffer) : Prop where
  length : y.length = len.toNat
  read : len ≠ 0 → src.read heap len.toNat = some y
  apart : ∀ a offset, src = .block a offset → b.data ≠ some a

/-- What is read from elsewhere does not change while the buffer grows, and stays elsewhere. -/
theorem Readable.after (hr : Readable src len y heap b) (hk : Keeps heap b o) (hlen : len ≠ 0) :
    src.read o.heap len.toNat = some y ∧ ∀ a offset, src = .block a offset → o.this.data ≠ some a := by
  have hread := hr.read hlen
  cases src with
  | null => cases hread
  | memory bytes => exact ⟨hread, fun _ _ h => by cases h⟩
  | block a offset =>
    obtain ⟨block, hblock, hle, hy⟩ := Heap.load_eq_some.mp hread
    have helse := hk.reseats.elsewhere (Option.isSome_iff_exists.mpr ⟨block, hblock⟩) (hr.apart a offset rfl)
    exact ⟨Heap.load_eq_some.mpr ⟨block, helse.2.trans hblock, hle, hy⟩, fun _ _ h => by cases h; exact helse.1⟩

/-- The bytes that `memcpy` puts behind those of the buffer. There was room for them, so the new size has not
wrapped. -/
theorem memcpy_valid (hb : Valid heap b) (ha : b.data = some a)
    (h : memcpy a b.size.toNat src len.toNat heap = some heap') :
    Keeps heap b ⟨heap', {b with size := b.size + len}, none⟩ ∧ ∃ cells,
      src.read heap len.toNat = some cells ∧ bytes heap' {b with size := b.size + len} = b.bytes heap ++ cells := by
  obtain ⟨cells, block, hread, hblock, hle, rfl⟩ := memcpy_eq_some h
  have hcells := Pointer.read_length hread
  have hstorage : b.storage heap = block := storage_of_block ha hblock
  have hlength : block.length = b.capacity.toNat := by rw [← hb.length, hstorage]
  have hsize : (b.size + len).toNat = b.size.toNat + len.toNat := by
    rw [UInt64.toNat_add, Nat.mod_eq_of_lt]
    have := b.capacity.toNat_lt
    omega
  have hstorage' : storage (Function.update heap a (some (Heap.splice block b.size.toNat cells)))
      {b with size := b.size + len} = Heap.splice block b.size.toNat cells :=
    storage_of_block ha (Function.update_self ..)
  have hreseats : Reseats heap (some a) (Function.update heap a (some (Heap.splice block b.size.toNat cells)))
      (some a) := .rewrite _
  rw [← ha] at hreseats
  refine ⟨⟨hreseats, ⟨?_, ?_, hreseats.allocated, hb.grown⟩, fun he => absurd rfl he⟩, cells, hread, ?_⟩
  · simp only [hsize]
    omega
  · rw [hstorage', Heap.length_splice (by omega), hlength]
  · rw [bytes, hstorage', hsize, ← hcells, Heap.take_splice (by omega), bytes, hstorage]

theorem Keeps.trans {o' : Outcome} (h : Keeps heap b o) (h' : Keeps o.heap o.this o')
    (threw : o'.thrown ≠ none → o'.this = b) : Keeps heap b o' :=
  ⟨h.reseats.trans h'.reseats, h'.valid, threw⟩

/-- Everything `append` can do. -/
theorem append_cases (h : append A src len heap b = some o) :
    o = ⟨heap, b, none⟩ ∧ len = 0 ∨ len ≠ 0 ∧ ∃ p, ensureCapacity A (b.size + len) heap b = some p ∧
      (o = p ∧ p.thrown ≠ none ∨ ∃ a heap', p.thrown = none ∧ p.this.data = some a ∧
        memcpy a p.this.size.toNat src len.toNat p.heap = some heap' ∧
        o = ⟨heap', {p.this with size := p.this.size + len}, none⟩) := by
  unfold append at h
  split at h
  · next hlen =>
    cases h
    exact .inl ⟨rfl, hlen⟩
  · next hlen =>
    obtain ⟨p, hp, h⟩ := Option.bind_eq_some_iff.mp h
    refine .inr ⟨hlen, p, hp, ?_⟩
    rcases Outcome.andThen_cases h with ⟨hthrown, h⟩ | ⟨hthrown, rfl⟩
    · cases ha : p.this.data with
      | none =>
        simp only [ha] at h
        cases h
      | some a =>
        simp only [ha] at h
        obtain ⟨heap', hcopy, rfl⟩ := Option.map_eq_some_iff.mp h
        exact .inr ⟨a, heap', hthrown, rfl, hcopy, by simp only [ha]⟩
    · exact .inl ⟨rfl, hthrown⟩

theorem append_keeps (hb : Valid heap b) (h : append A src len heap b = some o) : Keeps heap b o := by
  rcases append_cases h with ⟨rfl, -⟩ | ⟨-, p, hp, ⟨rfl, -⟩ | ⟨a, heap', -, ha, hcopy, rfl⟩⟩
  · exact hb.keeps _
  · exact (ensureCapacity_ensures hb hp).keeps
  · have hensures := ensureCapacity_ensures hb hp
    exact hensures.keeps.trans (memcpy_valid hensures.keeps.valid ha hcopy).1 fun he => absurd rfl he

theorem append_gives (hb : Valid heap b) (hr : Readable src len y heap b)
    (h : append A src len heap b = some o) : Gives heap b o (· = b.bytes heap ++ y) := by
  rcases append_cases h with ⟨rfl, hlen⟩ | ⟨hlen, p, hp, ⟨rfl, hthrown⟩ | ⟨a, heap', hthrown, ha, hcopy, rfl⟩⟩
  · have hy : y = [] := List.eq_nil_of_length_eq_zero (hr.length.trans (by rw [hlen]; rfl))
    exact ⟨fun _ => by rw [hy, List.append_nil], fun _ he => by cases he⟩
  · have hensures := ensureCapacity_ensures hb hp
    exact ⟨fun hnone => absurd hnone hthrown, fun e he => ⟨hensures.threw e he, hensures.bytes⟩⟩
  · have hensures := ensureCapacity_ensures hb hp
    obtain ⟨-, cells, hread, hbytes⟩ := memcpy_valid hensures.keeps.valid ha hcopy
    rw [(hr.after hensures.keeps hlen).1] at hread
    cases hread
    exact ⟨fun _ => hbytes.trans (by rw [hensures.bytes]), fun _ he => by cases he⟩

theorem append_isSome (hb : Valid heap b) (hr : Readable src len y heap b)
    (h : b.size.toNat + len.toNat ≤ 2 ^ 63) : (append A src len heap b).isSome := by
  unfold append
  split
  · rfl
  · next hlen =>
    have hsize : (b.size + len).toNat = b.size.toNat + len.toNat := by
      rw [UInt64.toNat_add, Nat.mod_eq_of_lt (by omega)]
    have hrequest : (b.size + len).toNat ≤ 2 ^ 63 := by
      rw [hsize]
      exact h
    obtain ⟨p, hp⟩ := Option.isSome_iff_exists.mp (ensureCapacity_isSome (A := A) hb hrequest)
    have hensures := ensureCapacity_ensures hb hp
    rw [hp, Option.bind_some]
    by_cases hthrown : p.thrown = none
    · have hroom := hensures.enough hthrown
      rw [UInt64.le_iff_toNat_le, hsize] at hroom
      have hpos := toNat_pos hlen
      obtain ⟨a, block, ha, hblock, hlength⟩ := hensures.keeps.valid.data_of_capacity (by omega)
      obtain ⟨hread, hapart⟩ := hr.after hensures.keeps hlen
      have hapart' : ∀ c offset, src = .block c offset → c ≠ a :=
        fun c offset hc hca => hapart c offset hc (by rw [ha, hca])
      have hfits : p.this.size.toNat + len.toNat ≤ block.length := by
        rw [hensures.size, hlength]
        exact hroom
      have hcopy := memcpy_of_read hapart' hread hblock hfits
      rw [Outcome.andThen_of_returned hthrown, ha]
      simp only [hcopy, Option.map_some, Option.isSome_some]
    · rw [Outcome.andThen_of_threw hthrown]
      rfl

end ByteBuffer
end Fmxp
