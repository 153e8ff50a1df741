import Fmxp.Core.Progress

/-! A buffer appended to itself.

`append` gets a pointer, and grows before it reads what is behind it. Where the bytes are its own that is well as long
as the storage need not be replaced; otherwise they have been deleted by then (`own_append_iff`). `operator+=` with the
same buffer on both sides is such an `append`, and `reserve` makes room for one (`reserved_append`). -/
namespace Fmxp.ByteBuffer

variable {A : Allocator} {heap heap' : Memory} {b : ByteBuffer} {o : Outcome} {newCap len : UInt64} {a : Addr}
  {offset : Nat}

theorem relocate_frees (ha : b.data = some a) {newData : Addr} (h : relocate newData heap b = some heap') :
    heap' a = none := by
  rw [relocate, ha] at h
  obtain ⟨copied, -, h⟩ := Option.bind_eq_some_iff.mp h
  simp only [Heap.release] at h
  split at h
  · cases h
    exact Function.update_self ..
  · cases h

/-- A buffer that has grown has left its storage. -/
theorem ensureCapacity_frees (ha : b.data = some a) (hlt : b.capacity < newCap)
    (h : ensureCapacity A newCap heap b = some o) (hthrown : o.thrown = none) : o.heap a = none := by
  rw [ensureCapacity, if_neg (UInt64.not_le.mpr hlt)] at h
  obtain ⟨newCapacity, -, h⟩ := Option.bind_eq_some_iff.mp h
  split at h
  · cases h
    cases hthrown
  · obtain ⟨heap', hrelocate, rfl⟩ := Option.map_eq_some_iff.mp h
    exact relocate_frees ha hrelocate

/-- Where bytes of a buffer are, if there are any. -/
theorem Valid.own (hb : Valid heap b) (hpart : offset + len.toNat ≤ b.size.toNat) (hlen : len ≠ 0) :
    ∃ a block, b.data = some a ∧ heap a = some block ∧ b.cdata.add offset = .block a offset := by
  have hpos := toNat_pos hlen
  have hsize := hb.size_le
  obtain ⟨a, block, ha, hblock, -⟩ := hb.data_of_capacity (by omega)
  refine ⟨a, block, ha, hblock, ?_⟩
  rw [cdata, ha]
  exact congrArg (Pointer.block a) (Nat.zero_add offset)

/-- Bytes of the buffer are copied behind the last of them. -/
theorem memcpy_own_isSome (hb : Valid heap b) (ha : b.data = some a) (hpart : offset + len.toNat ≤ b.size.toNat)
    (hfits : b.size.toNat + len.toNat ≤ b.capacity.toNat) :
    (memcpy a b.size.toNat (.block a offset) len.toNat heap).isSome := by
  obtain ⟨block, hblock⟩ := Option.isSome_iff_exists.mp (hb.allocated a ha)
  have hlength : block.length = b.capacity.toNat := by rw [← hb.length, storage_of_block ha hblock]
  have hoverlaps : (Pointer.block a offset).overlaps a b.size.toNat len.toNat = false :=
    decide_eq_false fun hmeet => absurd hmeet.2.2 (Nat.not_lt.mpr hpart)
  have hread : Pointer.read heap len.toNat (.block a offset) = some ((block.drop offset).take len.toNat) :=
    Heap.load_eq_some.mpr ⟨block, hblock, by omega, rfl⟩
  have hcells : ((block.drop offset).take len.toNat).length = len.toNat := Pointer.read_length hread
  rw [memcpy, if_neg (by rw [hoverlaps]; exact Bool.false_ne_true), hread, Option.bind_some]
  exact Option.isSome_iff_exists.mpr ⟨_, Heap.store_eq_some.mpr ⟨block, hblock, by omega, rfl⟩⟩

/-- A buffer that has room appends its own bytes. -/
theorem append_own_isSome (hb : Valid heap b) (ha : b.data = some a) (hpart : offset + len.toNat ≤ b.size.toNat)
    (hfits : b.size.toNat + len.toNat ≤ b.capacity.toNat) : (append A (.block a offset) len heap b).isSome := by
  unfold append
  split
  · rfl
  · have hcapacity := b.capacity.toNat_lt
    have hle : b.size + len ≤ b.capacity := by
      rw [UInt64.le_iff_toNat_le, UInt64.toNat_add, Nat.mod_eq_of_lt (by omega)]
      exact hfits
    rw [ensureCapacity, if_pos hle, Option.bind_some, Outcome.andThen_of_returned rfl]
    simp only [ha, Option.isSome_map]
    exact memcpy_own_isSome hb ha hpart hfits

/-- One that has none reads what it has deleted, unless there is no memory for more either. -/
theorem append_own_of_lt (ha : b.data = some a) (hlen : len ≠ 0) (hlt : b.capacity < b.size + len)
    (h : append A (.block a offset) len heap b = some o) : o.thrown ≠ none := by
  rcases append_cases h with ⟨-, hzero⟩ | ⟨-, p, hp, ⟨rfl, hthrown⟩ | ⟨a', heap', hthrown, ha', hcopy, rfl⟩⟩
  · exact absurd hzero hlen
  · exact hthrown
  · obtain ⟨cells, block, hread, -⟩ := memcpy_eq_some hcopy
    obtain ⟨block', hblock', -⟩ := Heap.load_eq_some.mp hread
    rw [ensureCapacity_frees ha hlt hp hthrown] at hblock'
    cases hblock'

/-- What a buffer that appends its own bytes has then. -/
theorem append_own_gives (hb : Valid heap b) (hpart : offset + len.toNat ≤ b.size.toNat)
    (h : append A (b.cdata.add offset) len heap b = some o) :
    Gives heap b o (· = b.bytes heap ++ ((b.bytes heap).drop offset).take len.toNat) := by
  rcases append_cases h with ⟨rfl, hzero⟩ | ⟨hlen, p, hp, ⟨rfl, hthrown⟩ | ⟨a', heap', -, ha', hcopy, rfl⟩⟩
  · refine ⟨fun _ => ?_, fun _ he => by cases he⟩
    rw [hzero]
    exact (List.append_nil _).symm
  · have hensures := ensureCapacity_ensures hb hp
    exact ⟨fun hnone => absurd hnone hthrown, fun e he => ⟨hensures.threw e he, hensures.bytes⟩⟩
  · obtain ⟨a, block, ha, hblock, hcdata⟩ := hb.own hpart hlen
    rw [hcdata] at h hcopy
    by_cases hlt : b.capacity < b.size + len
    · exact absurd rfl (append_own_of_lt ha hlen hlt h)
    · rw [ensureCapacity, if_pos (UInt64.not_lt.mp hlt)] at hp
      cases hp
      obtain ⟨-, cells, hread, hbytes⟩ := memcpy_valid hb ha' hcopy
      obtain ⟨block', hblock', -, hcells⟩ := Heap.load_eq_some.mp hread
      cases hblock.symm.trans hblock'
      refine ⟨fun _ => hbytes.trans ?_, fun _ he => by cases he⟩
      rw [← hcells, bytes, storage_of_block ha hblock, List.drop_take, List.take_take, Nat.min_eq_left (by omega)]

/-- Growing throws exactly if there is no memory for the capacity it arrives at. -/
theorem ensureCapacity_threw_iff (hlt : b.capacity < newCap) (h : ensureCapacity A newCap heap b = some o) :
    o.thrown ≠ none ↔ ∃ c, Arrives b.capacity newCap c ∧ A.new heap c = none := by
  have hgrows := UInt64.not_le.mpr hlt
  rw [ensureCapacity, if_neg hgrows] at h
  obtain ⟨newCapacity, hdoubled, h⟩ := Option.bind_eq_some_iff.mp h
  have harrives : ∀ c, Arrives b.capacity newCap c ↔ c = newCapacity := by
    intro c
    rw [arrives_iff, if_neg hgrows, hdoubled]
    exact ⟨fun hc => (Option.some.inj hc).symm, fun hc => congrArg some hc.symm⟩
  simp only [harrives, exists_eq_left]
  split at h
  · next hnone =>
    cases h
    exact ⟨fun _ => hnone, fun _ he => by cases he⟩
  · next hsome =>
    obtain ⟨heap', -, rfl⟩ := Option.map_eq_some_iff.mp h
    rw [hsome]
    exact ⟨fun hthrown => absurd rfl hthrown, fun hnone => by cases hnone⟩

/-- Where appending is undefined, the storage that is to be read has been deleted. -/
theorem append_own_deleted (hb : Valid heap b) (hpart : offset + len.toNat ≤ b.size.toNat)
    (hroom : b.size.toNat + len.toNat ≤ 2 ^ 63) (h : append A (b.cdata.add offset) len heap b = none) :
    ∃ a o, b.cdata.add offset = .block a offset ∧ ensureCapacity A (b.size + len) heap b = some o ∧ o.thrown = none ∧
      o.heap a = none := by
  have hlen : len ≠ 0 := by
    rintro rfl
    rw [append, if_pos rfl] at h
    cases h
  obtain ⟨a, block, ha, hblock, hcdata⟩ := hb.own hpart hlen
  have hsum : (b.size + len).toNat = b.size.toNat + len.toNat := by
    rw [UInt64.toNat_add, Nat.mod_eq_of_lt (by omega)]
  have hlt : b.capacity < b.size + len := by
    rw [UInt64.lt_iff_toNat_lt, hsum]
    by_contra hfits
    have hsome := append_own_isSome (A := A) hb ha hpart (Nat.not_lt.mp hfits)
    rw [← hcdata, h] at hsome
    cases hsome
  obtain ⟨o, ho⟩ := Option.isSome_iff_exists.mp (ensureCapacity_isSome (A := A) hb (hsum ▸ hroom))
  have hthrown : o.thrown = none := by
    by_contra hthrown
    rw [append, if_neg hlen, ho, Option.bind_some, Outcome.andThen_of_threw hthrown] at h
    cases h
  exact ⟨a, o, hcdata, ho, hthrown, ensureCapacity_frees ha hlt ho hthrown⟩

theorem append_own_isSome_iff (hb : Valid heap b) (hpart : offset + len.toNat ≤ b.size.toNat)
    (hroom : b.size.toNat + len.toNat ≤ 2 ^ 63) :
    (append A (b.cdata.add offset) len heap b).isSome ↔ len = 0 ∨ b.size.toNat + len.toNat ≤ b.capacity.toNat ∨
      ∃ c, Arrives b.capacity (b.size + len) c ∧ A.new heap c = none := by
  have hsum : (b.size + len).toNat = b.size.toNat + len.toNat := by
    rw [UInt64.toNat_add, Nat.mod_eq_of_lt (by omega)]
  by_cases hlen : len = 0
  · exact iff_of_true (by rw [append, if_pos hlen]; rfl) (.inl hlen)
  obtain ⟨a, block, ha, hblock, hcdata⟩ := hb.own hpart hlen
  rw [hcdata]
  by_cases hfits : b.size.toNat + len.toNat ≤ b.capacity.toNat
  · exact iff_of_true (append_own_isSome hb ha hpart hfits) (.inr (.inl hfits))
  have hlt : b.capacity < b.size + len := by
    rw [UInt64.lt_iff_toNat_lt, hsum]
    exact Nat.not_le.mp hfits
  have hrequest : (b.size + len).toNat ≤ 2 ^ 63 := by
    rw [hsum]
    exact hroom
  obtain ⟨p, hp⟩ := Option.isSome_iff_exists.mp (ensureCapacity_isSome (A := A) hb hrequest)
  simp only [hlen, hfits, false_or]
  rw [← ensureCapacity_threw_iff hlt hp]
  constructor
  · intro hsome
    obtain ⟨o, ho⟩ := Option.isSome_iff_exists.mp hsome
    have hthrown := append_own_of_lt ha hlen hlt ho
    rcases append_cases ho with ⟨-, hzero⟩ | ⟨-, q, hq, ⟨rfl, -⟩ | ⟨_, _, -, -, -, rfl⟩⟩
    · exact absurd hzero hlen
    · cases hp.symm.trans hq
      exact hthrown
    · exact absurd rfl hthrown
  · intro hthrown
    rw [append, if_neg hlen, hp, Option.bind_some, Outcome.andThen_of_threw hthrown]
    rfl

end Fmxp.ByteBuffer

namespace Fmxp.Buffers
open Transition ByteBuffer

variable {ν : Type*} [DecidableEq ν] {A : Allocator} {s t : State ν} {this : ν} {b : ByteBuffer} {len : UInt64}
  {offset : Nat} {thrown : Option Thrown}

theorem addAssign_own (A : Allocator) (hb : s.buffers this = some b) :
    exec A s (.addAssign this this) = exec A s (.append this (.buffer this 0) b.size) := by
  have hzero : b.cdata.add 0 = b.cdata := by
    unfold cdata
    split <;> rfl
  simp only [exec, Operand.pointer, hb, Option.bind_some, Option.map_some, hzero]
  rfl

theorem exec_append_own (A : Allocator) (hb : s.buffers this = some b) :
    exec A s (.append this (.buffer this offset) len) = s.call this (ByteBuffer.append A (b.cdata.add offset) len) := by
  simp only [exec, Operand.pointer, hb, Option.map_some, Option.bind_some]

/-- What it means to append `len` bytes of a buffer, from `offset` on, to itself. -/
structure OwnAppend (A : Allocator) (s : State ν) (this : ν) (b : ByteBuffer) (offset : Nat) (len : UInt64) : Prop where
  defined : (exec A s (.append this (.buffer this offset) len)).isSome ↔
    len = 0 ∨ b.size.toNat + len.toNat ≤ b.capacity.toNat ∨
      ∃ c, Arrives b.capacity (b.size + len) c ∧ A.new s.heap c = none
  gives : ∀ thrown t, exec A s (.append this (.buffer this offset) len) = some (thrown, t) →
    Makes (lists s) this (· = b.bytes s.heap ++ ((b.bytes s.heap).drop offset).take len.toNat) thrown (lists t)
  /-- Otherwise the bytes that are to be copied have been deleted when the buffer has grown. -/
  deleted : exec A s (.append this (.buffer this offset) len) = none → ∃ a o, b.cdata.add offset = .block a offset ∧
    ensureCapacity A (b.size + len) s.heap b = some o ∧ o.thrown = none ∧ o.heap a = none
  /-- `buffer += buffer` appends all of it. -/
  addAssign : exec A s (.addAssign this this) = exec A s (.append this (.buffer this 0) b.size)

/-- **A buffer appended to itself**: that is defined exactly if there is nothing to append, if the storage need not be
replaced, or if it cannot be for want of memory; and where it is, the list gets a part of itself behind it. -/
theorem own_append_iff (hs : Reachable machine s) (hb : s.buffers this = some b)
    (hpart : offset + len.toNat ≤ b.size.toNat) (hroom : b.size.toNat + len.toNat ≤ 2 ^ 63) :
    OwnAppend A s this b offset len := by
  have hinv := inv_of_reachable hs
  have hvalid := hinv.valid this b hb
  have hexec := @exec_append_own ν _ s this b len offset A hb
  have hcall : (exec A s (.append this (.buffer this offset) len)).isSome =
      (ByteBuffer.append A (b.cdata.add offset) len s.heap b).isSome := by
    rw [hexec, State.call, hb, Option.bind_some, Option.isSome_map]
  refine ⟨?_, fun thrown t he => ?_, fun hnone => ?_, addAssign_own A hb⟩
  · rw [hcall]
    exact append_own_isSome_iff hvalid hpart hroom
  · rw [hexec] at he
    refine call_makes hinv (fun c o hc ho => ⟨c, rfl, append_keeps hc ho⟩) (fun c o hc ho => ?_) he
    cases hb.symm.trans hc
    exact append_own_gives hvalid hpart ho
  · rw [hnone] at hcall
    exact append_own_deleted hvalid hpart hroom (Option.not_isSome_iff_eq_none.mp (Bool.eq_false_iff.mp hcall.symm))

/-- `reserve` makes room for it, whatever memory there is afterwards. -/
theorem reserved_append {cap : UInt64} {A' : Allocator} (hs : Reachable machine s) (hb : s.buffers this = some b)
    (hpart : offset + len.toNat ≤ b.size.toNat) (hcap : b.size.toNat + len.toNat ≤ cap.toNat)
    (h : exec A s (.reserve this cap) = some (none, t)) :
    (exec A' t (.append this (.buffer this offset) len)).isSome := by
  have hvalid := (inv_of_reachable hs).valid this b hb
  obtain ⟨c, hc, h⟩ := Option.bind_eq_some_iff.mp h
  cases hb.symm.trans hc
  obtain ⟨o, ho, heq⟩ := Option.map_eq_some_iff.mp h
  have hensures := ensureCapacity_ensures hvalid ho
  obtain ⟨hthrown, rfl⟩ := Prod.mk.inj heq
  have henough := UInt64.le_iff_toNat_le.mp (hensures.enough hthrown)
  have hsame := hensures.size
  have hpart' : offset + len.toNat ≤ o.this.size.toNat := by
    rw [hsame]
    exact hpart
  have hfits : o.this.size.toNat + len.toNat ≤ o.this.capacity.toNat := by
    rw [hsame]
    omega
  have hroom := Nat.le_trans hfits hensures.keeps.valid.grown.le
  have hnow : (⟨o.heap, Function.update s.buffers this (some o.this)⟩ : State ν).buffers this = some o.this :=
    Function.update_self ..
  rw [exec_append_own A' hnow]
  exact call_isSome hnow ((append_own_isSome_iff hensures.keeps.valid hpart' hroom).mpr (.inr (.inl hfits)))

/-- Forty bytes: there is room for another 24 of them, and not for all of them. -/
theorem own_append_forty : ∃ (s : State Unit) (b : ByteBuffer), s.buffers () = some b ∧
    (exec lowestFree s (.append () (.buffer () 0) 24)).isSome = true ∧
    exec lowestFree s (.addAssign () ()) = none ∧ OwnAppend lowestFree s () b 0 b.size := by
  have hrun : ((next lowestFree start (.fromString () (List.replicate 40 7), none)).map fun s =>
      (s.buffers (), (exec lowestFree s (.append () (.buffer () 0) 24)).isSome,
        (exec lowestFree s (.addAssign () ())).isSome)) = some (some ⟨some 0, 40, 64⟩, true, false) := by
    decide +kernel
  obtain ⟨s, hs, hresult⟩ := Option.map_eq_some_iff.mp hrun
  simp only [Prod.mk.injEq] at hresult
  obtain ⟨hb, hfits, hself⟩ := hresult
  have hreach : Reachable machine s := .step (.init rfl) (next_step hs)
  exact ⟨s, _, hb, hfits, Option.not_isSome_iff_eq_none.mp (Bool.eq_false_iff.mp hself),
    own_append_iff hreach hb (by decide) (by decide)⟩

end Fmxp.Buffers
