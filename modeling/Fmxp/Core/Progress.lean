import Fmxp.Core.Refinement

/-! Operations on buffers that are called as they have to be come to an end. -/
namespace Fmxp.Buffers
open Transition ByteBuffer

variable {ν : Type*} {s t : State ν} {this : ν} {b : ByteBuffer}

theorem lists_isSome (h : (lists s this).isSome) : ∃ b, s.buffers this = some b := by
  obtain ⟨x, hx⟩ := Option.isSome_iff_exists.mp h
  obtain ⟨b, hb, -⟩ := lists_eq_some hx
  exact ⟨b, hb⟩

theorem Inv.size_eq (h : Inv s) (hb : s.buffers this = some b) : b.size.toNat = (b.bytes s.heap).length :=
  ((h.valid this b hb).length_bytes).symm

variable [DecidableEq ν]

theorem construct_isSome {f : Memory → Option Outcome} (hnew : lists s this = none) (hf : (f s.heap).isSome) :
    (s.construct this f).isSome := by
  rw [State.construct, if_neg (by rw [lists_eq_none.mp hnew]; exact Bool.false_ne_true), Option.isSome_map]
  exact hf

theorem call_isSome {f : Memory → ByteBuffer → Option Outcome} (hb : s.buffers this = some b)
    (hf : (f s.heap b).isSome) : (s.call this f).isSome := by
  rw [State.call, hb, Option.bind_some, Option.isSome_map]
  exact hf

/-- **Progress**: an operation that is called as it has to be ends, and does nothing undefined. -/
theorem exec_isSome {op : Op ν} (A : Allocator) (h : Inv s) (hlegal : Legal (lists s) op) : (exec A s op).isSome := by
  cases op with
  | empty this =>
    have hnew : lists s this = none := hlegal
    simp [exec, State.construct, lists_eq_none.mp hnew]
  | fromString this str =>
    obtain ⟨hnew, hroom⟩ := hlegal
    have hlength : (UInt64.ofNat str.length).toNat = str.length := toNat_length (by omega)
    exact construct_isSome hnew (append_isSome .empty (readable_string (by omega))
      (by rw [hlength, UInt64.toNat_zero]; omega))
  | fromChars this data len | fromBytes this data len =>
    obtain ⟨hnew, hdata, hroom⟩ := hlegal
    obtain ⟨y, hy⟩ := Option.isSome_iff_exists.mp hdata
    obtain ⟨src, hsrc⟩ := Operand.pointer_isSome hy
    have hr : Readable src len y s.heap {} := Operand.readable h hsrc hy (fun _ _ _ _ _ _ _ hn => by cases hn)
    simp only [exec, hsrc, Option.bind_some]
    exact construct_isSome hnew (append_isSome .empty hr (by rw [UInt64.toNat_zero]; omega))
  | fromCString this string =>
    obtain ⟨hnew, hzero, hroom⟩ := hlegal
    have hlen : strlen string = some (UInt64.ofNat (string.takeWhile (· ≠ 0)).length) := if_pos hzero
    have hlength := strlen_eq_some hlen (by omega)
    refine construct_isSome hnew ?_
    rw [fromCString, hlen, Option.bind_some]
    exact append_isSome .empty (readable_cstring hlen (by omega)) (by rw [hlength, UInt64.toNat_zero]; omega)
  | copy this other =>
    obtain ⟨hnew, hother⟩ := hlegal
    obtain ⟨c, hc⟩ := lists_isSome hother
    simp only [exec, hc, Option.bind_some]
    exact construct_isSome hnew (copy_isSome (h.valid other c hc))
  | move this other =>
    obtain ⟨hnew, hother⟩ := hlegal
    obtain ⟨c, hc⟩ := lists_isSome hother
    simp [exec, hc, lists_eq_none.mp hnew]
  | destroy this =>
    obtain ⟨b, hb⟩ := lists_isSome hlegal
    simp only [exec, hb, Option.bind_some, Option.isSome_map]
    exact Heap.release_isSome (h.valid this b hb).allocated
  | assign this other =>
    obtain ⟨b, hb⟩ := lists_isSome hlegal.1
    obtain ⟨c, hc⟩ := lists_isSome hlegal.2
    simp only [exec, hc, Option.bind_some]
    split
    · rfl
    · next hne =>
      have hr := h.readable hb hc hne
      have hroom := (h.valid other c hc).size_le_max
      exact call_isSome hb (append_isSome (b := b.clear) (h.valid this b hb).clear ⟨hr.length, hr.read, hr.apart⟩
        (by rw [clear, UInt64.toNat_zero]; omega))
  | moveAssign this other =>
    obtain ⟨b, hb⟩ := lists_isSome hlegal.1
    obtain ⟨c, hc⟩ := lists_isSome hlegal.2
    simp only [exec, hc, Option.bind_some]
    split
    · rfl
    · simp only [hb, Option.bind_some, Option.isSome_map, ByteBuffer.moveAssign]
      exact Heap.release_isSome (h.valid this b hb).allocated
  | append this data len =>
    obtain ⟨⟨x, hx, hroom⟩, hdata, hne⟩ := hlegal
    obtain ⟨y, hy⟩ := Option.isSome_iff_exists.mp hdata
    obtain ⟨src, hsrc⟩ := Operand.pointer_isSome hy
    obtain ⟨b, hb, rfl⟩ := lists_eq_some hx
    simp only [exec, hsrc, Option.bind_some]
    refine call_isSome hb (append_isSome (h.valid this b hb)
      (Operand.readable h hsrc hy fun other offset c hdata hc => h.apart hc hb ?_)
      (by rw [h.size_eq hb]; exact hroom))
    rintro rfl
    exact hne (congrArg Operand.owner hdata)
  | appendString this str | addAssignString this str =>
    obtain ⟨x, hx, hroom⟩ := hlegal
    obtain ⟨b, hb, rfl⟩ := lists_eq_some hx
    have hlength : (UInt64.ofNat str.length).toNat = str.length := toNat_length (by omega)
    exact call_isSome hb (append_isSome (h.valid this b hb) (readable_string (by omega))
      (by rw [h.size_eq hb, hlength]; exact hroom))
  | clear this =>
    obtain ⟨b, hb⟩ := lists_isSome hlegal
    simp [exec, State.call, hb]
  | reserve this cap =>
    obtain ⟨hthis, hcap⟩ := hlegal
    obtain ⟨b, hb⟩ := lists_isSome hthis
    exact call_isSome hb (ensureCapacity_isSome (h.valid this b hb) hcap)
  | addAssign this other =>
    obtain ⟨hne, x, hx, y, hy, hroom⟩ := hlegal
    obtain ⟨b, hb, rfl⟩ := lists_eq_some hx
    obtain ⟨c, hc, rfl⟩ := lists_eq_some hy
    simp only [exec, hc, Option.bind_some]
    exact call_isSome hb (append_isSome (h.valid this b hb) (h.readable hb hc hne)
      (by rw [h.size_eq hb, h.size_eq hc]; exact hroom))
  | add result this other =>
    obtain ⟨hnew, x, hx, y, hy, hroom⟩ := hlegal
    obtain ⟨b, hb, rfl⟩ := lists_eq_some hx
    obtain ⟨c, hc, rfl⟩ := lists_eq_some hy
    simp only [exec, hb, hc, Option.bind_some]
    exact construct_isSome hnew (add_isSome (h.valid this b hb) (h.valid other c hc) hroom)
  | addString result this str =>
    obtain ⟨hnew, x, hx, hroom⟩ := hlegal
    obtain ⟨b, hb, rfl⟩ := lists_eq_some hx
    simp only [exec, hb, Option.bind_some]
    exact construct_isSome hnew (addString_isSome (h.valid this b hb) hroom)
  | set this index v =>
    obtain ⟨b, hb⟩ := lists_isSome hlegal
    exact call_isSome hb (set_isSome (h.valid this b hb))
  | resize this len =>
    obtain ⟨hthis, hlen⟩ := hlegal
    obtain ⟨b, hb⟩ := lists_isSome hthis
    exact call_isSome hb (resize_isSome (h.valid this b hb) hlen)
  | slice result this start stop =>
    obtain ⟨hnew, hthis⟩ := hlegal
    obtain ⟨b, hb⟩ := lists_isSome hthis
    simp only [exec, hb, Option.bind_some]
    exact construct_isSome hnew (slice_isSome (h.valid this b hb))

/-! ### Runs -/

theorem run_refines {labels : List (Op ν × Option Thrown)} (h : Inv s)
    (hr : Run (machine.under fun s a => Legal (lists s) a.1) s labels t) :
    Inv t ∧ Run spec (lists s) labels (lists t) := by
  induction hr with
  | nil => exact ⟨h, .nil⟩
  | cons hstep _ ih =>
    obtain ⟨hlegal, A, he⟩ := hstep
    obtain ⟨hinv, hrest⟩ := ih (exec_inv h he)
    exact ⟨hinv, .cons (exec_step h hlegal he) hrest⟩

/-- The lowest of sixteen addresses that is free, and zeros. -/
def lowestFree : Allocator where
  new := fun heap n => ((List.range 16).find? fun a => (heap a).isNone).map fun a => (a, List.replicate n.toNat 0)
  free := by
    intro heap n a bytes h
    obtain ⟨c, hc, heq⟩ := Option.map_eq_some_iff.mp h
    cases heq
    have hfree : (heap a).isNone = true := List.find?_some (p := fun a => (heap a).isNone) hc
    exact Option.isNone_iff_eq_none.mp hfree
  length := by
    intro heap n a bytes h
    obtain ⟨c, hc, heq⟩ := Option.map_eq_some_iff.mp h
    cases heq
    exact List.length_replicate

/-- A buffer and its copy, added up; a slice of the sum, moved over the copy; a slice that is not there. -/
def someOps : List (Op Nat × Option Thrown) :=
  [(.fromBytes 0 (.memory [1, 2, 3]) 3, none), (.copy 1 0, none), (.addAssign 0 1, none), (.slice 2 0 1 4, none),
    (.moveAssign 1 2, none),
    (.slice 3 0 4 9, some (.outOfRange "Invalid slice range: [4, 9), size: 6"))]

/-- However a buffer came by its capacity, `ensureCapacity` arrives at one that is large enough exactly if it is asked
for 2^63 bytes at most. -/
theorem growth_iff {i : ν} (hs : Reachable machine s) (hb : s.buffers i = some b) (newCap : UInt64) :
    (∃ c, Arrives b.capacity newCap c ∧ newCap ≤ c) ↔ newCap.toNat ≤ 2 ^ 63 :=
  arrives_enough_iff ((inv_of_reachable hs).valid i b hb).grown

/-- A buffer that has just been constructed. -/
def oneEmpty : State Unit := ⟨fun _ => none, Function.update (fun _ => none) () (some ByteBuffer.empty)⟩

theorem oneEmpty_reachable : Reachable machine oneEmpty := .step (a := (.empty (), none)) (.init rfl) ⟨lowestFree, rfl⟩

theorem oneEmpty_grows : ∃ c, Arrives 0 1000 c ∧ 1000 ≤ c :=
  (growth_iff oneEmpty_reachable (i := ()) (b := ByteBuffer.empty) rfl 1000).mpr (by decide)

/-- **`reserve` of 2^63 + 1 bytes doubles for ever.** -/
theorem reserve_never_ends : Reachable machine oneEmpty ∧ oneEmpty.buffers () = some ByteBuffer.empty ∧
    (¬ ∃ c, Arrives ByteBuffer.empty.capacity 0x8000000000000001 c ∧ 0x8000000000000001 ≤ c) ∧
    ∀ A, exec A oneEmpty (.reserve () 0x8000000000000001) = none := by
  have hnever : ¬ ∃ c, Arrives ByteBuffer.empty.capacity 0x8000000000000001 c := by
    rintro ⟨c, ⟨hle, -⟩ | ⟨-, fuel, h⟩⟩
    · exact absurd hle (by decide)
    · have hnone : doubled 0x8000000000000001 fuel (firstCapacity ByteBuffer.empty.capacity) = none :=
        doubled_none fuel (grown_first (.inl rfl)) (by decide)
      rw [hnone] at h
      cases h
  refine ⟨oneEmpty_reachable, rfl, fun ⟨c, hc, _⟩ => hnever ⟨c, hc⟩, fun A => ?_⟩
  have hends : ¬ (ensureCapacity A 0x8000000000000001 oneEmpty.heap ByteBuffer.empty).isSome :=
    fun h => hnever ((ensureCapacity_ends_iff A _ Valid.empty).mp h)
  rw [Option.not_isSome_iff_eq_none] at hends
  show State.call oneEmpty () (ByteBuffer.reserve A 0x8000000000000001) = none
  simp only [State.call, ByteBuffer.reserve, oneEmpty, Function.update_self, Option.bind_some]
  exact (congrArg _ hends).trans rfl

end Fmxp.Buffers
