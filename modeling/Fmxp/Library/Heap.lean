import Mathlib.Data.List.Basic
import Mathlib.Logic.Function.Basic

/-! Blocks on a heap, and who owns them.

A heap maps an address to the block allocated there, if there is one. A load, a
store and a release outside what is allocated have no result. Several owners
share a heap, each with at most one block; `Exclusive` says that every block has
exactly one owner. What one owner does while the others keep theirs is a
`Reseats`: it ends up with another block, or the same one rewritten, or none. It
leaves the blocks of the others alone (`Exclusive.frame`) and every block with one
owner (`Exclusive.reseat`); handing a block over does so too (`Exclusive.transfer`). -/
namespace Heap
variable {ν α ι : Type*}

/-- The allocated blocks, by address. -/
abbrev Blocks (ν α : Type*) := ν → Option (List α)

/-! ### What is in a block -/

/-- `n` cells of a block from an offset on, if it has them. -/
def load (heap : Blocks ν α) (a : ν) (offset n : Nat) : Option (List α) :=
  (heap a).bind fun block => if offset + n ≤ block.length then some ((block.drop offset).take n) else none

theorem load_eq_some {heap : Blocks ν α} {a : ν} {offset n : Nat} {cells : List α} :
    load heap a offset n = some cells ↔
      ∃ block, heap a = some block ∧ offset + n ≤ block.length ∧ (block.drop offset).take n = cells := by
  simp [load, Option.bind_eq_some_iff]

theorem load_length {heap : Blocks ν α} {a : ν} {offset n : Nat} {cells : List α}
    (h : load heap a offset n = some cells) : cells.length = n := by
  obtain ⟨block, -, hle, rfl⟩ := load_eq_some.mp h
  rw [List.length_take, List.length_drop]
  omega

/-- A block with some cells replaced from an offset on. -/
def splice (block : List α) (offset : Nat) (cells : List α) : List α :=
  block.take offset ++ (cells ++ block.drop (offset + cells.length))

theorem length_splice {block cells : List α} {offset : Nat} (h : offset + cells.length ≤ block.length) :
    (splice block offset cells).length = block.length := by
  simp only [splice, List.length_append, List.length_take, List.length_drop]
  omega

/-- What stood before the cells stands before them still. -/
theorem take_splice {block cells : List α} {offset : Nat} (h : offset + cells.length ≤ block.length) :
    (splice block offset cells).take (offset + cells.length) = block.take offset ++ cells := by
  have hlen : (block.take offset).length = offset := List.length_take_of_le (by omega)
  rw [splice, ← List.append_assoc]
  exact List.take_left' (by rw [List.length_append, hlen])

/-! ### What an owner may do -/

/-- What the owner of block `p`, if it has one, did with the heap: it owns `q` now. -/
structure Reseats (heap : Blocks ν α) (p : Option ν) (heap' : Blocks ν α) (q : Option ν) : Prop where
  frame : ∀ a, p ≠ some a → q ≠ some a → heap' a = heap a
  fresh : ∀ a, q = some a → p = some a ∨ heap a = none
  freed : ∀ a, p = some a → q = some a ∨ heap' a = none
  allocated : ∀ a, q = some a → (heap' a).isSome

variable {heap heap' heap'' : Blocks ν α} {p q r : Option ν} {a : ν}

theorem Reseats.refl (h : ∀ a, p = some a → (heap a).isSome) : Reseats heap p heap p :=
  ⟨fun _ _ _ => rfl, fun _ hp => .inl hp, fun _ hp => .inl hp, h⟩

/-- A block that is allocated and not the owner's is as it was, and not the owner's afterwards. -/
theorem Reseats.elsewhere (h : Reseats heap p heap' q) (ha : (heap a).isSome) (hp : p ≠ some a) :
    q ≠ some a ∧ heap' a = heap a := by
  have hq : q ≠ some a := by
    intro hq
    rcases h.fresh a hq with hp' | hnone
    · exact hp hp'
    · rw [hnone] at ha
      cases ha
  exact ⟨hq, h.frame a hp hq⟩

theorem Reseats.trans (h : Reseats heap p heap' q) (h' : Reseats heap' q heap'' r) : Reseats heap p heap'' r := by
  refine ⟨fun a hp hr => ?_, fun a hr => ?_, fun a hp => ?_, h'.allocated⟩
  · -- a block taken and given back again was not there before, and is not there now
    by_cases hq : q = some a
    · rw [(h'.freed a hq).resolve_left hr, (h.fresh a hq).resolve_left hp]
    · rw [h'.frame a hq hr, h.frame a hp hq]
  · rcases h'.fresh a hr with hq | hnone
    · exact h.fresh a hq
    · by_cases hp : p = some a
      · exact .inl hp
      · by_cases hq : q = some a
        · exact h.fresh a hq
        · exact .inr ((h.frame a hp hq).symm.trans hnone)
  · rcases h.freed a hp with hq | hnone
    · exact h'.freed a hq
    · by_cases hr : r = some a
      · exact .inl hr
      · have hq : q ≠ some a := by
          intro hq
          have hsome := h.allocated a hq
          rw [hnone] at hsome
          cases hsome
        exact .inr ((h'.frame a hq hr).trans hnone)

/-! ### Every block has one owner -/

structure Exclusive (heap : Blocks ν α) (held : ι → Option ν) : Prop where
  single : ∀ i j a, held i = some a → held j = some a → i = j
  allocated : ∀ i a, held i = some a → (heap a).isSome
  owned : ∀ a, (heap a).isSome → ∃ i, held i = some a

variable {held : ι → Option ν} {i j : ι}

theorem Exclusive.empty : Exclusive (fun _ => none : Blocks ν α) (fun _ : ι => none) where
  single := fun _ _ _ h => by cases h
  allocated := fun _ _ h => by cases h
  owned := fun _ h => by cases h

/-- What another owner holds is not touched. -/
theorem Exclusive.frame (h : Exclusive heap held) (hs : Reseats heap (held i) heap' q) (hji : j ≠ i)
    (hj : held j = some a) : q ≠ some a ∧ heap' a = heap a :=
  hs.elsewhere (h.allocated j a hj) fun hi => hji (h.single j i a hj hi)

variable [DecidableEq ι]

theorem Exclusive.reseat (h : Exclusive heap held) (hs : Reseats heap (held i) heap' q) :
    Exclusive heap' (Function.update held i q) := by
  constructor
  · intro j k a hj hk
    by_cases hji : j = i <;> by_cases hki : k = i
    · rw [hji, hki]
    · subst hji
      rw [Function.update_self] at hj
      rw [Function.update_of_ne hki] at hk
      exact absurd hj (h.frame hs hki hk).1
    · subst hki
      rw [Function.update_self] at hk
      rw [Function.update_of_ne hji] at hj
      exact absurd hk (h.frame hs hji hj).1
    · rw [Function.update_of_ne hji] at hj
      rw [Function.update_of_ne hki] at hk
      exact h.single j k a hj hk
  · intro j a hj
    by_cases hji : j = i
    · subst hji
      rw [Function.update_self] at hj
      exact hs.allocated a hj
    · rw [Function.update_of_ne hji] at hj
      rw [(h.frame hs hji hj).2]
      exact h.allocated j a hj
  · intro a ha
    by_cases hq : q = some a
    · exact ⟨i, by rw [Function.update_self, hq]⟩
    · -- not the new block, so not the one given back either: another owner had it all along
      have hp : held i ≠ some a := by
        intro hp
        rw [(hs.freed a hp).resolve_left hq] at ha
        cases ha
      rw [hs.frame a hp hq] at ha
      obtain ⟨j, hj⟩ := h.owned a ha
      have hji : j ≠ i := by
        rintro rfl
        exact hp hj
      exact ⟨j, by rw [Function.update_of_ne hji, hj]⟩

/-- Who holds what, after `j` has handed its block to `i`. -/
def handed (held : ι → Option ν) (i j : ι) : ι → Option ν :=
  Function.update (Function.update held i (held j)) j none

theorem handed_eq_some {k : ι} (h : handed held i j k = some a) :
    k = i ∧ held j = some a ∨ k ≠ i ∧ k ≠ j ∧ held k = some a := by
  unfold handed at h
  by_cases hkj : k = j
  · rw [hkj, Function.update_self] at h
    cases h
  · rw [Function.update_of_ne hkj] at h
    by_cases hki : k = i
    · rw [hki, Function.update_self] at h
      exact .inl ⟨hki, h⟩
    · rw [Function.update_of_ne hki] at h
      exact .inr ⟨hki, hkj, h⟩

/-- A block is handed to an owner that has none. -/
theorem Exclusive.transfer (h : Exclusive heap held) (hi : held i = none) (hij : i ≠ j) :
    Exclusive heap (handed held i j) := by
  constructor
  · intro k l a hk hl
    rcases handed_eq_some hk with ⟨hki, hkeep⟩ | ⟨_, hkj, hkeep⟩
    · rcases handed_eq_some hl with ⟨hli, -⟩ | ⟨_, hlj, hother⟩
      · rw [hki, hli]
      · exact absurd (h.single l j a hother hkeep) hlj
    · rcases handed_eq_some hl with ⟨-, hother⟩ | ⟨_, _, hother⟩
      · exact absurd (h.single k j a hkeep hother) hkj
      · exact h.single k l a hkeep hother
  · intro k a hk
    rcases handed_eq_some hk with ⟨-, hk⟩ | ⟨-, -, hk⟩
    · exact h.allocated j a hk
    · exact h.allocated k a hk
  · intro a ha
    obtain ⟨k, hk⟩ := h.owned a ha
    by_cases hkj : k = j
    · subst hkj
      exact ⟨i, by rw [handed, Function.update_of_ne hij, Function.update_self, hk]⟩
    · have hki : k ≠ i := by
        rintro rfl
        rw [hi] at hk
        cases hk
      exact ⟨k, by rw [handed, Function.update_of_ne hkj, Function.update_of_ne hki, hk]⟩

/-! ### Storing, taking and giving back -/

variable [DecidableEq ν]

def store (heap : Blocks ν α) (a : ν) (offset : Nat) (cells : List α) : Option (Blocks ν α) :=
  (heap a).bind fun block =>
    if offset + cells.length ≤ block.length then
      some (Function.update heap a (some (splice block offset cells)))
    else none

theorem store_eq_some {offset : Nat} {cells : List α} :
    store heap a offset cells = some heap' ↔ ∃ block, heap a = some block ∧
      offset + cells.length ≤ block.length ∧ Function.update heap a (some (splice block offset cells)) = heap' := by
  simp [store, Option.bind_eq_some_iff]

/-- Giving a block back. Without a block there is nothing to do; one that is not allocated cannot be given back. -/
def release (heap : Blocks ν α) : Option ν → Option (Blocks ν α)
  | none => some heap
  | some a => if (heap a).isSome then some (Function.update heap a none) else none

theorem release_isSome (h : ∀ a, p = some a → (heap a).isSome) : (release heap p).isSome := by
  cases p with
  | none => rfl
  | some a => simp [release, h a rfl]

theorem update_elsewhere {b : ν} (h : some a ≠ some b) (x : Option (List α)) : Function.update heap a x b = heap b :=
  Function.update_of_ne (fun he => h (congrArg some he.symm)) _ _

/-- A block is written over. -/
theorem Reseats.rewrite (block : List α) : Reseats heap (some a) (Function.update heap a (some block)) (some a) where
  frame := fun b hb _ => update_elsewhere hb _
  fresh := fun _ hb => .inl hb
  freed := fun _ hb => .inl hb
  allocated := by
    intro b hb
    cases hb
    rw [Function.update_self]
    rfl

theorem Reseats.release (h : release heap p = some heap') : Reseats heap p heap' none := by
  cases p with
  | none =>
    cases h
    exact .refl fun _ hb => by cases hb
  | some a =>
    simp only [Heap.release] at h
    split at h
    · cases h
      refine ⟨fun b hb _ => ?_, fun b hb => ?_, fun b hb => ?_, fun b hb => ?_⟩
      · exact update_elsewhere hb _
      · cases hb
      · cases hb
        exact .inr (Function.update_self ..)
      · cases hb
    · cases h

/-- The owner takes and fills a free block before it gives its own back. -/
theorem Reseats.replace {block : List α} (hp : ∀ b, p = some b → (heap b).isSome) (ha : heap a = none)
    (h : Heap.release (Function.update heap a (some block)) p = some heap') :
    Reseats heap p heap' (some a) ∧ heap' a = some block := by
  have hpa : p ≠ some a := by
    intro he
    have hsome := hp a he
    rw [ha] at hsome
    cases hsome
  have hfree := Reseats.release h
  have hblock : heap' a = some block :=
    (hfree.frame a hpa (fun hn => by cases hn)).trans (Function.update_self ..)
  refine ⟨⟨fun b hb hba => ?_, fun b hb => ?_, fun b hb => ?_, fun b hb => ?_⟩, hblock⟩
  · rw [hfree.frame b hb (fun hn => by cases hn)]
    exact update_elsewhere hba _
  · cases hb
    exact .inr ha
  · exact .inr ((hfree.freed b hb).resolve_left (fun hn => by cases hn))
  · cases hb
    rw [hblock]
    rfl

end Heap
