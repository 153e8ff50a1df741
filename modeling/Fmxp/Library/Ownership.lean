import Mathlib.Logic.Function.Basic

/-! Names that are in use, and the places where a party keeps its own.

`owner` says who uses a name, `kept` what a party has in each of its places. It may give a name back when it
`Holds` its names: what it keeps is its own, and it keeps nothing twice. Taking a free name into a place,
giving back the name in a place and forgetting one all leave it holding its names, and so does whatever others
do with names that are not its own. -/
namespace Ownership
variable {ι ν ω : Type*} {owner : ν → Option ω} {o : ω} {kept kept' : ι → Option ν} {n : ν} {i : ι}

/-- Every name that is kept is the party's own, and kept in one place. -/
structure Holds (owner : ν → Option ω) (o : ω) (kept : ι → Option ν) : Prop where
  owned : ∀ i n, kept i = some n → owner n = some o
  single : ∀ i j n, kept i = some n → kept j = some n → i = j

theorem Holds.nothing (hkept : ∀ i, kept i = none) : Holds owner o kept :=
  ⟨fun i _ h => (by cases (hkept i).symm.trans h), fun i _ _ h => (by cases (hkept i).symm.trans h)⟩

/-- Names may be forgotten. -/
theorem Holds.mono (h : Holds owner o kept) (hle : ∀ i n, kept' i = some n → kept i = some n) :
    Holds owner o kept' :=
  ⟨fun i n hi => h.owned i n (hle i n hi), fun i j n hi hj => h.single i j n (hle i n hi) (hle j n hj)⟩

theorem of_forgotten [DecidableEq ι] {j : ι} (h : Function.update kept i none j = some n) :
    j ≠ i ∧ kept j = some n := by
  by_cases hji : j = i
  · subst hji
    rw [Function.update_self] at h
    cases h
  · rw [Function.update_of_ne hji] at h
    exact ⟨hji, h⟩

variable [DecidableEq ν]

/-- What becomes of a name that is not the party's own does not matter to it. -/
theorem Holds.foreign (h : Holds owner o kept) (hn : owner n ≠ some o) (x : Option ω) :
    Holds (Function.update owner n x) o kept := by
  refine ⟨fun i m hi => ?_, h.single⟩
  have hm : m ≠ n := by
    rintro rfl
    exact hn (h.owned i m hi)
  rw [Function.update_of_ne hm]
  exact h.owned i m hi

variable [DecidableEq ι]

/-- A name taken into a place. What was there before is forgotten. -/
theorem Holds.taken (h : Holds owner o kept) (hn : owner n ≠ some o) (i : ι) :
    Holds (Function.update owner n (some o)) o (Function.update kept i (some n)) := by
  have hfresh : ∀ j, kept j ≠ some n := fun j hj => hn (h.owned j n hj)
  constructor
  · intro j m hj
    by_cases hji : j = i
    · subst hji
      rw [Function.update_self] at hj
      cases hj
      exact Function.update_self ..
    · rw [Function.update_of_ne hji] at hj
      exact (h.foreign hn (some o)).owned j m hj
  · intro j k m hj hk
    by_cases hji : j = i
    · subst hji
      rw [Function.update_self] at hj
      cases hj
      by_contra hkj
      rw [Function.update_of_ne (Ne.symm hkj)] at hk
      exact hfresh k hk
    · rw [Function.update_of_ne hji] at hj
      by_cases hki : k = i
      · subst hki
        rw [Function.update_self] at hk
        cases hk
        exact absurd hj (hfresh j)
      · rw [Function.update_of_ne hki] at hk
        exact h.single j k m hj hk

/-- The name in a place given back. -/
theorem Holds.returned (h : Holds owner o kept) (hi : kept i = some n) :
    Holds (Function.update owner n none) o (Function.update kept i none) := by
  refine ⟨fun j m hj => ?_, (h.mono fun _ _ hj => (of_forgotten hj).2).single⟩
  obtain ⟨hji, hj⟩ := of_forgotten hj
  have hm : m ≠ n := by
    rintro rfl
    exact hji (h.single j i m hj hi)
  rw [Function.update_of_ne hm]
  exact h.owned j m hj

end Ownership
