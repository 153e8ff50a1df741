import Mathlib.Logic.Basic

/-! Programs that throw and clean up after themselves.

A program returns or throws, and leaves a state; it has no outcome where it does something
undefined. A `Triple` says that there is an outcome from every state that meets the
precondition, and what holds after it, whichever way the program ends. Locals with a destructor
are `always` (destroyed both ways) and `onThrow` (what the program returns, destroyed only by an exception). -/
namespace Programs

/-- Programs on states `σ` that throw `ε`. -/
def Program (σ ε α : Type) : Type := σ → Option (Except ε α × σ)

variable {σ ε α β : Type}

instance : Monad (Program σ ε) where
  pure a := fun s => some (.ok a, s)
  bind p f := fun s => (p s).bind fun
    | (.ok a, t) => f a t
    | (.error e, t) => some (.error e, t)

def throw (e : ε) : Program σ ε α := fun s => some (.error e, s)

/-- What is read of the state, where it can be. -/
def read (f : σ → Option α) : Program σ ε α := fun s => (f s).map fun a => (.ok a, s)

/-- What a call makes of the state, where it is defined, and what it throws. -/
def call (f : σ → Option (Option ε × σ)) : Program σ ε Unit := fun s => (f s).map fun
  | (none, t) => (.ok (), t)
  | (some e, t) => (.error e, t)

/-- The cleanup runs whether the program returns or throws. It must not throw. -/
def always (p : Program σ ε α) (cleanup : σ → Option σ) : Program σ ε α := fun s =>
  (p s).bind fun (r, t) => (cleanup t).map fun u => (r, u)

/-- The cleanup runs if the program throws. -/
def onThrow (p : Program σ ε α) (cleanup : σ → Option σ) : Program σ ε α := fun s =>
  (p s).bind fun
    | (.ok a, t) => some (.ok a, t)
    | (.error e, t) => (cleanup t).map fun u => (.error e, u)

/-- From every state that meets `P` the program returns in one that meets `Q`, or throws in one that meets `E`. -/
def Triple (P : σ → Prop) (p : Program σ ε α) (Q : α → σ → Prop) (E : ε → σ → Prop) : Prop :=
  ∀ s, P s → (∃ a t, p s = some (.ok a, t) ∧ Q a t) ∨ ∃ e t, p s = some (.error e, t) ∧ E e t

/-! ### Rules -/

variable {P : σ → Prop} {Q Q' : α → σ → Prop} {R : β → σ → Prop} {E E' : ε → σ → Prop} {p : Program σ ε α}

theorem Triple.pure {a : α} (h : ∀ s, P s → Q a s) : Triple P (Pure.pure a : Program σ ε α) Q E :=
  fun s hs => .inl ⟨a, s, rfl, h s hs⟩

theorem Triple.throw {e : ε} (h : ∀ s, P s → E e s) : Triple P (Programs.throw e : Program σ ε α) Q E :=
  fun s hs => .inr ⟨e, s, rfl, h s hs⟩

theorem Triple.read {f : σ → Option α} (h : ∀ s, P s → ∃ a, f s = some a ∧ Q a s) :
    Triple P (Programs.read f : Program σ ε α) Q E := by
  intro s hs
  obtain ⟨a, ha, hq⟩ := h s hs
  exact .inl ⟨a, s, by rw [Programs.read, ha]; rfl, hq⟩

theorem Triple.call {f : σ → Option (Option ε × σ)} {Q : Unit → σ → Prop}
    (h : ∀ s, P s → ∃ thrown t, f s = some (thrown, t) ∧ (thrown = none → Q () t) ∧ ∀ e, thrown = some e → E e t) :
    Triple P (Programs.call f) Q E := by
  intro s hs
  obtain ⟨thrown, t, ht, hreturned, hthrew⟩ := h s hs
  cases thrown with
  | none => exact .inl ⟨(), t, by rw [Programs.call, ht]; rfl, hreturned rfl⟩
  | some e => exact .inr ⟨e, t, by rw [Programs.call, ht]; rfl, hthrew e rfl⟩

theorem Triple.bind {f : α → Program σ ε β} (hp : Triple P p Q E) (hf : ∀ a, Triple (Q a) (f a) R E) :
    Triple P (p >>= f) R E := by
  intro s hs
  rcases hp s hs with ⟨a, t, ht, hq⟩ | ⟨e, t, ht, he⟩
  · have hbind : (p >>= f) s = f a t := by
      show (p s).bind _ = _
      rw [ht, Option.bind_some]
    rw [hbind]
    exact hf a t hq
  · refine .inr ⟨e, t, ?_, he⟩
    show (p s).bind _ = _
    rw [ht, Option.bind_some]

/-- A step that returns nothing. -/
theorem Triple.seq {p : Program σ ε Unit} {f : Unit → Program σ ε β} {M : σ → Prop} (hp : Triple P p (fun _ => M) E)
    (hf : Triple M (f ()) R E) : Triple P (p >>= f) R E :=
  hp.bind fun _ => hf

theorem Triple.weaken {P' : σ → Prop} (h : Triple P p Q E) (hpre : ∀ s, P' s → P s) (hpost : ∀ a s, Q a s → Q' a s)
    (hthrown : ∀ e s, E e s → E' e s) : Triple P' p Q' E' := by
  intro s hs
  rcases h s (hpre s hs) with ⟨a, t, ht, hq⟩ | ⟨e, t, ht, he⟩
  · exact .inl ⟨a, t, ht, hpost a t hq⟩
  · exact .inr ⟨e, t, ht, hthrown e t he⟩

theorem Triple.ite {c : Prop} [Decidable c] {q : Program σ ε α} (hp : c → Triple P p Q E) (hq : ¬ c → Triple P q Q E) :
    Triple P (if c then p else q) Q E := by
  split
  · next h => exact hp h
  · next h => exact hq h

/-- **Cleanup**: what it makes of the states the program may end in is what holds in the end. -/
theorem Triple.always {cleanup : σ → Option σ} (h : Triple P p Q E)
    (hreturned : ∀ a s, Q a s → ∃ t, cleanup s = some t ∧ Q' a t)
    (hthrew : ∀ e s, E e s → ∃ t, cleanup s = some t ∧ E' e t) : Triple P (Programs.always p cleanup) Q' E' := by
  intro s hs
  rcases h s hs with ⟨a, t, ht, hq⟩ | ⟨e, t, ht, he⟩
  · obtain ⟨u, hu, hq'⟩ := hreturned a t hq
    exact .inl ⟨a, u, by simp only [Programs.always, ht, hu, Option.bind_some, Option.map_some], hq'⟩
  · obtain ⟨u, hu, he'⟩ := hthrew e t he
    exact .inr ⟨e, u, by simp only [Programs.always, ht, hu, Option.bind_some, Option.map_some], he'⟩

theorem Triple.onThrow {cleanup : σ → Option σ} (h : Triple P p Q E)
    (hthrew : ∀ e s, E e s → ∃ t, cleanup s = some t ∧ E' e t) : Triple P (Programs.onThrow p cleanup) Q E' := by
  intro s hs
  rcases h s hs with ⟨a, t, ht, hq⟩ | ⟨e, t, ht, he⟩
  · exact .inl ⟨a, t, by simp only [Programs.onThrow, ht, Option.bind_some], hq⟩
  · obtain ⟨u, hu, he'⟩ := hthrew e t he
    exact .inr ⟨e, u, by simp only [Programs.onThrow, ht, hu, Option.bind_some, Option.map_some], he'⟩

end Programs
