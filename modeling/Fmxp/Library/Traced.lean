import Mathlib.Data.List.Basic

/-! Computations that record what they touch.

A `Traced` computation returns a result or an exception, and the list of what it has touched on the way, which
an exception does not take back. Dropping the list gives the computation itself (`result_bind`); what holds of all
of it is derived step by step, and a step may use what the steps before it returned (`All.bind`). A loop
touches what its rounds do (`rounds_all_iff`). -/

structure Traced (τ ε α : Type) where
  result : Except ε α
  touched : List τ

namespace Traced
variable {τ ε α β : Type}

def bind (x : Traced τ ε α) (f : α → Traced τ ε β) : Traced τ ε β :=
  match x.result with
  | .error e => ⟨.error e, x.touched⟩
  | .ok a => ⟨(f a).result, x.touched ++ (f a).touched⟩

instance instMonad : Monad (Traced τ ε) where
  pure := fun a => ⟨.ok a, []⟩
  bind := bind

def touch (t : τ) : Traced τ ε Unit := ⟨.ok (), [t]⟩

/-- A computation that touches nothing. -/
def lift (r : Except ε α) : Traced τ ε α := ⟨r, []⟩

def throw (e : ε) : Traced τ ε α := lift (.error e)

/-! ### Results -/

@[simp] theorem result_pure (a : α) : (pure a : Traced τ ε α).result = .ok a := rfl

@[simp] theorem result_touch (t : τ) : (touch t : Traced τ ε Unit).result = .ok () := rfl

@[simp] theorem result_lift (r : Except ε α) : (lift r : Traced τ ε α).result = r := rfl

@[simp] theorem result_throw (e : ε) : (throw e : Traced τ ε α).result = .error e := rfl

/-- **Dropping what was touched gives the computation itself.** -/
@[simp] theorem result_bind (x : Traced τ ε α) (f : α → Traced τ ε β) :
    (x >>= f).result = x.result.bind fun a => (f a).result := by
  show (bind x f).result = _
  unfold bind
  cases x.result <;> rfl

@[simp] theorem result_ite (c : Prop) [Decidable c] (x y : Traced τ ε α) :
    (if c then x else y).result = if c then x.result else y.result := apply_ite ..

/-! ### What holds of everything touched -/

def All (P : τ → Prop) (x : Traced τ ε α) : Prop := ∀ t ∈ x.touched, P t

variable {P : τ → Prop}

theorem All.pure (a : α) : All P (Pure.pure a : Traced τ ε α) := by
  intro t ht
  cases ht

theorem All.lift (r : Except ε α) : All P (lift r : Traced τ ε α) := by
  intro t ht
  cases ht

theorem All.throw (e : ε) : All P (throw e : Traced τ ε α) := All.lift (.error e)

theorem All.touch {t : τ} (h : P t) : All P (touch t : Traced τ ε Unit) := by
  intro u hu
  rw [List.mem_singleton.mp hu]
  exact h

/-- A step may rely on what the one before it returned. -/
theorem All.bind {x : Traced τ ε α} {f : α → Traced τ ε β} (hx : All P x)
    (hf : ∀ a, x.result = .ok a → All P (f a)) : All P (x >>= f) := by
  intro t ht
  change t ∈ (Traced.bind x f).touched at ht
  unfold Traced.bind at ht
  split at ht
  · exact hx t ht
  · next a ha =>
    rcases List.mem_append.mp ht with hmem | hmem
    · exact hx t hmem
    · exact hf a ha t hmem

theorem All.touch_bind {t : τ} {f : Unit → Traced τ ε β} (h : P t) (hf : All P (f ())) :
    All P (Traced.touch t >>= f) :=
  (All.touch h).bind fun _ _ => hf

theorem All.ite {c : Prop} [Decidable c] {x y : Traced τ ε α} (hx : c → All P x) (hy : ¬ c → All P y) :
    All P (if c then x else y) := by
  split
  · next hc => exact hx hc
  · next hc => exact hy hc

theorem mem_bind_left {x : Traced τ ε α} {f : α → Traced τ ε β} {t : τ} (h : t ∈ x.touched) :
    t ∈ (x >>= f).touched := by
  change t ∈ (Traced.bind x f).touched
  unfold Traced.bind
  split
  · exact h
  · exact List.mem_append_left _ h

theorem mem_bind_right {x : Traced τ ε α} {f : α → Traced τ ε β} {a : α} {t : τ} (ha : x.result = .ok a)
    (h : t ∈ (f a).touched) : t ∈ (x >>= f).touched := by
  change t ∈ (Traced.bind x f).touched
  simp only [Traced.bind, ha]
  exact List.mem_append_right _ h

/-! ### Loops

A loop makes a round, and what that returns says whether it makes another one, and where. -/

section
variable {σ : Type} (round : σ → Traced τ ε α) (next : σ → α → Option σ)

/-- What the first `n` rounds touch. -/
def rounds : Nat → σ → List τ
  | 0, _ => []
  | n + 1, s =>
    (round s).touched ++
      match (round s).result with
      | .error _ => []
      | .ok a => ((next s a).map (rounds n)).getD []

/-- The states in which the loop makes a round. -/
inductive Comes : σ → σ → Prop
  | here {s : σ} : Comes s s
  | next {s t u : σ} {a : α} : (round s).result = .ok a → next s a = some t → Comes t u → Comes s u

variable {round next}

/-- **What holds of everything a loop touches** holds of each of its rounds. -/
theorem rounds_all_iff {s : σ} :
    (∀ n, ∀ t ∈ rounds round next n s, P t) ↔ ∀ u, Comes round next s u → (round u).All P := by
  constructor
  · intro h u hu
    induction hu with
    | here => exact fun t ht => h 1 t (List.mem_append_left _ ht)
    | @next s v u a hround hnext _ ih =>
      refine ih fun n t ht => h (n + 1) t (List.mem_append_right _ ?_)
      simp only [hround, hnext]
      exact ht
  · intro h n
    induction n generalizing s with
    | zero =>
      intro t ht
      cases ht
    | succ n ih =>
      intro t ht
      rcases List.mem_append.mp ht with hmem | hmem
      · exact h s .here t hmem
      · cases hround : (round s).result with
        | error e =>
          rw [hround] at hmem
          cases hmem
        | ok a =>
          rw [hround] at hmem
          cases hnext : next s a with
          | none =>
            simp only [hnext, Option.map_none, Option.getD_none] at hmem
            cases hmem
          | some v =>
            simp only [hnext, Option.map_some, Option.getD_some] at hmem
            exact ih (fun u hu => h u (.next hround hnext hu)) t hmem

end

end Traced
