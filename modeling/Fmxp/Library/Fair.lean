import Fmxp.Library.Transition

/-! Infinite runs, and what comes about in them.

A `Trace` is a run that goes on for ever, where nothing may happen for any time. What a system owes in the long run is
said by `Eventually`, given assumptions of the same form about the threads it is made of. -/
namespace Transition
variable {σ α τ β : Type*}

structure Trace (S : System σ α) where
  state : Nat → σ
  start : S.init (state 0)
  next : ∀ n, state (n + 1) = state n ∨ ∃ a, S.step (state n) a (state (n + 1))

namespace Trace
variable {S : System σ α} {A : System τ β} {ρ : Trace S} {P Q : σ → Prop} {n m : Nat}

theorem reachable (ρ : Trace S) (n : Nat) : Reachable S (ρ.state n) := by
  induction n with
  | zero => exact .init ρ.start
  | succ n ih =>
    rcases ρ.next n with hsame | ⟨a, ha⟩
    · rw [hsame]
      exact ih
    · exact .step ih ha

/-- What is seen of a trace is one itself. -/
def map (ρ : Trace S) (f : σ → τ) (hinit : ∀ s, S.init s → A.init (f s))
    (hstep : ∀ s a t, Reachable S s → S.step s a t → f t = f s ∨ ∃ b, A.step (f s) b (f t)) : Trace A where
  state := fun n => f (ρ.state n)
  start := hinit _ ρ.start
  next := fun n => by
    rcases ρ.next n with hsame | ⟨a, ha⟩
    · exact .inl (congrArg f hsame)
    · exact hstep _ a _ (ρ.reachable n) ha

/-- `P` holds at `n` or later. -/
def Eventually (ρ : Trace S) (P : σ → Prop) (n : Nat) : Prop := ∃ m, n ≤ m ∧ P (ρ.state m)

theorem Eventually.now (h : P (ρ.state n)) : ρ.Eventually P n := ⟨n, Nat.le_refl n, h⟩

theorem Eventually.later (h : ρ.Eventually P m) (hnm : n ≤ m) : ρ.Eventually P n := by
  obtain ⟨k, hk, hp⟩ := h
  exact ⟨k, Nat.le_trans hnm hk, hp⟩

/-- One thing leads to the next. -/
theorem Eventually.trans (h : ρ.Eventually P n) (hpq : ∀ m, n ≤ m → P (ρ.state m) → ρ.Eventually Q m) :
    ρ.Eventually Q n := by
  obtain ⟨m, hm, hp⟩ := h
  exact (hpq m hm hp).later hm

theorem Eventually.mono (h : ρ.Eventually P n) (hpq : ∀ m, n ≤ m → P (ρ.state m) → Q (ρ.state m)) :
    ρ.Eventually Q n :=
  h.trans fun m hm hp => .now (hpq m hm hp)

/-- One of the actions in `A` leads from the state at `n` to the next. -/
def Takes (ρ : Trace S) (A : α → Prop) (n : Nat) : Prop := ∃ a, A a ∧ S.step (ρ.state n) a (ρ.state (n + 1))

/-- What every step keeps is kept. -/
theorem persists (ρ : Trace S) (I : σ → Prop) (hstep : ∀ k, n ≤ k → I (ρ.state k) → I (ρ.state (k + 1)))
    (hn : I (ρ.state n)) (hnm : n ≤ m) : I (ρ.state m) := by
  induction hnm with
  | refl => exact hn
  | step hle ih => exact hstep _ hle ih

/-- What holds at first and not in the end ceases in one of the steps. -/
theorem ceases (ρ : Trace S) (P : σ → Prop) (hn : P (ρ.state n)) (hm : ¬ P (ρ.state m)) (hnm : n ≤ m) :
    ∃ k, n ≤ k ∧ (∀ j, n ≤ j → j ≤ k → P (ρ.state j)) ∧ ¬ P (ρ.state (k + 1)) := by
  have hscan : (∀ j, n ≤ j → j ≤ m → P (ρ.state j)) ∨
      ∃ k, n ≤ k ∧ (∀ j, n ≤ j → j ≤ k → P (ρ.state j)) ∧ ¬ P (ρ.state (k + 1)) := by
    clear hm
    induction hnm with
    | refl => exact .inl fun j hnj hjn => Nat.le_antisymm hjn hnj ▸ hn
    | @step m hle ih =>
      rcases ih with hall | hceased
      · by_cases hp : P (ρ.state (m + 1))
        · refine .inl fun j hnj hjm => ?_
          rcases Nat.lt_or_eq_of_le hjm with hlt | rfl
          · exact hall j hnj (Nat.le_of_lt_succ hlt)
          · exact hp
        · exact .inr ⟨m, hle, hall, hp⟩
      · exact .inr hceased
  rcases hscan with hall | hceased
  · exact absurd (hall m hnm (Nat.le_refl m)) hm
  · exact hceased

/-- A number that grows as long as it is behind another one passes everything that one has come to. -/
theorem catches_up {f g : σ → Nat} (hg : ∀ n, g (ρ.state n) ≤ g (ρ.state (n + 1)))
    (hgrows : ∀ n, f (ρ.state n) < g (ρ.state n) → ρ.Eventually (fun s => f (ρ.state n) < f s) n) {k : Nat}
    (hk : k < g (ρ.state n)) : ρ.Eventually (fun s => k < f s) n := by
  obtain ⟨d, hd⟩ : ∃ d, k < f (ρ.state n) + d := ⟨k + 1, by omega⟩
  induction d generalizing n with
  | zero => exact .now hd
  | succ d ih =>
    by_cases hpassed : k < f (ρ.state n)
    · exact .now hpassed
    · refine (hgrows n (by omega)).trans fun m hnm hlt => ?_
      have hgm : g (ρ.state n) ≤ g (ρ.state m) :=
        ρ.persists (fun s => g (ρ.state n) ≤ g s) (fun j _ h => Nat.le_trans h (hg j)) (Nat.le_refl _) hnm
      exact ih (by omega) (by omega)

/-- A number that never grows and shrinks time and again, for as long as `P` does not come about: `P` comes about. -/
theorem Eventually.of_descent {f : σ → Nat} (hf : ∀ k, n ≤ k → ¬ P (ρ.state k) → f (ρ.state (k + 1)) ≤ f (ρ.state k))
    (hless : ∀ k, n ≤ k → (∀ j, k ≤ j → ¬ P (ρ.state j)) → ρ.Eventually (fun s => f s < f (ρ.state k)) k) :
    ρ.Eventually P n := by
  obtain ⟨d, hd⟩ : ∃ d, f (ρ.state n) ≤ d := ⟨_, Nat.le_refl _⟩
  induction d using Nat.strongRecOn generalizing n with
  | ind d ih =>
    by_cases hnever : ∀ j, n ≤ j → ¬ P (ρ.state j)
    · obtain ⟨m, hnm, hlt⟩ := hless n (Nat.le_refl n) hnever
      have hsame := ih (f (ρ.state m)) (by omega) (fun k hk => hf k (Nat.le_trans hnm hk))
        (fun k hk => hless k (Nat.le_trans hnm hk)) (Nat.le_refl _)
      exact hsame.later hnm
    · rw [not_forall] at hnever
      obtain ⟨j, hj⟩ := hnever
      rw [Classical.not_imp, not_not] at hj
      exact ⟨j, hj⟩

end Trace

/-! ### Runs that end -/

/-- What can follow the last state of a run can follow the run. -/
theorem Run.followed {S : System σ α} {s : σ} {labels : List α} {f : Nat → σ} (h : Run S s labels (f 0))
    (hnext : ∀ n, f (n + 1) = f n ∨ ∃ a, S.step (f n) a (f (n + 1))) :
    ∃ g : Nat → σ, g 0 = s ∧ (∀ n, g (labels.length + n) = f n) ∧
      ∀ n, g (n + 1) = g n ∨ ∃ a, S.step (g n) a (g (n + 1)) := by
  generalize hu : f 0 = u at h
  induction h with
  | nil => exact ⟨f, hu, fun n => congrArg f (Nat.zero_add n), hnext⟩
  | @cons s v _ b labels hb _ ih =>
    obtain ⟨g, hstart, hthen, hsteps⟩ := ih hu
    refine ⟨fun n => n.casesOn s g, rfl, fun n => ?_, fun n => ?_⟩
    · rw [List.length_cons, Nat.succ_add]
      exact hthen n
    · cases n with
      | zero => exact .inr ⟨b, show S.step s b (g 0) by rw [hstart]; exact hb⟩
      | succ n => exact hsteps n

/-- A run that passes through `u` and ends is one that goes on, with nothing happening. -/
theorem Run.forever {S : System σ α} {s t u : σ} {labels labels' : List α} (hs : S.init s) (h : Run S s labels u)
    (h' : Run S u labels' t) : ∃ ρ : Trace S, ρ.state labels.length = u ∧
      ∀ n, labels.length + labels'.length ≤ n → ρ.state n = t := by
  obtain ⟨f, hf, hend, hnext⟩ := h'.followed (f := fun _ => t) fun _ => .inl rfl
  subst hf
  obtain ⟨g, hstart, hthen, hsteps⟩ := h.followed hnext
  refine ⟨⟨g, hstart ▸ hs, hsteps⟩, hthen 0, fun n hn => ?_⟩
  obtain ⟨k, rfl⟩ := Nat.exists_eq_add_of_le hn
  show g (labels.length + labels'.length + k) = t
  rw [Nat.add_assoc, hthen]
  exact hend k

end Transition
