import Mathlib.Logic.Basic

/-! Labelled transition systems.

A system is a set of initial states and a labelled step relation. What is proved
of a system is an invariant: it holds initially and every step keeps it
(`Reachable.invariant`). A *rule* is a condition on the state before a step and
its label; `under` keeps the steps that meet it, so a statement about every run
whose steps all meet a rule is a statement about the states reachable in the
system under that rule. -/
namespace Transition

structure System (σ α : Type*) where
  init : σ → Prop
  step : σ → α → σ → Prop

variable {σ α τ β : Type*}

/-- The states some run from an initial state passes through. -/
inductive Reachable (S : System σ α) : σ → Prop where
  | init {s : σ} : S.init s → Reachable S s
  | step {s t : σ} {a : α} : Reachable S s → S.step s a t → Reachable S t

/-- The runs of a system: the labels of their steps, in order. -/
inductive Run (S : System σ α) : σ → List α → σ → Prop where
  | nil {s : σ} : Run S s [] s
  | cons {s t u : σ} {a : α} {labels : List α} : S.step s a t → Run S t labels u →
      Run S s (a :: labels) u

theorem Run.append {S : System σ α} {s t u : σ} {labels labels' : List α} (h : Run S s labels t)
    (h' : Run S t labels' u) : Run S s (labels ++ labels') u := by
  induction h with
  | nil => exact h'
  | cons hs _ ih => exact .cons hs (ih h')

/-- What holds initially and survives every step holds in every reachable state. -/
theorem Reachable.invariant {S : System σ α} {I : σ → Prop} (hinit : ∀ s, S.init s → I s)
    (hstep : ∀ s a t, I s → S.step s a t → I t) {s : σ} (h : Reachable S s) : I s := by
  induction h with
  | init hs => exact hinit _ hs
  | step _ hs ih => exact hstep _ _ _ ih hs

theorem Reachable.run {S : System σ α} {s t : σ} {labels : List α} (h : Reachable S s)
    (hr : Run S s labels t) : Reachable S t := by
  induction hr with
  | nil => exact h
  | cons hs _ ih => exact ih (.step h hs)

/-- The steps of `S` that meet a rule on the state before them and their label. -/
def System.under (S : System σ α) (Rule : σ → α → Prop) : System σ α where
  init := S.init
  step := fun s a t => Rule s a ∧ S.step s a t

theorem Reachable.of_under {S : System σ α} {Rule : σ → α → Prop} {s : σ}
    (h : Reachable (S.under Rule) s) : Reachable S s := by
  induction h with
  | init hs => exact .init hs
  | step _ hs ih => exact .step ih hs.2

/-- **Simulation**: where every step of `S` is one of `A` on what `f` sees, or is not seen at all, what `f`
sees of a reachable state is reachable. -/
theorem Reachable.simulates {S : System σ α} {A : System τ β} (f : σ → τ) (hinit : ∀ s, S.init s → A.init (f s))
    (hstep : ∀ s a t, Reachable S s → S.step s a t → f t = f s ∨ ∃ b, A.step (f s) b (f t)) {s : σ}
    (h : Reachable S s) : Reachable A (f s) := by
  induction h with
  | init hs => exact .init (hinit _ hs)
  | step hs ha ih =>
    rcases hstep _ _ _ hs ha with heq | ⟨b, hb⟩
    · rw [heq]
      exact ih
    · exact .step ih hb

/-- Simulation where a step of `S` may be several of `A`, or none. -/
theorem Reachable.simulates_runs {S : System σ α} {A : System τ β} (f : σ → τ) (hinit : ∀ s, S.init s → A.init (f s))
    (hstep : ∀ s a t, Reachable S s → S.step s a t → ∃ labels, Run A (f s) labels (f t)) {s : σ}
    (h : Reachable S s) : Reachable A (f s) := by
  induction h with
  | init hs => exact .init (hinit _ hs)
  | step hs ha ih =>
    obtain ⟨labels, hrun⟩ := hstep _ _ _ hs ha
    exact ih.run hrun

/-! ### Runs that can be executed -/

/-- The state a list of labels leads to, if each of them can be executed. -/
def execute (next : σ → α → Option σ) : List α → σ → Option σ
  | [], s => some s
  | a :: labels, s => (next s a).bind (execute next labels)

/-- What executes labels that are steps of the system is a run. -/
theorem Run.of_execute {S : System σ α} {next : σ → α → Option σ} {labels : List α} {s t : σ}
    (hnext : ∀ a ∈ labels, ∀ s t, next s a = some t → S.step s a t) (h : execute next labels s = some t) :
    Run S s labels t := by
  induction labels generalizing s with
  | nil =>
    cases h
    exact .nil
  | cons a labels ih =>
    obtain ⟨u, hu, hrest⟩ := Option.bind_eq_some_iff.mp h
    have hstep : S.step s a u := hnext a (List.mem_cons_self ..) s u hu
    exact .cons hstep (ih (fun b hb => hnext b (List.mem_cons_of_mem a hb)) hrest)

theorem Reachable.execute {S : System σ α} {next : σ → α → Option σ} {labels : List α} {s t : σ}
    (hnext : ∀ a ∈ labels, ∀ s t, next s a = some t → S.step s a t) (hs : Reachable S s)
    (h : execute next labels s = some t) : Reachable S t :=
  hs.run (.of_execute hnext h)

/-- Execution of the steps that meet a rule. -/
def guarded (Rule : σ → α → Prop) [∀ s a, Decidable (Rule s a)] (next : σ → α → Option σ) (s : σ) (a : α) :
    Option σ :=
  if Rule s a then next s a else none

theorem guarded_step {S : System σ α} {Rule : σ → α → Prop} [∀ s a, Decidable (Rule s a)]
    {next : σ → α → Option σ} {s t : σ} {a : α} (hnext : ∀ s t, next s a = some t → S.step s a t)
    (h : guarded Rule next s a = some t) : (S.under Rule).step s a t := by
  unfold guarded at h
  split at h
  · next hrule => exact ⟨hrule, hnext s t h⟩
  · cases h

end Transition
