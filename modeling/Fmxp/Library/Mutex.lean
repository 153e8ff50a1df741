import Mathlib.Logic.Function.Basic
import Fmxp.Library.Transition

/-! Objects guarded by a mutex.

Any number of threads call operations on a value. Each operation takes the mutex, does what it does in several steps,
between which the others may do theirs, and gives the mutex back. Whatever the order of all these steps, the calls are
those of a sequential run in some order (`linearization`): the order in which they gave the mutex back. -/
namespace Guarded
open Transition

/-- What an operation does with the mutex: steps that change the value, each depending on what the last one found. -/
inductive Code (σ ρ : Type*) where
  | done (result : ρ)
  | act (f : σ → σ) (next : σ → Code σ ρ)

variable {σ ρ ο ι : Type*}

/-- All the steps at once: the result and what is left. -/
def Code.eval : Code σ ρ → σ → ρ × σ
  | .done r, s => (r, s)
  | .act f next, s => (next s).eval (f s)

inductive Thread (σ ρ ο : Type*) where
  | idle
  | waiting (call : Nat) (op : ο)
  | holding (call : Nat) (op : ο) (code : Code σ ρ)
  | leaving (call : Nat) (result : ρ)

/-- What can be seen from outside: calls, which are numbered, and returns. -/
inductive Mark (ρ ο : Type*) where
  | called (call : Nat) (op : ο)
  | returned (call : Nat) (result : ρ)

def Mark.call : Mark ρ ο → Nat
  | .called call _ => call
  | .returned call _ => call

structure Entry (ρ ο : Type*) where
  call : Nat
  op : ο
  result : ρ

/-- A guarded value, its threads, and all that has happened. `order` has the calls in the order in which they gave the
mutex back. -/
structure Object (σ ρ ο ι : Type*) where
  value : σ
  owner : Option ι := none
  threads : ι → Thread σ ρ ο := fun _ => .idle
  calls : Nat := 0
  history : List (Mark ρ ο) := []
  order : List (Entry ρ ο) := []

inductive Move (ο ι : Type*) where
  | call (i : ι) (op : ο)
  | lock (i : ι)
  | act (i : ι)
  | unlock (i : ι)
  | ret (i : ι)

variable [DecidableEq ι]

def Object.set (s : Object σ ρ ο ι) (i : ι) (thread : Thread σ ρ ο) : Object σ ρ ο ι :=
  {s with threads := Function.update s.threads i thread}

def Object.perform (body : ο → Code σ ρ) (move : Move ο ι) (s : Object σ ρ ο ι) : Option (Object σ ρ ο ι) :=
  match move with
  | .call i op =>
    match s.threads i with
    | .idle => some {s.set i (.waiting s.calls op) with
        calls := s.calls + 1, history := s.history ++ [.called s.calls op]}
    | _ => none
  | .lock i =>
    match s.owner, s.threads i with
    | none, .waiting call op => some {s.set i (.holding call op (body op)) with owner := some i}
    | _, _ => none
  | .act i =>
    match s.threads i with
    | .holding call op (.act f next) => some {s.set i (.holding call op (next s.value)) with value := f s.value}
    | _ => none
  | .unlock i =>
    match s.threads i with
    | .holding call op (.done r) =>
      some {s.set i (.leaving call r) with owner := none, order := s.order ++ [⟨call, op, r⟩]}
    | _ => none
  | .ret i =>
    match s.threads i with
    | .leaving call r => some {s.set i .idle with history := s.history ++ [.returned call r]}
    | _ => none

def object (body : ο → Code σ ρ) (start : σ) : System (Object σ ρ ο ι) (Move ο ι) where
  init := fun s => s = {value := start}
  step := fun s move t => s.perform body move = some t

/-! ### What a move does -/

/-- Every move, case by case. -/
inductive Moves (body : ο → Code σ ρ) (s : Object σ ρ ο ι) : Object σ ρ ο ι → Prop
  | call {i : ι} (op : ο) : s.threads i = .idle →
      Moves body s {s.set i (.waiting s.calls op) with
        calls := s.calls + 1, history := s.history ++ [.called s.calls op]}
  | lock {i : ι} {call : Nat} {op : ο} : s.owner = none → s.threads i = .waiting call op →
      Moves body s {s.set i (.holding call op (body op)) with owner := some i}
  | act {i : ι} {call : Nat} {op : ο} {f : σ → σ} {next : σ → Code σ ρ} :
      s.threads i = .holding call op (.act f next) →
      Moves body s {s.set i (.holding call op (next s.value)) with value := f s.value}
  | unlock {i : ι} {call : Nat} {op : ο} {r : ρ} : s.threads i = .holding call op (.done r) →
      Moves body s {s.set i (.leaving call r) with owner := none, order := s.order ++ [⟨call, op, r⟩]}
  | ret {i : ι} {call : Nat} {r : ρ} : s.threads i = .leaving call r →
      Moves body s {s.set i .idle with history := s.history ++ [.returned call r]}

variable {body : ο → Code σ ρ} {start : σ} {move : Move ο ι} {s t : Object σ ρ ο ι}

theorem perform_moves (h : s.perform body move = some t) : Moves body s t := by
  cases move with
  | call i op =>
    simp only [Object.perform] at h
    split at h
    · next hidle => cases h; exact .call op hidle
    · cases h
  | lock i =>
    simp only [Object.perform] at h
    split at h
    · next howner hwaiting => cases h; exact .lock howner hwaiting
    · cases h
  | act i =>
    simp only [Object.perform] at h
    split at h
    · next hact => cases h; exact .act hact
    · cases h
  | unlock i =>
    simp only [Object.perform] at h
    split at h
    · next hdone => cases h; exact .unlock hdone
    · cases h
  | ret i =>
    simp only [Object.perform] at h
    split at h
    · next hleaving => cases h; exact .ret hleaving
    · cases h

/-! ### Sequential runs -/

/-- One call after the other, each with the result it has. -/
def Sequential (apply : ο → σ → ρ × σ) : σ → List (Entry ρ ο) → σ → Prop
  | s, [], t => t = s
  | s, e :: rest, t => (apply e.op s).1 = e.result ∧ Sequential apply (apply e.op s).2 rest t

theorem Sequential.snoc {apply : ο → σ → ρ × σ} {s u : σ} {order : List (Entry ρ ο)} {e : Entry ρ ο}
    (h : Sequential apply s order u) (he : (apply e.op u).1 = e.result) :
    Sequential apply s (order ++ [e]) (apply e.op u).2 := by
  induction order generalizing s with
  | nil =>
    cases h
    exact ⟨he, rfl⟩
  | cons e' rest ih => exact ⟨h.1, ih h.2⟩

/-- An order of the calls in which they could have been made one after the other: those that have returned are among
them, with their results, and one that returned before another was made comes before it. -/
structure Linearization (apply : ο → σ → ρ × σ) (start : σ) (history : List (Mark ρ ο)) (order : List (Entry ρ ο))
    (last : σ) : Prop where
  sequential : Sequential apply start order last
  once : (order.map Entry.call).Nodup
  called : ∀ e ∈ order, .called e.call e.op ∈ history
  returned : ∀ call r, .returned call r ∈ history → ∃ op, ⟨call, op, r⟩ ∈ order
  realTime : ∀ e ∈ order, ∀ e' ∈ order,
    [.returned e.call e.result, .called e'.call e'.op].Sublist history → [e, e'].Sublist order

omit [DecidableEq ι] in
theorem sublist_snoc {α : Type*} {a b c : α} {l : List α} (h : [a, b].Sublist (l ++ [c])) :
    [a, b].Sublist l ∨ (a ∈ l ∧ b = c) := by
  obtain ⟨l₁, l₂, heq, h₁, h₂⟩ := List.sublist_append_iff.mp h
  cases l₂ with
  | nil =>
    rw [List.append_nil] at heq
    exact .inl (heq ▸ h₁)
  | cons x l₂ =>
    have hl₂ : x :: l₂ = [c] := h₂.eq_of_length_le (Nat.succ_le_succ (Nat.zero_le _))
    rw [hl₂] at heq
    obtain ⟨hl₁, hbc⟩ := List.append_inj' (show [a] ++ [b] = l₁ ++ [c] from heq) rfl
    exact .inr ⟨h₁.subset (hl₁ ▸ List.mem_singleton_self a), List.head_eq_of_cons_eq hbc⟩

section
variable {apply : ο → σ → ρ × σ} {history : List (Mark ρ ο)} {order : List (Entry ρ ο)} {last : σ}

/-- A call is none of those that are in the order already. -/
theorem Linearization.call (h : Linearization apply start history order last) {call : Nat} (op : ο)
    (hnew : ∀ e ∈ order, e.call ≠ call) :
    Linearization apply start (history ++ [.called call op]) order last := by
  refine ⟨h.sequential, h.once, fun e he => List.mem_append_left _ (h.called e he), ?_, ?_⟩
  · intro call' r hr
    rcases List.mem_append.mp hr with hr | hr
    · exact h.returned call' r hr
    · cases List.mem_singleton.mp hr
  · intro e he e' he' hsub
    rcases sublist_snoc hsub with hsub | ⟨_, hlast⟩
    · exact h.realTime e he e' he' hsub
    · cases hlast
      exact absurd rfl (hnew e' he')

/-- A call that is in the order may return, with the result it has there. -/
theorem Linearization.ret (h : Linearization apply start history order last) {call : Nat} {op : ο} {r : ρ}
    (hentry : ⟨call, op, r⟩ ∈ order) :
    Linearization apply start (history ++ [.returned call r]) order last := by
  refine ⟨h.sequential, h.once, fun e he => List.mem_append_left _ (h.called e he), ?_, ?_⟩
  · intro call' r' hr
    rcases List.mem_append.mp hr with hr | hr
    · exact h.returned call' r' hr
    · cases List.mem_singleton.mp hr
      exact ⟨op, hentry⟩
  · intro e he e' he' hsub
    rcases sublist_snoc hsub with hsub | ⟨_, hlast⟩
    · exact h.realTime e he e' he' hsub
    · cases hlast

/-- A call that has not returned may take effect now. -/
theorem Linearization.snoc (h : Linearization apply start history order last) {e : Entry ρ ο}
    (hnew : ∀ e' ∈ order, e'.call ≠ e.call) (hcalled : .called e.call e.op ∈ history)
    (hresult : (apply e.op last).1 = e.result) :
    Linearization apply start history (order ++ [e]) (apply e.op last).2 := by
  refine ⟨h.sequential.snoc hresult, ?_, ?_, ?_, ?_⟩
  · rw [List.map_append, List.nodup_append]
    refine ⟨h.once, List.pairwise_singleton .., fun call hcall call' hcall' => ?_⟩
    obtain ⟨e', he', rfl⟩ := List.mem_map.mp hcall
    rw [List.map_singleton, List.mem_singleton] at hcall'
    exact hcall' ▸ hnew e' he'
  · intro e' he'
    rcases List.mem_append.mp he' with he' | he'
    · exact h.called e' he'
    · rw [List.mem_singleton.mp he']
      exact hcalled
  · intro call r hr
    obtain ⟨op, hop⟩ := h.returned call r hr
    exact ⟨op, List.mem_append_left _ hop⟩
  · intro e₁ he₁ e₂ he₂ hsub
    rcases List.mem_append.mp he₁ with he₁ | he₁
    · rcases List.mem_append.mp he₂ with he₂ | he₂
      · exact (h.realTime e₁ he₁ e₂ he₂ hsub).trans (List.sublist_append_left ..)
      · rw [List.mem_singleton.mp he₂]
        exact List.Sublist.append (List.singleton_sublist.mpr he₁) (List.Sublist.refl [e])
    · -- It has not returned.
      obtain ⟨op, hop⟩ := h.returned _ _ (hsub.subset (List.mem_cons_self ..))
      exact absurd (congrArg Entry.call (List.mem_singleton.mp he₁)) (hnew ⟨e₁.call, op, e₁.result⟩ hop)

end

/-! ### Every run -/

/-- The call a thread has made and that has not taken effect. -/
def Thread.pending : Thread σ ρ ο → Option (Nat × ο)
  | .waiting call op => some (call, op)
  | .holding call op _ => some (call, op)
  | _ => none

/-- What holds at any time. Only the thread that has the mutex is at work, and what is left of its operation does to
the value what the whole operation would have done to `last`. -/
structure Ordered (body : ο → Code σ ρ) (start : σ) (s : Object σ ρ ο ι) (last : σ) : Prop where
  linearization : Linearization (fun op => (body op).eval) start s.history s.order last
  numbered : ∀ m ∈ s.history, m.call < s.calls
  pending : ∀ i p, (s.threads i).pending = some p → .called p.1 p.2 ∈ s.history ∧ ∀ e ∈ s.order, e.call ≠ p.1
  apart : ∀ i j p q, (s.threads i).pending = some p → (s.threads j).pending = some q → p.1 = q.1 → i = j
  leaving : ∀ i call r, s.threads i = .leaving call r → ∃ op, ⟨call, op, r⟩ ∈ s.order
  free : s.owner = none → s.value = last
  holding : ∀ i call op code, s.threads i = .holding call op code →
    s.owner = some i ∧ code.eval s.value = (body op).eval last

section
variable {threads : ι → Thread σ ρ ο} {i j : ι} {thread : Thread σ ρ ο}

/-- A thread that goes on: every other one is where it was. -/
theorem of_update {x : Thread σ ρ ο} (h : Function.update threads i thread j = x) :
    j = i ∧ thread = x ∨ j ≠ i ∧ threads j = x := by
  by_cases hji : j = i
  · subst hji
    rw [Function.update_self] at h
    exact .inl ⟨rfl, h⟩
  · rw [Function.update_of_ne hji] at h
    exact .inr ⟨hji, h⟩

theorem pending_of_update {p : Nat × ο} (h : (Function.update threads i thread j).pending = some p) :
    j = i ∧ thread.pending = some p ∨ j ≠ i ∧ (threads j).pending = some p := by
  obtain ⟨hji, hx⟩ | ⟨hji, hx⟩ := of_update (rfl : Function.update threads i thread j = _)
  · exact .inl ⟨hji, hx ▸ h⟩
  · exact .inr ⟨hji, hx ▸ h⟩

end

theorem Moves.ordered {last : σ} (hs : Ordered body start s last) (h : Moves body s t) :
    ∃ last', Ordered body start t last' := by
  cases h with
  | @call i op hidle =>
    have hnew : ∀ e ∈ s.order, e.call ≠ s.calls := fun e he =>
      Nat.ne_of_lt (hs.numbered _ (hs.linearization.called e he))
    refine ⟨last, hs.linearization.call op hnew, ?_, ?_, ?_, ?_, hs.free, ?_⟩
    · intro m hm
      rcases List.mem_append.mp hm with hm | hm
      · exact Nat.lt_succ_of_lt (hs.numbered m hm)
      · rw [List.mem_singleton.mp hm]
        exact Nat.lt_succ_self _
    · intro j p hp
      obtain ⟨_, hp⟩ | ⟨_, hp⟩ := pending_of_update hp
      · cases hp
        exact ⟨List.mem_append_right _ (List.mem_singleton_self _), hnew⟩
      · exact ⟨List.mem_append_left _ (hs.pending j p hp).1, (hs.pending j p hp).2⟩
    · intro j k p q hp hq hpq
      have hold : ∀ j p, (s.threads j).pending = some p → p.1 ≠ s.calls := fun j p hp =>
        Nat.ne_of_lt (hs.numbered _ (hs.pending j p hp).1)
      obtain ⟨hj, hp⟩ | ⟨_, hp⟩ := pending_of_update hp
      · obtain ⟨hk, _⟩ | ⟨_, hq⟩ := pending_of_update hq
        · exact hj.trans hk.symm
        · cases hp
          exact absurd hpq.symm (hold k q hq)
      · obtain ⟨_, hq⟩ | ⟨_, hq⟩ := pending_of_update hq
        · cases hq
          exact absurd hpq (hold j p hp)
        · exact hs.apart j k p q hp hq hpq
    · intro j call r hj
      obtain ⟨_, hj⟩ | ⟨_, hj⟩ := of_update hj
      · cases hj
      · exact hs.leaving j call r hj
    · intro j call op' code hj
      obtain ⟨_, hj⟩ | ⟨_, hj⟩ := of_update hj
      · cases hj
      · exact hs.holding j call op' code hj
  | @lock i call op howner hwaiting =>
    have hpending : ∀ {j p}, ((s.set i (.holding call op (body op))).threads j).pending = some p →
        (s.threads j).pending = some p := by
      intro j p hp
      obtain ⟨rfl, hmine⟩ | ⟨_, hother⟩ := pending_of_update hp
      · rw [hwaiting]
        exact hmine
      · exact hother
    refine ⟨last, hs.linearization, hs.numbered, fun j p hp => hs.pending j p (hpending hp),
      fun j k p q hp hq => hs.apart j k p q (hpending hp) (hpending hq), ?_, fun hnone => (by cases hnone), ?_⟩
    · intro j call' r hj
      obtain ⟨_, hj⟩ | ⟨_, hj⟩ := of_update hj
      · cases hj
      · exact hs.leaving j call' r hj
    · intro j call' op' code hj
      obtain ⟨hji, hcode⟩ | ⟨_, hj⟩ := of_update hj
      · cases hcode
        exact ⟨congrArg some hji.symm, congrArg (body op).eval (hs.free howner)⟩
      · -- No other thread is at work, since the mutex was free.
        have hbusy := (hs.holding j call' op' code hj).1
        rw [howner] at hbusy
        cases hbusy
  | @act i call op f next hact =>
    obtain ⟨howner, heval⟩ := hs.holding i call op _ hact
    have hpending : ∀ {j p}, ((s.set i (.holding call op (next s.value))).threads j).pending = some p →
        (s.threads j).pending = some p := by
      intro j p hp
      obtain ⟨rfl, hmine⟩ | ⟨_, hother⟩ := pending_of_update hp
      · rw [hact]
        exact hmine
      · exact hother
    refine ⟨last, hs.linearization, hs.numbered, fun j p hp => hs.pending j p (hpending hp),
      fun j k p q hp hq => hs.apart j k p q (hpending hp) (hpending hq), ?_, fun hnone => ?_, ?_⟩
    · intro j call' r hj
      obtain ⟨_, hj⟩ | ⟨_, hj⟩ := of_update hj
      · cases hj
      · exact hs.leaving j call' r hj
    · rw [show s.owner = none from hnone] at howner
      cases howner
    · intro j call' op' code hj
      obtain ⟨hji, hcode⟩ | ⟨hji, hj⟩ := of_update hj
      · cases hcode
        exact ⟨hji ▸ howner, heval⟩
      · have hother := (hs.holding j call' op' code hj).1
        exact absurd (Option.some.inj (hother.symm.trans howner)) hji
  | @unlock i call op r hdone =>
    obtain ⟨howner, heval⟩ := hs.holding i call op _ hdone
    have hmine : (s.threads i).pending = some (call, op) := by rw [hdone]; rfl
    obtain ⟨hcalled, hnew⟩ := hs.pending i _ hmine
    have hresult : ((body op).eval last).1 = r := (congrArg Prod.fst heval).symm
    have hvalue : s.value = ((body op).eval last).2 := congrArg Prod.snd heval
    refine ⟨((body op).eval last).2, hs.linearization.snoc (e := ⟨call, op, r⟩) hnew hcalled hresult, hs.numbered,
      ?_, ?_, ?_, fun _ => hvalue, ?_⟩
    · intro j p hp
      obtain ⟨_, hp⟩ | ⟨hji, hp⟩ := pending_of_update hp
      · cases hp
      · refine ⟨(hs.pending j p hp).1, fun e he => ?_⟩
        rcases List.mem_append.mp he with he | he
        · exact (hs.pending j p hp).2 e he
        · rw [List.mem_singleton.mp he]
          exact fun heq => hji (hs.apart j i p _ hp hmine heq.symm)
    · intro j k p q hp hq
      obtain ⟨_, hp⟩ | ⟨_, hp⟩ := pending_of_update hp
      · cases hp
      · obtain ⟨_, hq⟩ | ⟨_, hq⟩ := pending_of_update hq
        · cases hq
        · exact hs.apart j k p q hp hq
    · intro j call' r' hj
      obtain ⟨_, hj⟩ | ⟨_, hj⟩ := of_update hj
      · cases hj
        exact ⟨op, List.mem_append_right _ (List.mem_singleton_self _)⟩
      · obtain ⟨op', hop'⟩ := hs.leaving j call' r' hj
        exact ⟨op', List.mem_append_left _ hop'⟩
    · intro j call' op' code hj
      obtain ⟨_, hj⟩ | ⟨hji, hj⟩ := of_update hj
      · cases hj
      · have hother := (hs.holding j call' op' code hj).1
        exact absurd (Option.some.inj (hother.symm.trans howner)) hji
  | @ret i call r hleaving =>
    obtain ⟨op, hentry⟩ := hs.leaving i call r hleaving
    have hpending : ∀ {j p}, ((s.set i .idle).threads j).pending = some p → (s.threads j).pending = some p := by
      intro j p hp
      obtain ⟨_, hidle⟩ | ⟨_, hother⟩ := pending_of_update hp
      · cases hidle
      · exact hother
    refine ⟨last, hs.linearization.ret hentry, ?_, ?_,
      fun j k p q hp hq => hs.apart j k p q (hpending hp) (hpending hq), ?_, hs.free, ?_⟩
    · intro m hm
      rcases List.mem_append.mp hm with hm | hm
      · exact hs.numbered m hm
      · rw [List.mem_singleton.mp hm]
        exact hs.numbered (.called call op) (hs.linearization.called _ hentry)
    · intro j p hp
      obtain ⟨hcalled, hnew⟩ := hs.pending j p (hpending hp)
      exact ⟨List.mem_append_left _ hcalled, hnew⟩
    · intro j call' r' hj
      obtain ⟨_, hj⟩ | ⟨_, hj⟩ := of_update hj
      · cases hj
      · exact hs.leaving j call' r' hj
    · intro j call' op' code hj
      obtain ⟨_, hj⟩ | ⟨_, hj⟩ := of_update hj
      · cases hj
      · exact hs.holding j call' op' code hj

theorem reachable_ordered (h : Reachable (object body start) s) : ∃ last, Ordered body start s last := by
  induction h with
  | init hinit =>
    cases hinit
    refine ⟨start, ⟨rfl, .nil, ?_, ?_, ?_⟩, ?_, ?_, ?_, ?_, fun _ => rfl, ?_⟩ <;> intros <;> contradiction
  | step _ hstep ih =>
    obtain ⟨last, hlast⟩ := ih
    exact (perform_moves hstep).ordered hlast

/-- **Every run is sequential from outside.** -/
theorem linearization (h : Reachable (object body start) s) :
    ∃ last, Linearization (fun op => (body op).eval) start s.history s.order last ∧
      (s.owner = none → s.value = last) := by
  obtain ⟨last, hlast⟩ := reachable_ordered h
  exact ⟨last, hlast.linearization, hlast.free⟩

end Guarded
