import Fmxp.Library.Mutex

/-! `ConcurrentQueue.hpp`.

`_queue` is a list guarded by `_mutex`, and a call does with it what its body does, step by step; `tryPop` moves the
front out before it takes it off. From outside it is a queue (`linearizable`), whatever the threads do at the same
time. -/
namespace Fmxp.ConcurrentQueue
open Guarded Transition

variable {τ : Type*}

inductive Op (τ : Type*) where
  | push (value : τ)
  | tryPop
  | clear

/-- The bodies of the functions. The result is what has been stored in `out`, if anything; `moved` is what is left of a
value that has been moved. -/
def body (moved : τ → τ) : Op τ → Code (List τ) (Option τ)
  | .push value => .act (fun q => q ++ [value]) fun _ => .done none
  | .tryPop =>
    -- `empty()`
    .act id fun q =>
      if q.isEmpty then .done none
      -- `out = std::move(_queue.front())`, then `pop()`
      else .act (fun q => q.modifyHead moved) fun q => .act List.tail fun _ => .done q.head?
  | .clear => .act (fun _ => []) fun _ => .done none

/-- What they do to a queue. -/
def apply : Op τ → List τ → Option τ × List τ
  | .push value, q => (none, q ++ [value])
  | .tryPop, q => (q.head?, q.tail)
  | .clear, _ => (none, [])

theorem eval_body (moved : τ → τ) (op : Op τ) (q : List τ) : (body moved op).eval q = apply op q := by
  cases op with
  | push value => rfl
  | tryPop => cases q <;> rfl
  | clear => rfl

/-! ### In and out -/

def pushed (order : List (Entry (Option τ) (Op τ))) : List τ :=
  order.filterMap fun e => match e.op with
    | .push value => some value
    | _ => none

def popped (order : List (Entry (Option τ) (Op τ))) : List τ :=
  order.filterMap fun e => match e.op with
    | .tryPop => e.result
    | _ => none

/-- First in, first out: what has been taken off the front is what has been popped, in order, and what has been
cleared. -/
theorem sequential_fifo {q last : List τ} {order : List (Entry (Option τ) (Op τ))} (h : Sequential apply q order last) :
    ∃ taken, q ++ pushed order = taken ++ last ∧ (popped order).Sublist taken ∧
      ((∀ e ∈ order, e.op ≠ .clear) → popped order = taken) := by
  induction order generalizing q with
  | nil =>
    cases h
    exact ⟨[], List.append_nil _, .slnil, fun _ => rfl⟩
  | cons e rest ih =>
    obtain ⟨call, op, result⟩ := e
    obtain ⟨hresult, hrest⟩ := h
    obtain ⟨taken, htaken, hsub, hall⟩ := ih hrest
    cases op with
    | push value =>
      refine ⟨taken, ?_, hsub, fun hno => hall fun e he => hno e (List.mem_cons_of_mem _ he)⟩
      rw [← htaken, apply, List.append_assoc]
      rfl
    | tryPop =>
      cases q with
      | nil =>
        cases hresult
        exact ⟨taken, htaken, hsub, fun hno => hall fun e he => hno e (List.mem_cons_of_mem _ he)⟩
      | cons value q =>
        cases hresult
        refine ⟨value :: taken, congrArg (value :: ·) htaken, hsub.cons_cons value, fun hno => ?_⟩
        exact congrArg (value :: ·) (hall fun e he => hno e (List.mem_cons_of_mem _ he))
    | clear =>
      refine ⟨q ++ taken, ?_, hsub.trans (List.sublist_append_right ..), fun hno => ?_⟩
      · rw [List.append_assoc, ← htaken]
        rfl
      · exact absurd rfl (hno _ (List.mem_cons_self ..))

/-- **The queue, from outside**: its calls are those of a sequential run that respects the order in which they were
made and returned, and in it no value is lost, none is popped twice and all come out in the order they went in. -/
theorem linearizable {ι : Type*} [DecidableEq ι] {moved : τ → τ} {s : Object (List τ) (Option τ) (Op τ) ι}
    (h : Reachable (object (body moved) []) s) :
    ∃ last, Linearization apply [] s.history s.order last ∧ (s.owner = none → s.value = last) ∧
      ∃ taken, pushed s.order = taken ++ last ∧ (popped s.order).Sublist taken ∧
        ((∀ e ∈ s.order, e.op ≠ .clear) → popped s.order = taken) := by
  obtain ⟨last, hlin, hfree⟩ := linearization h
  have heval : (fun op => (body moved op).eval) = apply := funext fun op => funext (eval_body moved op)
  rw [heval] at hlin
  exact ⟨last, hlin, hfree, sequential_fifo hlin.sequential⟩

/-- One thread pops while two others push; the one that called last is first. -/
theorem linearizable_three :
    ∃ s : Object (List Nat) (Option Nat) (Op Nat) (Fin 3), popped s.order = [8] ∧
      ∃ last, Linearization apply [] s.history s.order last ∧ (s.owner = none → s.value = last) ∧
        ∃ taken, pushed s.order = taken ++ last ∧ (popped s.order).Sublist taken ∧
          ((∀ e ∈ s.order, e.op ≠ .clear) → popped s.order = taken) := by
  have hrun : (execute (fun (s : Object (List Nat) (Option Nat) (Op Nat) (Fin 3)) move =>
      s.perform (body fun _ => 0) move)
      [.call 0 (.push 7), .call 1 (.push 8), .lock 1, .call 2 .tryPop, .act 1, .unlock 1, .lock 2, .act 2, .act 2,
        .ret 1, .act 2, .unlock 2, .ret 2, .lock 0, .act 0, .unlock 0] {value := []}).map
        (fun s => popped s.order) = some [8] := by
    decide +kernel
  obtain ⟨s, hs, hpopped⟩ := Option.map_eq_some_iff.mp hrun
  exact ⟨s, hpopped, linearizable (Reachable.execute (fun _ _ _ _ h => h) (.init rfl) hs)⟩

end Fmxp.ConcurrentQueue
