import Fmxp.Library.Fair
import Fmxp.Library.Slots

/-! Slots that are empty time and again.

A slot gives up what it holds only by its being done. Where every slot is empty some time, everything that the slots
hold is done in the end (`settles`), however often they are filled again. -/
namespace Slots
open Transition
variable {σ α β : Type*}

/-- At most one slot gives up some of what it holds, and that is done. -/
def Moves (done : σ → List β) (held : σ → Nat → List β) (s t : σ) : Prop :=
  ∃ i finished, done t = done s ++ finished ∧ (held s i).Subperm (finished ++ held t i) ∧
    ∀ j, j ≠ i → (held s j).Subperm (held t j)

section
variable {done : σ → List β} {held : σ → Nat → List β} {s t : σ}

theorem Moves.refl (s : σ) : Moves done held s s :=
  ⟨0, [], (List.append_nil _).symm, List.Subperm.refl _, fun _ _ => List.Subperm.refl _⟩

theorem flatMap_subperm {f g : Nat → List β} {is : List Nat} (h : ∀ i ∈ is, (f i).Subperm (g i)) :
    (is.flatMap f).Subperm (is.flatMap g) := by
  induction is with
  | nil => exact List.nil_subperm
  | cons i is ih =>
    rw [List.flatMap_cons, List.flatMap_cons]
    exact (h i (List.mem_cons_self ..)).append (ih fun j hj => h j (List.mem_cons_of_mem _ hj))

/-- What some of the slots hold is done or still held by them. -/
theorem Moves.kept (h : Moves done held s t) {is : List Nat} (his : is.Nodup) :
    (done s ++ is.flatMap (held s)).Subperm (done t ++ is.flatMap (held t)) := by
  obtain ⟨i, finished, hdone, hi, hothers⟩ := h
  rw [hdone, List.append_assoc]
  refine (List.subperm_append_left _).mpr ?_
  induction is with
  | nil => exact List.nil_subperm
  | cons j is ih =>
    obtain ⟨hj, hrest⟩ := List.nodup_cons.mp his
    rw [List.flatMap_cons, List.flatMap_cons]
    by_cases heq : j = i
    · subst heq
      have hsame : (is.flatMap (held s)).Subperm (is.flatMap (held t)) :=
        flatMap_subperm fun k hk => hothers k fun hkj => hj (hkj ▸ hk)
      rw [← List.append_assoc]
      exact hi.append hsame
    · refine ((hothers j heq).append (ih hrest)).trans (List.Perm.subperm ?_)
      rw [← List.append_assoc, ← List.append_assoc]
      exact List.perm_append_comm.append_right _

/-- **What is done or held is done in the end**, if every slot that holds something is empty some time. -/
theorem settles {S : System σ α} (ρ : Trace S) (hmoves : ∀ k, Moves done held (ρ.state k) (ρ.state (k + 1)))
    (hempties : ∀ k i, held (ρ.state k) i ≠ [] → ρ.Eventually (fun s => held s i = []) k) {owed : List β}
    {is : List Nat} (his : is.Nodup) {n : Nat}
    (hn : owed.Subperm (done (ρ.state n) ++ is.flatMap (held (ρ.state n)))) :
    ρ.Eventually (fun s => owed.Subperm (done s)) n := by
  induction is generalizing n with
  | nil =>
    rw [List.flatMap_nil, List.append_nil] at hn
    exact .now hn
  | cons i is ih =>
    have hempty : ρ.Eventually (fun s => held s i = []) n := by
      by_cases hheld : held (ρ.state n) i = []
      · exact .now hheld
      · exact hempties n i hheld
    obtain ⟨m, hnm, hm⟩ := hempty
    have howed : owed.Subperm (done (ρ.state m) ++ (i :: is).flatMap (held (ρ.state m))) :=
      ρ.persists (fun s => owed.Subperm (done s ++ (i :: is).flatMap (held s)))
        (fun k _ hk => hk.trans ((hmoves k).kept his)) hn hnm
    rw [List.flatMap_cons, hm, List.nil_append] at howed
    exact (ih (List.nodup_cons.mp his).2 howed).later hnm

end

end Slots
