import Mathlib.Data.Fintype.EquivFin
import Mathlib.Data.Fintype.Lattice
import MicroKernel.Lib.Transition

/-!
# Lasting conditions

A condition lasts when no step ends it. Finitely many lasting conditions, each of which comes about on
its own, come about together.

## Main definitions

* `Transition.Lasts step allowed I P`: a step from a state of the invariant `I` does not end `P`

## Main results

* `Transition.Reachable.exists_forall`: conditions that can each be reached can be reached together
* `Transition.Execution.exists_forall`: conditions that each hold once hold together from some state on
-/

namespace Transition

variable {S L ι : Type*}

/-- No allowed step from a state of the invariant `I` ends the condition `P`. -/
def Lasts (step : L → S → Option S) (allowed : L → S → Prop) (I P : S → Prop) : Prop :=
  ∀ l s t, I s → P s → allowed l s → step l s = some t → P t

variable {step : L → S → Option S} {allowed : L → S → Prop} {s₀ s t : S} {I : S → Prop}
  {P : ι → S → Prop}

/-- A lasting condition of a state holds in every state that is reached from it. -/
theorem Lasts.of_reachable {P : S → Prop} (hP : Lasts step allowed I P)
    (hI : ∀ l s t, I s → allowed l s → step l s = some t → I t) (hs : I s) (hPs : P s)
    (h : Reachable step allowed s t) : P t := by
  refine (h.invariant (I := fun t => I t ∧ P t) ⟨hs, hPs⟩ ?_).2
  rintro l u v ⟨hu, hPu⟩ hl hstep
  exact ⟨hI l u v hu hl hstep, hP l u v hu hPu hl hstep⟩

/-- **Conditions that can each be reached** can be reached together, if they last. -/
theorem Reachable.exists_forall [Finite ι]
    (hI : ∀ l s t, I s → allowed l s → step l s = some t → I t)
    (hP : ∀ i, Lasts step allowed I (P i))
    (hreach : ∀ i s, I s → ∃ t, Reachable step allowed s t ∧ P i t) (hs : I s) :
    ∃ t, Reachable step allowed s t ∧ I t ∧ ∀ i, P i t := by
  classical
  have := Fintype.ofFinite ι
  -- one condition after the other
  have hsome : ∀ F : Finset ι, ∃ t, Reachable step allowed s t ∧ I t ∧ ∀ i ∈ F, P i t := by
    intro F
    induction F using Finset.induction_on with
    | empty => exact ⟨s, .start, hs, fun i hi => absurd hi (Finset.notMem_empty i)⟩
    | insert i F _ ih =>
      obtain ⟨t, ht, hIt, hF⟩ := ih
      obtain ⟨u, hu, hi⟩ := hreach i t hIt
      refine ⟨u, ht.trans hu, hu.invariant hIt hI, fun j hj => ?_⟩
      rcases Finset.mem_insert.mp hj with rfl | hj
      · exact hi
      · exact (hP j).of_reachable hI hIt (hF j hj) hu
  obtain ⟨t, ht, hIt, hall⟩ := hsome Finset.univ
  exact ⟨t, ht, hIt, fun i => hall i (Finset.mem_univ i)⟩

variable {labels : ℕ → L} {states : ℕ → S}

/-- A lasting condition holds from each state of a run on in which it holds. -/
theorem Lasts.of_le {P : S → Prop} (hP : Lasts step (fun _ _ => True) I P)
    (hexec : Execution step s₀ labels states) (hI : ∀ n, I (states n)) {n k : ℕ} (hn : P (states n))
    (hk : n ≤ k) : P (states k) := by
  induction k, hk using Nat.le_induction with
  | base => exact hn
  | succ k _ ih => exact hP _ _ _ (hI k) ih trivial (hexec.next k)

/-- **Conditions that each hold once** in a run hold together from some state on, if they last. -/
theorem Execution.exists_forall [Finite ι] (hexec : Execution step s₀ labels states)
    (hI : ∀ n, I (states n)) (hP : ∀ i, Lasts step (fun _ _ => True) I (P i))
    (h : ∀ i, ∃ n, P i (states n)) : ∃ n, ∀ k ≥ n, ∀ i, P i (states k) := by
  have := Fintype.ofFinite ι
  choose n hn using h
  refine ⟨Finset.univ.sup n, fun k hk i => (hP i).of_le hexec hI (hn i) ?_⟩
  exact (Finset.le_sup (Finset.mem_univ i)).trans hk

end Transition
