import Mathlib.Data.List.Basic

/-!
# Transition systems

A system takes labelled steps, each of which is possible in some of its states. A state is reachable
when a list of steps leads to it, all of them allowed where they are taken.

## Main definitions

* `Transition.Reachable step allowed s₀ s`: allowed steps lead from `s₀` to `s`
* `Transition.run step labels s`: the state after a list of steps
* `Transition.Execution step s₀ labels states`: an infinite run
* `Transition.Leads step allowed P t s`: every run from `s` comes to `t`, and `P` holds up to there

## Main results

* `Transition.Reachable.invariant`: the invariant rule
* `Transition.Reachable.run`: a run leads from a reachable state to a reachable state
-/

namespace Transition

variable {S L : Type*}

/-- Allowed steps lead from the state `s₀` to a state. -/
inductive Reachable (step : L → S → Option S) (allowed : L → S → Prop) (s₀ : S) : S → Prop
  | start : Reachable step allowed s₀ s₀
  | next {l : L} {s t : S} (h : Reachable step allowed s₀ s) (hl : allowed l s)
      (hstep : step l s = some t) : Reachable step allowed s₀ t

/-- The state after a list of steps. -/
def run (step : L → S → Option S) : List L → S → Option S
  | [], s => some s
  | l :: ls, s => (step l s).bind (run step ls)

/-- Every step of a list is allowed where it is taken. -/
def Allowed (step : L → S → Option S) (allowed : L → S → Prop) : List L → S → Prop
  | [], _ => True
  | l :: ls, s => allowed l s ∧ ∀ t, step l s = some t → Allowed step allowed ls t

instance Allowed.decidable (step : L → S → Option S) (allowed : L → S → Prop)
    [∀ l s, Decidable (allowed l s)] : ∀ ls s, Decidable (Allowed step allowed ls s)
  | [], _ => .isTrue trivial
  | l :: ls, s =>
    match h : step l s with
    | some t =>
      have := Allowed.decidable step allowed ls t
      decidable_of_iff (allowed l s ∧ Allowed step allowed ls t) (by simp [Allowed, h])
    | none => decidable_of_iff (allowed l s) (by simp [Allowed, h])

/-- An infinite run from the state `s₀`. -/
structure Execution (step : L → S → Option S) (s₀ : S) (labels : ℕ → L) (states : ℕ → S) : Prop where
  start : states 0 = s₀
  next : ∀ n, step (labels n) (states n) = some (states (n + 1))

/-- Every run of allowed steps from a state comes to the state `t`, and `P` holds up to there. -/
inductive Leads (step : L → S → Option S) (allowed : L → S → Prop) (P : S → Prop) (t : S) :
    S → Prop
  | here (ht : P t) : Leads step allowed P t t
  | next {s : S} (hs : P s) (hstep : ∃ l u, allowed l s ∧ step l s = some u)
      (hall : ∀ l u, allowed l s → step l s = some u → Leads step allowed P t u) :
      Leads step allowed P t s

variable {step : L → S → Option S} {allowed : L → S → Prop} {s₀ s t u : S}

namespace Reachable

/-- **The invariant rule**: what holds at the start and is kept by every allowed step holds in every
reachable state. -/
theorem invariant {I : S → Prop} (hs₀ : I s₀)
    (hstep : ∀ l s t, I s → allowed l s → step l s = some t → I t)
    (h : Reachable step allowed s₀ s) : I s := by
  induction h with
  | start => exact hs₀
  | next _ hl hs ih => exact hstep _ _ _ ih hl hs

theorem trans (hs : Reachable step allowed s₀ s) (ht : Reachable step allowed s t) :
    Reachable step allowed s₀ t := by
  induction ht with
  | start => exact hs
  | next _ hl hstep ih => exact ih.next hl hstep

/-- A list of allowed steps leads from a reachable state to a reachable state. -/
theorem run {ls : List L} (h : Reachable step allowed s₀ s) (hallowed : Allowed step allowed ls s)
    (hrun : Transition.run step ls s = some t) : Reachable step allowed s₀ t := by
  induction ls generalizing s with
  | nil =>
    obtain rfl := Option.some.inj hrun
    exact h
  | cons l ls ih =>
    obtain ⟨u, hu, hrest⟩ := Option.bind_eq_some_iff.mp hrun
    exact ih (h.next hallowed.1 hu) (hallowed.2 u hu) hrest

end Reachable

theorem Allowed.of_forall (h : ∀ l s, allowed l s) (ls : List L) (s : S) :
    Allowed step allowed ls s := by
  induction ls generalizing s with
  | nil => trivial
  | cons l ls ih => exact ⟨h l s, fun t _ => ih t⟩

/-- A state that takes one step leads where that step leads. -/
theorem Leads.of_unique {P : S → Prop} {l : L} (hs : P s) (hl : allowed l s)
    (hstep : step l s = some u) (hunique : ∀ k v, step k s = some v → v = u)
    (h : Leads step allowed P t u) : Leads step allowed P t s := by
  refine .next hs ⟨l, u, hl, hstep⟩ fun k v _ hv => ?_
  rw [hunique k v hv]
  exact h

/-- Every state of an infinite run is reachable. -/
theorem Execution.reachable {labels : ℕ → L} {states : ℕ → S}
    (h : Execution step s₀ labels states) (n : ℕ) :
    Reachable step (fun _ _ => True) s₀ (states n) := by
  induction n with
  | zero =>
    rw [h.start]
    exact .start
  | succ n ih => exact ih.next trivial (h.next n)

end Transition
