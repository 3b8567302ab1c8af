import Mathlib.Data.List.Basic

/-!
# Runs of operations

A run executes a list of operations, each of which leads from a state to the next or fails. It is
legal when each operation is allowed in the state it meets. An invariant that allowed operations
keep holds in every state of a legal run, and no operation of it fails.

## Main definitions

* `Run.exec step ops s`: the state after the operations
* `Run.Legal step allowed ops s`: every operation is allowed where it is executed

## Main results

* `Run.exec_legal`: the invariant rule
* `Run.exec_append`, `Run.Legal.append`: a run that goes on
* `Run.foldl_take_eq_iff`: when operations leave a state
-/

namespace Run

variable {S L E : Type*}

/-- The state after the operations, in order. -/
def exec (step : L → S → Except E S) : List L → S → Except E S
  | [], s => .ok s
  | l :: ls, s => step l s >>= exec step ls

/-- Every operation is allowed in the state it is executed in. -/
def Legal (step : L → S → Except E S) (allowed : L → S → Prop) : List L → S → Prop
  | [], _ => True
  | l :: ls, s => allowed l s ∧ ∀ t, step l s = .ok t → Legal step allowed ls t

instance Legal.decidable (step : L → S → Except E S) (allowed : L → S → Prop)
    [∀ l s, Decidable (allowed l s)] : ∀ ls s, Decidable (Legal step allowed ls s)
  | [], _ => .isTrue trivial
  | l :: ls, s =>
    match h : step l s with
    | .ok t =>
      have := Legal.decidable step allowed ls t
      decidable_of_iff (allowed l s ∧ Legal step allowed ls t) (by simp [Legal, h])
    | .error e => decidable_of_iff (allowed l s) (by simp [Legal, h])

variable {step : L → S → Except E S} {allowed : L → S → Prop} {l : L} {ls : List L} {s t : S}

theorem exec_cons_of_ok (h : step l s = .ok t) : exec step (l :: ls) s = exec step ls t := by
  rw [exec, h]
  rfl

/-- **The invariant rule**: a legal run does not fail, and leads to a state of the invariant. -/
theorem exec_legal {I : S → Prop}
    (hstep : ∀ l s, I s → allowed l s → ∃ t, step l s = .ok t ∧ I t) (hs : I s)
    (hl : Legal step allowed ls s) : ∃ t, exec step ls s = .ok t ∧ I t := by
  induction ls generalizing s with
  | nil => exact ⟨s, rfl, hs⟩
  | cons l ls ih =>
    obtain ⟨t, ht, hit⟩ := hstep l s hs hl.1
    rw [exec_cons_of_ok ht]
    exact ih hit (hl.2 t ht)

/-- In the states of an invariant, what is allowed may allow more. -/
theorem Legal.mono_of_invariant {I : S → Prop} {allowed' : L → S → Prop}
    (hstep : ∀ l s t, I s → allowed l s → step l s = .ok t → I t)
    (hmono : ∀ l ∈ ls, ∀ s, I s → allowed l s → allowed' l s) (hs : I s)
    (hl : Legal step allowed ls s) : Legal step allowed' ls s := by
  induction ls generalizing s with
  | nil => trivial
  | cons l ls ih =>
    have hmono := List.forall_mem_cons.mp hmono
    exact ⟨hmono.1 s hs hl.1, fun t ht => ih hmono.2 (hstep l s t hs hl.1 ht) (hl.2 t ht)⟩

theorem Legal.mono_mem {allowed' : L → S → Prop}
    (hmono : ∀ l ∈ ls, ∀ s, allowed l s → allowed' l s) (hl : Legal step allowed ls s) :
    Legal step allowed' ls s :=
  hl.mono_of_invariant (I := fun _ => True) (fun _ _ _ _ _ _ => trivial)
    (fun l hmem s _ => hmono l hmem s) trivial

theorem Legal.mono {allowed' : L → S → Prop} (hmono : ∀ l s, allowed l s → allowed' l s)
    (hl : Legal step allowed ls s) : Legal step allowed' ls s :=
  hl.mono_mem fun l _ => hmono l

theorem exec_append (ls ls' : List L) (s : S) :
    exec step (ls ++ ls') s = exec step ls s >>= exec step ls' := by
  induction ls generalizing s with
  | nil => rfl
  | cons l ls ih =>
    show (step l s >>= exec step (ls ++ ls')) = (step l s >>= exec step ls) >>= exec step ls'
    cases step l s with
    | error e => rfl
    | ok t => exact ih t

theorem exec_append_of_ok {ls' : List L} (h : exec step ls s = .ok t) :
    exec step (ls ++ ls') s = exec step ls' t := by
  rw [exec_append, h]
  rfl

/-- A legal run goes on with one from where it leads. -/
theorem Legal.append {ls' : List L} (hl : Legal step allowed ls s) (h : exec step ls s = .ok t)
    (hl' : Legal step allowed ls' t) : Legal step allowed (ls ++ ls') s := by
  induction ls generalizing s with
  | nil =>
    cases h
    exact hl'
  | cons l ls ih =>
    refine ⟨hl.1, fun u hu => ih (hl.2 u hu) ?_⟩
    rwa [exec_cons_of_ok hu] at h

/-- **Operations leave a state**, however many of them are done, if and only if each of them does. -/
theorem foldl_take_eq_iff {f : S → L → S} :
    (∀ k, (ls.take k).foldl f s = s) ↔ ∀ l ∈ ls, f s l = s := by
  induction ls with
  | nil => exact iff_of_true (fun k => by rw [List.take_nil]; rfl) fun l hl =>
      absurd hl List.not_mem_nil
  | cons l ls ih =>
    rw [List.forall_mem_cons, ← ih]
    constructor
    · intro h
      have hone := h 1
      rw [List.take_succ_cons, List.take_zero, List.foldl_cons, List.foldl_nil] at hone
      refine ⟨hone, fun k => ?_⟩
      have hnext := h (k + 1)
      rwa [List.take_succ_cons, List.foldl_cons, hone] at hnext
    · rintro ⟨hone, h⟩ k
      cases k with
      | zero => rfl
      | succ k => rw [List.take_succ_cons, List.foldl_cons, hone, h k]

end Run
