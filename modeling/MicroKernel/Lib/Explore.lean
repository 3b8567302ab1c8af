import Mathlib.Data.List.Basic

/-!
# Bounded exploration

A description says part of what holds in a state. From a description it is computed what a step may do
in the states that it fits; following the descriptions for a bounded number of steps gives all that runs
can show, if every run ends within the bound.

## Main definitions

* `Explore.Outcome`, `Explore.Outcome.Describes`: what a step may do
* `Explore.explore`: what the runs of a bounded number of steps show

## Main results

* `Explore.explore_sound`: every run from a state that the description fits ends, and shows one of the
  lists that are found
-/

namespace Explore

variable {D E S : Type*}

/-- What a step may do: it shows events, and goes on as described or ends. -/
structure Outcome (E D : Type*) where
  shown : List E
  next : Option D

/-- The elements of several lists, if all of them are there. -/
def collect : List (Option (List E)) → Option (List E)
  | [] => some []
  | none :: _ => none
  | some es :: rest => (collect rest).map (es ++ ·)

/-- What runs show that begin with an outcome, with what they show behind it. -/
def Outcome.follow (later : D → Option (List (List E))) : Outcome E D → Option (List (List E))
  | ⟨shown, none⟩ => some [shown]
  | ⟨shown, some d⟩ => (later d).map (List.map (shown ++ ·))

/-- What runs of at most `n` steps from a description show, if all runs from it end within these. -/
def explore (step : D → Option (List (Outcome E D))) : ℕ → D → Option (List (List E))
  | 0, _ => none
  | n + 1, d => (step d).bind fun outcomes =>
    collect (outcomes.map (Outcome.follow (explore step n)))

/-- The run from `s` goes as an outcome says: `Ends n s es` is to say that the run from `s` ends within
`n` steps and shows `es`. -/
def Outcome.Describes (Fits : D → S → Prop) (Ends : ℕ → S → List E → Prop) (n : ℕ) (s : S) :
    Outcome E D → Prop
  | ⟨shown, none⟩ => Ends (n + 1) s shown
  | ⟨shown, some d⟩ => ∃ t, Fits d t ∧ ∀ es, Ends n t es → Ends (n + 1) s (shown ++ es)

theorem subset_of_collect {lists : List (Option (List E))} {es all : List E}
    (h : collect lists = some all) (hes : some es ∈ lists) : es ⊆ all := by
  induction lists generalizing all with
  | nil => cases hes
  | cons list lists ih =>
    cases list with
    | none => cases h
    | some first =>
      obtain ⟨rest, hrest, rfl⟩ := Option.map_eq_some_iff.mp h
      rcases List.mem_cons.mp hes with heq | hes
      · obtain rfl := Option.some.inj heq
        exact List.subset_append_left _ _
      · exact List.Subset.trans (ih hrest hes) (List.subset_append_right _ _)

theorem exists_of_collect {lists : List (Option (List E))} {all : List E}
    (h : collect lists = some all) {list : Option (List E)} (hlist : list ∈ lists) :
    ∃ es, list = some es := by
  induction lists generalizing all with
  | nil => cases hlist
  | cons first lists ih =>
    cases first with
    | none => cases h
    | some es =>
      obtain ⟨rest, hrest, rfl⟩ := Option.map_eq_some_iff.mp h
      rcases List.mem_cons.mp hlist with rfl | hlist
      · exact ⟨es, rfl⟩
      · exact ih hrest hlist

/-- **Exploration is sound**: if each step goes as one of the outcomes of its description says, the run
ends within the bound, and shows one of the lists that are found. -/
theorem explore_sound {step : D → Option (List (Outcome E D))} {Fits : D → S → Prop}
    {Ends : ℕ → S → List E → Prop}
    (hstep : ∀ n d s outcomes, step d = some outcomes → Fits d s →
      ∃ o ∈ outcomes, o.Describes Fits Ends n s)
    {n : ℕ} {d : D} {s : S} {traces : List (List E)} (h : explore step n d = some traces)
    (hs : Fits d s) : ∃ es ∈ traces, Ends n s es := by
  induction n generalizing d s traces with
  | zero => cases h
  | succ n ih =>
    obtain ⟨outcomes, houtcomes, hcollect⟩ := Option.bind_eq_some_iff.mp h
    obtain ⟨o, ho, hends⟩ := hstep n d s outcomes houtcomes hs
    have hmem := List.mem_map_of_mem (f := Outcome.follow (explore step n)) ho
    obtain ⟨found, hfound⟩ := exists_of_collect hcollect hmem
    have hsubset := subset_of_collect hcollect (hfound ▸ hmem)
    obtain ⟨shown, - | d'⟩ := o
    · obtain rfl := Option.some.inj hfound
      exact ⟨shown, hsubset List.mem_cons_self, hends⟩
    · obtain ⟨later, hlater, rfl⟩ := Option.map_eq_some_iff.mp hfound
      obtain ⟨t, ht, hgo⟩ := hends
      obtain ⟨es, hes, hend⟩ := ih hlater ht
      exact ⟨shown ++ es, hsubset (List.mem_map_of_mem hes), hgo es hend⟩

end Explore
