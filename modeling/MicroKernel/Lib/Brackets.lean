import MicroKernel.Lib.Latest

/-!
# Matched brackets

Lists in which the elements that open and those that close are properly nested, among others that
do neither. The last bracket of a balanced list is a closing one.

## Main definitions

* `Bracketed opens closes l`: the brackets of `l` are properly nested
* `Matching opens closes l a body`: what closes behind `l` matches `a`, with `body` between

## Main results

* `Bracketed.exists_matching`: whatever closes in a balanced list has its match
* `Bracketed.latest_eq`: the latest bracket of a balanced list
-/

variable {A B : Type*}

/-- The elements that open and those that close are properly nested. -/
inductive Bracketed (opens closes : A → Prop) : List A → Prop
  | nil : Bracketed opens closes []
  | other {a l} (ho : ¬ opens a) (hc : ¬ closes a) (hl : Bracketed opens closes l) :
    Bracketed opens closes (a :: l)
  | nested {a l b r} (ha : opens a) (hl : Bracketed opens closes l) (hb : closes b)
    (hr : Bracketed opens closes r) : Bracketed opens closes (a :: (l ++ b :: r))

/-- What closes right behind the list matches `a`, over a balanced `body`. -/
def Matching (opens closes : A → Prop) (l : List A) (a : A) (body : List A) : Prop :=
  ∃ outer, l = outer ++ a :: body ∧ opens a ∧ Bracketed opens closes body

section Brackets

variable {opens closes : A → Prop} {l pre post body : List A} {a b : A}

/-- A match in a part of a list is one in the whole. -/
theorem Matching.append (h : Matching opens closes l a body) (outer : List A) :
    Matching opens closes (outer ++ l) a body := by
  obtain ⟨front, rfl, h⟩ := h
  exact ⟨outer ++ front, (List.append_assoc ..).symm, h⟩

namespace Bracketed

/-- **Whatever closes** in a balanced list has its match in it. -/
theorem exists_matching (hdisj : ∀ a, opens a → ¬ closes a) (h : Bracketed opens closes l)
    (hl : l = pre ++ b :: post) (hb : closes b) : ∃ a body, Matching opens closes pre a body := by
  induction h generalizing pre post with
  | nil => exact absurd hl.symm (List.append_ne_nil_of_right_ne_nil _ (List.cons_ne_nil _ _))
  | @other a l _ hc _ ih =>
    obtain ⟨rfl, hcons⟩ | ⟨pre, rfl, rfl⟩ := List.cons_eq_append_iff.mp hl
    · cases hcons
      exact absurd hb hc
    · obtain ⟨a', body, hm⟩ := ih rfl
      exact ⟨a', body, hm.append [a]⟩
  | @nested a l b' r ha hbody _ _ ihl ihr =>
    obtain ⟨rfl, hcons⟩ | ⟨pre, rfl, htail⟩ := List.cons_eq_append_iff.mp hl
    · cases hcons
      exact absurd hb (hdisj _ ha)
    obtain ⟨mid, rfl, hmid⟩ | ⟨mid, rfl, hmid⟩ := List.append_eq_append_iff.mp htail
    · obtain ⟨rfl, hcons⟩ | ⟨mid, rfl, rfl⟩ := List.cons_eq_append_iff.mp hmid
      -- the bracket that closes the first one
      · cases hcons
        exact ⟨a, l, [], by simp, ha, hbody⟩
      -- behind it
      · obtain ⟨a', body, hm⟩ := ihr rfl
        refine ⟨a', body, ?_⟩
        simpa using hm.append (a :: (l ++ [b']))
    · obtain ⟨rfl, hcons⟩ | ⟨mid, rfl, hpost⟩ := List.cons_eq_append_iff.mp hmid
      · cases hcons
        exact ⟨a, pre, [], by simp, ha, by simpa using hbody⟩
      -- inside
      · obtain ⟨a', body, hm⟩ := ihl rfl
        exact ⟨a', body, hm.append [a]⟩

/-- **The latest bracket** of a balanced list closes, if it has one at all. -/
theorem latest_eq {f : A → Option B} {c : B} (hother : ∀ a, ¬ opens a → ¬ closes a → f a = none)
    (hcloses : ∀ a, closes a → f a = some c) (h : Bracketed opens closes l) :
    (latest f l = none ∧ ∀ a ∈ l, ¬ opens a) ∨ (latest f l = some c ∧ ∃ a ∈ l, opens a) := by
  induction h with
  | nil => exact Or.inl ⟨rfl, fun a ha => absurd ha List.not_mem_nil⟩
  | @other a l ho hc _ ih =>
    rw [latest_cons, hother a ho hc, Option.or_none]
    refine ih.imp (fun ⟨hf, hl⟩ => ⟨hf, List.forall_mem_cons.mpr ⟨ho, hl⟩⟩) ?_
    exact fun ⟨hf, b, hb, hob⟩ => ⟨hf, b, List.mem_cons_of_mem _ hb, hob⟩
  | @nested a l b r ha _ hb _ _ ih =>
    refine Or.inr ⟨?_, a, List.mem_cons_self, ha⟩
    have hr : (latest f r).or (some c) = some c := by
      obtain ⟨hf, -⟩ | ⟨hf, -⟩ := ih <;> rw [hf] <;> rfl
    rw [latest_cons, latest_append, latest_cons, hcloses b hb, hr]
    rfl

end Bracketed

end Brackets
