import Mathlib.Data.List.Basic

/-!
# The latest decision

The elements of a list decide something, one after the other, each anew or not at all: what holds in
the end is the decision of the last one that decides.

## Main definitions

* `latest f l`: the value `f` has at the last element where it has one

## Main results

* `latest_append`, `latest_cons`: the latest decision of a longer list
* `latest_eq_some_iff`: where the latest decision is
-/

variable {A B : Type*}

/-- The value of `f` at the last element of the list where it has one. -/
def latest (f : A → Option B) (l : List A) : Option B := l.reverse.findSome? f

section Latest

variable {f : A → Option B} {l r : List A} {a : A}

@[simp] theorem latest_nil : latest f [] = none := rfl

@[simp] theorem latest_append : latest f (l ++ r) = (latest f r).or (latest f l) := by
  rw [latest, List.reverse_append, List.findSome?_append]
  rfl

@[simp] theorem latest_singleton : latest f [a] = f a := by
  rw [latest, List.reverse_singleton, List.findSome?_singleton]

theorem latest_cons : latest f (a :: l) = (latest f l).or (f a) := by
  rw [← List.singleton_append, latest_append, latest_singleton]

/-- **The latest decision** is that of an element behind which nothing is decided. -/
theorem latest_eq_some_iff {b : B} : latest f l = some b ↔
    ∃ before a after, l = before ++ a :: after ∧ f a = some b ∧ ∀ x ∈ after, f x = none := by
  rw [latest, List.findSome?_eq_some_iff]
  constructor
  · rintro ⟨front, a, back, hl, ha, hnone⟩
    refine ⟨back.reverse, a, front.reverse, ?_, ha, fun x hx => hnone x (List.mem_reverse.mp hx)⟩
    rw [← List.reverse_reverse l, hl]
    simp
  · rintro ⟨before, a, after, rfl, ha, hnone⟩
    exact ⟨after.reverse, a, before.reverse, by simp, ha,
      fun x hx => hnone x (List.mem_reverse.mp hx)⟩

theorem latest_eq_none_iff : latest f l = none ↔ ∀ a ∈ l, f a = none := by
  rw [latest, List.findSome?_eq_none_iff]
  simp only [List.mem_reverse]

end Latest
