import Mathlib.Data.List.Infix

/-!
# Occurrences of a pattern in a list

The leftmost occurrence of a pattern, and what is left when occurrences are deleted one after the
other or replaced from left to right.

## Main definitions

* `leftmost p t`: the least index at which `p` occurs in `t`
* `deleteAll p t`: the leftmost occurrence of `p` is deleted until there is none
* `replaceAll p r t`: the leftmost occurrences of `p` that do not overlap are replaced by `r`
* `Departs a b n t u`: the lists differ in front of `n`, first in an `a` of `t` and a `b` of `u`

## Main results

* `leftmost_eq_some_iff`, `leftmost_eq_none_iff`, `leftmost_drop`: the leftmost occurrence
* `deleteAll_of_some`, `replaceAll_of_some`: one occurrence, and the others
* `take_replaceAll`: a common front of pattern and replacement stays
* `take_append_replaceAll`: one occurrence replaced in place, and the others
* `departs_replace`, `Departs.trans`: occurrences replaced in place, one after the other
-/

namespace Occurrence

variable {α : Type*} {p r t u v c p' r' : List α} {i d n k : ℕ} {a b : α}

theorem add_length_le (hle : i ≤ t.length) (h : p <+: t.drop i) : i + p.length ≤ t.length := by
  have hlength := h.length_le
  rw [List.length_drop] at hlength
  omega

/-- A list is split by an occurrence. -/
theorem take_append_drop (h : p <+: t.drop i) :
    t.take i ++ p ++ t.drop (i + p.length) = t := by
  obtain ⟨rest, hrest⟩ := h
  have hdrop : t.drop (i + p.length) = rest := by
    rw [← List.drop_drop, ← hrest, List.drop_left]
  rw [hdrop, List.append_assoc, hrest, List.take_append_drop]

/-- The lists differ in front of `n`, first in an entry that is `a` in `t` and `b` in `u`. -/
def Departs (a b : α) (n : ℕ) (t u : List α) : Prop :=
  ∃ l x y, l.length < n ∧ t = l ++ a :: x ∧ u = l ++ b :: y

theorem Departs.mono (h : Departs a b n t u) (hle : n ≤ k) : Departs a b k t u := by
  obtain ⟨l, x, y, hl, ht, hu⟩ := h
  exact ⟨l, x, y, hl.trans_le hle, ht, hu⟩

/-- **Changes of `a` to `b`** never lead back: the first of the changed entries stays changed. -/
theorem Departs.trans (hab : a ≠ b) (h : Departs a b n t u) (h' : Departs a b k u v) :
    Departs a b n t v := by
  obtain ⟨l, x, y, hl, ht, hu⟩ := h
  obtain ⟨l', x', y', -, hu', hv⟩ := h'
  rw [hu] at hu'
  rcases List.append_eq_append_iff.mp hu' with ⟨z, rfl, hz⟩ | ⟨z, rfl, hz⟩
  · -- the second change lies behind the first
    cases z with
    | nil => exact absurd (List.cons.inj hz).1.symm hab
    | cons _ z =>
      obtain ⟨rfl, -⟩ := List.cons.inj hz
      exact ⟨l, x, z ++ b :: y', hl, ht, by rw [hv, List.append_assoc, List.cons_append]⟩
  · -- it lies in front of it
    cases z with
    | nil => exact absurd (List.cons.inj hz).1 hab
    | cons _ z =>
      obtain ⟨rfl, -⟩ := List.cons.inj hz
      rw [List.length_append] at hl
      exact ⟨l', z ++ a :: x, y', by omega, by rw [ht, List.append_assoc, List.cons_append], hv⟩

theorem Departs.take_ne (hab : a ≠ b) (h : Departs a b n t u) : t.take n ≠ u.take n := by
  obtain ⟨l, x, y, hl, rfl, rfl⟩ := h
  intro heq
  have hget := congrArg (fun s => s[l.length]?) heq
  simp only [List.getElem?_take_of_lt hl, List.getElem?_append_right, le_refl, Nat.sub_self,
    List.getElem?_cons_zero, Option.some.injEq] at hget
  exact hab hget

/-- Lists of one length that differ have a first entry in which they do. -/
theorem exists_front (hlength : p.length = r.length) (hne : p ≠ r) :
    ∃ c a b p' r', a ≠ b ∧ p = c ++ a :: p' ∧ r = c ++ b :: r' := by
  induction p generalizing r with
  | nil => exact absurd (List.length_eq_zero_iff.mp hlength.symm).symm hne
  | cons a p ih =>
    cases r with
    | nil => cases hlength
    | cons b r =>
      by_cases hab : a = b
      · subst hab
        obtain ⟨c, a', b', p', r', hab', rfl, rfl⟩ :=
          ih (Nat.succ.inj hlength) fun heq => hne (congrArg _ heq)
        exact ⟨a :: c, a', b', p', r', hab', rfl, rfl⟩
      · exact ⟨[], a, b, p, r, hab, rfl, rfl⟩

/-- An occurrence replaced in place changes an `a` to `b` first. -/
theorem departs_replace (h : p <+: t.drop i) (hp : p = c ++ a :: p') (hr : r = c ++ b :: r') :
    Departs a b (i + c.length + 1) t (t.take i ++ r ++ t.drop (i + p.length)) := by
  refine ⟨t.take i ++ c, p' ++ t.drop (i + p.length), r' ++ t.drop (i + p.length), ?_, ?_, ?_⟩
  · rw [List.length_append, List.length_take]
    omega
  · nth_rewrite 1 [← take_append_drop h, hp]
    simp only [List.append_assoc, List.cons_append]
  · rw [hr]
    simp only [List.append_assoc, List.cons_append]

variable [DecidableEq α]

/-- The least index at which the pattern occurs. -/
def leftmost (p t : List α) : Option ℕ :=
  (List.range (t.length + 1)).find? fun i => p <+: t.drop i

theorem leftmost_eq_some_iff :
    leftmost p t = some i ↔ i ≤ t.length ∧ p <+: t.drop i ∧ ∀ j < i, ¬ p <+: t.drop j := by
  rw [leftmost, List.find?_range_eq_some]
  simp only [decide_eq_true_iff, List.mem_range, Bool.not_eq_true', decide_eq_false_iff_not,
    Nat.lt_succ_iff]
  tauto

theorem leftmost_eq_none_iff : leftmost p t = none ↔ ∀ i ≤ t.length, ¬ p <+: t.drop i := by
  rw [leftmost, List.find?_range_eq_none]
  simp only [Bool.not_eq_true', decide_eq_false_iff_not, Nat.lt_succ_iff]

theorem leftmost_add_length_le (h : leftmost p t = some i) : i + p.length ≤ t.length :=
  add_length_le (leftmost_eq_some_iff.mp h).1 (leftmost_eq_some_iff.mp h).2.1

/-- **Behind a front without occurrences** the leftmost one is the same. -/
theorem leftmost_drop (hd : d ≤ t.length) (h : ∀ i, leftmost p t = some i → d ≤ i) :
    leftmost p (t.drop d) = (leftmost p t).map (· - d) := by
  cases hleft : leftmost p t with
  | none =>
    rw [leftmost_eq_none_iff] at hleft
    refine leftmost_eq_none_iff.mpr fun i hi => ?_
    rw [List.length_drop] at hi
    rw [List.drop_drop]
    exact hleft _ (by omega)
  | some i =>
    have hdi := h i hleft
    show leftmost p (t.drop d) = some (i - d)
    obtain ⟨hi, hp, hnot⟩ := leftmost_eq_some_iff.mp hleft
    refine leftmost_eq_some_iff.mpr ⟨by rw [List.length_drop]; omega, ?_, fun j hj => ?_⟩
    · rwa [List.drop_drop, Nat.add_sub_cancel' hdi]
    · rw [List.drop_drop]
      exact hnot _ (by omega)

/-- The leftmost occurrence is deleted until there is none. -/
def deleteAll (p t : List α) : List α :=
  if _hp : p = [] then t
  else match _h : leftmost p t with
    | none => t
    | some i => deleteAll p (t.take i ++ t.drop (i + p.length))
termination_by t.length
decreasing_by
  have hlength := leftmost_add_length_le _h
  have hpos := List.length_pos_of_ne_nil _hp
  rw [List.length_append, List.length_take, List.length_drop]
  omega

/-- The leftmost occurrences that do not overlap are replaced. -/
def replaceAll (p r t : List α) : List α :=
  if _hp : p = [] then t
  else match _h : leftmost p t with
    | none => t
    | some i => t.take i ++ r ++ replaceAll p r (t.drop (i + p.length))
termination_by t.length
decreasing_by
  have hlength := leftmost_add_length_le _h
  have hpos := List.length_pos_of_ne_nil _hp
  rw [List.length_drop]
  omega

theorem deleteAll_of_none (h : leftmost p t = none) : deleteAll p t = t := by
  rw [deleteAll]
  split
  · rfl
  · split
    · rfl
    · next h' => rw [h] at h'; cases h'

theorem deleteAll_of_some (hp : p ≠ []) (h : leftmost p t = some i) :
    deleteAll p t = deleteAll p (t.take i ++ t.drop (i + p.length)) := by
  rw [deleteAll, dif_neg hp]
  split
  · next h' => rw [h] at h'; cases h'
  · next h' => rw [h] at h'; cases h'; rfl

theorem replaceAll_of_none (h : leftmost p t = none) : replaceAll p r t = t := by
  rw [replaceAll]
  split
  · rfl
  · split
    · rfl
    · next h' => rw [h] at h'; cases h'

theorem replaceAll_of_some (hp : p ≠ []) (h : leftmost p t = some i) :
    replaceAll p r t = t.take i ++ r ++ replaceAll p r (t.drop (i + p.length)) := by
  rw [replaceAll, dif_neg hp]
  split
  · next h' => rw [h] at h'; cases h'
  · next h' => rw [h] at h'; cases h'; rfl

/-- A replacement that is not longer makes no list longer. -/
theorem length_replaceAll_le (hr : r.length ≤ p.length) :
    (replaceAll p r t).length ≤ t.length := by
  rcases eq_or_ne p [] with rfl | hp
  · rw [replaceAll, dif_pos rfl]
  induction hn : t.length using Nat.strong_induction_on generalizing t with
  | h n ih =>
    cases h : leftmost p t with
    | none => rw [replaceAll_of_none h, hn]
    | some i =>
      have hlength := leftmost_add_length_le h
      have hpos := List.length_pos_of_ne_nil hp
      have hrest := ih (n - (i + p.length)) (by omega)
        (show (t.drop (i + p.length)).length = _ by rw [List.length_drop, hn])
      rw [replaceAll_of_some hp h]
      simp only [List.length_append, List.length_take]
      omega

/-- A shorter replacement makes a list with an occurrence shorter. -/
theorem length_replaceAll_lt (hp : p ≠ []) (hr : r.length < p.length) (h : leftmost p t = some i) :
    (replaceAll p r t).length < t.length := by
  have hlength := leftmost_add_length_le h
  have hrest := length_replaceAll_le (t := t.drop (i + p.length)) hr.le
  rw [List.length_drop] at hrest
  rw [replaceAll_of_some hp h]
  simp only [List.length_append, List.length_take]
  omega

/-- **A common front** of pattern and replacement stays at the front of the list. -/
theorem take_replaceAll (hp : c <+: p) (hr : c <+: r) :
    (replaceAll p r t).take c.length = t.take c.length := by
  rcases eq_or_ne p [] with rfl | hne
  · rw [replaceAll, dif_pos rfl]
  cases h : leftmost p t with
  | none => rw [replaceAll_of_none h]
  | some i =>
    obtain ⟨p', rfl⟩ := hp
    obtain ⟨r', rfl⟩ := hr
    obtain ⟨hi, hoccurs, _⟩ := leftmost_eq_some_iff.mp h
    have hsplit := take_append_drop hoccurs
    have hfront : c.length ≤ (t.take i ++ c).length := by
      rw [List.length_append]
      omega
    rw [replaceAll_of_some hne h]
    nth_rewrite 3 [← hsplit]
    simp only [← List.append_assoc]
    simp only [List.append_assoc (t.take i ++ c)]
    rw [List.take_append_of_le_length hfront, List.take_append_of_le_length hfront]

/-- **An occurrence replaced in place**, when those in front of `d` are replaced already. -/
theorem take_append_replaceAll (hp : p ≠ []) (h : leftmost p t = some i) (hd : d ≤ i) :
    t.take d ++ replaceAll p r (t.drop d) =
      (t.take i ++ r ++ t.drop (i + p.length)).take (i + r.length) ++
        replaceAll p r ((t.take i ++ r ++ t.drop (i + p.length)).drop (i + r.length)) := by
  have hle := leftmost_add_length_le h
  have hfront : (t.take i ++ r).length = i + r.length := by
    rw [List.length_append, List.length_take]
    omega
  have hleft : leftmost p (t.drop d) = some (i - d) := by
    rw [leftmost_drop (by omega) fun j hj => by rw [h] at hj; cases hj; exact hd, h]
    rfl
  have htake : t.take d ++ (t.drop d).take (i - d) = t.take i := by
    rw [← List.take_add, Nat.add_sub_cancel' hd]
  rw [List.take_left' hfront, List.drop_left' hfront, replaceAll_of_some hp hleft, List.drop_drop,
    ← Nat.add_assoc, Nat.add_sub_cancel' hd, ← List.append_assoc, ← List.append_assoc, htake]

/-- The replacements behind `d` keep what is in front, and a common front there. -/
theorem take_take_append_replaceAll (hd : d ≤ t.length) (hp : c <+: p) (hr : c <+: r) :
    (t.take d ++ replaceAll p r (t.drop d)).take (d + c.length) = t.take (d + c.length) := by
  have hfront : (t.take d).length = d := by
    rw [List.length_take]
    omega
  rw [List.take_append, hfront, Nat.add_sub_cancel_left, take_replaceAll hp hr, List.take_take,
    Nat.min_eq_right (Nat.le_add_right _ _), List.take_add]

end Occurrence
