import Mathlib.Data.List.Basic
import MicroKernel.Lib.Store

/-!
# Arrays of words

Words stored one behind the other in a sequence of bytes, from position 0 on. An entry is removed by
moving the last one into its place, so the order of the others is not kept.

## Main definitions

* `HoldsWords byte l`: the bytes are those of the words of `l`
* `List.swapRemove a l`: `l` with the first `a` replaced by the last element

## Main results

* `HoldsWords.wordOf_eq`: a word is read back
* `HoldsWords.concat`, `HoldsWords.swapRemove`: a word stored behind the others, or replaced by the
  last
* `List.swapRemove_perm`: a removal takes one element out
-/

/-! ## Removal by the last element -/

section SwapRemove

variable {A : Type*} [DecidableEq A] {a : A} {l : List A}

/-- The list with the first `a` replaced by the last element. -/
def List.swapRemove (a : A) (l : List A) : List A := (l.set (l.idxOf a) (l.getLastD a)).dropLast

@[simp] theorem List.length_swapRemove : (l.swapRemove a).length = l.length - 1 := by
  simp [List.swapRemove]

theorem List.getElem_swapRemove {i : ℕ} (hl : i < l.length) (hi : i < (l.swapRemove a).length) :
    (l.swapRemove a)[i] = if l.idxOf a = i then l.getLastD a else l[i] := by
  simp only [List.swapRemove, List.getElem_dropLast, List.getElem_set]

/-- **A removal** takes one element out. -/
theorem List.swapRemove_perm (h : a ∈ l) : (l.swapRemove a).Perm (l.erase a) := by
  obtain ⟨pre, post, rfl, hpre⟩ := List.eq_append_cons_of_mem h
  rw [List.swapRemove, List.idxOf_append, if_neg hpre, List.idxOf_cons_self, Nat.zero_add,
    List.erase_append_right _ hpre, List.erase_cons_head]
  rcases List.eq_nil_or_concat post with rfl | ⟨post, b, rfl⟩
  · simp
  · have hset : (pre ++ a :: (post ++ [b])).set pre.length b = (pre ++ b :: post) ++ [b] := by simp
    have hlast : (pre ++ a :: (post ++ [b])).getLastD a = b := by
      rw [← List.cons_append, ← List.append_assoc, List.getLastD_concat]
    rw [List.concat_eq_append, hlast, hset, List.dropLast_concat]
    exact (List.perm_append_left_iff pre).mpr (List.perm_append_singleton b post).symm

end SwapRemove

namespace Store

/-! ## Words in a sequence of bytes -/

/-- The bytes from position 0 on are those of the words of `l`. -/
def HoldsWords (byte : ℕ → UInt8) (l : List UInt32) : Prop :=
  ∀ i, ∀ hi : i < l.length, ∀ k < 4, byte (4 * i + k) = wordByte l[i] k

section HoldsWords

variable {byte byte' : ℕ → UInt8} {l : List UInt32} {w : UInt32}

theorem holdsWords_nil (byte : ℕ → UInt8) : HoldsWords byte [] := fun _ hi => absurd hi (by simp)

/-- **A word is read back.** -/
theorem HoldsWords.wordOf_eq (h : HoldsWords byte l) {i : ℕ} (hi : i < l.length) :
    wordOf (fun k => byte (4 * i + k)) = l[i] := by
  rw [wordOf_congr (h i hi), wordOf_wordByte]

theorem HoldsWords.congr (h : HoldsWords byte l) (hb : ∀ n < 4 * l.length, byte' n = byte n) :
    HoldsWords byte' l := by
  intro i hi k hk
  rw [hb _ (by omega), h i hi k hk]

/-- **A word stored behind the others.** -/
theorem HoldsWords.concat (h : HoldsWords byte l) (hb : ∀ n < 4 * l.length, byte' n = byte n)
    (hw : ∀ k < 4, byte' (4 * l.length + k) = wordByte w k) : HoldsWords byte' (l ++ [w]) := by
  intro i hi k hk
  rw [List.length_append, List.length_singleton] at hi
  rcases Nat.lt_succ_iff_lt_or_eq.mp hi with hlt | rfl
  · rw [List.getElem_append_left hlt]
    exact h.congr hb i hlt k hk
  · rw [List.getElem_concat_length rfl]
    exact hw k hk

/-- **A word replaced by the last**, which is then left out. -/
theorem HoldsWords.swapRemove (h : HoldsWords byte l)
    (hb : ∀ n < 4 * (l.length - 1), byte' n =
      if n / 4 = l.idxOf w then byte (4 * (l.length - 1) + n % 4) else byte n) :
    HoldsWords byte' (l.swapRemove w) := by
  intro i hi k hk
  rw [List.length_swapRemove] at hi
  rw [hb _ (by omega), List.getElem_swapRemove (by omega), show (4 * i + k) / 4 = i by omega,
    show (4 * i + k) % 4 = k by omega]
  by_cases hiw : l.idxOf w = i
  · rw [if_pos hiw.symm, if_pos hiw, h (l.length - 1) (by omega) k hk]
    rw [List.getLastD_eq_getLast?, List.getLast?_eq_getElem?, List.getElem?_eq_getElem (by omega),
      Option.getD_some]
  · rw [if_neg (Ne.symm hiw), if_neg hiw, h i (by omega) k hk]

end HoldsWords

end Store
