import Mathlib.Data.Nat.Nth

/-!
# Turns in rotation

A turn goes round `n` places, one place a step, and each place counts its turns with a counter of
its own that starts again when it is behind a bound.

## Main definitions

* `Rotates n turn`: the turn goes round the places below `n`
* `Counts bound visit counter`: the counter counts the visits, from 0 again behind the bound
* `Fires`: a visit that starts the counter again

## Main results

* `Rotates.existsUnique`: each place has one turn in every `n` steps
* `Counts.exists_fires`, `Counts.count_between`: how often a counter starts again
-/

namespace RoundRobin

/-- A remainder goes up to the modulus, and then starts again. -/
theorem succ_mod_eq {n : ℕ} (a : ℕ) (hn : 0 < n) :
    (a + 1) % n = if a % n + 1 < n then a % n + 1 else 0 := by
  have hlt : a % n < n := Nat.mod_lt a hn
  rw [← Nat.mod_add_mod]
  split_ifs with hwrap
  · exact Nat.mod_eq_of_lt hwrap
  · rw [show a % n + 1 = n by omega, Nat.mod_self]

/-- The turn goes round the places below `n`. -/
structure Rotates (n : ℕ) (turn : ℕ → ℕ) : Prop where
  lt : ∀ k, turn k < n
  next : ∀ k, turn (k + 1) = if turn k + 1 < n then turn k + 1 else 0

namespace Rotates

variable {n : ℕ} {turn : ℕ → ℕ}

theorem eq_mod (h : Rotates n turn) (k d : ℕ) : turn (k + d) = (turn k + d) % n := by
  induction d with
  | zero => exact (Nat.mod_eq_of_lt (h.lt k)).symm
  | succ d ih =>
    rw [← Nat.add_assoc k, h.next, ih, ← Nat.add_assoc,
      succ_mod_eq _ ((Nat.zero_le _).trans_lt (h.lt k))]

/-- **Each place has one turn** in every `n` consecutive steps. -/
theorem existsUnique (h : Rotates n turn) (start : ℕ) {i : ℕ} (hi : i < n) :
    ∃! k, start ≤ k ∧ k < start + n ∧ turn k = i := by
  have hlt := h.lt start
  have hturn : ∀ d < n, turn (start + d) = if turn start + d < n then turn start + d
      else turn start + d - n := by
    intro d hd
    rw [h.eq_mod]
    split_ifs with hwrap
    · exact Nat.mod_eq_of_lt hwrap
    · rw [Nat.mod_eq_sub_mod (not_lt.mp hwrap), Nat.mod_eq_of_lt (by omega)]
  refine ⟨start + (if turn start ≤ i then i - turn start else i + n - turn start), ?_, ?_⟩
  · refine ⟨Nat.le_add_right _ _, by split_ifs <;> omega, ?_⟩
    rw [hturn _ (by split_ifs <;> omega)]
    split_ifs <;> omega
  · rintro k ⟨hle, hlt', rfl⟩
    obtain ⟨d, rfl⟩ := Nat.exists_eq_add_of_le hle
    rw [hturn d (by omega)]
    split_ifs <;> omega

/-- Each place has turns for ever. -/
theorem infinite (h : Rotates n turn) {i : ℕ} (hi : i < n) :
    (Set.ofPred fun k => turn k = i).Infinite := by
  refine Set.infinite_of_forall_exists_gt fun k => ?_
  obtain ⟨j, ⟨hle, -, hj⟩, -⟩ := h.existsUnique (k + 1) hi
  exact ⟨j, hj, hle⟩

end Rotates

/-- The counter counts the visits, and starts again at a visit behind the bound. -/
structure Counts (bound : ℕ) (visit : ℕ → Prop) (counter : ℕ → ℕ) : Prop where
  start : counter 0 ≤ bound + 1
  visited : ∀ k, visit k → counter (k + 1) = if counter k > bound then 0 else counter k + 1
  skipped : ∀ k, ¬ visit k → counter (k + 1) = counter k

/-- A visit at which the counter starts again. -/
def Fires (bound : ℕ) (visit : ℕ → Prop) (counter : ℕ → ℕ) (k : ℕ) : Prop :=
  visit k ∧ counter k > bound

namespace Counts

variable {bound : ℕ} {visit : ℕ → Prop} [DecidablePred visit] {counter : ℕ → ℕ} {k k' : ℕ}

theorem eq_mod (h : Counts bound visit counter) (k : ℕ) :
    counter k = (counter 0 + Nat.count visit k) % (bound + 2) := by
  induction k with
  | zero => exact (Nat.mod_eq_of_lt (by have := h.start; simp; omega)).symm
  | succ k ih =>
    rw [Nat.count_succ]
    by_cases hk : visit k
    · rw [if_pos hk, h.visited k hk, ih, ← Nat.add_assoc, succ_mod_eq _ (by omega)]
      split_ifs <;> first | rfl | omega
    · rw [if_neg hk, h.skipped k hk, ih, Nat.add_zero (Nat.count visit k)]

theorem fires_iff (h : Counts bound visit counter) : Fires bound visit counter k ↔
    visit k ∧ (counter 0 + Nat.count visit k) % (bound + 2) = bound + 1 := by
  have hlt : (counter 0 + Nat.count visit k) % (bound + 2) < bound + 2 := Nat.mod_lt _ (by omega)
  rw [Fires, h.eq_mod k]
  exact and_congr_right fun _ => by omega

/-- **The counter starts again** within every `bound + 2` visits. -/
theorem exists_fires (h : Counts bound visit counter) (hvisit : (Set.ofPred visit).Infinite) (m : ℕ) :
    ∃ k, Fires bound visit counter k ∧ m ≤ Nat.count visit k ∧
      Nat.count visit k < m + (bound + 2) := by
  -- the visits that are still to come until then
  have hlt : (counter 0 + m) % (bound + 2) < bound + 2 := Nat.mod_lt _ (by omega)
  obtain ⟨d, hd⟩ : ∃ d, (counter 0 + m) % (bound + 2) + d = bound + 1 :=
    ⟨_, Nat.add_sub_of_le (by omega)⟩
  refine ⟨Nat.nth visit (m + d), h.fires_iff.mpr ⟨Nat.nth_mem_of_infinite hvisit _, ?_⟩, ?_, ?_⟩
  · rw [Nat.count_nth_of_infinite hvisit, ← Nat.add_assoc, ← Nat.mod_add_mod, hd]
    exact Nat.mod_eq_of_lt (by omega)
  · rw [Nat.count_nth_of_infinite hvisit]
    omega
  · rw [Nat.count_nth_of_infinite hvisit]
    omega

/-- **Between two starts** of the counter there are exactly `bound + 1` visits. -/
theorem count_between (h : Counts bound visit counter) (hvisit : (Set.ofPred visit).Infinite)
    (hk : Fires bound visit counter k) (hk' : Fires bound visit counter k') (hlt : k < k')
    (hnone : ∀ j, k < j → j < k' → ¬ Fires bound visit counter j) :
    Nat.count visit k' = Nat.count visit (k + 1) + (bound + 1) := by
  have hcount := Nat.count_strict_mono hk.1 hlt
  obtain ⟨j, hj, hle, hjlt⟩ := h.exists_fires hvisit (Nat.count visit k + 1)
  have hkj : k < j := by
    by_contra hjk
    have := Nat.count_monotone visit (not_lt.mp hjk)
    omega
  have hjk' : k' ≤ j := by
    by_contra hjk'
    exact hnone j hkj (not_le.mp hjk') hj
  have hmono := Nat.count_monotone visit hjk'
  have hmod := (h.fires_iff.mp hk).2
  have hmod' := (h.fires_iff.mp hk').2
  rw [Nat.count_succ, if_pos hk.1]
  -- two visits at which it starts again are a multiple of `bound + 2` apart
  obtain ⟨d, hd⟩ : ∃ d, Nat.count visit k' = Nat.count visit k + d :=
    Nat.exists_eq_add_of_le hcount.le
  have hdvd : (bound + 2) ∣ d := by
    rw [hd, ← Nat.add_assoc] at hmod'
    have := Nat.sub_mod_eq_zero_of_mod_eq (hmod'.trans hmod.symm)
    rw [Nat.add_sub_cancel_left] at this
    exact Nat.dvd_of_mod_eq_zero this
  obtain ⟨q, rfl⟩ := hdvd
  obtain rfl | rfl | hq : q = 0 ∨ q = 1 ∨ 2 ≤ q := by omega
  · omega
  · omega
  · have := Nat.mul_le_mul_left (bound + 2) hq
    omega

end Counts

end RoundRobin
