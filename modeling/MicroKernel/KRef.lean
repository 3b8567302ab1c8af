import MicroKernel.Lib.Run
import Mathlib.Algebra.Order.Ring.Int
import Mathlib.Data.List.Induction
import Mathlib.Data.List.Infix

/-!
# Reference counters

The reference counters of `kernel/kref.c`. The count has 16 bits, and `kRefDec` returns it in 8: a
count that is a multiple of 256 is returned as zero. A pointer to a counter is the counter, or none
for `NULL`, and reading through `NULL` a fault.

## Main definitions

* `KRef`, `kRefInit`, `kRefInc`, `kRefDec`, `kRefCheck`: the counter and its operations
* `outstanding`: the references some operations leave
* `Signals`: every `kRefDec` of a sequence returns zero when it releases the last reference, and only
  then

## Main results

* `kRefRun_eq`: the counter counts the references
* `signals_iff`: a sequence signals the release of the last reference unless some `kRefDec` leaves a
  multiple of 256 references
-/

namespace MicroKernel.Reference

structure KRef where
  count : UInt16
deriving DecidableEq

/-- `rc` is read or written through `NULL`. -/
inductive Fault where
  | nullPointer
deriving DecidableEq

def kRefInit : Option KRef → Except Fault (Option KRef)
  | some rc => .ok (some { rc with count := 1 })
  | none => .error .nullPointer

def kRefInc (rc : Option KRef) : Option KRef :=
  match rc with
  | some rc => some { rc with count := rc.count + 1 }
  | none => none

/-- The count is returned as a byte, also when it was zero before; `NULL` is not decremented, but
read. -/
def kRefDec (rc : Option KRef) : Except Fault (UInt8 × Option KRef) :=
  match rc with
  | some rc =>
    let rc := if rc.count > 0 then { rc with count := rc.count - 1 } else rc
    .ok (rc.count.toUInt8, some rc)
  | none => .error .nullPointer

def kRefCheck (rc : Option KRef) : UInt8 :=
  match rc with
  | some rc => if rc.count = 0 then 1 else 0
  | none => 0

/-! ## Sequences of operations -/

inductive RefOp where
  | inc
  | dec
deriving DecidableEq

/-- The effect of an operation on the counter; what `kRefDec` returns is dropped. -/
def kRefStep : RefOp → Option KRef → Except Fault (Option KRef)
  | .inc, rc => .ok (kRefInc rc)
  | .dec, rc => do
    let (_, rc) ← kRefDec rc
    return rc

/-- The counter at `rc` after `kRefInit` and some operations. -/
def kRefRun (rc : KRef) (ops : List RefOp) : Except Fault (Option KRef) := do
  let rc ← kRefInit (some rc)
  Run.exec kRefStep ops rc

/-- The references left: one of `kRefInit`, one more for each `kRefInc`, one fewer for each
`kRefDec`. -/
def outstanding (ops : List RefOp) : ℤ := 1 + ops.count .inc - ops.count .dec

/-- All along, there are between 0 and 65535 references. -/
def InRange (ops : List RefOp) : Prop :=
  ∀ before, before <+: ops → 0 ≤ outstanding before ∧ outstanding before ≤ 65535

/-- A `kRefDec` behind some operations returns zero if and only if it leaves no reference, and if and
only if `kRefCheck` tells so. -/
def SignalsAt (rc : KRef) (before : List RefOp) : Prop :=
  ∃ rc₁ ret rc₂, kRefRun rc before = .ok rc₁ ∧ kRefDec rc₁ = .ok (ret, rc₂) ∧
    (ret = 0 ↔ outstanding (before ++ [.dec]) = 0) ∧ (ret = 0 ↔ kRefCheck rc₂ ≠ 0)

/-- Each `kRefDec` of the operations signals the release of the last reference, and only that. -/
def Signals (rc : KRef) (ops : List RefOp) : Prop :=
  ∀ before, before ++ [.dec] <+: ops → SignalsAt rc before

instance InRange.decidable (ops : List RefOp) : Decidable (InRange ops) :=
  decidable_of_iff (∀ before ∈ ops.inits, 0 ≤ outstanding before ∧ outstanding before ≤ 65535)
    (by simp only [List.mem_inits, InRange])

section Sequences

variable {rc rc₁ : KRef} {ops before : List RefOp} {op : RefOp} {n : ℤ}

theorem outstanding_inc : outstanding (ops ++ [.inc]) = outstanding ops + 1 := by
  have hi : (ops ++ [RefOp.inc]).count RefOp.inc = ops.count .inc + 1 := by simp
  have hd : (ops ++ [RefOp.inc]).count RefOp.dec = ops.count .dec := by simp
  rw [outstanding, outstanding, hi, hd]
  omega

theorem outstanding_dec : outstanding (ops ++ [.dec]) = outstanding ops - 1 := by
  have hi : (ops ++ [RefOp.dec]).count RefOp.inc = ops.count .inc := by simp
  have hd : (ops ++ [RefOp.dec]).count RefOp.dec = ops.count .dec + 1 := by simp
  rw [outstanding, outstanding, hi, hd]
  omega

theorem InRange.of_append (h : InRange (ops ++ [op])) : InRange ops :=
  fun _ hb => h _ (hb.trans (List.prefix_append ops [op]))

theorem InRange.of_prefix (h : InRange ops) (hb : before <+: ops) : InRange before :=
  fun _ hb' => h _ (hb'.trans hb)

theorem InRange.bounds (h : InRange ops) : 0 ≤ outstanding ops ∧ outstanding ops ≤ 65535 :=
  h ops (List.prefix_refl ops)

theorem kRefRun_append {p : Option KRef} (h : kRefRun rc ops = .ok p) :
    kRefRun rc (ops ++ [op]) = kRefStep op p := by
  rw [kRefRun, kRefInit] at h ⊢
  exact (Run.exec_append_of_ok h).trans (by rw [Run.exec]; cases kRefStep op p <;> rfl)

/-- A counter of `n` references counts the next one. -/
theorem kRefStep_inc (hn : (rc.count.toNat : ℤ) = n) (hlt : n + 1 ≤ 65535) :
    ∃ rc₁, kRefStep .inc (some rc) = .ok (some rc₁) ∧ (rc₁.count.toNat : ℤ) = n + 1 := by
  refine ⟨_, rfl, ?_⟩
  have hadd : (rc.count + 1).toNat = (rc.count.toNat + 1) % 2 ^ 16 := UInt16.toNat_add ..
  rw [hadd]
  omega

/-- A counter of `n` references counts down, and returns what is left in a byte. -/
theorem kRefDec_eq (hn : (rc.count.toNat : ℤ) = n) (hpos : 0 ≤ n - 1) :
    ∃ ret rc₁, kRefDec (some rc) = .ok (ret, some rc₁) ∧ (rc₁.count.toNat : ℤ) = n - 1 ∧
      (ret.toNat : ℤ) = (n - 1) % 256 := by
  have hlt : rc.count > 0 := by
    rw [gt_iff_lt, UInt16.lt_iff_toNat_lt]
    show 0 < rc.count.toNat
    omega
  have hsub : (rc.count - 1).toNat = rc.count.toNat - 1 :=
    UInt16.toNat_sub_of_le _ _ (UInt16.le_iff_toNat_le.mpr (UInt16.lt_iff_toNat_lt.mp hlt))
  refine ⟨(rc.count - 1).toUInt8, { rc with count := rc.count - 1 }, ?_, ?_, ?_⟩
  · rw [kRefDec]
    simp only [if_pos hlt]
  · rw [hsub]
    omega
  · rw [UInt16.toNat_toUInt8, hsub]
    omega

/-- **The counter counts the references** of a sequence in range. -/
theorem kRefRun_eq (rc : KRef) (h : InRange ops) :
    ∃ rc₁, kRefRun rc ops = .ok (some rc₁) ∧ (rc₁.count.toNat : ℤ) = outstanding ops := by
  induction ops using List.reverseRecOn with
  | nil => exact ⟨_, rfl, rfl⟩
  | append_singleton ops op ih =>
    obtain ⟨rc₁, hrun, hcount⟩ := ih h.of_append
    have hbounds := h.bounds
    rw [kRefRun_append hrun]
    cases op with
    | inc =>
      rw [outstanding_inc] at hbounds ⊢
      exact kRefStep_inc hcount hbounds.2
    | dec =>
      rw [outstanding_dec] at hbounds ⊢
      obtain ⟨ret, rc₂, hdec, hcount₂, -⟩ := kRefDec_eq hcount hbounds.1
      refine ⟨rc₂, ?_, hcount₂⟩
      rw [kRefStep, hdec]
      rfl

theorem kRefCheck_ne_zero : kRefCheck (some rc) ≠ 0 ↔ rc.count.toNat = 0 := by
  rw [kRefCheck]
  have hzero : rc.count = 0 ↔ rc.count.toNat = 0 := UInt16.toNat_inj.symm
  split
  · next h => exact iff_of_true (by decide) (hzero.mp h)
  · next h => exact iff_of_false (by decide) fun h' => h (hzero.mpr h')

/-- **What a `kRefDec` of a sequence in range returns**: the references left, but for a multiple of
256. `kRefCheck` tells behind it whether there are any. -/
theorem kRefDec_kRefRun (rc : KRef) (h : InRange (before ++ [.dec])) :
    ∃ rc₁ ret rc₂, kRefRun rc before = .ok rc₁ ∧ kRefDec rc₁ = .ok (ret, rc₂) ∧
      (ret = 0 ↔ (256 : ℤ) ∣ outstanding (before ++ [.dec])) ∧
      (kRefCheck rc₂ ≠ 0 ↔ outstanding (before ++ [.dec]) = 0) := by
  obtain ⟨rc₁, hrun, hcount⟩ := kRefRun_eq rc h.of_append
  have hbounds := h.bounds
  rw [outstanding_dec] at hbounds ⊢
  obtain ⟨ret, rc₂, hdec, hcount₂, hret⟩ := kRefDec_eq hcount hbounds.1
  refine ⟨some rc₁, ret, some rc₂, hrun, hdec, ?_, ?_⟩
  · rw [← UInt8.toNat_inj, UInt8.toNat_zero, Int.dvd_iff_emod_eq_zero, ← hret]
    exact Int.natCast_eq_zero.symm
  · rw [kRefCheck_ne_zero, ← hcount₂]
    exact Int.natCast_eq_zero.symm

/-- A count that is a positive multiple of 256 is taken for zero. -/
theorem signalsAt_iff (rc : KRef) (h : InRange (before ++ [.dec])) : SignalsAt rc before ↔
    ¬ (0 < outstanding (before ++ [.dec]) ∧ (256 : ℤ) ∣ outstanding (before ++ [.dec])) := by
  have hbounds := h.bounds
  obtain ⟨rc₁, ret, rc₂, hrun, hdec, hret, hcheck⟩ := kRefDec_kRefRun rc h
  constructor
  · rintro ⟨p, r, q, hp, hr, hleft, -⟩ ⟨hpos, hdvd⟩
    obtain rfl : rc₁ = p := Except.ok.inj (hrun.symm.trans hp)
    obtain rfl : ret = r := congrArg Prod.fst (Except.ok.inj (hdec.symm.trans hr))
    exact hpos.ne' (hleft.mp (hret.mpr hdvd))
  · intro hno
    have hzero : ret = 0 ↔ outstanding (before ++ [.dec]) = 0 := by
      rw [hret]
      refine ⟨fun hdvd => ?_, fun h0 => h0 ▸ Int.dvd_zero _⟩
      exact le_antisymm (not_lt.mp fun hpos => hno ⟨hpos, hdvd⟩) hbounds.1
    exact ⟨rc₁, ret, rc₂, hrun, hdec, hzero, hzero.trans hcheck.symm⟩

/-- **A sequence in range signals the release of the last reference** if and only if none of its
`kRefDec` leaves a positive multiple of 256 references. -/
theorem signals_iff (rc : KRef) (h : InRange ops) : Signals rc ops ↔
    ∀ before, before ++ [.dec] <+: ops →
      ¬ (0 < outstanding (before ++ [.dec]) ∧ (256 : ℤ) ∣ outstanding (before ++ [.dec])) :=
  forall₂_congr fun _ hb => signalsAt_iff rc (h.of_prefix hb)

theorem signals_inc_dec_dec : Signals ⟨0⟩ [.inc, .dec, .dec] := by
  refine (signals_iff ⟨0⟩ (by decide)).mpr fun before hprefix => ?_
  have hall : ∀ n ≤ 3, ¬ (0 < outstanding ([.inc, .dec, .dec].take n) ∧
      (256 : ℤ) ∣ outstanding ([.inc, .dec, .dec].take n)) := by decide
  have h := hall _ hprefix.length_le
  rwa [← List.prefix_iff_eq_take.mp hprefix] at h

/-- With 257 references, the next `kRefDec` returns zero. -/
theorem not_signals_of_257 : InRange (List.replicate 256 .inc ++ [.dec]) ∧
    ¬ Signals ⟨0⟩ (List.replicate 256 .inc ++ [.dec]) := by
  have hrange : InRange (List.replicate 256 .inc ++ [.dec]) := by
    intro before hb
    have hi := hb.sublist.count_le RefOp.inc
    have hd := hb.sublist.count_le RefOp.dec
    rw [List.count_append, List.count_replicate_self, show [RefOp.dec].count .inc = 0 from rfl] at hi
    rw [List.count_append, List.count_replicate, if_neg (by decide), List.count_singleton_self] at hd
    rw [outstanding]
    omega
  have hleft : outstanding (List.replicate 256 .inc ++ [.dec]) = 256 := by
    rw [outstanding_dec, outstanding, List.count_replicate, List.count_replicate]
    rfl
  refine ⟨hrange, fun h => (signalsAt_iff ⟨0⟩ hrange).mp (h _ (List.prefix_refl _)) ?_⟩
  rw [hleft]
  decide

end Sequences

end MicroKernel.Reference
