import MicroKernel.X4.Segmentation

/-!
# Array bounds of the X4 emulator

The loop of `EmulateX4` checks the program counter against the size of the program buffer, and
nothing else: not the five bytes fetched behind the opcode, not the register operands, not the
stack pointer, not the divisor. Of the services only the display routine walks out of the buffer;
the network routine checks its bounds.

## Main definitions

* `Effect.Safe`: an access inside its array, a division by a non-zero byte
* `InBounds`: the operands of a pass stay inside the arrays

## Main results

* `safe_emulateStep_iff`: the accesses of a pass are safe exactly when its operands are in bounds
* `safe_passes_iff`: the same for all passes of a run
-/

namespace MicroKernel.X4

open Traced

/-- An array access is inside its array, a division has a non-zero divisor. -/
def Effect.Safe : Effect → Prop
  | .programBuffer index => index.toNat < maxProgramSize
  | .reg index => index < 8
  | .stack index => index.toNat < 100
  | .divide divisor => divisor ≠ 0
  | _ => True

/-- The operands of an instruction are in bounds. -/
def OpCode.InBounds (s : Machine) (a : Operands) : OpCode → Prop
  | .movmr | .movmw | .movb | .inc | .dec | .not | .cmp => a.argA.toNat < 8
  | .movr | .add | .sub | .and | .or | .xor | .cmpr => a.argA.toNat < 8 ∧ a.argB.toNat < 8
  | .mova => a.argA.toNat < 7
  | .mul => a.argA.toNat < 8 ∧ a.argB.toNat < 8 ∧ a.argC.toNat < 8
  | .div => a.argA.toNat < 8 ∧ a.argB.toNat < 8 ∧
      ∃ h : a.argC.toNat < 8, s.reg ⟨a.argC.toNat, h⟩ ≠ 0
  | .pop => a.argA.toNat < 8 ∧ 1 ≤ s.stackPtr.toNat ∧ s.stackPtr.toNat ≤ 100
  | .push => a.argA.toNat < 8 ∧ s.stackPtr.toNat < 100
  | _ => True

/-- The string of `length` bytes at `start` ends inside the program buffer, by its length or by a
zero byte. -/
def StringInBounds (s : Machine) (start length : ℕ) : Prop :=
  length = 0 ∨ start + length ≤ maxProgramSize ∨
    ∃ k < length, ∃ h : start + k < maxProgramSize, s.programBuffer ⟨start + k, h⟩ = 0

/-- The string the display routine prints, if it prints one, is in bounds. -/
def DisplayInBounds (s : Machine) (argA : UInt8) : Prop :=
  argA = 0x10 → s.reg ⟨rAH, by decide⟩ = 0x09 →
    StringInBounds s (pointer (s.reg ⟨rDL, by decide⟩) (s.reg ⟨rDH, by decide⟩) 0 0).toNat
      s.programSize.toNat

/-- The bytes a pass fetches and the operands of its instruction are in bounds. -/
def InBounds (env : Environment) (s : Machine) : Prop :=
  s.pc.toNat + 5 < maxProgramSize ∧
    match OpCode.ofByte (programByte env s s.pc) with
    | some op => op.InBounds s (operandsAt env s)
    | none => programByte env s s.pc = 0xCC ∨ programByte env s s.pc = 0xCD →
        DisplayInBounds s (operandsAt env s).argA

section Decidable

variable (env : Environment) (s : Machine)

instance (a : Operands) : (op : OpCode) → Decidable (op.InBounds s a)
  | .movmr | .movmw | .movb | .inc | .dec | .not | .cmp | .mova =>
    inferInstanceAs (Decidable (_ < _))
  | .movr | .add | .sub | .and | .or | .xor | .cmpr | .push | .mul | .div | .pop =>
    inferInstanceAs (Decidable (_ ∧ _))
  | .nop | .jmp | .je | .jne | .jg | .jl | .call | .ret | .cli | .sti => .isTrue trivial

instance (start length : ℕ) : Decidable (StringInBounds s start length) :=
  inferInstanceAs (Decidable (_ ∨ _))

instance (argA : UInt8) : Decidable (DisplayInBounds s argA) :=
  inferInstanceAs (Decidable (_ → _))

instance : Decidable (InBounds env s) :=
  @instDecidableAnd _ _ inferInstance (match OpCode.ofByte (programByte env s s.pc) with
    | some op => inferInstanceAs (Decidable (op.InBounds s (operandsAt env s)))
    | none => inferInstanceAs (Decidable (_ → _)))

end Decidable

/-! ## Services -/

section Services

variable {env : Environment} {s : Machine}

theorem pointer_low_toNat_lt (b₀ b₁ : UInt8) : (pointer b₀ b₁ 0 0).toNat < 65536 := by
  have h₀ := b₀.toNat_lt
  have h₁ := b₁.toNat_lt
  have h : (pointer b₀ b₁ 0 0).toNat = (b₀.toNat + 256 * b₁.toNat) % 2 ^ 32 := by
    simp [pointer, Store.wordOf]
  omega

theorem stringInBounds_succ {start length : ℕ} :
    StringInBounds s start (length + 1) ↔ ∃ h : start < maxProgramSize,
      s.programBuffer ⟨start, h⟩ = 0 ∨ StringInBounds s (start + 1) length := by
  constructor
  · rintro (h | h | ⟨k, hk, hlt, h⟩)
    · omega
    · exact ⟨by omega, Or.inr (Or.inr (Or.inl (by omega)))⟩
    · refine ⟨by omega, ?_⟩
      cases k with
      | zero => exact Or.inl h
      | succ k =>
        refine Or.inr (Or.inr (Or.inr ⟨k, by omega, by omega, ?_⟩))
        rw [← h]
        congr 2
        omega
  · rintro ⟨hlt, h | h | h | ⟨k, hk, hk', h⟩⟩
    · exact Or.inr (Or.inr ⟨0, by omega, hlt, h⟩)
    · exact Or.inr (Or.inl (by omega))
    · exact Or.inr (Or.inl (by omega))
    · refine Or.inr (Or.inr ⟨k + 1, by omega, by omega, ?_⟩)
      rw [← h]
      congr 2
      omega

theorem safe_displayString_iff {offset i : UInt32} {left : ℕ}
    (h : offset.toNat + i.toNat + left < 2 ^ 32) :
    (displayString env s offset left i).All Effect.Safe ↔
      StringInBounds s (offset.toNat + i.toNat) left := by
  induction left generalizing i with
  | zero => simp [displayString, StringInBounds]
  | succ left ih =>
    have hoi : (offset + i).toNat = offset.toNat + i.toNat := by
      rw [UInt32.toNat_add]
      omega
    have hi : (i + 1).toNat = i.toNat + 1 := by
      rw [UInt32.toNat_add]
      show (i.toNat + 1) % 2 ^ 32 = _
      omega
    have ih := ih (i := i + 1) (by omega)
    rw [hi, ← Nat.add_assoc] at ih
    simp only [displayString, all_bind, all_fetch, ensures_fetch, all_ite, all_pure, all_tell,
      ensures_tell, ih, Effect.Safe, true_and, implies_true, stringInBounds_succ, hoi]
    -- the first fetch is in the buffer, and the rest is only fetched behind a byte that is not 0
    rw [← exists_prop]
    refine exists_congr fun hlt => ?_
    have hbyte : programByte env s (offset + i) = s.programBuffer ⟨_, hlt⟩ := by
      simp only [programByte, hoi, hlt, dif_pos]
    rw [hbyte, or_iff_not_imp_left]
    refine imp_congr_right fun _ => ?_
    by_cases h10 : s.programBuffer ⟨_, hlt⟩ = 10 <;> simp [h10]

/-- A loop of fetches that stays in the buffer is safe. -/
theorem safe_ntSend {offset i : UInt32} {left : ℕ}
    (h : offset.toNat + i.toNat + left ≤ maxProgramSize) :
    (ntSend env s offset left i).All Effect.Safe := by
  induction left generalizing i with
  | zero => exact all_pure _
  | succ left ih =>
    have hmax : maxProgramSize = 256 := rfl
    have hi : (i + 1).toNat = i.toNat + 1 := by
      rw [UInt32.toNat_add]
      show (i.toNat + 1) % 2 ^ 32 = _
      omega
    simp only [ntSend, all_bind, all_fetch, ensures_fetch, all_tell, ensures_tell, Effect.Safe,
      true_and]
    refine ⟨?_, ih (by omega)⟩
    rw [UInt32.toNat_add]
    omega

theorem safe_ntSendParam {left : ℕ} {i : UInt32} : (ntSendParam env s left i).All Effect.Safe := by
  induction left generalizing i with
  | zero => exact all_pure _
  | succ left ih => simp [ntSendParam, all_bind, ih, Effect.Safe]

/-- The network routine checks its bounds. -/
theorem safe_iscNetworkRoutine (hs : s.programSize.toNat ≤ maxProgramSize) :
    (iscNetworkRoutine env s).All Effect.Safe := by
  have hsend : ∀ (dl dh cl : UInt8), pointer dl dh 0 0 < s.programSize →
      pointer dl dh 0 0 + cl.toUInt32 < s.programSize →
      (ntSend env s (pointer dl dh 0 0) cl.toNat 0).All Effect.Safe := by
    intro dl dh cl _ h
    have hlt := pointer_low_toNat_lt dl dh
    have hcl := cl.toNat_lt
    rw [UInt32.lt_iff_toNat_lt, UInt32.toNat_add, UInt8.toNat_toUInt32] at h
    apply safe_ntSend
    show (pointer dl dh 0 0).toNat + 0 + cl.toNat ≤ _
    omega
  simp +contextual only [iscNetworkRoutine, all_ite, all_bind, all_readReg, all_writeReg, all_tell,
    Effect.Safe, rAH, rAL, rBL, rCL, rDH, rDL, safe_ntSendParam, ge_iff_le, not_or,
    UInt32.not_le, hsend, ensures_true, Nat.reduceLT, implies_true, and_self]

/-- The display routine walks over the string it prints. -/
theorem safe_iscDisplayRoutine_iff (hs : s.programSize.toNat ≤ maxProgramSize) :
    (iscDisplayRoutine env s).All Effect.Safe ↔ (s.reg 1 = 9 →
      StringInBounds s (pointer (s.reg 6) (s.reg 7) 0 0).toNat s.programSize.toNat) := by
  have hlt := pointer_low_toNat_lt (s.reg 6) (s.reg 7)
  have hmax : maxProgramSize = 256 := rfl
  have hstring : (displayString env s (pointer (s.reg 6) (s.reg 7) 0 0) s.programSize.toNat 0).All
      Effect.Safe ↔
        StringInBounds s ((pointer (s.reg 6) (s.reg 7) 0 0).toNat + 0) s.programSize.toNat := by
    apply safe_displayString_iff
    show _ + 0 + _ < _
    omega
  simp [iscDisplayRoutine, all_ite, all_bind, Effect.Safe, rAH, rBL, rDH, rDL, hstring]

theorem safe_interruptRoutine_iff (hs : s.programSize.toNat ≤ maxProgramSize) {argA : UInt8} :
    (interruptRoutine env s argA).All Effect.Safe ↔ DisplayInBounds s argA := by
  have hfile : (iscFileSystemRoutine s).All Effect.Safe := by
    simp [iscFileSystemRoutine, Effect.Safe, rBL]
  have hos : (iscOperatingSystem env s).All Effect.Safe := by
    simp [iscOperatingSystem, all_ite, all_bind, Effect.Safe, rAH, rBL]
  simp only [interruptRoutine, all_ite, hfile, hos, safe_iscNetworkRoutine hs, all_pure,
    implies_true, and_true]
  exact imp_congr_right fun _ => safe_iscDisplayRoutine_iff hs

theorem safe_interrupt_iff (hs : s.programSize.toNat ≤ maxProgramSize) {argA : UInt8} :
    (interrupt env s argA).All Effect.Safe ↔ DisplayInBounds { s with pc := s.pc + 1 } argA := by
  have hreturn : ∀ t : Machine, (if argA = 0x20 then do
      if t.flagConsoleDirty = 1 then tell Effect.printLn
      return Control.returned t
    else return .next t : Emulator Control).All Effect.Safe := by
    intro t
    simp [all_ite, all_bind, Effect.Safe]
  rw [interrupt, all_bind, and_iff_left (ensures_of_forall hreturn)]
  exact safe_interruptRoutine_iff (s := { s with pc := s.pc + 1 }) hs

end Services

/-! ## Instructions -/

section Instructions

variable {env : Environment} {s : Machine} {a : Operands}

theorem safe_unary_iff {f : UInt8 → UInt8} {length : UInt32} :
    (unary f length a s).All Effect.Safe ↔ a.argA.toNat < 8 := by
  simp [unary, all_bind, Effect.Safe]

theorem safe_binary_iff {f : UInt8 → UInt8 → UInt8} :
    (binary f a s).All Effect.Safe ↔ a.argA.toNat < 8 ∧ a.argB.toNat < 8 := by
  simp [binary, all_bind, Effect.Safe]
  tauto

/-- **The accesses of an instruction** are safe exactly when its operands are in bounds. -/
theorem safe_execute_iff (hs : s.virtual = userRanges) (op : OpCode) :
    (execute s a op).All Effect.Safe ↔ op.InBounds s a := by
  cases op with
  | inc | dec | not => exact safe_unary_iff
  | add | sub | and | or | xor => exact safe_binary_iff
  | movmr | movmw =>
    simp only [execute, hs, OpCode.InBounds]
    rw [if_neg (not_gt_heapEnd _)]
    simp [all_bind, Effect.Safe]
  | mova =>
    simp only [execute, all_bind, all_writeReg, ensures_writeReg, all_pure, ensures_true,
      Effect.Safe, OpCode.InBounds, and_true]
    constructor
    · rintro ⟨h, h'⟩
      have := h' h
      omega
    · intro h
      refine ⟨?_, fun _ => ?_⟩
      · omega
      · omega
  | pop =>
    -- the stack pointer is lowered first, and wraps around at 0
    have hptr : (s.stackPtr - 1).toNat < 100 ↔ 1 ≤ s.stackPtr.toNat ∧ s.stackPtr.toNat ≤ 100 := by
      have := s.stackPtr.toNat_lt
      rw [UInt32.toNat_sub]
      show (2 ^ 32 - 1 + s.stackPtr.toNat) % 2 ^ 32 < 100 ↔ _
      omega
    simp [execute, all_bind, Effect.Safe, OpCode.InBounds, hptr]
    tauto
  | div =>
    simp [execute, all_bind, Effect.Safe, OpCode.InBounds]
    constructor
    · rintro ⟨hb, h⟩
      obtain ⟨hc, h⟩ := h hb
      exact ⟨(h hc).2 (h hc).1, hb, hc, (h hc).1⟩
    · rintro ⟨ha, hb, hc, h⟩
      exact ⟨hb, fun _ => ⟨hc, fun _ => ⟨h, fun _ => ha⟩⟩⟩
  | _ =>
    simp [execute, all_bind, Effect.Safe, OpCode.InBounds]
    try tauto

/-- **The accesses of a pass** are safe exactly when its operands are in bounds. -/
theorem safe_emulateStep_iff (hv : s.virtual = userRanges)
    (hs : s.programSize.toNat ≤ maxProgramSize) (hpc : s.pc.toNat < maxProgramSize) :
    (emulateStep env s).All Effect.Safe ↔ InBounds env s := by
  -- the six fetches of a pass are in the buffer when the last is
  have hfetch : (∀ i ∈ [0, 1, 2, 3, 4, 5], Effect.Safe (.programBuffer (s.pc + i))) ↔
      s.pc.toNat + 5 < maxProgramSize := by
    have hmax : maxProgramSize = 256 := rfl
    have hi : ∀ i : UInt32, i.toNat ≤ 5 → (s.pc + i).toNat = s.pc.toNat + i.toNat := by
      intro i hi
      rw [UInt32.toNat_add]
      omega
    constructor
    · intro h
      exact (hi 5 (by decide)).symm.trans_lt (h 5 (by simp))
    · intro h i hmem
      have hle : i.toNat ≤ 5 := by
        revert i
        simp
      show (s.pc + i).toNat < _
      rw [hi i hle]
      omega
  rw [all_emulateStep, InBounds, hfetch]
  refine and_congr_right fun _ => ?_
  rw [dispatch]
  cases OpCode.ofByte (programByte env s s.pc) with
  | some op =>
    simp only [all_bind, all_pure, ensures_true, and_true]
    exact safe_execute_iff (s := { s with pc := s.pc + 1 }) hv op
  | none =>
    simp only [all_ite, all_pure, implies_true, and_true]
    exact imp_congr_right fun _ => safe_interrupt_iff (s := { s with pc := s.pc + 1 }) hs

end Instructions

/-! ## Runs -/

/-- **The accesses of a run** of `EmulateX4`, from any state between runs and whatever its program:
they are safe in every pass exactly when every pass has its operands in bounds. -/
theorem safe_passes_iff {s : Machine} (hs : Reachable s) (envs : List Environment) :
    (∀ p ∈ passes envs (emulateEnter s), (emulateStep p.1 p.2).All Effect.Safe) ↔
      ∀ p ∈ passes envs (emulateEnter s), InBounds p.1 p.2 := by
  refine forall₂_congr fun p hp => ?_
  obtain ⟨hpc, hv⟩ := virtual_of_mem_passes hp
  refine safe_emulateStep_iff hv ?_ hpc
  rw [programSize_of_mem_passes hp]
  exact hs.programSize_le

/-- `PUSH` of register 0, and `POP` into register 1. -/
def pushPop : List UInt8 := [0xF0, 0x00, 0x0F, 0x01]

/-- `safe_passes_iff` for the two passes of `pushPop`. -/
theorem safe_passes_pushPop : ∃ s, emulatorSetProgram pushPop (.powerOn fun _ => 0) = .ok s ∧
    (passes [quiet, quiet] (emulateEnter s)).length = 2 ∧
    ∀ p ∈ passes [quiet, quiet] (emulateEnter s), (emulateStep p.1 p.2).All Effect.Safe := by
  obtain ⟨s, hs, hlength, hbounds⟩ : ∃ s,
      emulatorSetProgram pushPop (.powerOn fun _ => 0) = .ok s ∧
        (passes [quiet, quiet] (emulateEnter s)).length = 2 ∧
        ∀ p ∈ passes [quiet, quiet] (emulateEnter s), InBounds p.1 p.2 :=
    ⟨_, rfl, by decide, by decide⟩
  exact ⟨s, hs, hlength, (safe_passes_iff (.setProgram (.powerOn _) hs) _).mpr hbounds⟩

/-- `POP` into register 0. -/
def popFirst : List UInt8 := [0x0F, 0x00]

/-- A program of one `POP` reads `stack` at index `0xffffffff`. -/
theorem not_safe : ¬ ∀ (bytes : List UInt8) (s : Machine),
    emulatorSetProgram bytes (.powerOn fun _ => 0) = .ok s → ∀ envs,
      ∀ p ∈ passes envs (emulateEnter s), (emulateStep p.1 p.2).All Effect.Safe := by
  intro h
  obtain ⟨s, hs, hpass, hstack⟩ : ∃ s, emulatorSetProgram popFirst (.powerOn fun _ => 0) = .ok s ∧
      (quiet, emulateEnter s) ∈ passes [quiet] (emulateEnter s) ∧
      .stack 0xffffffff ∈ (emulateStep quiet (emulateEnter s)).effects :=
    ⟨_, rfl, List.mem_cons_self, by decide⟩
  have hlt : (0xffffffff : UInt32).toNat < 100 := h popFirst s hs [quiet] _ hpass _ hstack
  exact absurd hlt (by decide)

end MicroKernel.X4
