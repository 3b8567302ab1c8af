import MicroKernel.X4.Step

/-!
# Memory segmentation of the X4 emulator

`EmulateX4` sets the heap range to the user range and checks the address operand of `MOVMR` and
`MOVMW` against its end. The check compares the offset and not the address, the sum of the offset
and the begin of the heap, which wraps around: an offset behind `0xffffbfff` names an address below
the heap.

## Main definitions

* `moveOffset`: the offset of the move a pass executes
* `Segmented`: the addresses of a pass lie in the heap, and a move outside it stops

## Main results

* `segmented_iff`: a pass is segmented when the address of its move does not wrap around
* `segmented_passes_iff`: the same for all passes of a run
-/

namespace MicroKernel.X4

open Traced

/-- The address an effect puts on the bus. -/
def Effect.busAddress : Effect → Option UInt32
  | .busReadMemory address => some address
  | .busWriteMemory address _ => some address
  | _ => none

/-- The offset of the move a pass executes, if it executes one. -/
def moveOffset (env : Environment) (s : Machine) : Option UInt32 :=
  match OpCode.ofByte (programByte env s s.pc) with
  | some .movmr | some .movmw => some (operandsAt env s).offset
  | _ => none

/-- Every address the pass puts on the bus lies in the heap range of `v`, and a move outside the
range ends in `kThrow`. -/
structure Segmented (v : Virtual) (env : Environment) (s : Machine) : Prop where
  inHeap : (emulateStep env s).All fun e =>
    ∀ address ∈ e.busAddress, v.heapBegin ≤ address ∧ address ≤ v.heapEnd
  throws : ∀ offset ∈ moveOffset env s, v.heapEnd.toNat < v.heapBegin.toNat + offset.toNat →
    ∃ hardwareAddress,
      (emulateStep env s).value = .error (.kThrow haltSegmentationFault hardwareAddress)

section Bus

variable {env : Environment} {s : Machine} {a : Operands}

/-- The effect does not reach the bus. -/
def Effect.OffBus (e : Effect) : Prop := e.busAddress = none

theorem offBus_displayString {offset : UInt32} (left : ℕ) (i : UInt32) :
    (displayString env s offset left i).All Effect.OffBus := by
  induction left generalizing i with
  | zero => exact all_pure _
  | succ left ih =>
    simp [displayString, all_bind, all_ite, ih, Effect.OffBus, Effect.busAddress]

theorem offBus_ntSend {offset : UInt32} (left : ℕ) (i : UInt32) :
    (ntSend env s offset left i).All Effect.OffBus := by
  induction left generalizing i with
  | zero => exact all_pure _
  | succ left ih => simp [ntSend, all_bind, ih, Effect.OffBus, Effect.busAddress]

theorem offBus_ntSendParam (left : ℕ) (i : UInt32) :
    (ntSendParam env s left i).All Effect.OffBus := by
  induction left generalizing i with
  | zero => exact all_pure _
  | succ left ih => simp [ntSendParam, all_bind, ih, Effect.OffBus, Effect.busAddress]

theorem offBus_interruptRoutine (argA : UInt8) :
    (interruptRoutine env s argA).All Effect.OffBus := by
  simp [interruptRoutine, iscDisplayRoutine, iscFileSystemRoutine, iscNetworkRoutine,
    iscOperatingSystem, all_ite, all_bind, offBus_displayString, offBus_ntSend,
    offBus_ntSendParam, Effect.OffBus, Effect.busAddress]

theorem offBus_interrupt (argA : UInt8) : (interrupt env s argA).All Effect.OffBus := by
  rw [interrupt, all_bind]
  refine ⟨offBus_interruptRoutine argA, ensures_of_forall fun t => ?_⟩
  simp [all_ite, all_bind, Effect.OffBus, Effect.busAddress]

/-- Only the two moves reach the bus. -/
theorem offBus_execute {op : OpCode} (hr : op ≠ .movmr) (hw : op ≠ .movmw) :
    (execute s a op).All Effect.OffBus := by
  cases op with
  | movmr => exact absurd rfl hr
  | movmw => exact absurd rfl hw
  | _ => simp [execute, unary, binary, all_bind, Effect.OffBus, Effect.busAddress]

/-- A pass without a move stays off the bus. -/
theorem offBus_emulateStep (h : moveOffset env s = none) :
    (emulateStep env s).All Effect.OffBus := by
  rw [all_emulateStep]
  refine ⟨fun _ _ => rfl, ?_⟩
  rw [moveOffset] at h
  rw [dispatch]
  cases hop : OpCode.ofByte (programByte env s s.pc) with
  | none =>
    simp only [all_ite, all_pure, implies_true, and_true]
    exact fun _ => offBus_interrupt _
  | some op =>
    simp only [hop] at h
    simp only [all_bind, all_pure, ensures_true, and_true]
    exact offBus_execute (by rintro rfl; simp at h) (by rintro rfl; simp at h)

end Bus

/-! ## Moves -/

/-- The ranges a run of `EmulateX4` is entered with. -/
def userRanges : Virtual where
  virtualAddressBegin := userVirtualAccessBegin
  virtualAddressEnd := userVirtualAccessEnd
  heapBegin := userVirtualAccessBegin
  heapEnd := userVirtualAccessEnd

theorem virtual_emulateEnter (s : Machine) : (emulateEnter s).virtual = userRanges := rfl

/-- The check of the moves passes every offset in the user range. -/
theorem not_gt_heapEnd (offset : UInt32) : ¬ offset > userRanges.heapEnd := by
  have := offset.toNat_lt
  rw [gt_iff_lt, UInt32.lt_iff_toNat_lt]
  show ¬ 4294967295 < offset.toNat
  omega

/-- The address of a move lies in the heap when the sum does not wrap around. -/
theorem heapBegin_le_iff (offset : UInt32) :
    (userRanges.heapBegin ≤ userRanges.heapBegin + offset ∧
      userRanges.heapBegin + offset ≤ userRanges.heapEnd) ↔ offset.toNat ≤ 0xffffbfff := by
  have := offset.toNat_lt
  rw [UInt32.le_iff_toNat_le, UInt32.le_iff_toNat_le, UInt32.toNat_add]
  show (16384 ≤ (16384 + offset.toNat) % 2 ^ 32 ∧ (16384 + offset.toNat) % 2 ^ 32 ≤ 4294967295) ↔ _
  omega

section Moves

variable {env : Environment} {s : Machine}

/-- The bus access of a move, if the register access before it does not stop the pass. -/
theorem all_emulateStep_of_move {offset : UInt32} (hs : s.virtual = userRanges)
    (h : offset ∈ moveOffset env s)
    {P : Effect → Prop} (hP : ∀ e, e.OffBus → P e)
    (hr : P (.busReadMemory (userRanges.heapBegin + offset)))
    (hw : ∀ byte, P (.busWriteMemory (userRanges.heapBegin + offset) byte)) :
    (emulateStep env s).All P := by
  rw [all_emulateStep]
  refine ⟨fun _ _ => hP _ rfl, ?_⟩
  rw [moveOffset] at h
  rw [dispatch]
  split at h
  all_goals
    cases h
  · next hop =>
    simp only [hop, all_bind, all_pure, ensures_true, and_true, execute, hs]
    rw [if_neg (not_gt_heapEnd _)]
    simp only [all_bind, all_tell, ensures_tell, all_writeReg, all_pure, ensures_true, and_true]
    exact ⟨hr, hP _ rfl⟩
  · next hop =>
    simp only [hop, all_bind, all_pure, ensures_true, and_true, execute, hs]
    rw [if_neg (not_gt_heapEnd _)]
    simp only [all_bind, all_tell, all_readReg, all_pure, ensures_true, and_true]
    exact ⟨hP _ rfl, ensures_of_forall hw⟩

/-- A move stops only for its register operand: the check never fires. -/
theorem stops_emulateStep_of_move {offset : UInt32} (hs : s.virtual = userRanges)
    (h : offset ∈ moveOffset env s) : (emulateStep env s).Stops (· = .outOfBounds) := by
  rw [stops_emulateStep]
  rw [moveOffset] at h
  rw [dispatch]
  split at h
  all_goals
    cases h
  all_goals
    next hop =>
    simp only [hop, stops_bind, stops_pure, ensures_true, and_true, execute, hs]
    rw [if_neg (not_gt_heapEnd _)]
    simp only [stops_bind, stops_tell, stops_writeReg, stops_readReg, stops_pure, ensures_true,
      implies_true, and_self]

/-- **A pass is segmented** when the address of its move does not wrap around. -/
theorem segmented_iff (hs : s.virtual = userRanges) :
    Segmented userRanges env s ↔ ∀ offset ∈ moveOffset env s, offset.toNat ≤ 0xffffbfff := by
  constructor
  · intro h offset ho
    by_contra hlt
    obtain ⟨hardwareAddress, hv⟩ := h.throws offset ho <| by
      show 4294967295 < 16384 + offset.toNat
      omega
    cases stops_emulateStep_of_move hs ho _ hv
  · intro h
    cases ho : moveOffset env s with
    | none =>
      refine ⟨(offBus_emulateStep ho).mono fun e he => ?_, by simp [ho]⟩
      simp [show e.busAddress = none from he]
    | some offset =>
      have hle := h offset ho
      refine ⟨all_emulateStep_of_move hs ho (fun e he => ?_) ?_ fun byte => ?_, ?_⟩
      · simp [show e.busAddress = none from he]
      · simpa [Effect.busAddress] using (heapBegin_le_iff offset).mpr hle
      · simpa [Effect.busAddress] using (heapBegin_le_iff offset).mpr hle
      · rintro _ ho' hlt
        cases ho.symm.trans ho'
        have : 4294967295 < 16384 + offset.toNat := hlt
        omega

end Moves

/-! ## Runs -/

/-- The passes of a run leave the ranges it is entered with. -/
theorem virtual_of_mem_passes {envs : List Environment} {s : Machine} {p : Environment × Machine}
    (hp : p ∈ passes envs (emulateEnter s)) :
    p.2.pc.toNat < maxProgramSize ∧ p.2.virtual = userRanges :=
  passes_induction (Q := fun t => t.virtual = userRanges)
    (fun _ _ ht => sameProgram_emulateStep.mono fun _ hc => hc.virtual.trans ht) envs
    (virtual_emulateEnter s) p hp

/-- **Segmentation of a run** of `EmulateX4` from any machine, whatever its program: every pass is
segmented exactly when no pass executes a move with an offset behind `0xffffbfff`. -/
theorem segmented_passes_iff (envs : List Environment) (s : Machine) :
    (∀ p ∈ passes envs (emulateEnter s), Segmented (emulateEnter s).virtual p.1 p.2) ↔
      ∀ p ∈ passes envs (emulateEnter s), ∀ offset ∈ moveOffset p.1 p.2,
        offset.toNat ≤ 0xffffbfff := by
  exact forall₂_congr fun p hp => segmented_iff (virtual_of_mem_passes hp).2

/-- The bytes behind the arrays are zero and no service answers. -/
def quiet : Environment where
  behindProgram := fun _ => 0
  behindParam := fun _ => 0
  ntInit := 0
  ntCheckInitiated := 0
  loadLibrary := 0

/-- `MOVMW` of register 0 with offset `0xffffc000`. -/
def wrappingMove : List UInt8 := [0x82, 0x00, 0x00, 0xC0, 0xFF, 0xFF]

/-- The emulator is not segmented: `wrappingMove` writes address 0. -/
theorem not_segmented : ¬ ∀ (bytes : List UInt8) (s : Machine),
    emulatorSetProgram bytes (.powerOn fun _ => 0) = .ok s → ∀ envs,
      ∀ p ∈ passes envs (emulateEnter s), Segmented (emulateEnter s).virtual p.1 p.2 := by
  intro h
  obtain ⟨s, hs, hpass, hw⟩ : ∃ s, emulatorSetProgram wrappingMove (.powerOn fun _ => 0) = .ok s ∧
      (quiet, emulateEnter s) ∈ passes [quiet] (emulateEnter s) ∧
      .busWriteMemory 0 0 ∈ (emulateStep quiet (emulateEnter s)).effects :=
    ⟨_, rfl, List.mem_cons_self, by decide⟩
  have hlow : userRanges.heapBegin ≤ 0 := ((h wrappingMove s hs [quiet] _ hpass).inHeap _ hw 0 rfl).1
  exact absurd hlow (by decide)

end MicroKernel.X4
