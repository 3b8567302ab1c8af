import MicroKernel.X4.Services

/-!
# The X4 interpreter

The loop of `EmulateX4` in `kernel/emulation/x4/x4.c`: `emulateStep` is one pass, and `passes`
the passes of a run.

## Main definitions

* `emulatorSetProgram`, `emulatorSetParameters`: loading a program
* `execute`, `interrupt`: the cases of the `switch`, and the interrupt instructions
* `emulateEnter`, `emulateStep`, `emulateExit`: the entry, a pass of the loop, and its end
* `passes`, `Reachable`: the passes of a run, and the states between runs

## Main results

* `passes_induction`: the invariant rule for the passes of a run
* `sameProgram_emulateStep`: a pass leaves the program and the address ranges
* `Reachable.programSize_le`: a loaded program fits the buffer
-/

namespace MicroKernel.X4

open Traced

/-- `HALT_SEGMENTATION_FAULT` -/
def haltSegmentationFault : UInt32 := 0x80000004

/-- `memcpy` into an array of `n` bytes; bytes past its end are undefined behaviour. -/
def copyInto {n : ℕ} (buffer : Fin n → UInt8) (bytes : List UInt8) :
    Except Stop (Fin n → UInt8) :=
  if bytes.length ≤ n then .ok fun i => bytes.getD i (buffer i) else .error .outOfBounds

def emulatorSetProgram (bytes : List UInt8) (s : Machine) : Except Stop Machine := do
  let programBuffer ← copyInto s.programBuffer bytes
  return { s with programBuffer, programSize := UInt32.ofNat bytes.length }

def emulatorSetParameters (bytes : List UInt8) (s : Machine) : Except Stop Machine := do
  let paramString ← copyInto s.paramString bytes
  return { s with paramString, paramLength := UInt32.ofNat bytes.length }

/-- The five bytes fetched behind the opcode. -/
structure Operands where
  argA : UInt8
  argB : UInt8
  argC : UInt8
  argD : UInt8
  argE : UInt8

/-- The address operand of the bus accesses. -/
def Operands.offset (a : Operands) : UInt32 := pointer a.argB a.argC a.argD a.argE

/-- The target of the jumps and calls. -/
def Operands.target (a : Operands) : UInt32 := pointer a.argA a.argB a.argC a.argD

/-- Set the flags from the comparison of two bytes. -/
def compare (s : Machine) (x y : UInt8) : Machine :=
  if x = y then { s with flagCompare := 1, flagGreater := 0 }
  else { s with flagCompare := 0, flagGreater := if x > y then 1 else 0 }

/-- Jump to the target if `c`, else go on behind it. -/
def jumpIf (c : Prop) [Decidable c] (a : Operands) (s : Machine) : Machine :=
  { s with pc := if c then a.target else s.pc + 4 }

/-- Replace register A by a function of registers A and B. -/
def binary (f : UInt8 → UInt8 → UInt8) (a : Operands) (s : Machine) : Emulator Machine := do
  let x ← readReg s a.argA.toNat
  let y ← readReg s a.argB.toNat
  let s ← writeReg s a.argA.toNat (f x y)
  return { s with pc := s.pc + 2 }

/-- Replace register A by a function of itself. -/
def unary (f : UInt8 → UInt8) (length : UInt32) (a : Operands) (s : Machine) : Emulator Machine := do
  let x ← readReg s a.argA.toNat
  let s ← writeReg s a.argA.toNat (f x)
  return { s with pc := s.pc + length }

/-- The case of an opcode. The program counter already stands behind the opcode. -/
def execute (s : Machine) (a : Operands) : OpCode → Emulator Machine
  | .nop => return s
  | .movmr =>
    if a.offset > s.virtual.heapEnd then
      stop (.kThrow haltSegmentationFault (s.virtual.heapBegin + a.offset))
    else do
      tell (.busReadMemory (s.virtual.heapBegin + a.offset))
      let s ← writeReg s a.argA.toNat (s.memory (s.virtual.heapBegin + a.offset))
      return { s with pc := s.pc + 5 }
  | .movmw =>
    if a.offset > s.virtual.heapEnd then
      stop (.kThrow haltSegmentationFault (s.virtual.heapBegin + a.offset))
    else do
      let byte ← readReg s a.argA.toNat
      tell (.busWriteMemory (s.virtual.heapBegin + a.offset) byte)
      return { s with
        memory := Function.update s.memory (s.virtual.heapBegin + a.offset) byte
        pc := s.pc + 5 }
  | .movr => do
    let byte ← readReg s a.argB.toNat
    let s ← writeReg s a.argA.toNat byte
    return { s with pc := s.pc + 2 }
  | .movb => do
    let s ← writeReg s a.argA.toNat a.argB
    return { s with pc := s.pc + 2 }
  | .mova => do
    let s ← writeReg s a.argA.toNat a.argB
    -- the index is computed in `int` and does not wrap
    let s ← writeReg s (a.argA.toNat + 1) a.argC
    return { s with pc := s.pc + 5 }
  | .inc => unary (fun x => x + 1) 1 a s
  | .dec => unary (fun x => x - 1) 1 a s
  | .add => binary (fun x y => x + y) a s
  | .sub => binary (fun x y => x - y) a s
  | .mul => do
    let x ← readReg s a.argB.toNat
    let y ← readReg s a.argC.toNat
    let s ← writeReg s a.argA.toNat (x * y)
    return { s with pc := s.pc + 3 }
  | .div => do
    let x ← readReg s a.argB.toNat
    let y ← readReg s a.argC.toNat
    let q ← divide x y
    let s ← writeReg s a.argA.toNat q
    return { s with pc := s.pc + 3 }
  | .pop => do
    let byte ← readStack s (s.stackPtr - 1)
    let s ← writeReg s a.argA.toNat byte
    return { s with stackPtr := s.stackPtr - 1, pc := s.pc + 1 }
  | .push => do
    let byte ← readReg s a.argA.toNat
    let s ← writeStack s s.stackPtr byte
    return { s with stackPtr := s.stackPtr + 1, pc := s.pc + 1 }
  | .and => binary (fun x y => x &&& y) a s
  | .or => binary (fun x y => x ||| y) a s
  | .xor => binary (fun x y => x ^^^ y) a s
  | .not => unary (fun x => ~~~x) 2 a s
  | .cmp => do
    let x ← readReg s a.argA.toNat
    let s := compare s x a.argB
    return { s with pc := s.pc + 2 }
  | .cmpr => do
    let x ← readReg s a.argA.toNat
    let y ← readReg s a.argB.toNat
    let s := compare s x y
    return { s with pc := s.pc + 2 }
  | .jmp => return { s with pc := a.target }
  | .je => return jumpIf (s.flagCompare = 1) a s
  | .jne => return jumpIf (s.flagCompare = 0) a s
  | .jg => return jumpIf (s.flagGreater = 1) a s
  | .jl => return jumpIf (s.flagGreater = 0) a s
  | .call => return { s with pcRet := s.pc + 4, pc := a.target }
  | .ret => return { s with pc := s.pcRet, pcRet := 0 }
  | .cli => do
    tell .cli
    return s
  | .sti => do
    tell .sei
    return s

/-- Where a pass of the loop leads: to the next one, or out of `EmulateX4`. -/
inductive Control where
  | next (s : Machine)
  | returned (s : Machine)

def Control.machine : Control → Machine
  | next s => s
  | returned s => s

@[simp] theorem Control.machine_next (s : Machine) : (Control.next s).machine = s := rfl

@[simp] theorem Control.machine_returned (s : Machine) : (Control.returned s).machine = s := rfl

/-- The routine of an interrupt number; the others have none. -/
def interruptRoutine (env : Environment) (s : Machine) (argA : UInt8) : Emulator Machine :=
  if argA = 0x10 then iscDisplayRoutine env s
  else if argA = 0x13 then iscFileSystemRoutine s
  else if argA = 0x14 then iscNetworkRoutine env s
  else if argA = 0x47 then iscOperatingSystem env s
  else return s

/-- An interrupt instruction; number 0x20 returns control to the operating system. -/
def interrupt (env : Environment) (s : Machine) (argA : UInt8) : Emulator Control := do
  let s ← interruptRoutine env { s with pc := s.pc + 1 } argA
  if argA = 0x20 then do
    if s.flagConsoleDirty = 1 then tell .printLn
    return .returned s
  else return .next s

/-- The machine when the loop is entered. -/
def emulateEnter (s : Machine) : Machine :=
  let virtual := virtualAccessSetMode virtualAccessModeUser s.virtual
  { s with
    pc := 0
    pcRet := 0
    stackPtr := 0
    flagCompare := 0
    flagGreater := 0
    flagConsoleDirty := 1
    virtual := { virtual with
      heapBegin := virtual.virtualAddressBegin
      heapEnd := virtual.virtualAddressEnd } }

/-- Fetch the operands behind the opcode at `pc`. -/
def fetchOperands (env : Environment) (s : Machine) : Emulator Operands := do
  let argA ← fetch env s (s.pc + 1)
  let argB ← fetch env s (s.pc + 2)
  let argC ← fetch env s (s.pc + 3)
  let argD ← fetch env s (s.pc + 4)
  let argE ← fetch env s (s.pc + 5)
  return { argA, argB, argC, argD, argE }

/-- What a pass does with the fetched bytes, the program counter behind the opcode. -/
def dispatch (env : Environment) (s : Machine) (opCode : UInt8) (a : Operands) : Emulator Control :=
  match OpCode.ofByte opCode with
  | some op => do
    let s ← execute s a op
    return .next s
  | none =>
    if opCode = 0xCC ∨ opCode = 0xCD then interrupt env s a.argA else return .next s

/-- One pass of the loop. -/
def emulateStep (env : Environment) (s : Machine) : Emulator Control := do
  let opCode ← fetch env s s.pc
  let a ← fetchOperands env s
  dispatch env { s with pc := s.pc + 1 } opCode a

/-- The end of `EmulateX4` behind the loop. -/
def emulateExit (s : Machine) : Emulator Machine := do
  let virtual := virtualAccessSetMode virtualAccessModeKernel s.virtual
  if s.flagConsoleDirty = 1 then tell .printLn
  return { s with virtual := { virtual with heapBegin := 0x00000000, heapEnd := 0xffffffff } }

/-- The operands a pass fetches. -/
def operandsAt (env : Environment) (s : Machine) : Operands where
  argA := programByte env s (s.pc + 1)
  argB := programByte env s (s.pc + 2)
  argC := programByte env s (s.pc + 3)
  argD := programByte env s (s.pc + 4)
  argE := programByte env s (s.pc + 5)

theorem ensures_emulateStep {env : Environment} {s : Machine} {Q : Control → Prop} :
    (emulateStep env s).Ensures Q ↔
      (dispatch env { s with pc := s.pc + 1 } (programByte env s s.pc) (operandsAt env s)).Ensures
        Q := by
  simp only [emulateStep, fetchOperands, ensures_bind, ensures_fetch, ensures_pure, operandsAt]

/-- The effects of a pass are six fetches and those of the instruction. -/
theorem all_emulateStep {env : Environment} {s : Machine} {P : Effect → Prop} :
    (emulateStep env s).All P ↔
      (∀ i ∈ [0, 1, 2, 3, 4, 5], P (.programBuffer (s.pc + i))) ∧
      (dispatch env { s with pc := s.pc + 1 } (programByte env s s.pc) (operandsAt env s)).All
        P := by
  simp only [emulateStep, fetchOperands, all_bind, all_fetch, ensures_bind, ensures_fetch,
    ensures_pure, all_pure, and_true, operandsAt, List.forall_mem_cons, List.not_mem_nil,
    false_implies, implies_true, UInt32.add_zero, and_assoc]

theorem stops_emulateStep {env : Environment} {s : Machine} {T : Stop → Prop} :
    (emulateStep env s).Stops T ↔
      (dispatch env { s with pc := s.pc + 1 } (programByte env s s.pc) (operandsAt env s)).Stops
        T := by
  simp only [emulateStep, fetchOperands, stops_bind, stops_fetch, ensures_bind, ensures_fetch,
    stops_pure, ensures_pure, and_true, true_and, operandsAt]

/-- The passes of a run from `s`, each with its environment, as long as the loop goes on. -/
def passes : List Environment → Machine → List (Environment × Machine)
  | [], _ => []
  | env :: envs, s =>
    if s.pc.toNat < maxProgramSize then
      (env, s) :: match (emulateStep env s).value with
        | .ok (.next t) => passes envs t
        | _ => []
    else []

/-- What holds at the entry and is kept by every pass holds at each pass of a run. -/
theorem passes_induction {Q : Machine → Prop}
    (hstep : ∀ env s, Q s → (emulateStep env s).Ensures fun c => Q c.machine)
    (envs : List Environment) {s : Machine} (hs : Q s) :
    ∀ p ∈ passes envs s, p.2.pc.toNat < maxProgramSize ∧ Q p.2 := by
  induction envs generalizing s with
  | nil =>
    intro p hp
    cases hp
  | cons env envs ih =>
    intro p hp
    rw [passes] at hp
    split_ifs at hp with hpc
    · rcases List.mem_cons.mp hp with rfl | hp
      · exact ⟨hpc, hs⟩
      · split at hp
        · next t ht => exact ih (hstep env s hs _ ht) p hp
        · cases hp
    · cases hp

/-! ## What the passes leave -/

/-- The program, its size and the address ranges of `s` and `t` are the same. -/
structure SameProgram (s t : Machine) : Prop where
  programBuffer : t.programBuffer = s.programBuffer
  programSize : t.programSize = s.programSize
  virtual : t.virtual = s.virtual

theorem SameProgram.trans {s t u : Machine} (h : SameProgram s t) (h' : SameProgram t u) :
    SameProgram s u :=
  ⟨h'.1.trans h.1, h'.2.trans h.2, h'.3.trans h.3⟩

theorem sameProgram_pc {s : Machine} (pc : UInt32) : SameProgram s { s with pc } :=
  ⟨rfl, rfl, rfl⟩

section Frame

variable {env : Environment} {s : Machine} {index : ℕ} {byte : UInt8}

theorem sameProgram_writeReg : (writeReg s index byte).Ensures (SameProgram s) := by
  rw [ensures_writeReg]
  exact fun _ => ⟨rfl, rfl, rfl⟩

theorem sameProgram_binary (f : UInt8 → UInt8 → UInt8) (a : Operands) :
    (binary f a s).Ensures (SameProgram s) := by
  simp only [binary, ensures_bind, ensures_readReg, ensures_writeReg, ensures_pure]
  exact fun _ _ _ => ⟨rfl, rfl, rfl⟩

theorem sameProgram_unary (f : UInt8 → UInt8) (length : UInt32) (a : Operands) :
    (unary f length a s).Ensures (SameProgram s) := by
  simp only [unary, ensures_bind, ensures_readReg, ensures_writeReg, ensures_pure]
  exact fun _ _ => ⟨rfl, rfl, rfl⟩

theorem sameProgram_compare (x y : UInt8) : SameProgram s (compare s x y) := by
  rw [compare]
  split <;> exact ⟨rfl, rfl, rfl⟩

theorem sameProgram_execute (a : Operands) (op : OpCode) :
    (execute s a op).Ensures (SameProgram s) := by
  cases op with
  | inc | dec | not => exact sameProgram_unary _ _ a
  | add | sub | and | or | xor => exact sameProgram_binary _ a
  | cmp | cmpr =>
    simp only [execute, ensures_bind, ensures_readReg, ensures_pure]
    intros
    exact (sameProgram_compare ..).trans ⟨rfl, rfl, rfl⟩
  | movmr | movmw =>
    simp only [execute, ensures_ite, ensures_stop, ensures_bind, ensures_tell, ensures_readReg,
      ensures_writeReg, ensures_pure, implies_true, true_and]
    exact fun _ _ => ⟨rfl, rfl, rfl⟩
  | _ =>
    simp only [execute, ensures_bind, ensures_readReg, ensures_writeReg, ensures_readStack,
      ensures_writeStack, ensures_divide, ensures_tell, ensures_pure]
    intros
    exact ⟨rfl, rfl, rfl⟩

theorem sameProgram_interruptRoutine (argA : UInt8) :
    (interruptRoutine env s argA).Ensures (SameProgram s) := by
  have hs : SameProgram s s := ⟨rfl, rfl, rfl⟩
  have hw : ∀ index byte, (writeReg s index byte).Ensures (SameProgram s) :=
    fun _ _ => sameProgram_writeReg
  simp only [interruptRoutine, iscDisplayRoutine, iscFileSystemRoutine, iscNetworkRoutine,
    iscOperatingSystem, ensures_ite, ensures_bind, ensures_readReg, ensures_tell, ensures_pure,
    hs, hw, implies_true, and_true, true_and]
  refine ⟨fun _ _ => ⟨fun _ _ _ => ensures_of_forall fun _ => ⟨rfl, rfl, rfl⟩,
    fun _ _ => ⟨rfl, rfl, rfl⟩⟩, ?_⟩
  exact fun _ _ _ _ _ _ _ _ _ _ _ => ⟨fun _ => ensures_true, fun _ _ => ensures_true⟩

theorem sameProgram_interrupt (argA : UInt8) :
    (interrupt env s argA).Ensures fun c => SameProgram s c.machine := by
  rw [interrupt, ensures_bind]
  refine (sameProgram_interruptRoutine argA).mono fun t ht => ?_
  have ht' : SameProgram s t := (sameProgram_pc _).trans ht
  simp only [ensures_ite, ensures_bind, ensures_tell, ensures_pure, Control.machine_returned,
    Control.machine_next, ht', implies_true, and_self]

theorem sameProgram_dispatch (opCode : UInt8) (a : Operands) :
    (dispatch env s opCode a).Ensures fun c => SameProgram s c.machine := by
  rw [dispatch]
  split
  · rw [ensures_bind]
    exact (sameProgram_execute a _).mono fun t ht => by simpa using ht
  · rw [ensures_ite]
    exact ⟨fun _ => sameProgram_interrupt _, fun _ => by simpa using ⟨rfl, rfl, rfl⟩⟩

/-- A pass leaves the program and the address ranges. -/
theorem sameProgram_emulateStep :
    (emulateStep env s).Ensures fun c => SameProgram s c.machine := by
  rw [ensures_emulateStep]
  exact (sameProgram_dispatch _ _).mono fun c hc => (sameProgram_pc _).trans hc

end Frame

/-! ## Reachable states -/

/-- The globals at power-on, over the memory on the bus. -/
def Machine.powerOn (memory : UInt32 → UInt8) : Machine where
  programBuffer := fun _ => 0
  programSize := 0
  paramString := fun _ => 0
  paramLength := 0
  reg := fun _ => 0
  stack := fun _ => 0
  pc := 0
  pcRet := 0
  stackPtr := 0
  flagCompare := 0
  flagGreater := 0
  flagConsoleDirty := 1
  virtual := .initial
  memory := memory

/-- The states between runs, whatever programs and parameters are loaded and whatever the kernel
writes to the memory. -/
inductive Reachable : Machine → Prop where
  | powerOn (memory) : Reachable (.powerOn memory)
  | kernel {s} (memory) : Reachable s → Reachable { s with memory }
  | setProgram {s t bytes} : Reachable s → emulatorSetProgram bytes s = .ok t → Reachable t
  | setParameters {s t bytes} : Reachable s → emulatorSetParameters bytes s = .ok t → Reachable t
  | returned {s envs p t} : Reachable s → p ∈ passes envs (emulateEnter s) →
      (emulateStep p.1 p.2).value = .ok (.returned t) → Reachable t
  | exit {s envs p t u} : Reachable s → p ∈ passes envs (emulateEnter s) →
      (emulateStep p.1 p.2).value = .ok (.next t) → ¬ t.pc.toNat < maxProgramSize →
      (emulateExit t).value = .ok u → Reachable u

/-- The passes of a run leave the size of the program. -/
theorem programSize_of_mem_passes {envs : List Environment} {s : Machine}
    {p : Environment × Machine} (hp : p ∈ passes envs (emulateEnter s)) :
    p.2.programSize = s.programSize :=
  (passes_induction (Q := fun t => t.programSize = s.programSize) (s := emulateEnter s)
    (fun _ _ ht => sameProgram_emulateStep.mono fun _ hc => hc.programSize.trans ht) envs rfl p hp).2

/-- A loaded program fits the buffer. -/
theorem Reachable.programSize_le {s : Machine} (h : Reachable s) :
    s.programSize.toNat ≤ maxProgramSize := by
  -- only loading a program sets its size
  induction h with
  | powerOn => exact Nat.zero_le _
  | kernel _ _ ih => exact ih
  | @setProgram s t bytes _ ht ih =>
    simp only [emulatorSetProgram, copyInto] at ht
    split at ht
    · next hn =>
      cases ht
      show (UInt32.ofNat bytes.length).toNat ≤ maxProgramSize
      rw [UInt32.toNat_ofNat']
      exact (Nat.mod_le _ _).trans hn
    · cases ht
  | @setParameters s t bytes _ ht ih =>
    simp only [emulatorSetParameters, copyInto] at ht
    split at ht
    · cases ht
      exact ih
    · cases ht
  | returned _ hp ht ih =>
    have ht' := (sameProgram_emulateStep _ ht).programSize
    rw [Control.machine_returned, programSize_of_mem_passes hp] at ht'
    rwa [ht']
  | @exit s envs p t u _ hp ht _ hu ih =>
    have ht' := (sameProgram_emulateStep _ ht).programSize
    rw [Control.machine_next, programSize_of_mem_passes hp] at ht'
    have hexit : (emulateExit t).Ensures fun u => u.programSize = t.programSize := by
      simp only [emulateExit, ensures_bind, ensures_ite, ensures_tell, ensures_pure, implies_true,
        and_self]
    rwa [hexit _ hu, ht']

end MicroKernel.X4
