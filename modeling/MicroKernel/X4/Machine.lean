import MicroKernel.Lib.Traced
import MicroKernel.Lib.Store
import MicroKernel.Virtual
import Mathlib.Logic.Function.Basic

/-!
# The X4 machine

The state of the emulator of `kernel/emulation/x4/x4.c`, its opcodes, and the computations its
instructions are made of. A computation records every access it makes to the emulator's arrays, to the
bus and to the kernel's services, in order. A register or stack access outside its array stops the
emulator, as does a division by zero and a call of `kThrow`; a read behind the program buffer
returns whatever the memory holds there, which the environment supplies.

## Main definitions

* `OpCode`: the opcodes and their bytes
* `Machine`: the emulator's globals, the address ranges and the memory on the bus
* `Effect`, `Stop`, `Emulator`: what a step does, why it stops, and computations with the two
* `fetch`, `readReg`, `writeReg`, `readStack`, `writeStack`, `divide`: the array accesses
-/

namespace MicroKernel.X4

/-- `MAX_PROGRAM_SIZE` -/
abbrev maxProgramSize : ℕ := 256

/-- The opcodes of `x4.h` that `EmulateX4` executes. -/
inductive OpCode where
  | nop | movmr | movmw | movr | movb | mova | inc | dec | add | sub | mul | div | pop | push
  | and | or | xor | not | cmp | cmpr | jmp | je | jne | jg | jl | call | ret | cli | sti
deriving DecidableEq

namespace OpCode

/-- The byte of an opcode. -/
def toByte : OpCode → UInt8
  | nop => 0x90
  | movr => 0x88
  | movb => 0x89
  | mova => 0x83
  | movmw => 0x82
  | movmr => 0x81
  | inc => 0xFD
  | dec => 0xFC
  | add => 0x00
  | sub => 0x80
  | mul => 0xF6
  | div => 0xF4
  | and => 0x20
  | or => 0x21
  | xor => 0x22
  | not => 0x23
  | pop => 0x0F
  | push => 0xF0
  | cmp => 0x38
  | cmpr => 0x39
  | jmp => 0xFE
  | je => 0x74
  | jne => 0xF3
  | jg => 0x75
  | jl => 0xF1
  | call => 0x9A
  | ret => 0xCB
  | sti => 0xFB
  | cli => 0xFA

/-- The cases of the `switch` over the opcode, in order. -/
def all : List OpCode :=
  [nop, movmr, movmw, movr, movb, mova, inc, dec, add, sub, mul, div, pop, push, and, or, xor, not,
    cmp, cmpr, jmp, je, jne, jg, jl, call, ret, cli, sti]

/-- The opcode of a byte, if it is one of the cases. -/
def ofByte (byte : UInt8) : Option OpCode := all.find? fun op => op.toByte = byte

/-- The bytes of the opcodes are distinct. -/
theorem ofByte_toByte (op : OpCode) : ofByte op.toByte = some op := by cases op <;> decide

end OpCode

/-- The registers by name. -/
def rAL : ℕ := 0x00
def rAH : ℕ := 0x01
def rBL : ℕ := 0x02
def rBH : ℕ := 0x03
def rCL : ℕ := 0x04
def rCH : ℕ := 0x05
def rDL : ℕ := 0x06
def rDH : ℕ := 0x07

/-- The globals of the emulator, with the memory on the bus. -/
structure Machine where
  programBuffer : Fin maxProgramSize → UInt8
  programSize : UInt32
  paramString : Fin 32 → UInt8
  paramLength : UInt32
  reg : Fin 8 → UInt8
  stack : Fin 100 → UInt8
  pc : UInt32
  pcRet : UInt32
  stackPtr : UInt32
  flagCompare : UInt8
  flagGreater : UInt8
  flagConsoleDirty : UInt8
  virtual : Virtual
  memory : UInt32 → UInt8

/-- What the emulator does not decide itself: the bytes behind its arrays and the results of the
kernel's services. -/
structure Environment where
  behindProgram : UInt32 → UInt8
  behindParam : UInt32 → UInt8
  ntInit : UInt8
  ntCheckInitiated : UInt8
  loadLibrary : Int8

/-- What a step does: accesses to the emulator's arrays, divisions, bus accesses and services. -/
inductive Effect where
  | programBuffer (index : UInt32)
  | paramString (index : UInt32)
  | reg (index : ℕ)
  | stack (index : UInt32)
  | divide (divisor : UInt8)
  | busReadMemory (address : UInt32)
  | busWriteMemory (address : UInt32) (byte : UInt8)
  | printChar (character : UInt8)
  | printLn
  | consoleClearScreen
  | consoleSetCursor (line position : UInt8)
  | ntInit
  | ntCheckInitiated
  | ntSend (byte : UInt8)
  | loadLibrary
  | cli
  | sei
deriving DecidableEq

/-- Why a step does not go on: an access outside an array, a division by zero, or `kThrow`, which
halts. -/
inductive Stop where
  | outOfBounds
  | divisionByZero
  | kThrow (errorCode hardwareAddress : UInt32)
deriving DecidableEq

/-- The computations of the emulator. -/
abbrev Emulator (α : Type) := Traced Effect Stop α

open Traced

/-! ## Array accesses -/

/-- Read `programBuffer`. -/
def fetch (env : Environment) (s : Machine) (index : UInt32) : Emulator UInt8 := do
  tell (.programBuffer index)
  return if h : index.toNat < maxProgramSize then s.programBuffer ⟨index.toNat, h⟩
    else env.behindProgram index

/-- Read `param_string`. -/
def fetchParam (env : Environment) (s : Machine) (index : UInt32) : Emulator UInt8 := do
  tell (.paramString index)
  return if h : index.toNat < 32 then s.paramString ⟨index.toNat, h⟩ else env.behindParam index

/-- The byte of a register; reading another stops. -/
def regAt (s : Machine) (index : ℕ) : UInt8 := if h : index < 8 then s.reg ⟨index, h⟩ else 0

theorem regAt_of_lt {s : Machine} {index : ℕ} (h : index < 8) : regAt s index = s.reg ⟨index, h⟩ :=
  dif_pos h

def readReg (s : Machine) (index : ℕ) : Emulator UInt8 := do
  tell (.reg index)
  if h : index < 8 then return s.reg ⟨index, h⟩ else stop .outOfBounds

def writeReg (s : Machine) (index : ℕ) (byte : UInt8) : Emulator Machine := do
  tell (.reg index)
  if h : index < 8 then return { s with reg := Function.update s.reg ⟨index, h⟩ byte }
  else stop .outOfBounds

def readStack (s : Machine) (index : UInt32) : Emulator UInt8 := do
  tell (.stack index)
  if h : index.toNat < 100 then return s.stack ⟨index.toNat, h⟩ else stop .outOfBounds

def writeStack (s : Machine) (index : UInt32) (byte : UInt8) : Emulator Machine := do
  tell (.stack index)
  if h : index.toNat < 100 then return { s with stack := Function.update s.stack ⟨index.toNat, h⟩ byte }
  else stop .outOfBounds

def divide (dividend divisor : UInt8) : Emulator UInt8 := do
  tell (.divide divisor)
  if divisor = 0 then stop .divisionByZero else return dividend / divisor

/-- The address of a `union Pointer` with the given bytes, the lowest first. -/
def pointer (b₀ b₁ b₂ b₃ : UInt8) : UInt32 :=
  Store.wordOf fun k => [b₀, b₁, b₂, b₃].getD k 0

/-! ## Rules for the array accesses -/

section Rules

variable {env : Environment} {s : Machine} {P : Effect → Prop} {Q : UInt8 → Prop}
  {R : Machine → Prop} {index : ℕ} {i : UInt32} {byte : UInt8}

/-- The byte `fetch` returns. -/
def programByte (env : Environment) (s : Machine) (index : UInt32) : UInt8 :=
  if h : index.toNat < maxProgramSize then s.programBuffer ⟨index.toNat, h⟩
  else env.behindProgram index

@[simp] theorem all_fetch : (fetch env s i).All P ↔ P (.programBuffer i) := by
  simp [fetch, all_bind]

@[simp] theorem ensures_fetch : (fetch env s i).Ensures Q ↔ Q (programByte env s i) := by
  simp [fetch, ensures_bind, programByte]

@[simp] theorem all_fetchParam : (fetchParam env s i).All P ↔ P (.paramString i) := by
  simp [fetchParam, all_bind]

@[simp] theorem all_readReg : (readReg s index).All P ↔ P (.reg index) := by
  simp only [readReg, all_bind, all_tell, ensures_tell, all_dite, all_pure, all_stop,
    implies_true, and_self, and_true]

@[simp] theorem ensures_readReg :
    (readReg s index).Ensures Q ↔ ∀ h : index < 8, Q (s.reg ⟨index, h⟩) := by
  simp only [readReg, ensures_bind, ensures_tell, ensures_dite, ensures_pure, ensures_stop,
    implies_true, and_true]

@[simp] theorem all_writeReg : (writeReg s index byte).All P ↔ P (.reg index) := by
  simp only [writeReg, all_bind, all_tell, ensures_tell, all_dite, all_pure, all_stop,
    implies_true, and_self, and_true]

@[simp] theorem ensures_writeReg : (writeReg s index byte).Ensures R ↔
    ∀ h : index < 8, R { s with reg := Function.update s.reg ⟨index, h⟩ byte } := by
  simp only [writeReg, ensures_bind, ensures_tell, ensures_dite, ensures_pure, ensures_stop,
    implies_true, and_true]

@[simp] theorem all_readStack : (readStack s i).All P ↔ P (.stack i) := by
  simp only [readStack, all_bind, all_tell, ensures_tell, all_dite, all_pure, all_stop,
    implies_true, and_self, and_true]

@[simp] theorem ensures_readStack :
    (readStack s i).Ensures Q ↔ ∀ h : i.toNat < 100, Q (s.stack ⟨i.toNat, h⟩) := by
  simp only [readStack, ensures_bind, ensures_tell, ensures_dite, ensures_pure, ensures_stop,
    implies_true, and_true]

@[simp] theorem all_writeStack : (writeStack s i byte).All P ↔ P (.stack i) := by
  simp only [writeStack, all_bind, all_tell, ensures_tell, all_dite, all_pure, all_stop,
    implies_true, and_self, and_true]

@[simp] theorem ensures_writeStack : (writeStack s i byte).Ensures R ↔
    ∀ h : i.toNat < 100, R { s with stack := Function.update s.stack ⟨i.toNat, h⟩ byte } := by
  simp only [writeStack, ensures_bind, ensures_tell, ensures_dite, ensures_pure, ensures_stop,
    implies_true, and_true]

@[simp] theorem all_divide {x y : UInt8} : (divide x y).All P ↔ P (.divide y) := by
  simp only [divide, all_bind, all_tell, ensures_tell, all_ite, all_pure, all_stop,
    implies_true, and_self, and_true]

@[simp] theorem ensures_divide {x y : UInt8} :
    (divide x y).Ensures Q ↔ (y ≠ 0 → Q (x / y)) := by
  simp only [divide, ensures_bind, ensures_tell, ensures_ite, ensures_pure, ensures_stop,
    implies_true, true_and, ne_eq]

section Stops

variable {T : Stop → Prop}

@[simp] theorem stops_fetch : (fetch env s i).Stops T := by simp [fetch, stops_bind]

@[simp] theorem stops_readReg : (readReg s index).Stops T ↔ (¬ index < 8 → T .outOfBounds) := by
  simp only [readReg, stops_bind, stops_tell, ensures_tell, stops_dite, stops_pure, stops_stop,
    implies_true, true_and]

@[simp] theorem stops_writeReg :
    (writeReg s index byte).Stops T ↔ (¬ index < 8 → T .outOfBounds) := by
  simp only [writeReg, stops_bind, stops_tell, ensures_tell, stops_dite, stops_pure, stops_stop,
    implies_true, true_and]

end Stops

end Rules

end MicroKernel.X4
