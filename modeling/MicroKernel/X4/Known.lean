import MicroKernel.Lib.Explore
import MicroKernel.X4.Segmentation

/-!
# What is known of an X4 program

The passes of a program, as far as they follow from its bytes. A description knows the program counter,
the depth of the stack and some of the registers and flags; a pass is described when what it does follows
from these, and its accesses stay inside the arrays. Registers, stack and memory may hold anything when
the program is entered, and so may the program buffer behind the program.

## Main definitions

* `Setting`: the program, the parameters, and the answers of the kernel's services
* `Known`, `Known.Fits`: what is known of the machine in a pass
* `Known.step`: what a pass may do, if the description tells
* `Known.explore`: what the runs of a program show
-/

namespace MicroKernel.X4

open Explore

/-! ## Descriptions -/

/-- The program and its parameters, and how the services answer: BL after a library is loaded, unless it
is left as it was. -/
structure Setting where
  program : List UInt8
  param : List UInt8
  ntInit : Bool
  ntCheckInitiated : Bool
  library : Option UInt8

/-- What `LoadLibrary` makes of BL. -/
def libraryStatus (status : Int8) : Option UInt8 :=
  if status = -1 then some 1
  else if status = -2 then some 2
  else if status = -3 then some 3
  else if status ≥ 0 then some 0
  else none

/-- The services answer as the setting says. -/
structure Setting.Answers (g : Setting) (env : Environment) : Prop where
  ntInit : g.ntInit = decide (env.ntInit ≠ 0)
  ntCheckInitiated : g.ntCheckInitiated = decide (env.ntCheckInitiated ≠ 0)
  library : g.library = libraryStatus env.loadLibrary

/-- The program and the parameters are loaded. -/
structure Setting.Loaded (g : Setting) (s : Machine) : Prop where
  program_le : g.program.length ≤ maxProgramSize
  programSize : s.programSize.toNat = g.program.length
  programBuffer : ∀ i byte, g.program[i]? = some byte → ∀ h : i < maxProgramSize,
    s.programBuffer ⟨i, h⟩ = byte
  param_le : g.param.length ≤ 32
  paramLength : s.paramLength.toNat = g.param.length
  paramString : ∀ i byte, g.param[i]? = some byte → ∀ h : i < 32, s.paramString ⟨i, h⟩ = byte

/-- What is known of a machine. -/
structure Known where
  pc : UInt32
  pcRet : UInt32
  reg : Fin 8 → Option UInt8
  stack : List (Option UInt8)
  flagCompare : Option UInt8
  flagGreater : Option UInt8
  flagConsoleDirty : UInt8

/-- What is known when a program is entered. -/
def Known.enter : Known where
  pc := 0
  pcRet := 0
  reg := fun _ => none
  stack := []
  flagCompare := some 0
  flagGreater := some 0
  flagConsoleDirty := 1

/-- The description fits the machine. -/
structure Known.Fits (g : Setting) (k : Known) (s : Machine) : Prop where
  loaded : g.Loaded s
  virtual : s.virtual = userRanges
  pc : s.pc = k.pc
  pcRet : s.pcRet = k.pcRet
  reg : ∀ i byte, k.reg i = some byte → s.reg i = byte
  stack_le : k.stack.length ≤ 100
  stackPtr : s.stackPtr.toNat = k.stack.length
  stack : ∀ i byte, k.stack[i]? = some (some byte) → ∀ h : i < 100, s.stack ⟨i, h⟩ = byte
  flagCompare : ∀ byte, k.flagCompare = some byte → s.flagCompare = byte
  flagGreater : ∀ byte, k.flagGreater = some byte → s.flagGreater = byte
  flagConsoleDirty : s.flagConsoleDirty = k.flagConsoleDirty

/-! ## Passes -/

/-- The effects that are shown: all but the accesses to the arrays and the divisions. -/
def Effect.shown : Effect → Bool
  | .programBuffer _ | .paramString _ | .reg _ | .stack _ | .divide _ => false
  | _ => true

/-- A byte of the program. -/
def Setting.byteAt (g : Setting) (index : UInt32) : Option UInt8 := g.program[index.toNat]?

/-- The operands of an instruction, as far as they are bytes of the program. -/
structure KnownOperands where
  argA : Option UInt8
  argB : Option UInt8
  argC : Option UInt8
  argD : Option UInt8
  argE : Option UInt8

def KnownOperands.offset (a : KnownOperands) : Option UInt32 := do
  return pointer (← a.argB) (← a.argC) (← a.argD) (← a.argE)

def KnownOperands.target (a : KnownOperands) : Option UInt32 := do
  return pointer (← a.argA) (← a.argB) (← a.argC) (← a.argD)

namespace Known

/-- A register, if there is one of that number. -/
def get (k : Known) (index : ℕ) : Option (Option UInt8) :=
  if h : index < 8 then some (k.reg ⟨index, h⟩) else none

def set (k : Known) (index : ℕ) (byte : Option UInt8) : Option Known :=
  if h : index < 8 then some { k with reg := Function.update k.reg ⟨index, h⟩ byte } else none

/-- The pass goes on, and shows nothing. -/
def go (k : Known) (length : UInt32) : List (Outcome Effect Known) :=
  [⟨[], some { k with pc := k.pc + length }⟩]

/-- The flags from the comparison of two bytes, if both are known. -/
def compare (k : Known) (x y : Option UInt8) : Known :=
  match x, y with
  | some x, some y =>
    if x = y then { k with flagCompare := some 1, flagGreater := some 0 }
    else { k with flagCompare := some 0, flagGreater := some (if x > y then 1 else 0) }
  | _, _ => { k with flagCompare := none, flagGreater := none }

/-- A jump if a flag has a value: where the flag is not known, the jump may be done or not. -/
def jumpIf (k : Known) (flag : Option UInt8) (value : UInt8) (target : UInt32) :
    List (Outcome Effect Known) :=
  match flag with
  | some byte => [⟨[], some { k with pc := if byte = value then target else k.pc + 4 }⟩]
  | none => [⟨[], some { k with pc := target }⟩, ⟨[], some { k with pc := k.pc + 4 }⟩]

def binary (k : Known) (a : KnownOperands) (f : UInt8 → UInt8 → UInt8) :
    Option (List (Outcome Effect Known)) := do
  let argA ← a.argA
  let x ← k.get argA.toNat
  let y ← k.get (← a.argB).toNat
  let k ← k.set argA.toNat (Option.map₂ f x y)
  return k.go 2

def unary (k : Known) (a : KnownOperands) (f : UInt8 → UInt8) (length : UInt32) :
    Option (List (Outcome Effect Known)) := do
  let argA ← a.argA
  let x ← k.get argA.toNat
  let k ← k.set argA.toNat (x.map f)
  return k.go length

/-- What the instruction of an opcode does. -/
def execute (k : Known) (a : KnownOperands) : OpCode → Option (List (Outcome Effect Known))
  | .nop => return [⟨[], some k⟩]
  | .movmr => do
    let address := userRanges.heapBegin + (← a.offset)
    let k ← k.set (← a.argA).toNat none
    return [⟨[.busReadMemory address], some { k with pc := k.pc + 5 }⟩]
  | .movmw => do
    let address := userRanges.heapBegin + (← a.offset)
    let byte ← (← k.get (← a.argA).toNat)
    return [⟨[.busWriteMemory address byte], some { k with pc := k.pc + 5 }⟩]
  | .movr => do
    let byte ← k.get (← a.argB).toNat
    let k ← k.set (← a.argA).toNat byte
    return k.go 2
  | .movb => do
    let k ← k.set (← a.argA).toNat (some (← a.argB))
    return k.go 2
  | .mova => do
    let argA ← a.argA
    let k ← k.set argA.toNat (some (← a.argB))
    let k ← k.set (argA.toNat + 1) (some (← a.argC))
    return k.go 5
  | .inc => k.unary a (fun x => x + 1) 1
  | .dec => k.unary a (fun x => x - 1) 1
  | .add => k.binary a (fun x y => x + y)
  | .sub => k.binary a (fun x y => x - y)
  | .mul => do
    let x ← k.get (← a.argB).toNat
    let y ← k.get (← a.argC).toNat
    let k ← k.set (← a.argA).toNat (Option.map₂ (fun x y => x * y) x y)
    return k.go 3
  | .div => do
    let x ← k.get (← a.argB).toNat
    -- the divisor has to be known
    let y ← (← k.get (← a.argC).toNat)
    if y = 0 then none
    else do
      let k ← k.set (← a.argA).toNat (x.map (· / y))
      return k.go 3
  | .pop => do
    let byte ← k.stack.getLast?
    let k ← { k with stack := k.stack.dropLast }.set (← a.argA).toNat byte
    return k.go 1
  | .push => do
    let byte ← k.get (← a.argA).toNat
    if k.stack.length < 100 then return { k with stack := k.stack ++ [byte] }.go 1 else none
  | .and => k.binary a (fun x y => x &&& y)
  | .or => k.binary a (fun x y => x ||| y)
  | .xor => k.binary a (fun x y => x ^^^ y)
  | .not => k.unary a (fun x => ~~~x) 2
  | .cmp => do
    let x ← k.get (← a.argA).toNat
    return (k.compare x (some (← a.argB))).go 2
  | .cmpr => do
    let x ← k.get (← a.argA).toNat
    let y ← k.get (← a.argB).toNat
    return (k.compare x y).go 2
  | .jmp => do return [⟨[], some { k with pc := ← a.target }⟩]
  | .je => do return k.jumpIf k.flagCompare 1 (← a.target)
  | .jne => do return k.jumpIf k.flagCompare 0 (← a.target)
  | .jg => do return k.jumpIf k.flagGreater 1 (← a.target)
  | .jl => do return k.jumpIf k.flagGreater 0 (← a.target)
  | .call => do return [⟨[], some { k with pcRet := k.pc + 4, pc := ← a.target }⟩]
  | .ret => return [⟨[], some { k with pc := k.pcRet, pcRet := 0 }⟩]
  | .cli => return [⟨[.cli], some k⟩]
  | .sti => return [⟨[.sei], some k⟩]

/-- A service that shows `es` and leaves a byte in BL. -/
def answer (k : Known) (es : List Effect) (byte : Option UInt8) :
    Option (List Effect × Known) :=
  (k.set rBL byte).map fun k => (es, k)

/-- How a character is printed. -/
def character (byte : UInt8) : Effect := if byte = 10 then .printLn else .printChar byte

/-- The characters of a string in the program, which ends with a zero byte. -/
def string (g : Setting) (offset : ℕ) : Option (List Effect) :=
  if 0 ∈ g.program.drop offset then
    some (((g.program.drop offset).takeWhile (· ≠ 0)).map character)
  else none

/-- There is a register, so that a numeral is one. -/
local instance neZeroRegisters : NeZero 8 := ⟨by decide⟩

def display (g : Setting) (k : Known) : Option (List Effect × Known) := do
  let ah ← k.reg 1
  if ah = 0x09 then do
    let es ← string g (pointer (← k.reg 6) (← k.reg 7) 0 0).toNat
    return (es, { k with flagConsoleDirty := 1 })
  else if ah = 0x03 then
    return ([.consoleClearScreen, .consoleSetCursor 0 0], { k with flagConsoleDirty := 0 })
  else k.answer [] (some 1)

/-- The bytes of the program that are sent. -/
def message (g : Setting) (offset length : ℕ) : List Effect :=
  ((g.program.drop offset).take length).map .ntSend

def network (g : Setting) (k : Known) : Option (List Effect × Known) := do
  let ah ← k.reg 1
  if ah = 0x0A then
    if g.ntInit then
      k.answer [.ntInit, .ntCheckInitiated] (some (if g.ntCheckInitiated then 0 else 2))
    else k.answer [.ntInit] (some 1)
  else if ah = 0x0C then do
    let offset := (pointer (← k.reg 6) (← k.reg 7) 0 0).toNat
    let cl ← k.reg 4
    if offset ≥ g.program.length ∨ offset + cl.toNat ≥ g.program.length then k.answer [] (some 1)
    else do
      let al ← k.reg 0
      k.answer (if al = 0x00 then message g offset cl.toNat
        else if al = 0x01 then g.param.map .ntSend else []) (some 0)
  else k.answer [] (some 1)

def operatingSystem (g : Setting) (k : Known) : Option (List Effect × Known) := do
  let ah ← k.reg 1
  if ah = 0x0A then
    match g.library with
    | some byte => k.answer [.loadLibrary] (some byte)
    | none => return ([.loadLibrary], k)
  else return ([], k)

/-- What the routine of an interrupt shows and leaves. -/
def interruptRoutine (g : Setting) (k : Known) (argA : UInt8) : Option (List Effect × Known) :=
  if argA = 0x10 then display g k
  else if argA = 0x13 then k.answer [] (some 1)
  else if argA = 0x14 then network g k
  else if argA = 0x47 then operatingSystem g k
  else return ([], k)

def interrupt (g : Setting) (k : Known) (argA : UInt8) : Option (List (Outcome Effect Known)) := do
  let (es, k) ← interruptRoutine g { k with pc := k.pc + 1 } argA
  if argA = 0x20 then
    return [⟨es ++ if k.flagConsoleDirty = 1 then [.printLn] else [], none⟩]
  else return [⟨es, some k⟩]

/-- The operands behind the opcode. -/
def operands (g : Setting) (k : Known) : KnownOperands where
  argA := g.byteAt (k.pc + 1)
  argB := g.byteAt (k.pc + 2)
  argC := g.byteAt (k.pc + 3)
  argD := g.byteAt (k.pc + 4)
  argE := g.byteAt (k.pc + 5)

/-- What a pass may do. -/
def step (g : Setting) (k : Known) : Option (List (Outcome Effect Known)) :=
  if k.pc.toNat + 5 < maxProgramSize then do
    let opCode ← g.byteAt k.pc
    match OpCode.ofByte opCode with
    | some op => execute { k with pc := k.pc + 1 } (k.operands g) op
    | none =>
      if opCode = 0xCC ∨ opCode = 0xCD then
        interrupt g { k with pc := k.pc + 1 } (← (k.operands g).argA)
      else return [⟨[], some { k with pc := k.pc + 1 }⟩]
  else none

/-- What the runs of a program show, if all of them return to the system within `n` passes. -/
def explore (g : Setting) (n : ℕ) : Option (List (List Effect)) := Explore.explore (step g) n enter

end Known

end MicroKernel.X4
