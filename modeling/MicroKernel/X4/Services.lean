import MicroKernel.X4.Machine

/-!
# The interrupt services of the X4 emulator

The routines of `kernel/emulation/x4/services.c` a program reaches by an interrupt instruction.

## Main definitions

* `iscOperatingSystem`, `iscDisplayRoutine`, `iscFileSystemRoutine`, `iscNetworkRoutine`
* `messageOffset`, `messageLength`: the message of the network routine
* `displayString`, `ntSend`, `ntSendParam`: the loops over the program and the parameter string
-/

namespace MicroKernel.X4

open Traced

/-- `LoadLibrary` decides the value of BL; a status below -3 leaves it. -/
def iscOperatingSystem (env : Environment) (s : Machine) : Emulator Machine := do
  let ah ← readReg s rAH
  if ah = 0x0A then do
    tell .loadLibrary
    if env.loadLibrary = -1 then writeReg s rBL 1
    else if env.loadLibrary = -2 then writeReg s rBL 2
    else if env.loadLibrary = -3 then writeReg s rBL 3
    else if env.loadLibrary ≥ 0 then writeReg s rBL 0
    else return s
  else return s

/-- Print the characters of the program from `offset + i` on, up to a zero byte, with `left`
characters still allowed. -/
def displayString (env : Environment) (s : Machine) (offset : UInt32) :
    ℕ → UInt32 → Emulator PUnit
  | 0, _ => return ⟨⟩
  | left + 1, i => do
    let character ← fetch env s (offset + i)
    if character = 0 then return ⟨⟩
    else if character = 10 then do
      tell .printLn
      displayString env s offset left (i + 1)
    else do
      tell (.printChar character)
      displayString env s offset left (i + 1)

def iscDisplayRoutine (env : Environment) (s : Machine) : Emulator Machine := do
  let ah ← readReg s rAH
  if ah = 0x09 then do
    let dh ← readReg s rDH
    let dl ← readReg s rDL
    displayString env s (pointer dl dh 0 0) s.programSize.toNat 0
    return { s with flagConsoleDirty := 1 }
  else if ah = 0x03 then do
    tell .consoleClearScreen
    tell (.consoleSetCursor 0 0)
    return { s with flagConsoleDirty := 0 }
  else writeReg s rBL 1

/-- Every file system call is refused: the routine's cases are commented out. -/
def iscFileSystemRoutine (s : Machine) : Emulator Machine := writeReg s rBL 1

/-- `ntSend` on the program from `offset` on: `left` bytes from index `i`. -/
def ntSend (env : Environment) (s : Machine) (offset : UInt32) : ℕ → UInt32 → Emulator PUnit
  | 0, _ => return ⟨⟩
  | left + 1, i => do
    let byte ← fetch env s (offset + i)
    tell (.ntSend byte)
    ntSend env s offset left (i + 1)

/-- `ntSend` on the parameter string. -/
def ntSendParam (env : Environment) (s : Machine) : ℕ → UInt32 → Emulator PUnit
  | 0, _ => return ⟨⟩
  | left + 1, i => do
    let byte ← fetchParam env s i
    tell (.ntSend byte)
    ntSendParam env s left (i + 1)

/-- The offset register DX. -/
def messageOffset (s : Machine) : UInt32 := pointer (regAt s rDL) (regAt s rDH) 0 0

/-- The length register CL. -/
def messageLength (s : Machine) : ℕ := (regAt s rCL).toNat

def iscNetworkRoutine (env : Environment) (s : Machine) : Emulator Machine := do
  let ah ← readReg s rAH
  if ah = 0x0A then do
    tell .ntInit
    if env.ntInit = 0 then writeReg s rBL 1
    else do
      tell .ntCheckInitiated
      if env.ntCheckInitiated = 0 then writeReg s rBL 2 else writeReg s rBL 0
  else if ah = 0x0C then do
    let dh ← readReg s rDH
    let dl ← readReg s rDL
    let cl ← readReg s rCL
    let offset := pointer dl dh 0 0
    -- Check message bounds
    if offset ≥ s.programSize ∨ offset + cl.toUInt32 ≥ s.programSize then writeReg s rBL 1
    else do
      let al ← readReg s rAL
      if al = 0x00 then ntSend env s offset cl.toNat 0
      -- the size argument of `ntSend` is a byte
      else if al = 0x01 then ntSendParam env s s.paramLength.toUInt8.toNat 0
      writeReg s rBL 0
  else writeReg s rBL 1

end MicroKernel.X4
