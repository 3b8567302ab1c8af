import MicroKernel.Lib.Store

/-!
# Partitions and file headers

The data of `kernel/fs/fs.h` and the header fields of `kernel/fs/basefs/fsFile.c`. The device behind
`fs_read_byte` and `fs_write_byte` is a memory over 32-bit addresses; a name or attribute string is
the list of its characters before the terminating zero.

## Main definitions

* `Partition`: where a partition lies and how it is divided
* `fsFileGetSize`, `fsFileSetName`, …: the header fields of a file

## Main results

* `agreeOff_setWord`, `agreeOff_fsFileSetName`, …: a setter writes its own field only
* `getWord_setWord`: a word is read back
-/

namespace MicroKernel.Fs

open Store

/-- The memory behind the bus. -/
abbrev Memory := UInt32 → UInt8

/-- `FILE_NAME_LENGTH` -/
abbrev fileNameLength : ℕ := 10

/-- `MAX_OPEN_FILES` -/
abbrev maxOpenFiles : ℕ := 16

/-- The sector markers. -/
def sectorFree : UInt8 := '?'.toUInt8
def sectorHeader : UInt8 := 'U'.toUInt8
def sectorUsed : UInt8 := 'D'.toUInt8

/-- The offsets of the device header. -/
def deviceOffsetType : UInt32 := 11
def deviceOffsetCapacity : UInt32 := 12
def deviceOffsetRoot : UInt32 := 16
def deviceOffsetSectSz : UInt32 := 20

/-- The offsets of a file header. -/
def fileOffsetName : UInt32 := 1
def fileOffsetSize : UInt32 := 11
def fileOffsetAttributes : UInt32 := 15
def fileOffsetRefCount : UInt32 := 19
def fileOffsetFlag : UInt32 := 23
def fileOffsetParent : UInt32 := 24
def fileOffsetNext : UInt32 := 28

/-- Handles are offsets from the begin of the partition. -/
abbrev FileHandle := UInt32
abbrev DirectoryHandle := UInt32

structure Partition where
  blockAddress : UInt32
  blockSize : UInt32
  sectorCount : UInt32
  sectorSize : UInt32
deriving DecidableEq

/-- What the code does not survive: a division by zero, an access outside an array, and a loop that
does not end. -/
inductive Fault where
  | divisionByZero
  | outOfBounds
  | diverges
deriving DecidableEq

theorem ok_bind {E A B : Type} (a : A) (f : A → Except E B) :
    (Except.ok a >>= f : Except E B) = f a := rfl

theorem bind_eq_ok {E A B : Type} {x : Except E A} {f : A → Except E B} {b : B}
    (h : (x >>= f) = .ok b) : ∃ a, x = .ok a ∧ f a = .ok b := by
  cases x with
  | error e => cases h
  | ok a => exact ⟨a, rfl, h⟩

/-! ## Header fields -/

/-- The word at an offset of a header. -/
def getWord (part : Partition) (handle : FileHandle) (offset : UInt32) (mem : Memory) : UInt32 :=
  readWord (part.blockAddress + (handle + offset)) mem

def setWord (part : Partition) (handle : FileHandle) (offset w : UInt32) (mem : Memory) : Memory :=
  writeWord (part.blockAddress + (handle + offset)) w mem

def fsFileGetSize (part : Partition) (handle : FileHandle) : Memory → UInt32 :=
  getWord part handle fileOffsetSize

def fsFileGetParentAddress (part : Partition) (handle : FileHandle) : Memory → UInt32 :=
  getWord part handle fileOffsetParent

def fsFileSetParentAddress (part : Partition) (handle : FileHandle) (parent : UInt32) :
    Memory → Memory :=
  setWord part handle fileOffsetParent parent

def fsFileGetNextAddress (part : Partition) (handle : FileHandle) : Memory → UInt32 :=
  getWord part handle fileOffsetNext

def fsFileSetNextAddress (part : Partition) (handle : FileHandle) (next : UInt32) :
    Memory → Memory :=
  setWord part handle fileOffsetNext next

def fsDirectoryGetReferenceCount (part : Partition) (handle : DirectoryHandle) : Memory → UInt32 :=
  getWord part handle fileOffsetRefCount

def fsDirectorySetReferenceCount (part : Partition) (handle : DirectoryHandle) (count : UInt32) :
    Memory → Memory :=
  setWord part handle fileOffsetRefCount count

/-- A file name cut at ten characters and padded with spaces. -/
def cleanName (name : List UInt8) : List UInt8 :=
  ((name.takeWhile (· ≠ 0)).take fileNameLength).rightpad fileNameLength ' '.toUInt8

/-- The bytes of a name, up to a zero byte, which becomes a space; the rest of the buffer stays. -/
def fsFileGetName (part : Partition) (handle : FileHandle) (name : List UInt8) (mem : Memory) :
    List UInt8 :=
  let stored := (List.range fileNameLength).map fun i =>
    mem (part.blockAddress + (handle + fileOffsetName) + UInt32.ofNat i)
  let read := stored.takeWhile (· ≠ 0)
  if read.length < fileNameLength then read ++ ' '.toUInt8 :: name.drop (read.length + 1)
  else read ++ name.drop fileNameLength

def fsFileSetName (part : Partition) (handle : FileHandle) (name : List UInt8) (mem : Memory) :
    Memory :=
  writeEach (fun i => part.blockAddress + (handle + fileOffsetName) + UInt32.ofNat i)
    (fun i => (cleanName name).getD i 0) (List.range fileNameLength) mem

def fsFileSetAttributes (part : Partition) (handle : FileHandle) (attributes : List UInt8)
    (mem : Memory) : Memory :=
  writeEach (fun i => part.blockAddress + (handle + fileOffsetAttributes) + UInt32.ofNat i)
    (fun i => attributes.getD i 0) (List.range 4) mem

def fsFileGetAttributes (part : Partition) (handle : FileHandle) (mem : Memory) : List UInt8 :=
  (List.range 4).map fun i =>
    mem (part.blockAddress + (handle + fileOffsetAttributes) + UInt32.ofNat i)

/-- `1 << index`, cut to a byte. -/
def flagBit (index : UInt8) : UInt8 := UInt8.ofNat (2 ^ index.toNat)

def fsFileSetFlag (part : Partition) (handle : FileHandle) (index state : UInt8) (mem : Memory) :
    Memory :=
  let address := part.blockAddress + (handle + fileOffsetFlag)
  Function.update mem address
    (if state = 1 then mem address ||| flagBit index else mem address &&& ~~~ flagBit index)

def fsFileGetFlag (part : Partition) (handle : FileHandle) (index : UInt8) (mem : Memory) : UInt8 :=
  UInt8.ofNat ((mem (part.blockAddress + (handle + fileOffsetFlag))).toNat / 2 ^ index.toNat) &&& 1

/-! ## Frames of the setters -/

section Frames

variable {part : Partition} {handle offset w : UInt32} {mem mem' : Memory} {S : Set ℕ}

/-- Offsets inside a header do not wrap around. -/
theorem toNat_handle_add (offset : UInt32) (hh : handle.toNat + 32 ≤ 2 ^ 32) (ho : offset.toNat < 32) :
    (handle + offset).toNat = handle.toNat + offset.toNat := by
  rw [UInt32.toNat_add]
  omega

/-- The `n` bytes at an offset of a header. -/
def field (handle offset : UInt32) (n : ℕ) : Set ℕ :=
  Set.Ico (handle.toNat + offset.toNat) (handle.toNat + offset.toNat + n)

theorem agreeOff_setWord (hh : handle.toNat + 32 ≤ 2 ^ 32) (ho : offset.toNat ≤ 28) :
    AgreeOff part.blockAddress (field handle offset 4) mem (setWord part handle offset w mem) := by
  have hadd := toNat_handle_add offset hh (by omega)
  rw [field, ← hadd]
  exact agreeOff_writeWord (by omega)

theorem getWord_setWord (hh : handle.toNat + 32 ≤ 2 ^ 32) (ho : offset.toNat ≤ 28) :
    getWord part handle offset (setWord part handle offset w mem) = w := by
  have hadd := toNat_handle_add offset hh (by omega)
  exact readWord_writeWord (by omega)

/-- A word is the same in memories that agree off bytes elsewhere. -/
theorem getWord_of_agreeOff (h : AgreeOff part.blockAddress S mem mem')
    (hh : handle.toNat + 32 ≤ 2 ^ 32) (ho : offset.toNat ≤ 28)
    (hS : ∀ o ∈ field handle offset 4, o ∉ S) :
    getWord part handle offset mem' = getWord part handle offset mem := by
  have hadd := toNat_handle_add offset hh (by omega)
  rw [field, ← hadd] at hS
  exact h.readWord (by omega) hS

theorem agreeOff_fsFileSetName (hh : handle.toNat + 32 ≤ 2 ^ 32) {name : List UInt8} :
    AgreeOff part.blockAddress (field handle fileOffsetName 10) mem
      (fsFileSetName part handle name mem) := by
  have hadd := toNat_handle_add fileOffsetName hh (by decide)
  rw [field, ← hadd]
  refine agreeOff_writeEach_range _ ?_
  rw [hadd]
  show handle.toNat + 1 + 10 ≤ 2 ^ 32
  omega

theorem agreeOff_fsFileSetAttributes (hh : handle.toNat + 32 ≤ 2 ^ 32) {attributes : List UInt8} :
    AgreeOff part.blockAddress (field handle fileOffsetAttributes 4) mem
      (fsFileSetAttributes part handle attributes mem) := by
  have hadd := toNat_handle_add fileOffsetAttributes hh (by decide)
  rw [field, ← hadd]
  refine agreeOff_writeEach_range _ ?_
  rw [hadd]
  show handle.toNat + 15 + 4 ≤ 2 ^ 32
  omega

theorem agreeOff_setFlagByte (hh : handle.toNat + 32 ≤ 2 ^ 32) {byte : UInt8} :
    AgreeOff part.blockAddress (field handle fileOffsetFlag 1) mem
      (Function.update mem (part.blockAddress + (handle + fileOffsetFlag)) byte) := by
  have hadd := toNat_handle_add fileOffsetFlag hh (by decide)
  rw [field, ← hadd]
  exact agreeOff_update _ ⟨le_rfl, Nat.lt_succ_self _⟩

end Frames

end MicroKernel.Fs
