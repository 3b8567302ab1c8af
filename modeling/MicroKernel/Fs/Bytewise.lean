import MicroKernel.Fs.FileStore
import MicroKernel.Lib.ByteProgram

/-!
# The file system, byte by byte

The functions of `kernel/fs/basefs` as programs that call `fs_read_byte` and `fs_write_byte` in the
order of the source, for any device behind the two. On a byte array they do what the functions on the
memory do, so that those are correct for every device that answers as a byte array.

## Main definitions

* `Program`, `FsProgram`: programs on the bus, and programs that also use the open table
* `Bytewise.fsAllocate`, `Bytewise.fsFree`, and those of `fsFile.c`
* `Bytewise.answer`: the answer to a request

## Main results

* `Bytewise.onArray_fsAllocate`, `Bytewise.onArray_fsFree` and the others: a program on the byte array
  does what the function does
* `Bytewise.runFs_answer`: a request on the byte array
-/

namespace MicroKernel.Fs

open Store

/-- A program that reads and writes bytes on the bus. -/
abbrev Program := ByteProgram UInt32 UInt8 Fault

/-- The memory after a program, on a byte array. -/
def Program.onArray {α : Type} (p : Program α) (mem : Memory) : Except Fault (α × Memory) :=
  p.run ByteDevice.byteArray mem

/-- The variables of `fsFile.c`. -/
structure FileTable where
  fileList : Fin maxOpenFiles → UInt32
  fileSize : Fin maxOpenFiles → UInt32

/-- A file system over a memory. -/
def FileTable.over (t : FileTable) (mem : Memory) : FileSystem := ⟨mem, t.fileList, t.fileSize⟩

/-- The open table of a file system. -/
abbrev FileSystem.table (fs : FileSystem) : FileTable := ⟨fs.fileList, fs.fileSize⟩

@[simp] theorem FileSystem.over_table (fs : FileSystem) : fs.table.over fs.memory = fs := rfl

@[simp] theorem FileTable.table_over (t : FileTable) (mem : Memory) : (t.over mem).table = t := rfl

@[simp] theorem FileTable.memory_over (t : FileTable) (mem : Memory) : (t.over mem).memory = mem := rfl

/-- A program on the bus that uses the open table. -/
abbrev FsProgram := StateT FileTable Program

instance : MonadLift (Except Fault) Program := ⟨ByteProgram.lift⟩

/-- The file system after a program, on a byte array. -/
def FsProgram.runFs {α : Type} (p : FsProgram α) (fs : FileSystem) :
    Except Fault (α × FileSystem) :=
  (fun r => (r.1.1, r.1.2.over r.2)) <$> (p.run fs.table).onArray fs.memory

section Run

variable {α β : Type} {mem : Memory} {fs : FileSystem}

@[simp] theorem onArray_pure (a : α) : (pure a : Program α).onArray mem = .ok (a, mem) := rfl

theorem onArray_bind (p : Program α) (f : α → Program β) :
    (p >>= f : Program β).onArray mem = p.onArray mem >>= fun r => (f r.1).onArray r.2 :=
  ByteProgram.run_bind

theorem onArray_bind_of_ok {p : Program α} {f : α → Program β} {a : α} {mem' : Memory}
    (h : p.onArray mem = .ok (a, mem')) : (p >>= f : Program β).onArray mem = (f a).onArray mem' :=
  ByteProgram.run_bind_of_ok h

@[simp] theorem onArray_lift (x : Except Fault α) :
    (liftM x : Program α).onArray mem = (fun a => (a, mem)) <$> x :=
  ByteProgram.run_lift x

@[simp] theorem runFs_pure (a : α) : FsProgram.runFs (pure a) fs = .ok (a, fs) := rfl

theorem runFs_bind (p : FsProgram α) (f : α → FsProgram β) :
    FsProgram.runFs (p >>= f) fs = p.runFs fs >>= fun r => (f r.1).runFs r.2 := by
  show _ <$> ((p.run fs.table) >>= fun r => (f r.1).run r.2 : Program _).onArray fs.memory = _
  rw [onArray_bind, FsProgram.runFs]
  cases (p.run fs.table).onArray fs.memory with
  | error e => rfl
  | ok r => rfl

@[simp] theorem runFs_lift (p : Program α) : FsProgram.runFs (liftM p) fs =
    (fun r => (r.1, { fs with memory := r.2 })) <$> p.onArray fs.memory := by
  show _ <$> (p >>= fun a => pure (a, fs.table) : Program _).onArray fs.memory = _
  rw [onArray_bind]
  cases p.onArray fs.memory with
  | error e => rfl
  | ok r => rfl

@[simp] theorem runFs_except (x : Except Fault α) :
    FsProgram.runFs (liftM x) fs = (fun a => (a, fs)) <$> x := by
  cases x <;> rfl

/-- A program that reads, before another. -/
theorem runFs_bind_of_read {p : Program α} {f : α → FsProgram β} {a : α}
    (h : p.onArray fs.memory = .ok (a, fs.memory)) :
    FsProgram.runFs (liftM p >>= f) fs = (f a).runFs fs := by
  rw [runFs_bind, runFs_lift, h]
  rfl

@[simp] theorem runFs_get : FsProgram.runFs get fs = .ok (fs.table, fs) := rfl

end Run

/-! ## On a device -/

section RunOn

variable {α S : Type} {d : ByteDevice S UInt32 UInt8} {R : S → Memory → Prop} {fs : FileSystem} {s : S}

/-- The open table and the device after a program. -/
def FsProgram.runOn (d : ByteDevice S UInt32 UInt8) (p : FsProgram α) (r : FileTable × S) :
    Except Fault (α × FileTable × S) :=
  (fun r => (r.1.1, r.1.2, r.2)) <$> ByteProgram.run d (p.run r.1) r.2

/-- **On a device that simulates the byte array** a program does what it does on the byte array. -/
theorem runOn_of_simulates (hd : d.Simulates ByteDevice.byteArray (fun _ => True) R)
    (p : FsProgram α) (hR : R s fs.memory) :
    (∀ a fs', p.runFs fs = .ok (a, fs') →
      ∃ s', p.runOn d (fs.table, s) = .ok (a, fs'.table, s') ∧ R s' fs'.memory) ∧
    ∀ e, p.runFs fs = .error e → p.runOn d (fs.table, s) = .error e := by
  obtain ⟨hok, herror⟩ := ByteProgram.run_of_simulates hd (p.run fs.table) hR
  rw [FsProgram.runFs, FsProgram.runOn]
  cases hrun : (p.run fs.table).onArray fs.memory with
  | error e =>
    rw [herror e hrun]
    refine ⟨fun a fs' h => (by cases h), fun e' h => ?_⟩
    cases h
    rfl
  | ok r =>
    obtain ⟨s', hs', hR'⟩ := hok r.1 r.2 hrun
    rw [hs']
    refine ⟨fun a fs' h => ?_, fun e h => (by cases h)⟩
    cases h
    exact ⟨s', rfl, hR'⟩

end RunOn

namespace Bytewise

def fsReadByte (address : UInt32) : Program UInt8 := .read address .done

def fsWriteByte (address : UInt32) (byte : UInt8) : Program Unit := .write address byte (.done ())

/-- A loop that reads `n` bytes from `address` on. -/
def readBytes (address : UInt32) (n : ℕ) : Program (List UInt8) :=
  (List.range n).mapM fun i => fsReadByte (address + UInt32.ofNat i)

/-- A loop that writes `n` bytes from `address` on. -/
def writeBytes (address : UInt32) (bytes : ℕ → UInt8) (n : ℕ) : Program Unit :=
  (List.range n).forM fun i => fsWriteByte (address + UInt32.ofNat i) (bytes i)

/-! ## Headers -/

def getWord (part : Partition) (handle : FileHandle) (offset : UInt32) : Program UInt32 := do
  let bytes ← readBytes (part.blockAddress + (handle + offset)) 4
  return wordOf fun k => bytes.getD k 0

def setWord (part : Partition) (handle : FileHandle) (offset w : UInt32) : Program Unit :=
  writeBytes (part.blockAddress + (handle + offset)) (wordByte w) 4

def fsFileGetSize (part : Partition) (handle : FileHandle) : Program UInt32 :=
  getWord part handle fileOffsetSize

def fsFileGetParentAddress (part : Partition) (handle : FileHandle) : Program UInt32 :=
  getWord part handle fileOffsetParent

def fsFileSetParentAddress (part : Partition) (handle : FileHandle) (parent : UInt32) :
    Program Unit :=
  setWord part handle fileOffsetParent parent

def fsFileGetNextAddress (part : Partition) (handle : FileHandle) : Program UInt32 :=
  getWord part handle fileOffsetNext

def fsFileSetNextAddress (part : Partition) (handle : FileHandle) (next : UInt32) : Program Unit :=
  setWord part handle fileOffsetNext next

def fsDirectoryGetReferenceCount (part : Partition) (handle : DirectoryHandle) : Program UInt32 :=
  getWord part handle fileOffsetRefCount

def fsDirectorySetReferenceCount (part : Partition) (handle : DirectoryHandle) (count : UInt32) :
    Program Unit :=
  setWord part handle fileOffsetRefCount count

/-- The loop of `fsFileGetName`: the bytes before the first zero byte. -/
def readName (address : UInt32) : (left i : ℕ) → Program (List UInt8)
  | 0, _ => return []
  | left + 1, i => do
    let c ← fsReadByte (address + UInt32.ofNat i)
    if c = 0 then return []
    let rest ← readName address left (i + 1)
    return c :: rest

/-- The buffer with the bytes of a name, and a space for the zero byte. -/
def fillName (read name : List UInt8) : List UInt8 :=
  if read.length < fileNameLength then read ++ ' '.toUInt8 :: name.drop (read.length + 1)
  else read ++ name.drop fileNameLength

def fsFileGetName (part : Partition) (handle : FileHandle) (name : List UInt8) :
    Program (List UInt8) := do
  let read ← readName (part.blockAddress + (handle + fileOffsetName)) fileNameLength 0
  return fillName read name

def fsFileSetName (part : Partition) (handle : FileHandle) (name : List UInt8) : Program Unit :=
  writeBytes (part.blockAddress + (handle + fileOffsetName)) (fun i => (cleanName name).getD i 0)
    fileNameLength

def fsFileSetAttributes (part : Partition) (handle : FileHandle) (attributes : List UInt8) :
    Program Unit :=
  writeBytes (part.blockAddress + (handle + fileOffsetAttributes)) (fun i => attributes.getD i 0) 4

def fsFileGetAttributes (part : Partition) (handle : FileHandle) : Program (List UInt8) :=
  readBytes (part.blockAddress + (handle + fileOffsetAttributes)) 4

def fsFileSetFlag (part : Partition) (handle : FileHandle) (index state : UInt8) : Program Unit := do
  let flag ← fsReadByte (part.blockAddress + (handle + fileOffsetFlag))
  fsWriteByte (part.blockAddress + (handle + fileOffsetFlag))
    (if state = 1 then flag ||| flagBit index else flag &&& ~~~ flagBit index)

/-! ## Allocation -/

/-- The inner loop of the scan, which stops at a sector that is not free. -/
def fits (part : Partition) (i : UInt32) : (left a : ℕ) → Program Bool
  | 0, _ => return true
  | left + 1, a => do
    let buffer ← fsReadByte (part.blockAddress + (UInt32.ofNat a + i) * part.sectorSize)
    if buffer = sectorFree then fits part i left (a + 1) else return false

def scan (part : Partition) (numberOfSectors : UInt32) :
    ℕ → (i address : UInt32) → Program UInt32
  | 0, _, address => return address
  | left + 1, i, _ => do
    let buffer ← fsReadByte (part.blockAddress + i * part.sectorSize)
    if buffer ≠ sectorFree then scan part numberOfSectors left (i + 1) 0
    else if ← fits part i (numberOfSectors.toNat + 1) 0 then return i * part.sectorSize
    else scan part numberOfSectors left (i + 1) 1

def allocateAt (part : Partition) (numberOfSectors size address : UInt32) : Program Unit := do
  fsWriteByte (part.blockAddress + address) sectorHeader
  (List.range numberOfSectors.toNat).forM fun i => fsWriteByte
    (part.blockAddress + (address + UInt32.ofNat i * part.sectorSize + part.sectorSize)) sectorUsed
  setWord part address fileOffsetSize size

def fsAllocate (part : Partition) (size : UInt32) : Program FileHandle := do
  let numberOfSectors := (← dataSectors part size) + 1
  let address ← scan part numberOfSectors part.blockSize.toNat 0 0
  if address = 0 then return 0
  allocateAt part numberOfSectors size address
  return address

def fsFree (part : Partition) (address : FileHandle) : Program Unit := do
  let sizeTotal ← fsFileGetSize part address
  let numberOfSectors := (← dataSectors part sizeTotal) + 2
  (List.range numberOfSectors.toNat).forM fun i => fsWriteByte
    (part.blockAddress + (address + UInt32.ofNat i * part.sectorSize)) sectorFree

/-! ## Files -/

def fsFileCreate (part : Partition) (filename : List UInt8) (size : UInt32) :
    Program FileHandle := do
  let handle ← fsAllocate part size
  if handle = 0 then return 0
  fsFileSetName part handle filename
  fsFileSetAttributes part handle (chars [' ', 'r', 'w', ' '])
  fsFileSetNextAddress part handle 0
  fsFileSetParentAddress part handle 0
  fsWriteByte (part.blockAddress + (handle + fileOffsetFlag)) 0x00
  return handle

def fsFileDelete (part : Partition) (handle : FileHandle) : Program FileHandle := do
  fsFree part handle
  return handle

def setSlot (i : Fin maxOpenFiles) (address size : UInt32) : FsProgram Unit :=
  modify fun t => ⟨Function.update t.fileList i address, Function.update t.fileSize i size⟩

def freeSlot : FsProgram (Fin maxOpenFiles) := do
  let t ← get
  match (List.finRange maxOpenFiles).find? fun i => t.fileList i = 0 with
  | some i => return i
  | none => (Except.error .outOfBounds : Except Fault _)

def fsFileOpen (part : Partition) (handle : FileHandle) : FsProgram File := do
  let index ← freeSlot
  let headerByte ← fsReadByte (part.blockAddress + handle)
  if headerByte = sectorFree then return -1
  let size ← fsFileGetSize part handle
  setSlot index (part.blockAddress + handle) size
  return index.val

def fsFileClose (index : File) : FsProgram UInt8 := do
  match ← slotOf index with
  | none => return 0
  | some i =>
    if (← get).fileList i = 0 then return 0
    setSlot i 0 0
    return 1

def transferSlot (index : File) (size : UInt32) : FsProgram (Option (Fin maxOpenFiles)) := do
  match ← slotOf index with
  | none => return none
  | some i =>
    let t ← get
    if t.fileList i = 0 then return none
    else if size - 1 ≥ t.fileSize i + 2 then return none
    else return some i

/-- The loop of `fsFileWrite`. -/
def writeData (part : Partition) (address : UInt32) (buffer : List UInt8) (n : ℕ) : Program Unit :=
  (List.range n).forM fun i => fsWriteByte (address + positionOffset part i) (buffer.getD i 0)

/-- The loop of `fsFileRead`. -/
def readData (part : Partition) (address : UInt32) (n : ℕ) : Program (List UInt8) :=
  (List.range n).mapM fun i => fsReadByte (address + positionOffset part i)

def fsFileWrite (part : Partition) (index : File) (buffer : List UInt8) (size : UInt32) :
    FsProgram UInt8 := do
  match ← transferSlot index size with
  | none => return 0
  | some i =>
    let t ← get
    if (size - 1).toNat ≤ buffer.length then
      writeData part (t.fileList i) buffer (size - 1).toNat
      return 1
    else (Except.error .outOfBounds : Except Fault _)

def fsFileRead (part : Partition) (index : File) (buffer : List UInt8) (size : UInt32) :
    FsProgram (UInt8 × List UInt8) := do
  match ← transferSlot index size with
  | none => return (0, buffer)
  | some i =>
    let t ← get
    if (size - 1).toNat ≤ buffer.length then
      let bytes ← readData part (t.fileList i) (size - 1).toNat
      return (1, bytes ++ buffer.drop (size - 1).toNat)
    else (Except.error .outOfBounds : Except Fault _)

/-! ## Requests -/

/-- The getter of a field: the loop of `fsFileGetName` for any buffer, and the flags of one byte. -/
def getField (part : Partition) (handle : FileHandle) : (f : HeaderField) → Program f.Value
  | .name => do
    let read ← readName (part.blockAddress + (handle + fileOffsetName)) fileNameLength 0
    return fillName read
  | .size => fsFileGetSize part handle
  | .attributes => fsFileGetAttributes part handle
  | .refCount => fsDirectoryGetReferenceCount part handle
  | .flag => do
    let flag ← fsReadByte (part.blockAddress + (handle + fileOffsetFlag))
    return fun i : Fin 8 => UInt8.ofNat (flag.toNat / 2 ^ (UInt8.ofNat i).toNat) &&& 1
  | .parent => fsFileGetParentAddress part handle
  | .next => fsFileGetNextAddress part handle

/-- The setter of a field. -/
def setField (part : Partition) (handle : FileHandle) : Setter → Program Unit
  | .name filename => fsFileSetName part handle filename
  | .attributes bytes => fsFileSetAttributes part handle bytes
  | .flag index state => fsFileSetFlag part handle index state
  | .parentAddress parent => fsFileSetParentAddress part handle parent
  | .nextAddress next => fsFileSetNextAddress part handle next
  | .referenceCount count => fsDirectorySetReferenceCount part handle count

/-- The answer of the file system to a request. -/
def answer (part : Partition) : Request → FsProgram Answer
  | .create filename size => do return .handle (← fsFileCreate part filename size)
  | .delete handle => do return .handle (← fsFileDelete part handle)
  | .openFile handle => do return .index (← fsFileOpen part handle)
  | .close index => do return .moved (← fsFileClose index)
  | .write index buffer size => do return .moved (← fsFileWrite part index buffer size)
  | .read index buffer size => do
    let (result, buffer) ← fsFileRead part index buffer size
    return .bytes result buffer
  | .set handle setter => do
    setField part handle setter
    return .nothing
  | .get handle field => do return .value field (← getField part handle field)

/-! ## On the byte array -/

section OnArray

variable {part : Partition} {handle offset address w : UInt32} {mem : Memory} {fs : FileSystem}

@[simp] theorem onArray_fsReadByte : (fsReadByte address).onArray mem = .ok (mem address, mem) := rfl

@[simp] theorem onArray_fsWriteByte (byte : UInt8) :
    (fsWriteByte address byte).onArray mem = .ok ((), Function.update mem address byte) := rfl

@[simp] theorem onArray_readBytes (n : ℕ) : (readBytes address n).onArray mem =
    .ok ((List.range n).map fun i => mem (address + UInt32.ofNat i), mem) :=
  ByteProgram.run_mapM_read _ _

@[simp] theorem onArray_writeBytes (bytes : ℕ → UInt8) (n : ℕ) :
    (writeBytes address bytes n).onArray mem =
      .ok ((), writeEach (fun i => address + UInt32.ofNat i) bytes (List.range n) mem) :=
  ByteProgram.run_forM_write _ _ _

@[simp] theorem onArray_getWord : (getWord part handle offset).onArray mem =
    .ok (Fs.getWord part handle offset mem, mem) := by
  rw [getWord, onArray_bind_of_ok (onArray_readBytes _)]
  rfl

@[simp] theorem onArray_setWord : (setWord part handle offset w).onArray mem =
    .ok ((), Fs.setWord part handle offset w mem) :=
  onArray_writeBytes _ _

@[simp] theorem onArray_fsFileGetParentAddress : (fsFileGetParentAddress part handle).onArray mem =
    .ok (Fs.fsFileGetParentAddress part handle mem, mem) := onArray_getWord

@[simp] theorem onArray_fsFileSetParentAddress :
    (fsFileSetParentAddress part handle w).onArray mem =
      .ok ((), Fs.fsFileSetParentAddress part handle w mem) := onArray_setWord

@[simp] theorem onArray_fsFileGetNextAddress : (fsFileGetNextAddress part handle).onArray mem =
    .ok (Fs.fsFileGetNextAddress part handle mem, mem) := onArray_getWord

@[simp] theorem onArray_fsFileSetNextAddress : (fsFileSetNextAddress part handle w).onArray mem =
    .ok ((), Fs.fsFileSetNextAddress part handle w mem) := onArray_setWord

@[simp] theorem onArray_fsDirectoryGetReferenceCount :
    (fsDirectoryGetReferenceCount part handle).onArray mem =
      .ok (Fs.fsDirectoryGetReferenceCount part handle mem, mem) := onArray_getWord

@[simp] theorem onArray_fsDirectorySetReferenceCount :
    (fsDirectorySetReferenceCount part handle w).onArray mem =
      .ok ((), Fs.fsDirectorySetReferenceCount part handle w mem) := onArray_setWord

@[simp] theorem onArray_fsFileGetSize : (fsFileGetSize part handle).onArray mem =
    .ok (Fs.fsFileGetSize part handle mem, mem) := onArray_getWord

/-- The loop reads the bytes before the first zero byte. -/
theorem onArray_readName (left i : ℕ) : (readName address left i).onArray mem =
    .ok (((List.range' i left).map fun i => mem (address + UInt32.ofNat i)).takeWhile (· ≠ 0),
      mem) := by
  induction left generalizing i with
  | zero => rfl
  | succ left ih =>
    rw [readName, onArray_bind_of_ok onArray_fsReadByte, List.range'_succ, List.map_cons]
    by_cases hc : mem (address + UInt32.ofNat i) = 0
    · rw [if_pos hc, List.takeWhile_cons_of_neg (by simpa using hc)]
      rfl
    · rw [if_neg hc, onArray_bind_of_ok (ih _), List.takeWhile_cons_of_pos (by simpa using hc)]
      rfl

@[simp] theorem onArray_fsFileGetName (name : List UInt8) :
    (fsFileGetName part handle name).onArray mem =
      .ok (Fs.fsFileGetName part handle name mem, mem) := by
  rw [fsFileGetName, onArray_bind_of_ok (onArray_readName ..), ← List.range_eq_range']
  rfl

@[simp] theorem onArray_fsFileSetName (name : List UInt8) :
    (fsFileSetName part handle name).onArray mem =
      .ok ((), Fs.fsFileSetName part handle name mem) :=
  onArray_writeBytes _ _

@[simp] theorem onArray_fsFileSetAttributes (attributes : List UInt8) :
    (fsFileSetAttributes part handle attributes).onArray mem =
      .ok ((), Fs.fsFileSetAttributes part handle attributes mem) :=
  onArray_writeBytes _ _

@[simp] theorem onArray_fsFileGetAttributes : (fsFileGetAttributes part handle).onArray mem =
    .ok (Fs.fsFileGetAttributes part handle mem, mem) :=
  onArray_readBytes _

@[simp] theorem onArray_fsFileSetFlag (index state : UInt8) :
    (fsFileSetFlag part handle index state).onArray mem =
      .ok ((), Fs.fsFileSetFlag part handle index state mem) := rfl

/-! ### Allocation -/

theorem onArray_marker (i : UInt32) :
    (fsReadByte (part.blockAddress + i * part.sectorSize)).onArray mem =
      .ok (marker part mem i, mem) := rfl

theorem onArray_fits (i : UInt32) (left a : ℕ) : (fits part i left a).onArray mem =
    .ok ((List.range' a left).all fun a => marker part mem (UInt32.ofNat a + i) = sectorFree,
      mem) := by
  induction left generalizing a with
  | zero => rfl
  | succ left ih =>
    rw [fits, onArray_bind_of_ok (onArray_marker _), List.range'_succ, List.all_cons]
    by_cases ha : marker part mem (UInt32.ofNat a + i) = sectorFree
    · rw [if_pos ha, ih, decide_eq_true ha, Bool.true_and]
    · rw [if_neg ha, decide_eq_false ha, Bool.false_and]
      rfl

theorem onArray_fits_zero (n i : UInt32) :
    (fits part i (n.toNat + 1) 0).onArray mem = .ok (Fs.fits part mem n i, mem) := by
  rw [onArray_fits, ← List.range_eq_range']
  rfl

/-- **The scan** reads the markers of the sectors. -/
theorem onArray_scan (n : UInt32) (left : ℕ) (i address : UInt32) :
    (scan part n left i address).onArray mem = .ok (Fs.scan part mem n left i address, mem) := by
  induction left generalizing i address with
  | zero => rfl
  | succ left ih =>
    rw [scan, Fs.scan, onArray_bind_of_ok (onArray_marker _)]
    by_cases hm : marker part mem i = sectorFree
    · rw [if_neg (not_not.mpr hm), if_neg (not_not.mpr hm),
        onArray_bind_of_ok (onArray_fits_zero ..)]
      by_cases hfits : Fs.fits part mem n i = true
      · rw [if_pos hfits, if_pos hfits]
        rfl
      · rw [if_neg hfits, if_neg hfits]
        exact ih ..
    · rw [if_pos hm, if_pos hm]
      exact ih ..

/-- A loop of writes. -/
theorem onArray_forM {ι : Type} (f : ι → UInt32) (v : ι → UInt8) (l : List ι) :
    Program.onArray (l.forM fun i => fsWriteByte (f i) (v i)) mem =
      .ok ((), writeEach f v l mem) :=
  ByteProgram.run_forM_write f v l

@[simp] theorem onArray_allocateAt (n size : UInt32) : (allocateAt part n size address).onArray mem =
    .ok ((), Fs.allocateAt part n size address mem) := by
  rw [allocateAt, onArray_bind_of_ok (onArray_fsWriteByte _), onArray_bind_of_ok (onArray_forM ..),
    onArray_setWord]
  rfl

@[simp] theorem onArray_fsAllocate (size : UInt32) :
    (fsAllocate part size).onArray mem = Fs.fsAllocate part size mem := by
  rw [fsAllocate, Fs.fsAllocate, onArray_bind, onArray_lift]
  cases dataSectors part size with
  | error e => rfl
  | ok n =>
    show (scan part (n + 1) part.blockSize.toNat 0 0 >>= _ : Program _).onArray mem = _
    rw [onArray_bind_of_ok (onArray_scan ..), ok_bind]
    by_cases h : Fs.scan part mem (n + 1) part.blockSize.toNat 0 0 = 0
    · rw [if_pos h]
      exact (if_pos h).symm
    · rw [if_neg h, onArray_bind_of_ok (onArray_allocateAt ..)]
      exact (if_neg h).symm

@[simp] theorem onArray_fsFree :
    (fsFree part handle).onArray mem = (fun mem => ((), mem)) <$> Fs.fsFree part handle mem := by
  rw [fsFree, Fs.fsFree, onArray_bind_of_ok onArray_fsFileGetSize, onArray_bind, onArray_lift]
  cases dataSectors part (Fs.fsFileGetSize part handle mem) with
  | error e => rfl
  | ok n => exact onArray_forM ..

/-! ### Files -/

@[simp] theorem onArray_fsFileCreate (filename : List UInt8) (size : UInt32) :
    (fsFileCreate part filename size).onArray mem = Fs.fsFileCreate part filename size mem := by
  rw [fsFileCreate, Fs.fsFileCreate, onArray_bind, onArray_fsAllocate]
  refine bind_congr fun r => ?_
  by_cases h : r.1 = 0
  · rw [if_pos h]
    exact (if_pos h).symm
  · rw [if_neg h]
    simp only [onArray_bind, onArray_fsFileSetName, onArray_fsFileSetAttributes, ok_bind,
      onArray_fsFileSetNextAddress, onArray_fsFileSetParentAddress, onArray_fsWriteByte]
    exact (if_neg h).symm

@[simp] theorem onArray_fsFileDelete :
    (fsFileDelete part handle).onArray mem = Fs.fsFileDelete part handle mem := by
  rw [fsFileDelete, Fs.fsFileDelete, onArray_bind, onArray_fsFree]
  cases Fs.fsFree part handle mem with
  | error e => rfl
  | ok mem => rfl

/-! ### The open table -/

@[simp] theorem runFs_setSlot (i : Fin maxOpenFiles) (size : UInt32) :
    (setSlot i address size).runFs fs = .ok ((), fs.setSlot i address size) := rfl

@[simp] theorem runFs_freeSlot :
    freeSlot.runFs fs = (fun i => (i, fs)) <$> Fs.freeSlot fs := by
  rw [freeSlot, Fs.freeSlot, runFs_bind, runFs_get, ok_bind]
  dsimp only [FileSystem.table]
  cases (List.finRange maxOpenFiles).find? fun i => fs.fileList i = 0 <;> rfl

@[simp] theorem runFs_fsFileOpen :
    (fsFileOpen part handle).runFs fs = Fs.fsFileOpen part handle fs := by
  rw [fsFileOpen, Fs.fsFileOpen, runFs_bind, runFs_freeSlot]
  cases Fs.freeSlot fs with
  | error e => rfl
  | ok i =>
    show FsProgram.runFs (liftM (fsReadByte (part.blockAddress + handle)) >>= _) fs = _
    rw [runFs_bind_of_read onArray_fsReadByte]
    by_cases hfree : fs.memory (part.blockAddress + handle) = sectorFree
    · rw [if_pos hfree]
      exact (if_pos hfree).symm
    · rw [if_neg hfree, runFs_bind_of_read onArray_fsFileGetSize]
      exact (if_neg hfree).symm

@[simp] theorem runFs_fsFileClose (index : File) :
    (fsFileClose index).runFs fs = Fs.fsFileClose index fs := by
  rw [fsFileClose, Fs.fsFileClose, runFs_bind, runFs_except]
  rcases slotOf index with e | _ | i
  · rfl
  · rfl
  · show FsProgram.runFs (get >>= _) fs = _
    rw [runFs_bind, runFs_get, ok_bind]
    by_cases hclosed : fs.fileList i = 0
    · rw [if_pos hclosed]
      exact (if_pos hclosed).symm
    · rw [if_neg hclosed]
      exact (if_neg hclosed).symm

@[simp] theorem runFs_transferSlot (index : File) (size : UInt32) :
    (transferSlot index size).runFs fs =
      (fun i => (i, fs)) <$> Fs.transferSlot index size fs := by
  rw [transferSlot, Fs.transferSlot, runFs_bind, runFs_except]
  rcases slotOf index with e | _ | i
  · rfl
  · rfl
  · show FsProgram.runFs (get >>= _) fs = _
    rw [runFs_bind, runFs_get, ok_bind]
    show _ = _ <$> (if fs.fileList i = 0 then _ else _)
    by_cases hclosed : fs.fileList i = 0
    · rw [if_pos hclosed, if_pos hclosed]
      rfl
    · rw [if_neg hclosed, if_neg hclosed]
      by_cases hsize : size - 1 ≥ fs.fileSize i + 2
      · rw [if_pos hsize, if_pos hsize]
        rfl
      · rw [if_neg hsize, if_neg hsize]
        rfl

@[simp] theorem runFs_fsFileWrite (index : File) (buffer : List UInt8) (size : UInt32) :
    (fsFileWrite part index buffer size).runFs fs = Fs.fsFileWrite part index buffer size fs := by
  rw [fsFileWrite, Fs.fsFileWrite, runFs_bind, runFs_transferSlot]
  rcases Fs.transferSlot index size fs with e | _ | i
  · rfl
  · rfl
  · show FsProgram.runFs (get >>= _) fs = _
    rw [runFs_bind, runFs_get, ok_bind]
    show _ = if (size - 1).toNat ≤ buffer.length then _ else _
    by_cases hle : (size - 1).toNat ≤ buffer.length
    · rw [if_pos hle, if_pos hle, runFs_bind, runFs_lift, writeData, onArray_forM]
      rfl
    · rw [if_neg hle, if_neg hle]
      rfl

theorem onArray_readData (n : ℕ) : (readData part address n).onArray mem =
    .ok ((List.range n).map fun k => mem (address + positionOffset part k), mem) :=
  ByteProgram.run_mapM_read _ _

@[simp] theorem runFs_fsFileRead (index : File) (buffer : List UInt8) (size : UInt32) :
    (fsFileRead part index buffer size).runFs fs =
      (fun r => (r, fs)) <$> Fs.fsFileRead part index buffer size fs := by
  rw [fsFileRead, Fs.fsFileRead, runFs_bind, runFs_transferSlot]
  rcases Fs.transferSlot index size fs with e | _ | i
  · rfl
  · rfl
  · show FsProgram.runFs (get >>= _) fs = _
    rw [runFs_bind, runFs_get, ok_bind]
    show _ = _ <$> (if (size - 1).toNat ≤ buffer.length then _ else _)
    by_cases hle : (size - 1).toNat ≤ buffer.length
    · rw [if_pos hle, if_pos hle, runFs_bind_of_read (onArray_readData _)]
      rfl
    · rw [if_neg hle, if_neg hle]
      rfl

/-! ### Requests -/

@[simp] theorem onArray_getField (f : HeaderField) :
    (getField part handle f).onArray mem = .ok (Fs.getField part handle mem f, mem) := by
  cases f with
  | name =>
    refine (onArray_bind_of_ok (onArray_readName ..)).trans ?_
    rw [← List.range_eq_range']
    rfl
  | size => exact onArray_fsFileGetSize
  | attributes => exact onArray_fsFileGetAttributes
  | refCount => exact onArray_fsDirectoryGetReferenceCount
  | flag => rfl
  | parent => exact onArray_fsFileGetParentAddress
  | next => exact onArray_fsFileGetNextAddress

@[simp] theorem onArray_setField (setter : Setter) :
    (setField part handle setter).onArray mem = .ok ((), setter.apply part handle mem) := by
  cases setter with
  | name filename => exact onArray_fsFileSetName filename
  | attributes bytes => exact onArray_fsFileSetAttributes bytes
  | flag index state => exact onArray_fsFileSetFlag index state
  | parentAddress parent => exact onArray_fsFileSetParentAddress
  | nextAddress next => exact onArray_fsFileSetNextAddress
  | referenceCount count => exact onArray_fsDirectorySetReferenceCount

/-- **A request, byte by byte**, is answered as by the functions on the memory. -/
theorem runFs_answer (q : Request) : (answer part q).runFs fs = Fs.answer part q fs := by
  cases q with
  | create filename size =>
    rw [answer, Fs.answer, runFs_bind, runFs_lift, onArray_fsFileCreate]
    cases Fs.fsFileCreate part filename size fs.memory <;> rfl
  | delete handle =>
    rw [answer, Fs.answer, runFs_bind, runFs_lift, onArray_fsFileDelete]
    cases Fs.fsFileDelete part handle fs.memory <;> rfl
  | openFile handle =>
    rw [answer, Fs.answer, runFs_bind, runFs_fsFileOpen]
    rfl
  | close index =>
    rw [answer, Fs.answer, runFs_bind, runFs_fsFileClose]
    rfl
  | write index buffer size =>
    rw [answer, Fs.answer, runFs_bind, runFs_fsFileWrite]
    rfl
  | read index buffer size =>
    rw [answer, Fs.answer, runFs_bind, runFs_fsFileRead]
    cases Fs.fsFileRead part index buffer size fs <;> rfl
  | set handle setter =>
    rw [answer, Fs.answer, runFs_bind, runFs_lift, onArray_setField]
    rfl
  | get handle field =>
    rw [answer, Fs.answer, runFs_bind, runFs_lift, onArray_getField]
    rfl

end OnArray

end Bytewise

end MicroKernel.Fs
