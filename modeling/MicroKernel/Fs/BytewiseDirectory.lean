import MicroKernel.Fs.Bytewise
import MicroKernel.Fs.Device

/-!
# Directories and devices, byte by byte

The functions of `fsDirectory.c` and `fsDevice.c` as programs on the bus, in the order of the source.

## Main definitions

* `Bytewise.fsDirectoryAddFile`, `Bytewise.fsDirectoryFindByIndex`, `Bytewise.fsDirectoryFindByName`
* `Bytewise.fsDeviceOpen`, `Bytewise.fsDeviceFormat`

## Main results

* `Bytewise.runFs_fsDirectoryAddFile`, `Bytewise.runFs_findByNameFrom` and the others: a program on
  the byte array does what the function does
* `Bytewise.onArray_fsDeviceFormat`: formatting on the byte array
-/

namespace MicroKernel.Fs.Bytewise

open Store

/-! ## Creation -/

def fsDirectoryCreate (part : Partition) (filename : List UInt8) : Program DirectoryHandle := do
  let handle ← fsFileCreate part filename 30
  fsDirectorySetReferenceCount part handle 0
  fsFileSetAttributes part handle (chars [' ', 'r', 'w', 'd'])
  return handle

def fsDirectoryExtentCreate (part : Partition) (parentPtr nextPtr : UInt32) :
    Program DirectoryHandle := do
  let handle ← fsFileCreate part (chars ['E', 'X', 'T', 'E', 'N', 'T']) 30
  fsDirectorySetReferenceCount part handle 0
  fsFileSetAttributes part handle (chars [' ', 'r', 'w', 'E'])
  fsFileSetNextAddress part handle nextPtr
  fsFileSetParentAddress part handle parentPtr
  return handle

/-! ## Adding files -/

def findExtent (part : Partition) : ℕ → DirectoryHandle → Program DirectoryHandle
  | 0, _ => (Except.error .diverges : Except Fault _)
  | limit + 1, extent => do
    if extent = 0 then return extent
    let extentRefCount ← fsDirectoryGetReferenceCount part extent
    if (extentRefCount + 2) * 4 ≥ part.sectorSize then
      let nextExtent ← fsFileGetNextAddress part extent
      if nextExtent = 0 then
        let newExtent ← fsDirectoryExtentCreate part extent 0
        fsFileSetNextAddress part extent newExtent
        return extent
      else
        let extent ← fsFileGetNextAddress part extent
        findExtent part limit extent
    else return extent

/-- The extent behind a full block: a new one, or one of the chain. -/
def nextBlock (part : Partition) (handle : DirectoryHandle) : Program DirectoryHandle := do
  let extent ← fsFileGetNextAddress part handle
  if extent = 0 then
    let extent ← fsDirectoryExtentCreate part handle extent
    fsFileSetNextAddress part handle extent
    return extent
  else findExtent part walkLimit extent

/-- The block a new entry goes to, and the number of its entries. -/
def targetBlock (part : Partition) (handle : DirectoryHandle) :
    Program (DirectoryHandle × UInt32) := do
  let refCount ← fsDirectoryGetReferenceCount part handle
  if (refCount + 1) * 4 ≥ part.sectorSize then
    let handle ← nextBlock part handle
    let refCount ← fsDirectoryGetReferenceCount part handle
    return (handle, refCount)
  else return (handle, refCount)

/-- Append an entry to a block. -/
def appendEntry (part : Partition) (handle : DirectoryHandle) (refCount file : UInt32)
    (junk : ℕ → UInt8) : FsProgram Unit := do
  fsDirectorySetReferenceCount part handle (refCount + 1)
  let index ← fsFileOpen part handle
  let fileSize ← fsFileGetSize part handle
  let buffer := localBuffer junk (fileSize + part.sectorSize).toNat
  let (_, buffer) ← fsFileRead part index buffer fileSize
  let buffer ← storeEntry buffer refCount file
  let _ ← fsFileWrite part index buffer fileSize
  let _ ← fsFileClose index
  return ()

def fsDirectoryAddFile (part : Partition) (handle : DirectoryHandle) (file : UInt32)
    (junk : ℕ → UInt8) : FsProgram UInt8 := do
  let (handle, refCount) ← targetBlock part handle
  appendEntry part handle refCount file junk
  return 1

/-! ## Walks -/

def getTotalSizeFrom (part : Partition) :
    ℕ → DirectoryHandle → (total : UInt32) → Program UInt32
  | 0, _, _ => (Except.error .diverges : Except Fault _)
  | limit + 1, handle, total => do
    let refCount ← fsDirectoryGetReferenceCount part handle
    let handle ← fsFileGetNextAddress part handle
    if handle = 0 then return total + refCount
    else getTotalSizeFrom part limit handle (total + refCount)

def fsDirectoryGetTotalSize (part : Partition) (handle : DirectoryHandle) : Program UInt32 :=
  getTotalSizeFrom part walkLimit handle 0

/-- Open a block and read its data into the buffer. -/
def readBlock (part : Partition) (handle : DirectoryHandle) (buffer : List UInt8) :
    FsProgram (File × List UInt8) := do
  let index ← fsFileOpen part handle
  let directorySize ← fsFileGetSize part handle
  let (_, buffer) ← fsFileRead part index buffer directorySize
  return (index, buffer)

def findByIndexFrom (part : Partition) (index : UInt32) :
    ℕ → DirectoryHandle → (counter : UInt32) → List UInt8 → FsProgram UInt32
  | 0, _, _, _ => (Except.error .diverges : Except Fault _)
  | limit + 1, handle, counter, buffer => do
    let refCount ← fsDirectoryGetReferenceCount part handle
    let (fileIndex, buffer) ← readBlock part handle buffer
    if index - counter < refCount then
      let fileHandle ← loadEntry buffer (index - counter)
      let _ ← fsFileClose fileIndex
      return fileHandle
    else
      let _ ← fsFileClose fileIndex
      let handle ← fsFileGetNextAddress part handle
      if handle = 0 then return 0
      else findByIndexFrom part index limit handle (counter + refCount) buffer

def fsDirectoryFindByIndex (part : Partition) (handle : DirectoryHandle) (index : UInt32)
    (junk : ℕ → UInt8) : FsProgram UInt32 :=
  findByIndexFrom part index walkLimit handle 0 (localBuffer junk 64)

def findNameIn (part : Partition) (buffer sourceFilename : List UInt8) :
    ℕ → UInt32 → Program (Option UInt32)
  | 0, _ => return none
  | left + 1, i => do
    let fileHandle ← loadEntry buffer i
    let name ← fsFileGetName part fileHandle (cleanName [])
    if sameString name sourceFilename then return some fileHandle
    else findNameIn part buffer sourceFilename left (i + 1)

def findByNameFrom (part : Partition) (sourceFilename : List UInt8) :
    ℕ → DirectoryHandle → List UInt8 → FsProgram UInt32
  | 0, _, _ => (Except.error .diverges : Except Fault _)
  | limit + 1, handle, buffer => do
    let refCount ← fsDirectoryGetReferenceCount part handle
    let (index, buffer) ← readBlock part handle buffer
    match ← findNameIn part buffer sourceFilename refCount.toNat 0 with
    | some fileHandle =>
      let _ ← fsFileClose index
      return fileHandle
    | none =>
      let _ ← fsFileClose index
      let handle ← fsFileGetNextAddress part handle
      if handle = 0 then return 0
      else findByNameFrom part sourceFilename limit handle buffer

def fsDirectoryFindByName (part : Partition) (handle : DirectoryHandle) (filename : List UInt8)
    (junk : ℕ → UInt8) : FsProgram UInt32 :=
  findByNameFrom part (cleanName filename) walkLimit handle (localBuffer junk 64)

/-! ## Devices -/

def fsDeviceGetSize (part : Partition) : Program UInt32 := getWord part 0 deviceOffsetCapacity

def fsDeviceGetSectorSize (part : Partition) : Program UInt32 := getWord part 0 deviceOffsetSectSz

def fsDeviceGetRootDirectory (part : Partition) : Program DirectoryHandle :=
  getWord part 0 deviceOffsetSectSz

def fsDeviceOpen (deviceAddress : UInt32) : Program Partition := do
  let part : Partition :=
    { blockAddress := deviceAddress, blockSize := 0, sectorCount := 0, sectorSize := 0 }
  let headerID ← readBytes deviceAddress 10
  let blockSize ← fsDeviceGetSize part
  let sectorSize ← fsDeviceGetSectorSize part
  if headerID.getD 0 0 ≠ 0x13 ∨ headerID.getD 1 0 ≠ 'f'.toUInt8 ∨ headerID.getD 2 0 ≠ 's'.toUInt8 ∨
      blockSize = 0 ∨ sectorSize = 0 then return part
  else return { part with blockSize, sectorCount := blockSize / sectorSize, sectorSize }

/-- The markers and the header up to the device type. -/
def formatHeader (part : Partition) : Program Unit := do
  (List.range part.sectorCount.toNat).forM fun i =>
    fsWriteByte (part.blockAddress + UInt32.ofNat i * part.sectorSize) sectorFree
  writeBytes (part.blockAddress + 0) (fun i => deviceHeaderString.getD i 0) deviceHeaderString.length
  setWord part 0 deviceOffsetCapacity part.blockSize
  fsWriteByte (part.blockAddress + deviceOffsetType) 'T'.toUInt8

def fsDeviceFormat (part : Partition) (beginning ending sectorSize : UInt32) :
    Program Partition := do
  if sectorSize = 0 then (Except.error .divisionByZero : Except Fault _)
  else
    let part := formatted part beginning ending sectorSize
    formatHeader part
    let handle ← fsDirectoryCreate part (chars ['r', 'o', 'o', 't'])
    setWord part 0 deviceOffsetRoot handle
    setWord part 0 deviceOffsetSectSz part.sectorSize
    return part

/-! ## On the byte array -/

section OnArray

variable {part : Partition} {handle : DirectoryHandle} {mem : Memory} {fs : FileSystem}

@[simp] theorem onArray_fsDirectoryCreate (filename : List UInt8) :
    (fsDirectoryCreate part filename).onArray mem = Fs.fsDirectoryCreate part filename mem := by
  rw [fsDirectoryCreate, Fs.fsDirectoryCreate, onArray_bind, onArray_fsFileCreate]
  refine bind_congr fun r => ?_
  simp only [onArray_bind, onArray_fsDirectorySetReferenceCount, onArray_fsFileSetAttributes, ok_bind]
  rfl

@[simp] theorem onArray_fsDirectoryExtentCreate (parentPtr nextPtr : UInt32) :
    (fsDirectoryExtentCreate part parentPtr nextPtr).onArray mem =
      Fs.fsDirectoryExtentCreate part parentPtr nextPtr mem := by
  rw [fsDirectoryExtentCreate, Fs.fsDirectoryExtentCreate, onArray_bind, onArray_fsFileCreate]
  refine bind_congr fun r => ?_
  simp only [onArray_bind, onArray_fsDirectorySetReferenceCount, onArray_fsFileSetAttributes,
    onArray_fsFileSetNextAddress, onArray_fsFileSetParentAddress, ok_bind]
  rfl

@[simp] theorem onArray_findExtent (limit : ℕ) (extent : DirectoryHandle) :
    (findExtent part limit extent).onArray mem = Fs.findExtent part limit extent mem := by
  induction limit generalizing extent with
  | zero => rfl
  | succ limit ih =>
    rw [findExtent, Fs.findExtent]
    by_cases h₀ : extent = 0
    · rw [if_pos h₀, if_pos h₀]
      rfl
    rw [if_neg h₀, if_neg h₀, onArray_bind_of_ok onArray_fsDirectoryGetReferenceCount]
    by_cases hfull : (Fs.fsDirectoryGetReferenceCount part extent mem + 2) * 4 ≥ part.sectorSize
    · rw [if_pos hfull, if_pos hfull, onArray_bind_of_ok onArray_fsFileGetNextAddress]
      by_cases hnext : Fs.fsFileGetNextAddress part extent mem = 0
      · rw [if_pos hnext, if_pos hnext, onArray_bind, onArray_fsDirectoryExtentCreate]
        refine bind_congr fun r => ?_
        rw [onArray_bind_of_ok onArray_fsFileSetNextAddress]
        rfl
      · rw [if_neg hnext, if_neg hnext, onArray_bind_of_ok onArray_fsFileGetNextAddress]
        exact ih _
    · rw [if_neg hfull, if_neg hfull]
      rfl

/-- The block and the number of its entries. -/
theorem onArray_targetBlock : (targetBlock part handle).onArray mem =
    (fun r => ((r.1, Fs.fsDirectoryGetReferenceCount part r.1 r.2), r.2)) <$>
      Fs.targetBlock part handle mem := by
  rw [targetBlock, Fs.targetBlock, onArray_bind_of_ok onArray_fsDirectoryGetReferenceCount]
  by_cases hfull : (Fs.fsDirectoryGetReferenceCount part handle mem + 1) * 4 ≥ part.sectorSize
  · rw [if_pos hfull, if_pos hfull, onArray_bind, nextBlock,
      onArray_bind_of_ok onArray_fsFileGetNextAddress]
    by_cases hnext : Fs.fsFileGetNextAddress part handle mem = 0
    · rw [if_pos hnext, if_pos hnext, onArray_bind, onArray_fsDirectoryExtentCreate]
      cases Fs.fsDirectoryExtentCreate part handle (Fs.fsFileGetNextAddress part handle mem) mem with
      | error e => rfl
      | ok r =>
        rw [ok_bind, ok_bind, onArray_bind_of_ok onArray_fsFileSetNextAddress, onArray_pure, ok_bind,
          onArray_bind_of_ok onArray_fsDirectoryGetReferenceCount]
        rfl
    · rw [if_neg hnext, if_neg hnext, onArray_findExtent]
      cases Fs.findExtent part walkLimit (Fs.fsFileGetNextAddress part handle mem) mem with
      | error e => rfl
      | ok r =>
        rw [ok_bind, onArray_bind_of_ok onArray_fsDirectoryGetReferenceCount]
        rfl
  · rw [if_neg hfull, if_neg hfull]
    rfl

theorem runFs_appendEntry (fs : FileSystem) (file : UInt32) (junk : ℕ → UInt8) :
    (appendEntry part handle (Fs.fsDirectoryGetReferenceCount part handle fs.memory) file junk).runFs
      fs = (fun fs => ((), fs)) <$> Fs.appendEntry part handle file junk fs := by
  simp only [appendEntry, Fs.appendEntry, runFs_bind, runFs_lift, runFs_except, runFs_pure,
    onArray_fsDirectorySetReferenceCount, onArray_fsFileGetSize, runFs_fsFileOpen, runFs_fsFileRead,
    runFs_fsFileWrite, runFs_fsFileClose, ok_bind, map_bind, bind_map_left]
  rfl

@[simp] theorem runFs_fsDirectoryAddFile (file : UInt32) (junk : ℕ → UInt8) :
    (fsDirectoryAddFile part handle file junk).runFs fs =
      Fs.fsDirectoryAddFile part handle file junk fs := by
  simp only [fsDirectoryAddFile, Fs.fsDirectoryAddFile, runFs_bind, runFs_lift, onArray_targetBlock,
    bind_map_left]
  refine bind_congr fun r => ?_
  rw [runFs_appendEntry { fs with memory := r.2 }, bind_map_left]
  rfl

/-! ### Walks -/

@[simp] theorem onArray_fsDirectoryGetTotalSize :
    (fsDirectoryGetTotalSize part handle).onArray mem =
      (fun total => (total, mem)) <$> Fs.fsDirectoryGetTotalSize part handle mem := by
  have hfrom : ∀ limit handle total, (getTotalSizeFrom part limit handle total).onArray mem =
      (fun total => (total, mem)) <$> Fs.getTotalSizeFrom part mem limit handle total := by
    intro limit
    induction limit with
    | zero => exact fun _ _ => rfl
    | succ limit ih =>
      intro handle total
      rw [getTotalSizeFrom, Fs.getTotalSizeFrom,
        onArray_bind_of_ok onArray_fsDirectoryGetReferenceCount,
        onArray_bind_of_ok onArray_fsFileGetNextAddress]
      by_cases h : Fs.fsFileGetNextAddress part handle mem = 0
      · simp only [if_pos h]
        rfl
      · simp only [if_neg h, ih]
  exact hfrom walkLimit handle 0

@[simp] theorem runFs_readBlock (buffer : List UInt8) : (readBlock part handle buffer).runFs fs =
    (fun r => ((r.1, r.2.1), r.2.2)) <$> Fs.readBlock part handle buffer fs := by
  simp only [readBlock, Fs.readBlock, runFs_bind, runFs_lift, runFs_pure, runFs_fsFileOpen,
    onArray_fsFileGetSize, runFs_fsFileRead, ok_bind, map_bind, bind_map_left]
  rfl

@[simp] theorem runFs_findByIndexFrom (index : UInt32) (limit : ℕ) (counter : UInt32)
    (buffer : List UInt8) : (findByIndexFrom part index limit handle counter buffer).runFs fs =
      Fs.findByIndexFrom part index limit handle counter buffer fs := by
  induction limit generalizing handle counter buffer fs with
  | zero => rfl
  | succ limit ih =>
    simp only [findByIndexFrom, Fs.findByIndexFrom, runFs_bind, runFs_lift,
      onArray_fsDirectoryGetReferenceCount, runFs_readBlock, ok_bind, bind_map_left]
    refine bind_congr fun r => ?_
    obtain ⟨fileIndex, buffer, fs₁⟩ := r
    dsimp only
    by_cases hlt : index - counter < Fs.fsDirectoryGetReferenceCount part handle fs.memory
    · simp only [if_pos hlt, runFs_bind, runFs_except, runFs_fsFileClose, runFs_pure, bind_map_left]
      rfl
    · rw [if_neg hlt, if_neg hlt, runFs_bind, runFs_fsFileClose]
      refine bind_congr fun r => ?_
      rw [runFs_bind_of_read onArray_fsFileGetNextAddress]
      show FsProgram.runFs _ r.2 = if _ then _ else _
      by_cases hnext : Fs.fsFileGetNextAddress part handle r.2.memory = 0
      · rw [if_pos hnext, if_pos hnext]
        rfl
      · rw [if_neg hnext, if_neg hnext]
        exact ih ..

@[simp] theorem onArray_findNameIn (buffer sourceFilename : List UInt8) (left : ℕ) (i : UInt32) :
    (findNameIn part buffer sourceFilename left i).onArray mem =
      (fun r => (r, mem)) <$> Fs.findNameIn part mem buffer sourceFilename left i := by
  induction left generalizing i with
  | zero => rfl
  | succ left ih =>
    rw [findNameIn, Fs.findNameIn, onArray_bind, onArray_lift, bind_map_left, map_bind]
    refine bind_congr fun fileHandle => ?_
    rw [onArray_bind_of_ok (onArray_fsFileGetName _)]
    dsimp only
    split
    · rfl
    · exact ih _

@[simp] theorem runFs_findByNameFrom (sourceFilename : List UInt8) (limit : ℕ)
    (buffer : List UInt8) : (findByNameFrom part sourceFilename limit handle buffer).runFs fs =
      Fs.findByNameFrom part sourceFilename limit handle buffer fs := by
  induction limit generalizing handle buffer fs with
  | zero => rfl
  | succ limit ih =>
    simp only [findByNameFrom, Fs.findByNameFrom, runFs_bind, runFs_lift,
      onArray_fsDirectoryGetReferenceCount, runFs_readBlock, ok_bind, bind_map_left]
    refine bind_congr fun r => ?_
    obtain ⟨index, buffer, fs₁⟩ := r
    rw [onArray_findNameIn]
    simp only [bind_map_left]
    refine bind_congr fun r => ?_
    cases r with
    | some fileHandle =>
      simp only [runFs_bind, runFs_fsFileClose, runFs_pure]
      rfl
    | none =>
      dsimp only
      rw [runFs_bind, runFs_fsFileClose]
      refine bind_congr fun r => ?_
      rw [runFs_bind_of_read onArray_fsFileGetNextAddress]
      show FsProgram.runFs _ r.2 = if _ then _ else _
      by_cases hnext : Fs.fsFileGetNextAddress part handle r.2.memory = 0
      · rw [if_pos hnext, if_pos hnext]
        rfl
      · rw [if_neg hnext, if_neg hnext]
        exact ih ..

/-! ### Devices -/

@[simp] theorem onArray_fsDeviceGetSize : (fsDeviceGetSize part).onArray mem =
    .ok (Fs.fsDeviceGetSize part mem, mem) := onArray_getWord

@[simp] theorem onArray_fsDeviceGetSectorSize : (fsDeviceGetSectorSize part).onArray mem =
    .ok (Fs.fsDeviceGetSectorSize part mem, mem) := onArray_getWord

@[simp] theorem onArray_fsDeviceGetRootDirectory : (fsDeviceGetRootDirectory part).onArray mem =
    .ok (Fs.fsDeviceGetRootDirectory part mem, mem) := onArray_getWord

@[simp] theorem onArray_fsDeviceOpen (deviceAddress : UInt32) :
    (fsDeviceOpen deviceAddress).onArray mem = .ok (Fs.fsDeviceOpen deviceAddress mem, mem) := by
  have hfirst : ((List.range 10).map fun i => mem (deviceAddress + UInt32.ofNat i)).getD 0 0 =
      mem deviceAddress := congrArg mem (UInt32.add_zero deviceAddress)
  rw [fsDeviceOpen, onArray_bind_of_ok (onArray_readBytes 10), hfirst,
    onArray_bind_of_ok onArray_fsDeviceGetSize, onArray_bind_of_ok onArray_fsDeviceGetSectorSize]
  exact (apply_ite (fun p : Program Partition => p.onArray mem) _ _ _).trans
    (apply_ite (fun p : Partition => (Except.ok (p, mem) : Except Fault _)) _ _ _).symm

theorem onArray_formatHeader :
    (formatHeader part).onArray mem = .ok ((), Fs.formatHeader part mem) := by
  simp only [formatHeader, Fs.formatHeader, onArray_bind, onArray_forM, onArray_writeBytes,
    onArray_setWord, onArray_fsWriteByte, ok_bind]

/-- **Formatting, byte by byte.** -/
theorem onArray_fsDeviceFormat (beginning ending sectorSize : UInt32) :
    (fsDeviceFormat part beginning ending sectorSize).onArray mem =
      Fs.fsDeviceFormat part beginning ending sectorSize mem := by
  rw [fsDeviceFormat, Fs.fsDeviceFormat]
  by_cases h : sectorSize = 0
  · rw [if_pos h, if_pos h]
    rfl
  · rw [if_neg h, if_neg h, onArray_bind_of_ok onArray_formatHeader, onArray_bind,
      onArray_fsDirectoryCreate]
    refine bind_congr fun r => ?_
    simp only [onArray_bind, onArray_setWord, ok_bind]
    rfl

end OnArray

end MicroKernel.Fs.Bytewise
