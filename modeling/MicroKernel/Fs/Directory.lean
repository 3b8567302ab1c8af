import MicroKernel.Fs.File

/-!
# Directories

The operations of `kernel/fs/basefs/fsDirectory.c`. A directory is a chain of blocks of 30 bytes,
linked by the next addresses of their headers; a block holds the handles of its files as words, and
their number in its reference count. A walk that meets more blocks than there are handles has met
one twice and does not end. What a local buffer holds before it is written is a parameter.

## Main definitions

* `fsDirectoryCreate`, `fsDirectoryDelete`, `fsDirectoryExtentCreate`
* `fsDirectoryAddFile`, `fsDirectoryRemoveFile`
* `fsDirectoryGetTotalSize`, `fsDirectoryFindByIndex`, `fsDirectoryFindByName`
-/

namespace MicroKernel.Fs

open Store

/-! ## Local buffers -/

/-- A local array of `length` bytes that holds `junk` before it is written. -/
def localBuffer (junk : ℕ → UInt8) (length : ℕ) : List UInt8 := (List.range length).map junk

def loadByte (buffer : List UInt8) (index : UInt32) : Except Fault UInt8 :=
  if h : index.toNat < buffer.length then .ok buffer[index.toNat] else .error .outOfBounds

def storeByte (buffer : List UInt8) (index : UInt32) (byte : UInt8) : Except Fault (List UInt8) :=
  if index.toNat < buffer.length then .ok (buffer.set index.toNat byte) else .error .outOfBounds

/-- The four bytes of entry `i`. -/
def loadEntry (buffer : List UInt8) (i : UInt32) : Except Fault UInt32 := do
  let b₀ ← loadByte buffer (i * 4)
  let b₁ ← loadByte buffer (i * 4 + 1)
  let b₂ ← loadByte buffer (i * 4 + 2)
  let b₃ ← loadByte buffer (i * 4 + 3)
  return wordOf fun k => [b₀, b₁, b₂, b₃].getD k 0

def storeEntry (buffer : List UInt8) (i w : UInt32) : Except Fault (List UInt8) := do
  let buffer ← storeByte buffer (i * 4) (wordByte w 0)
  let buffer ← storeByte buffer (i * 4 + 1) (wordByte w 1)
  let buffer ← storeByte buffer (i * 4 + 2) (wordByte w 2)
  storeByte buffer (i * 4 + 3) (wordByte w 3)

/-! ## Creation -/

/-- The handle is not checked: 0 writes to the device header. -/
def fsDirectoryCreate (part : Partition) (filename : List UInt8) (mem : Memory) :
    Except Fault (DirectoryHandle × Memory) := do
  let (handle, mem) ← fsFileCreate part filename 30 mem
  let mem := fsDirectorySetReferenceCount part handle 0 mem
  let mem := fsFileSetAttributes part handle (chars [' ', 'r', 'w', 'd']) mem
  return (handle, mem)

def fsDirectoryDelete (part : Partition) (handle : DirectoryHandle) (mem : Memory) :
    Except Fault (DirectoryHandle × Memory) := do
  let (_, mem) ← fsFileDelete part handle mem
  return (handle, mem)

def fsDirectoryExtentCreate (part : Partition) (parentPtr nextPtr : UInt32) (mem : Memory) :
    Except Fault (DirectoryHandle × Memory) := do
  let (handle, mem) ← fsFileCreate part (chars ['E', 'X', 'T', 'E', 'N', 'T']) 30 mem
  let mem := fsDirectorySetReferenceCount part handle 0 mem
  let mem := fsFileSetAttributes part handle (chars [' ', 'r', 'w', 'E']) mem
  let mem := fsFileSetNextAddress part handle nextPtr mem
  let mem := fsFileSetParentAddress part handle parentPtr mem
  return (handle, mem)

/-! ## Adding files -/

/-- The number of handles: a longer walk over the next addresses does not end. -/
def walkLimit : ℕ := 2 ^ 32

/-- The loop over the extents: the first with room, or the last, behind which a new extent is
linked. -/
def findExtent (part : Partition) : ℕ → DirectoryHandle → Memory →
    Except Fault (DirectoryHandle × Memory)
  | 0, _, _ => .error .diverges
  | limit + 1, extent, mem =>
    if extent = 0 then .ok (extent, mem)
    else if (fsDirectoryGetReferenceCount part extent mem + 2) * 4 ≥ part.sectorSize then
      if fsFileGetNextAddress part extent mem = 0 then do
        -- Generate a new extent
        let (newExtent, mem) ← fsDirectoryExtentCreate part extent 0 mem
        return (extent, fsFileSetNextAddress part extent newExtent mem)
      else findExtent part limit (fsFileGetNextAddress part extent mem) mem
    else .ok (extent, mem)

/-- The block a new entry goes to. -/
def targetBlock (part : Partition) (handle : DirectoryHandle) (mem : Memory) :
    Except Fault (DirectoryHandle × Memory) := do
  -- Check if the directory is full
  if (fsDirectoryGetReferenceCount part handle mem + 1) * 4 ≥ part.sectorSize then
    let extent := fsFileGetNextAddress part handle mem
    -- If no extent was found, generate a new one
    if extent = 0 then
      let (extent, mem) ← fsDirectoryExtentCreate part handle extent mem
      return (extent, fsFileSetNextAddress part handle extent mem)
    else findExtent part walkLimit extent mem
  else return (handle, mem)

/-- Append an entry to a block. -/
def appendEntry (part : Partition) (handle : DirectoryHandle) (file : UInt32) (junk : ℕ → UInt8)
    (fs : FileSystem) : Except Fault FileSystem := do
  let refCount := fsDirectoryGetReferenceCount part handle fs.memory
  let fs := { fs with memory := fsDirectorySetReferenceCount part handle (refCount + 1) fs.memory }
  let (index, fs) ← fsFileOpen part handle fs
  -- Read directory references
  let fileSize := fsFileGetSize part handle fs.memory
  let buffer := localBuffer junk (fileSize + part.sectorSize).toNat
  let (_, buffer) ← fsFileRead part index buffer fileSize fs
  -- Add new reference address
  let buffer ← storeEntry buffer refCount file
  -- Write back references
  let (_, fs) ← fsFileWrite part index buffer fileSize fs
  let (_, fs) ← fsFileClose index fs
  return fs

def fsDirectoryAddFile (part : Partition) (handle : DirectoryHandle) (file : UInt32)
    (junk : ℕ → UInt8) (fs : FileSystem) : Except Fault (UInt8 × FileSystem) := do
  let (handle, mem) ← targetBlock part handle fs.memory
  let fs ← appendEntry part handle file junk { fs with memory := mem }
  return (1, fs)

/-! ## Walks -/

def getTotalSizeFrom (part : Partition) (mem : Memory) :
    ℕ → DirectoryHandle → (total : UInt32) → Except Fault UInt32
  | 0, _, _ => .error .diverges
  | limit + 1, handle, total =>
    let total := total + fsDirectoryGetReferenceCount part handle mem
    let handle := fsFileGetNextAddress part handle mem
    if handle = 0 then .ok total else getTotalSizeFrom part mem limit handle total

def fsDirectoryGetTotalSize (part : Partition) (handle : DirectoryHandle) (mem : Memory) :
    Except Fault UInt32 :=
  getTotalSizeFrom part mem walkLimit handle 0

/-- Open a block and read its data into the buffer. -/
def readBlock (part : Partition) (handle : DirectoryHandle) (buffer : List UInt8)
    (fs : FileSystem) : Except Fault (File × List UInt8 × FileSystem) := do
  let (index, fs) ← fsFileOpen part handle fs
  let directorySize := fsFileGetSize part handle fs.memory
  let (_, buffer) ← fsFileRead part index buffer directorySize fs
  return (index, buffer, fs)

/-- The entries of a block are counted from `counter` on: the loop over them stops at entry
`index - counter`. -/
def findByIndexFrom (part : Partition) (index : UInt32) :
    ℕ → DirectoryHandle → (counter : UInt32) → List UInt8 → FileSystem →
      Except Fault (UInt32 × FileSystem)
  | 0, _, _, _, _ => .error .diverges
  | limit + 1, handle, counter, buffer, fs => do
    let refCount := fsDirectoryGetReferenceCount part handle fs.memory
    let (fileIndex, buffer, fs) ← readBlock part handle buffer fs
    if index - counter < refCount then
      let fileHandle ← loadEntry buffer (index - counter)
      let (_, fs) ← fsFileClose fileIndex fs
      return (fileHandle, fs)
    else
      let (_, fs) ← fsFileClose fileIndex fs
      let handle := fsFileGetNextAddress part handle fs.memory
      if handle = 0 then return (0, fs)
      else findByIndexFrom part index limit handle (counter + refCount) buffer fs

def fsDirectoryFindByIndex (part : Partition) (handle : DirectoryHandle) (index : UInt32)
    (junk : ℕ → UInt8) (fs : FileSystem) : Except Fault (UInt32 × FileSystem) :=
  findByIndexFrom part index walkLimit handle 0 (localBuffer junk 64) fs

/-- `strcmp` of two strings is zero. -/
def sameString (s t : List UInt8) : Bool := s.takeWhile (· ≠ 0) = t.takeWhile (· ≠ 0)

/-- The loop over the entries of a block: the first of `left` entries from `i` on whose name is
`sourceFilename`. -/
def findNameIn (part : Partition) (mem : Memory) (buffer sourceFilename : List UInt8) :
    ℕ → UInt32 → Except Fault (Option UInt32)
  | 0, _ => .ok none
  | left + 1, i => do
    let fileHandle ← loadEntry buffer i
    let name := fsFileGetName part fileHandle (cleanName []) mem
    if sameString name sourceFilename then return some fileHandle
    else findNameIn part mem buffer sourceFilename left (i + 1)

def findByNameFrom (part : Partition) (sourceFilename : List UInt8) :
    ℕ → DirectoryHandle → List UInt8 → FileSystem → Except Fault (UInt32 × FileSystem)
  | 0, _, _, _ => .error .diverges
  | limit + 1, handle, buffer, fs => do
    let refCount := fsDirectoryGetReferenceCount part handle fs.memory
    let (index, buffer, fs) ← readBlock part handle buffer fs
    match ← findNameIn part fs.memory buffer sourceFilename refCount.toNat 0 with
    | some fileHandle =>
      let (_, fs) ← fsFileClose index fs
      return (fileHandle, fs)
    | none =>
      let (_, fs) ← fsFileClose index fs
      let handle := fsFileGetNextAddress part handle fs.memory
      if handle = 0 then return (0, fs)
      else findByNameFrom part sourceFilename limit handle buffer fs

def fsDirectoryFindByName (part : Partition) (handle : DirectoryHandle) (filename : List UInt8)
    (junk : ℕ → UInt8) (fs : FileSystem) : Except Fault (UInt32 × FileSystem) :=
  findByNameFrom part (cleanName filename) walkLimit handle (localBuffer junk 64) fs

/-! ## Removing files -/

/-- The loop over the entries of a block: the first of `left` entries from `i` on that is `file`. -/
def findEntryIn (buffer : List UInt8) (file : UInt32) :
    ℕ → UInt32 → Except Fault (Option UInt32)
  | 0, _ => .ok none
  | left + 1, i => do
    let fileHandle ← loadEntry buffer i
    if file = fileHandle then return some i else findEntryIn buffer file left (i + 1)

/-- Replace entry `i` with the last entry, byte by byte, and blank that. -/
def replaceEntry (buffer : List UInt8) (i last : UInt32) : Except Fault (List UInt8) :=
  [0, 1, 2, 3].foldlM (fun buffer a => do
    let byte ← loadByte buffer (last * 4 + a)
    let buffer ← storeByte buffer (i * 4 + a) byte
    storeByte buffer (last * 4 + a) ' '.toUInt8) buffer

/-- Bypass the block in the chain and delete it. -/
def unlinkExtent (part : Partition) (handle : DirectoryHandle) (mem : Memory) :
    Except Fault Memory := do
  let next := fsFileGetNextAddress part handle mem
  let parent := fsFileGetParentAddress part handle mem
  let mem := fsFileSetNextAddress part parent next mem
  let mem := fsFileSetParentAddress part next parent mem
  let (_, mem) ← fsFileDelete part handle mem
  return mem

/-- The counter of the extents is a byte. -/
def removeFileFrom (part : Partition) (file : UInt32) :
    ℕ → DirectoryHandle → (extentCount : UInt8) → List UInt8 → FileSystem →
      Except Fault (UInt8 × FileSystem)
  | 0, _, _, _, _ => .error .diverges
  | limit + 1, handle, extentCount, buffer, fs => do
    let refCount := fsDirectoryGetReferenceCount part handle fs.memory
    let (index, buffer, fs) ← readBlock part handle buffer fs
    let directorySize := fsFileGetSize part handle fs.memory
    match ← findEntryIn buffer file refCount.toNat 0 with
    | some i =>
      let (_, mem) ← fsFileDelete part file fs.memory
      let fs := { fs with memory := mem }
      let buffer ← replaceEntry buffer i (refCount - 1)
      let (_, fs) ← fsFileWrite part index buffer directorySize fs
      let fs := { fs with
        memory := fsDirectorySetReferenceCount part handle (refCount - 1) fs.memory }
      let (_, fs) ← fsFileClose index fs
      -- Check to delete the extent if its empty
      if refCount ≤ 1 ∧ extentCount > 0 then
        let mem ← unlinkExtent part handle fs.memory
        return (1, { fs with memory := mem })
      else return (1, fs)
    | none =>
      let (_, fs) ← fsFileClose index fs
      let handle := fsFileGetNextAddress part handle fs.memory
      if handle = 0 then return (0, fs)
      else removeFileFrom part file limit handle (extentCount + 1) buffer fs

def fsDirectoryRemoveFile (part : Partition) (handle : DirectoryHandle) (file : UInt32)
    (junk : ℕ → UInt8) (fs : FileSystem) : Except Fault (UInt8 × FileSystem) :=
  removeFileFrom part file walkLimit handle 0 (localBuffer junk 64) fs

end MicroKernel.Fs
