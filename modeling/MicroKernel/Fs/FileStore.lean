import MicroKernel.Fs.Fields
import MicroKernel.Fs.FirstFit
import MicroKernel.Lib.Service

/-!
# The file store

What the file system is for: a store of files, each with the fields of its header and the bytes of its
data, and sixteen slots to read and write them through. A device knows nothing but its bytes and the
addresses in the open table; the files in the store do not know where they lie, but that a new one
takes the first run of vacant sectors.

## Main definitions

* `Request`, `Answer`: what a program asks the file system, and what it is answered
* `answer`: the answers of the file system
* `StoredFile`, `FileStore`: the files and the slots
* `Answers`: the answers of the store
* `FileStore.Asks`: the requests a program may make
* `fileStoreOf`: the store of the files of a device
-/

namespace MicroKernel.Fs

open Store

inductive Request where
  | create (filename : List UInt8) (size : UInt32)
  | delete (handle : FileHandle)
  | openFile (handle : FileHandle)
  | close (index : File)
  | write (index : File) (buffer : List UInt8) (size : UInt32)
  | read (index : File) (buffer : List UInt8) (size : UInt32)
  | set (handle : FileHandle) (setter : Setter)
  | get (handle : FileHandle) (field : HeaderField)

/-- What the functions return; a read also fills the buffer, and a setter returns nothing. -/
inductive Answer where
  | handle (handle : FileHandle)
  | index (index : File)
  | moved (result : UInt8)
  | bytes (result : UInt8) (buffer : List UInt8)
  | value (field : HeaderField) (value : field.Value)
  | nothing

/-- The answer of the file system to a request. -/
def answer (part : Partition) : Request → FileSystem → Except Fault (Answer × FileSystem)
  | .create filename size, fs => do
    let (handle, memory) ← fsFileCreate part filename size fs.memory
    return (.handle handle, { fs with memory })
  | .delete handle, fs => do
    let (handle, memory) ← fsFileDelete part handle fs.memory
    return (.handle handle, { fs with memory })
  | .openFile handle, fs => do
    let (index, fs) ← fsFileOpen part handle fs
    return (.index index, fs)
  | .close index, fs => do
    let (result, fs) ← fsFileClose index fs
    return (.moved result, fs)
  | .write index buffer size, fs => do
    let (result, fs) ← fsFileWrite part index buffer size fs
    return (.moved result, fs)
  | .read index buffer size, fs => do
    let (result, buffer) ← fsFileRead part index buffer size fs
    return (.bytes result buffer, fs)
  | .set handle setter, fs =>
    return (.nothing, { fs with memory := setter.apply part handle fs.memory })
  | .get handle field, fs => return (.value field (getField part handle fs.memory field), fs)

/-! ## Files and slots -/

/-- A file: what the getters of its header return, and the bytes of its data. -/
structure StoredFile where
  fields : (field : HeaderField) → field.Value
  data : List UInt8

def StoredFile.size (f : StoredFile) : UInt32 := f.fields .size

/-- A request of `n` bytes is served when it asks for one byte or more, and at most for two more than
the size of the file. -/
def StoredFile.Accepts (f : StoredFile) (n : UInt32) : Prop :=
  n ≠ 0 ∧ n.toNat ≤ f.size.toNat + 2

/-- The file with `n` bytes of a buffer written to it. -/
def StoredFile.write (f : StoredFile) (buffer : List UInt8) (n : ℕ) : StoredFile :=
  { f with data := buffer.take n ++ f.data.drop n }

/-- The file with a field of its header set. -/
def StoredFile.set (f : StoredFile) (setter : Setter) : StoredFile :=
  { f with fields := Function.update f.fields setter.field (setter.value (f.fields setter.field)) }

@[simp] theorem StoredFile.size_write (f : StoredFile) (buffer : List UInt8) (n : ℕ) :
    (f.write buffer n).size = f.size := rfl

/-- No setter sets the size. -/
@[simp] theorem StoredFile.size_set (f : StoredFile) (setter : Setter) :
    (f.set setter).size = f.size := by
  refine Function.update_of_ne ?_ ..
  cases setter <;> exact fun h => nomatch h

/-- A file just created: its name cut and padded, its size and attributes, no flag and no links. Its
count of references and its data are whatever its sectors held. -/
structure StoredFile.Created (filename : List UInt8) (size : UInt32) (f : StoredFile) : Prop where
  name : f.fields .name = fun buffer => cleanName filename ++ buffer.drop fileNameLength
  size_eq : f.size = size
  attributes : f.fields .attributes = chars [' ', 'r', 'w', ' ']
  flag : f.fields .flag = fun _ => (0 : UInt8)
  parent : f.fields .parent = (0 : UInt32)
  next : f.fields .next = (0 : UInt32)
  length_data : f.data.length = size.toNat + 1

/-- A slot is closed, or a file was opened in it, which may have been deleted since. -/
inductive OpenSlot where
  | closed
  | openOn (handle : FileHandle)
  | stale
deriving DecidableEq

structure FileStore where
  files : FileHandle → Option StoredFile
  slots : Fin maxOpenFiles → OpenSlot

namespace FileStore

variable (part : Partition) (s : FileStore)

/-- The files with their sizes. -/
def live : Files := fun h => (s.files h).map StoredFile.size

/-- The store with a file at a handle, in place of the one that was there. -/
def put (h : FileHandle) (f : StoredFile) : FileStore :=
  { s with files := Function.update s.files h (some f) }

/-- The store with a slot set. -/
def setSlot (i : Fin maxOpenFiles) (slot : OpenSlot) : FileStore :=
  { s with slots := Function.update s.slots i slot }

/-- The store without the file of a handle. The slots it was opened in stay open. -/
def remove (h : FileHandle) : FileStore where
  files := Function.update s.files h none
  slots := fun i => if s.slots i = .openOn h then .stale else s.slots i

/-- A sector behind the device header that is of no file. -/
def Vacant (i : ℕ) : Prop :=
  0 < i ∧ i < part.sectorCount.toNat ∧
    ∀ h f, s.files h = some f → i * part.sectorSize.toNat ∉ runBytes part h f.size

/-- The sectors at which a file of `size` bytes has room. -/
def vacantRuns (size : UInt32) : Set ℕ := {i | ∀ k < runLength part size, s.Vacant part (i + k)}

/-- A request of `n` bytes at an index is not served: the index is that of no open slot, or the file
opened there does not accept the request. -/
def Refuses (index : File) (n : UInt32) : Prop :=
  ∀ i : Fin maxOpenFiles, index = (i : ℤ) →
    s.slots i = .closed ∨ ∃ h f, s.slots i = .openOn h ∧ s.files h = some f ∧ ¬ f.Accepts n

/-- The requests a program may make: handles are those of files, but one that is opened may be that
of a vacant sector; a slot is closed when a file is opened; an index is in the open table or refused;
a buffer has the bytes asked for; and a request does not go through a slot whose file was deleted. -/
def Asks : Request → FileStore → Prop
  | .create _ _, _ => True
  | .delete handle, s => s.files handle ≠ none
  | .openFile handle, s =>
    (s.files handle ≠ none ∨ ∃ i, s.Vacant part i ∧ handle.toNat = i * part.sectorSize.toNat) ∧
      ∃ i, s.slots i = .closed
  | .close index, _ => index ≠ 16
  | .write index buffer n, s | .read index buffer n, s =>
    index ≠ 16 ∧ n.toNat ≤ buffer.length ∧
      ∀ i : Fin maxOpenFiles, index = (i : ℤ) → s.slots i ≠ .stale
  | .set handle setter, s => s.files handle ≠ none ∧ setter.InRange
  | .get handle _, s => s.files handle ≠ none

end FileStore

/-- The answers of the store. An accepted request moves all bytes but the last. -/
inductive Answers (part : Partition) : Request → FileStore → Answer → FileStore → Prop
  | created {s : FileStore} {filename : List UInt8} {size : UInt32} {h : FileHandle} {f : StoredFile}
      {i : ℕ} (hi : IsLeast (s.vacantRuns part size) i) (hh : h.toNat = i * part.sectorSize.toNat)
      (hf : f.Created filename size) :
      Answers part (.create filename size) s (.handle h) (s.put h f)
  | full {s : FileStore} {filename : List UInt8} {size : UInt32}
      (hnone : s.vacantRuns part size = ∅) :
      Answers part (.create filename size) s (.handle 0) s
  | deleted {s : FileStore} {h : FileHandle} :
      Answers part (.delete h) s (.handle h) (s.remove h)
  | opened {s : FileStore} {h : FileHandle} {i : Fin maxOpenFiles} (hh : s.files h ≠ none)
      (hi : IsLeast {i | s.slots i = .closed} i) :
      Answers part (.openFile h) s (.index i) (s.setSlot i (.openOn h))
  | absent {s : FileStore} {h : FileHandle} (hh : s.files h = none) :
      Answers part (.openFile h) s (.index (-1)) s
  | closed {s : FileStore} {i : Fin maxOpenFiles} (hi : s.slots i ≠ .closed) :
      Answers part (.close i) s (.moved 1) (s.setSlot i .closed)
  | notOpen {s : FileStore} {index : File}
      (hi : ∀ i : Fin maxOpenFiles, index = (i : ℤ) → s.slots i = .closed) :
      Answers part (.close index) s (.moved 0) s
  | written {s : FileStore} {i : Fin maxOpenFiles} {h : FileHandle} {f : StoredFile}
      {buffer : List UInt8} {n : UInt32} (hi : s.slots i = .openOn h) (hf : s.files h = some f)
      (hn : f.Accepts n) :
      Answers part (.write i buffer n) s (.moved 1) (s.put h (f.write buffer (n.toNat - 1)))
  | notWritten {s : FileStore} {index : File} {buffer : List UInt8} {n : UInt32}
      (hn : s.Refuses index n) : Answers part (.write index buffer n) s (.moved 0) s
  | gotBytes {s : FileStore} {i : Fin maxOpenFiles} {h : FileHandle} {f : StoredFile}
      {buffer : List UInt8} {n : UInt32} (hi : s.slots i = .openOn h) (hf : s.files h = some f)
      (hn : f.Accepts n) :
      Answers part (.read i buffer n) s
        (.bytes 1 (f.data.take (n.toNat - 1) ++ buffer.drop (n.toNat - 1))) s
  | gotNothing {s : FileStore} {index : File} {buffer : List UInt8} {n : UInt32}
      (hn : s.Refuses index n) : Answers part (.read index buffer n) s (.bytes 0 buffer) s
  | set {s : FileStore} {h : FileHandle} {f : StoredFile} {setter : Setter}
      (hf : s.files h = some f) :
      Answers part (.set h setter) s .nothing (s.put h (f.set setter))
  | got {s : FileStore} {h : FileHandle} {f : StoredFile} {field : HeaderField}
      (hf : s.files h = some f) :
      Answers part (.get h field) s (.value field (f.fields field)) s

/-! ## The store of a device -/

/-- The file of a handle, as its sectors hold it. -/
def storedFile (part : Partition) (mem : Memory) (h : FileHandle) : StoredFile where
  fields := getField part h mem
  data := fileBytes part (part.blockAddress + h) ((fsFileGetSize part h mem).toNat + 1) mem

/-- The files of a device, before any is opened. -/
def fileStoreOf (part : Partition) (mem : Memory) (live : Files) : FileStore where
  files := fun h => (live h).map fun _ => storedFile part mem h
  slots := fun _ => .closed

/-- A file system without an open file. -/
def closedFileSystem (mem : Memory) : FileSystem where
  memory := mem
  fileList := fun _ => 0
  fileSize := fun _ => 0

end MicroKernel.Fs
