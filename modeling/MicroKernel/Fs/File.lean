import MicroKernel.Fs.Allocate

/-!
# Files

The operations of `kernel/fs/basefs/fsFile.c`. The open table holds, for each open index, the
address of the file and its size when it was opened; a zero address is a closed slot. A buffer is
the list of its bytes, and an access outside it a fault.

## Main definitions

* `FileSystem`: the memory with the open table
* `fsFileCreate`, `fsFileDelete`, `fsFileExtentCreate`
* `fsFileOpen`, `fsFileClose`, `fsFileWrite`, `fsFileRead`

## Main results

* `positionOffset_eq_ofNat`: where pass `k` of a transfer goes
* `dataOffset_mem`: a byte of the data lies in the data sectors, off the markers
* `agreeOff_transfer`: a write stays in the data bytes of the file
-/

namespace MicroKernel.Fs

open Store

/-- The characters of a string literal. -/
def chars (s : List Char) : List UInt8 := s.map Char.toUInt8

/-- The header fields `fsFileCreate` sets behind the allocation. -/
def initHeader (part : Partition) (handle : FileHandle) (filename : List UInt8) (mem : Memory) :
    Memory :=
  let mem := fsFileSetName part handle filename mem
  let mem := fsFileSetAttributes part handle (chars [' ', 'r', 'w', ' ']) mem
  -- Extent chain
  let mem := fsFileSetNextAddress part handle 0 mem
  let mem := fsFileSetParentAddress part handle 0 mem
  -- Set default flag
  Function.update mem (part.blockAddress + (handle + fileOffsetFlag)) 0x00

def fsFileCreate (part : Partition) (filename : List UInt8) (size : UInt32) (mem : Memory) :
    Except Fault (FileHandle × Memory) := do
  let (handle, mem) ← fsAllocate part size mem
  if handle = 0 then return (0, mem)
  else return (handle, initHeader part handle filename mem)

def fsFileDelete (part : Partition) (handle : FileHandle) (mem : Memory) :
    Except Fault (FileHandle × Memory) := do
  let mem ← fsFree part handle mem
  return (handle, mem)

/-- The handle is not checked: 0 writes to the device header. -/
def fsFileExtentCreate (part : Partition) (size parentPtr nextPtr : UInt32) (mem : Memory) :
    Except Fault (FileHandle × Memory) := do
  let (handle, mem) ← fsFileCreate part (chars ['E', 'X', 'T', 'E', 'N', 'T']) size mem
  let mem := fsDirectorySetReferenceCount part handle 0 mem
  let mem := fsFileSetAttributes part handle (chars [' ', 'r', 'w', 'E']) mem
  let mem := fsFileSetNextAddress part handle nextPtr mem
  let mem := fsFileSetParentAddress part handle parentPtr mem
  return (handle, mem)

/-! ## The open table -/

/-- An index of the open table, or -1. -/
abbrev File := ℤ

/-- The memory and the open table. -/
structure FileSystem where
  memory : Memory
  fileList : Fin maxOpenFiles → UInt32
  fileSize : Fin maxOpenFiles → UInt32

/-- The file system with a slot set to an address and a size. -/
def FileSystem.setSlot (fs : FileSystem) (i : Fin maxOpenFiles) (address size : UInt32) :
    FileSystem :=
  { fs with
    fileList := Function.update fs.fileList i address
    fileSize := Function.update fs.fileSize i size }

@[simp] theorem FileSystem.setSlot_memory (fs : FileSystem) (i : Fin maxOpenFiles)
    (address size : UInt32) : (fs.setSlot i address size).memory = fs.memory := rfl

@[simp] theorem FileSystem.setSlot_fileList (fs : FileSystem) (i : Fin maxOpenFiles)
    (address size : UInt32) :
    (fs.setSlot i address size).fileList = Function.update fs.fileList i address := rfl

@[simp] theorem FileSystem.setSlot_fileSize (fs : FileSystem) (i : Fin maxOpenFiles)
    (address size : UInt32) :
    (fs.setSlot i address size).fileSize = Function.update fs.fileSize i size := rfl

/-- The first closed slot. The loop has no end that is reached with all slots open: it goes on to
`fileList[16]`. -/
def freeSlot (fs : FileSystem) : Except Fault (Fin maxOpenFiles) :=
  match (List.finRange maxOpenFiles).find? fun i => fs.fileList i = 0 with
  | some i => .ok i
  | none => .error .outOfBounds

def fsFileOpen (part : Partition) (handle : FileHandle) (fs : FileSystem) :
    Except Fault (File × FileSystem) := do
  let index ← freeSlot fs
  -- Check file header byte
  if fs.memory (part.blockAddress + handle) = sectorFree then return (-1, fs)
  else return (index.val,
    fs.setSlot index (part.blockAddress + handle) (fsFileGetSize part handle fs.memory))

/-- The slot of an index: none if the range check refuses it. The check admits 16. -/
def slotOf (index : File) : Except Fault (Option (Fin maxOpenFiles)) :=
  if index < 0 ∨ index > 16 then .ok none
  else if h : index.toNat < maxOpenFiles then .ok (some ⟨index.toNat, h⟩)
  else .error .outOfBounds

def fsFileClose (index : File) (fs : FileSystem) : Except Fault (UInt8 × FileSystem) := do
  match ← slotOf index with
  | none => return (0, fs)
  | some i =>
    if fs.fileList i = 0 then return (0, fs)
    else return (1, fs.setSlot i 0 0)

/-! ## Transfers -/

/-- Skip the sector marker byte. -/
def skipMarker (part : Partition) (cursor : UInt32 × UInt32) : UInt32 × UInt32 :=
  if cursor.2 = part.sectorSize - 1 then (cursor.1 + 1, 0) else cursor

/-- The variables `sector` and `sectorCounter` of the transfer loops, at the start of pass `i`. -/
def cursor (part : Partition) : ℕ → UInt32 × UInt32
  | 0 => (0, 0)
  | i + 1 =>
    let c := skipMarker part (cursor part i)
    (c.1 + 1, c.2 + 1)

/-- Where pass `i` of a transfer loop accesses the file. -/
def positionOffset (part : Partition) (i : ℕ) : UInt32 :=
  part.sectorSize + (skipMarker part (cursor part i)).1 + 1

/-- The slot a transfer goes through, if it is accepted: `size - 1` bytes are then moved. -/
def transferSlot (index : File) (size : UInt32) (fs : FileSystem) :
    Except Fault (Option (Fin maxOpenFiles)) := do
  match ← slotOf index with
  | none => return none
  | some i =>
    if fs.fileList i = 0 then return none
    else if size - 1 ≥ fs.fileSize i + 2 then return none
    else return some i

/-- Write the first `n` bytes of a buffer to the file at `address`. -/
def transfer (part : Partition) (address : UInt32) (buffer : List UInt8) (n : ℕ) (mem : Memory) :
    Memory :=
  writeEach (fun i => address + positionOffset part i) (fun i => buffer.getD i 0) (List.range n) mem

def fsFileWrite (part : Partition) (index : File) (buffer : List UInt8) (size : UInt32)
    (fs : FileSystem) : Except Fault (UInt8 × FileSystem) := do
  match ← transferSlot index size fs with
  | none => return (0, fs)
  | some i =>
    if (size - 1).toNat ≤ buffer.length then
      return (1, { fs with
        memory := transfer part (fs.fileList i) buffer (size - 1).toNat fs.memory })
    else .error .outOfBounds

/-- The buffer after the transfer. -/
def fsFileRead (part : Partition) (index : File) (buffer : List UInt8) (size : UInt32)
    (fs : FileSystem) : Except Fault (UInt8 × List UInt8) := do
  match ← transferSlot index size fs with
  | none => return (0, buffer)
  | some i =>
    if (size - 1).toNat ≤ buffer.length then
      return (1, ((List.range (size - 1).toNat).map fun k =>
        fs.memory (fs.fileList i + positionOffset part k)) ++ buffer.drop (size - 1).toNat)
    else .error .outOfBounds

/-! ## Slots -/

section Slots

variable {part : Partition} {fs : FileSystem} {index : File} {size : UInt32}

/-- With a closed slot, an open file takes one. -/
theorem freeSlot_eq_ok (h : ∃ i, fs.fileList i = 0) :
    ∃ i, freeSlot fs = .ok i ∧ fs.fileList i = 0 := by
  rw [freeSlot]
  cases hf : (List.finRange maxOpenFiles).find? fun i => fs.fileList i = 0 with
  | none =>
    obtain ⟨i, hi⟩ := h
    simpa [hi] using List.find?_eq_none.mp hf i (List.mem_finRange i)
  | some i => exact ⟨i, rfl, by simpa using List.find?_some hf⟩

theorem freeSlot_eq_error (h : ¬ ∃ i, fs.fileList i = 0) :
    freeSlot fs = .error .outOfBounds := by
  rw [freeSlot]
  cases hf : (List.finRange maxOpenFiles).find? fun i => fs.fileList i = 0 with
  | none => rfl
  | some i => exact absurd ⟨i, by simpa using List.find?_some hf⟩ h

theorem slotOf_natCast (i : Fin maxOpenFiles) : slotOf (i : ℤ) = .ok (some i) := by
  have hrange : ∀ n : ℕ, n < 16 → ¬ ((n : ℤ) < 0 ∨ (n : ℤ) > 16) := by
    intro n _
    omega
  rw [slotOf, if_neg (hrange i i.isLt)]
  exact dif_pos i.isLt

/-- The slot of an index, none when the index is refused. -/
theorem slotOf_eq_ok (h : index ≠ 16) :
    slotOf index = .ok none ∨ ∃ i : Fin maxOpenFiles, slotOf index = .ok (some i) ∧ index = i := by
  rw [slotOf]
  by_cases hr : index < 0 ∨ index > 16
  · exact Or.inl (if_pos hr)
  · have hrange : ∀ z : ℤ, z ≠ 16 → ¬ (z < 0 ∨ z > 16) → 0 ≤ z ∧ z.toNat < 16 := by
      intro z _ _
      omega
    obtain ⟨hpos, hlt⟩ := hrange index h hr
    refine Or.inr ⟨⟨index.toNat, hlt⟩, ?_, (Int.toNat_of_nonneg hpos).symm⟩
    rw [if_neg hr, dif_pos hlt]

/-- A transfer goes through an open slot whose size covers it, or is refused. -/
theorem transferSlot_eq_ok (fs : FileSystem) (size : UInt32) (h : index ≠ 16) :
    transferSlot index size fs = .ok none ∨
      ∃ i : Fin maxOpenFiles, transferSlot index size fs = .ok (some i) ∧ index = i ∧
        fs.fileList i ≠ 0 ∧ ¬ size - 1 ≥ fs.fileSize i + 2 := by
  rw [transferSlot]
  rcases slotOf_eq_ok h with hs | ⟨i, hs, hi⟩
  · rw [hs]
    exact Or.inl rfl
  · rw [hs]
    by_cases h₀ : fs.fileList i = 0
    · exact Or.inl (if_pos h₀)
    · by_cases h₁ : size - 1 ≥ fs.fileSize i + 2
      · exact Or.inl ((if_neg h₀).trans (if_pos h₁))
      · exact Or.inr ⟨i, (if_neg h₀).trans (if_neg h₁), hi, h₀, h₁⟩

/-- An accepted transfer moves bytes of the data sectors only, and fewer than `size`. -/
theorem lt_of_accepted {s : UInt32} (h : ¬ size - 1 ≥ s + 2) :
    (∀ k < (size - 1).toNat, k ≤ s.toNat) ∧ (size - 1).toNat + 1 = size.toNat := by
  have h₁ := size.toNat_lt
  have h₂ := s.toNat_lt
  have h1 : (1 : UInt32).toNat = 1 := rfl
  have h2 : (2 : UInt32).toNat = 2 := rfl
  rw [ge_iff_le, UInt32.le_iff_toNat_le, UInt32.toNat_add, UInt32.toNat_sub, h1, h2] at h
  rw [UInt32.toNat_sub, h1]
  exact ⟨fun k hk => by omega, by omega⟩

/-- What an `fsFileWrite` does: nothing, or a transfer to the file of the slot. -/
theorem fsFileWrite_eq_ok (part : Partition) (fs : FileSystem) {buffer : List UInt8} (h : index ≠ 16)
    (hb : size.toNat ≤ buffer.length) :
    fsFileWrite part index buffer size fs = .ok (0, fs) ∨
      ∃ i : Fin maxOpenFiles, index = i ∧ fs.fileList i ≠ 0 ∧ ¬ size - 1 ≥ fs.fileSize i + 2 ∧
        fsFileWrite part index buffer size fs = .ok (1, { fs with
          memory := transfer part (fs.fileList i) buffer (size - 1).toNat fs.memory }) := by
  rw [fsFileWrite]
  rcases transferSlot_eq_ok fs size h with hs | ⟨i, hs, hi, h₀, h₁⟩
  · rw [hs]
    exact Or.inl rfl
  · rw [hs]
    have := (lt_of_accepted h₁).2
    exact Or.inr ⟨i, hi, h₀, h₁, if_pos (by omega)⟩

/-- What an `fsFileClose` does: nothing, or closing the slot. -/
theorem fsFileClose_eq_ok (fs : FileSystem) (h : index ≠ 16) :
    fsFileClose index fs = .ok (0, fs) ∨
      ∃ i : Fin maxOpenFiles, index = i ∧ fs.fileList i ≠ 0 ∧
        fsFileClose index fs = .ok (1, fs.setSlot i 0 0) := by
  rw [fsFileClose]
  rcases slotOf_eq_ok h with hs | ⟨i, hs, hi⟩
  · rw [hs]
    exact Or.inl rfl
  · rw [hs]
    by_cases h₀ : fs.fileList i = 0
    · exact Or.inl (if_pos h₀)
    · exact Or.inr ⟨i, hi, h₀, if_neg h₀⟩

/-- Opening a file whose header is not free takes a closed slot. -/
theorem fsFileOpen_eq_ok {h : FileHandle} (hslot : ∃ i, fs.fileList i = 0)
    (hm : fs.memory (part.blockAddress + h) ≠ sectorFree) :
    ∃ i : Fin maxOpenFiles, freeSlot fs = .ok i ∧ fs.fileList i = 0 ∧
      fsFileOpen part h fs = .ok ((i : ℤ),
        fs.setSlot i (part.blockAddress + h) (fsFileGetSize part h fs.memory)) := by
  obtain ⟨i, hi, h₀⟩ := freeSlot_eq_ok hslot
  refine ⟨i, hi, h₀, ?_⟩
  rw [fsFileOpen, hi]
  exact if_neg hm

end Slots

/-! ## Headers -/

section Headers

variable {part : Partition} {handle offset : UInt32} {mem : Memory} {size : UInt32}

/-- The header bytes a setter may write: neither the marker nor the size. -/
def headerFields (handle : FileHandle) : Set ℕ :=
  {o | handle.toNat < o ∧ o < handle.toNat + 32 ∧
    ¬ (handle.toNat + 11 ≤ o ∧ o < handle.toNat + 15)}

theorem field_subset_headerFields {n : ℕ} (hpos : 0 < offset.toNat)
    (hn : offset.toNat + n ≤ 11 ∨ 15 ≤ offset.toNat ∧ offset.toNat + n ≤ 32) :
    field handle offset n ⊆ headerFields handle := by
  rintro o ⟨h₁, h₂⟩
  exact ⟨by omega, by omega, by omega⟩

theorem agreeOff_initHeader (mem : Memory) (filename : List UInt8)
    (hh : handle.toNat + 32 ≤ 2 ^ 32) :
    AgreeOff part.blockAddress (headerFields handle) mem
      (initHeader part handle filename mem) := by
  refine ((agreeOff_fsFileSetName hh).mono ?_).trans (((agreeOff_fsFileSetAttributes hh).mono
    ?_).trans (((agreeOff_setWord hh (by decide)).mono ?_).trans (((agreeOff_setWord hh
      (by decide)).mono ?_).trans ((agreeOff_setFlagByte hh).mono ?_))))
  all_goals exact field_subset_headerFields (by decide) (by decide)

theorem fsFileCreate_eq {h : FileHandle} {mem' : Memory} {filename : List UInt8}
    (ha : fsAllocate part size mem = .ok (h, mem')) (hne : h ≠ 0) :
    fsFileCreate part filename size mem = .ok (h, initHeader part h filename mem') := by
  rw [fsFileCreate, ha]
  exact if_neg hne

theorem fsFileCreate_eq_zero {mem' : Memory} {filename : List UInt8}
    (ha : fsAllocate part size mem = .ok (0, mem')) :
    fsFileCreate part filename size mem = .ok (0, mem') := by
  rw [fsFileCreate, ha]
  rfl

end Headers

/-! ## Data -/

section Data

variable {part : Partition}

/-- The offset of byte `k` of the data of a file from its header. -/
def dataOffset (part : Partition) (k : ℕ) : ℕ :=
  part.sectorSize.toNat * (1 + k / (part.sectorSize.toNat - 1)) + 1 +
    k % (part.sectorSize.toNat - 1)

theorem skipMarker_cursor (hss : 2 ≤ part.sectorSize.toNat) (k : ℕ) :
    skipMarker part (cursor part k) =
      (UInt32.ofNat (k + k / (part.sectorSize.toNat - 1)),
        UInt32.ofNat (k % (part.sectorSize.toNat - 1))) := by
  obtain ⟨m, hm⟩ : ∃ m, part.sectorSize.toNat = m + 1 := ⟨_, (Nat.succ_pred_eq_of_pos (by omega)).symm⟩
  have hlt := part.sectorSize.toNat_lt
  have hone : part.sectorSize - 1 = UInt32.ofNat m := by
    apply UInt32.toNat_inj.mp
    rw [UInt32.toNat_sub, UInt32.toNat_ofNat']
    show (2 ^ 32 - 1 + part.sectorSize.toNat) % 2 ^ 32 = _
    omega
  rw [hm, Nat.add_sub_cancel]
  -- a sector of `m + 1` bytes has `m` of data behind its marker
  induction k with
  | zero =>
    rw [cursor, skipMarker, if_neg]
    · simp
    · rw [hone]
      intro h
      have h' : 0 = (UInt32.ofNat m).toNat := congrArg UInt32.toNat h
      rw [UInt32.toNat_ofNat'] at h'
      omega
  | succ k ih =>
    have hmod := Nat.mod_lt k (show 0 < m by omega)
    have hdiv := Nat.div_add_mod k m
    rw [cursor, ih, skipMarker, hone]
    simp only
    have hsucc : ∀ n, UInt32.ofNat n + 1 = UInt32.ofNat (n + 1) := fun n =>
      (UInt32.ofNat_add n 1).symm
    rw [hsucc, hsucc]
    by_cases hk : k % m + 1 = m
    · -- the sector is complete, and a marker is passed over
      obtain ⟨hd, hr⟩ : (k + 1) / m = k / m + 1 ∧ (k + 1) % m = 0 := by
        rw [Nat.div_mod_unique (by omega)]
        refine ⟨?_, by omega⟩
        rw [Nat.mul_add]
        omega
      rw [if_pos (congrArg _ hk), hsucc, hd, hr]
      congr 2
      omega
    · -- within a sector nothing is passed over
      obtain ⟨hd, hr⟩ : (k + 1) / m = k / m ∧ (k + 1) % m = k % m + 1 := by
        rw [Nat.div_mod_unique (by omega)]
        exact ⟨by omega, by omega⟩
      rw [if_neg, hd, hr]
      · congr 2
        omega
      · intro h
        have h' := congrArg UInt32.toNat h
        rw [UInt32.toNat_ofNat', UInt32.toNat_ofNat'] at h'
        omega

/-- **Where pass `k` of a transfer goes**: to byte `k` of the data, modulo `2 ^ 32`. -/
theorem positionOffset_eq_ofNat (hss : 2 ≤ part.sectorSize.toNat) (k : ℕ) :
    positionOffset part k = UInt32.ofNat (dataOffset part k) := by
  obtain ⟨m, hm⟩ : ∃ m, part.sectorSize.toNat = m + 1 :=
    ⟨_, (Nat.succ_pred_eq_of_pos (by omega)).symm⟩
  have hdiv := Nat.div_add_mod k m
  -- the passes before wrote `k` bytes and passed over `k / m` markers
  have hsum : dataOffset part k = part.sectorSize.toNat + (k + k / m) + 1 := by
    have hmul : (m + 1) * (1 + k / m) = m + 1 + m * (k / m) + k / m := by ring
    rw [dataOffset, hm, Nat.add_sub_cancel, hmul]
    omega
  rw [hsum, UInt32.ofNat_add, UInt32.ofNat_add, UInt32.ofNat_toNat, positionOffset,
    skipMarker_cursor hss, hm, Nat.add_sub_cancel]
  rfl

theorem positionOffset_toNat (hss : 2 ≤ part.sectorSize.toNat) {k : ℕ}
    (hk : dataOffset part k < 2 ^ 32) : (positionOffset part k).toNat = dataOffset part k := by
  rw [positionOffset_eq_ofNat hss, UInt32.toNat_ofNat_of_lt' hk]

/-- The bytes of the data sectors of a file, but for the markers. -/
def dataBytes (part : Partition) (h : FileHandle) (size : UInt32) : Set ℕ :=
  {o | h.toNat + part.sectorSize.toNat ≤ o ∧
    o < h.toNat + runLength part size * part.sectorSize.toNat ∧
    (o - h.toNat) % part.sectorSize.toNat ≠ 0}

theorem dataOffset_div_mod (hss : 2 ≤ part.sectorSize.toNat) (k : ℕ) :
    dataOffset part k / part.sectorSize.toNat = 1 + k / (part.sectorSize.toNat - 1) ∧
      dataOffset part k % part.sectorSize.toNat = 1 + k % (part.sectorSize.toNat - 1) := by
  have hmod := Nat.mod_lt k (show 0 < part.sectorSize.toNat - 1 by omega)
  rw [Nat.div_mod_unique (by omega), dataOffset]
  omega

/-- Distinct bytes of the data lie at distinct offsets. -/
theorem dataOffset_injective (hss : 2 ≤ part.sectorSize.toNat) :
    Function.Injective (dataOffset part) := by
  intro k l hkl
  obtain ⟨hd, hm⟩ := dataOffset_div_mod hss k
  obtain ⟨hd', hm'⟩ := dataOffset_div_mod hss l
  rw [hkl] at hd hm
  rw [← Nat.div_add_mod k (part.sectorSize.toNat - 1),
    ← Nat.div_add_mod l (part.sectorSize.toNat - 1),
    show k / (part.sectorSize.toNat - 1) = l / (part.sectorSize.toNat - 1) by omega,
    show k % (part.sectorSize.toNat - 1) = l % (part.sectorSize.toNat - 1) by omega]

/-- A byte of the data lies in the data sectors, off the markers. -/
theorem dataOffset_mem {h : FileHandle} {size : UInt32} {k : ℕ} (hss : 2 ≤ part.sectorSize.toNat)
    (hk : k ≤ size.toNat) : h.toNat + dataOffset part k ∈ dataBytes part h size := by
  obtain ⟨hd, hm⟩ := dataOffset_div_mod hss k
  have hdiv := Nat.div_add_mod (dataOffset part k) part.sectorSize.toNat
  have hmod := Nat.mod_lt (dataOffset part k) (show 0 < part.sectorSize.toNat by omega)
  have hle : k / (part.sectorSize.toNat - 1) ≤ size.toNat / (part.sectorSize.toNat - 1) :=
    Nat.div_le_div_right hk
  have hone := Nat.mul_le_mul_left part.sectorSize.toNat
    (show 1 ≤ dataOffset part k / part.sectorSize.toNat from hd ▸ Nat.le_add_right _ _)
  have hrun := Nat.mul_le_mul_left part.sectorSize.toNat
    (show dataOffset part k / part.sectorSize.toNat + 1 ≤ runLength part size by
      rw [runLength]; omega)
  rw [Nat.mul_comm _ (runLength part size)] at hrun
  rw [Nat.mul_add] at hrun
  refine ⟨by omega, by omega, ?_⟩
  rw [Nat.add_sub_cancel_left, hm]
  omega

section Transfer

variable {mem : Memory} {h : FileHandle} {size : UInt32} {buffer : List UInt8} {n : ℕ}

variable (hss : 2 ≤ part.sectorSize.toNat)
  (hrun : h.toNat + runLength part size * part.sectorSize.toNat ≤ 2 ^ 32)

include hss hrun

theorem toNat_add_positionOffset {k : ℕ} (hk : k ≤ size.toNat) :
    (h + positionOffset part k).toNat = h.toNat + dataOffset part k := by
  have hmem := dataOffset_mem (h := h) hss hk
  rw [UInt32.toNat_add, positionOffset_toNat hss (by have := hmem.2.1; omega),
    Nat.mod_eq_of_lt (by have := hmem.2.1; omega)]

/-- **A transfer to a file** stays in the bytes of its data. -/
theorem agreeOff_transfer (mem : Memory) (buffer : List UInt8) (hn : ∀ k < n, k ≤ size.toNat) :
    AgreeOff part.blockAddress (dataBytes part h size) mem
      (transfer part (part.blockAddress + h) buffer n mem) := by
  simp only [transfer, UInt32.add_assoc]
  refine agreeOff_writeEach fun k hk => ?_
  rw [List.mem_range] at hk
  rw [toNat_add_positionOffset hss hrun (hn k hk)]
  exact dataOffset_mem hss (hn k hk)

/-- A transfer stores the bytes of the buffer and leaves the other bytes of the data. -/
theorem view_transfer (hn : ∀ k < n, k ≤ size.toNat) {k : ℕ} (hk : k ≤ size.toNat) :
    view part.blockAddress (transfer part (part.blockAddress + h) buffer n mem)
        (h.toNat + dataOffset part k) =
      if k < n then buffer.getD k 0
      else view part.blockAddress mem (h.toNat + dataOffset part k) := by
  have hoff := fun {l} => toNat_add_positionOffset (h := h) (k := l) hss hrun
  simp only [transfer, UInt32.add_assoc]
  split
  · next hlt =>
    rw [← hoff hk, view_toNat]
    refine writeEach_apply ?_ (List.mem_range.mpr hlt)
    intro i hi j hj hij
    have hij' := congrArg UInt32.toNat ((UInt32.add_right_inj _).mp hij)
    rw [hoff (hn i (List.mem_range.mp hi)), hoff (hn j (List.mem_range.mp hj))] at hij'
    exact dataOffset_injective hss (by omega)
  · next hge =>
    have hmem := dataOffset_mem (h := h) hss hk
    refine view_writeEach_of_forall_ne (by have := hmem.2.1; omega) fun i hi he => ?_
    rw [List.mem_range] at hi
    rw [hoff (hn i hi)] at he
    have := dataOffset_injective hss (show dataOffset part k = dataOffset part i by omega)
    omega

/-- The bytes a transfer reads. -/
theorem read_eq_view {k : ℕ} (hk : k ≤ size.toNat) :
    mem (part.blockAddress + h + positionOffset part k) =
      view part.blockAddress mem (h.toNat + dataOffset part k) := by
  rw [← toNat_add_positionOffset hss hrun hk, view_toNat, UInt32.add_assoc]

end Transfer

end Data

end MicroKernel.Fs
