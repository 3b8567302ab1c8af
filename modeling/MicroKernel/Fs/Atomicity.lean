import MicroKernel.Fs.Transfer
import MicroKernel.Fs.Containment
import MicroKernel.Fs.Links

/-!
# Creation on a full device

On a full device `fsFileCreate` reports the handle 0, and its callers go on to write header fields
through it: those of the device header. The memory stays exactly when the fields are there already.

## Main definitions

* `Creation`, `Creation.run`: the operations that create a directory, an extent or an entry
* `Atomic`: the operation leaves the memory
* `Creation.Held`: what it writes to the device header is there already

## Main results

* `atomic_iff`: when a creation on a full device leaves the memory
-/

namespace MicroKernel.Fs

open Store

/-! ## Full directories -/

/-- The last block of a chain of extents without room, as `findExtent` walks it. -/
def fullChainEnd (part : Partition) (mem : Memory) : ℕ → DirectoryHandle → Option DirectoryHandle
  | 0, _ => none
  | limit + 1, extent =>
    if (fsDirectoryGetReferenceCount part extent mem + 2) * 4 ≥ part.sectorSize then
      if fsFileGetNextAddress part extent mem = 0 then some extent
      else fullChainEnd part mem limit (fsFileGetNextAddress part extent mem)
    else none

/-- The block a new extent is linked behind, if a directory needs one. -/
def lastFullBlock (part : Partition) (handle : DirectoryHandle) (mem : Memory) :
    Option DirectoryHandle :=
  if (fsDirectoryGetReferenceCount part handle mem + 1) * 4 ≥ part.sectorSize then
    if fsFileGetNextAddress part handle mem = 0 then some handle
    else fullChainEnd part mem walkLimit (fsFileGetNextAddress part handle mem)
  else none

/-! ## Creations -/

inductive Creation where
  | directory (filename : List UInt8)
  | directoryExtent (parentPtr nextPtr : UInt32)
  | fileExtent (size parentPtr nextPtr : UInt32)
  | addFile (handle : DirectoryHandle) (file : UInt32) (junk : ℕ → UInt8)

/-- The memory behind a creation. -/
def Creation.run (part : Partition) (fs : FileSystem) : Creation → Except Fault Memory
  | .directory filename => do
    let (_, mem) ← fsDirectoryCreate part filename fs.memory
    return mem
  | .directoryExtent parentPtr nextPtr => do
    let (_, mem) ← fsDirectoryExtentCreate part parentPtr nextPtr fs.memory
    return mem
  | .fileExtent size parentPtr nextPtr => do
    let (_, mem) ← fsFileExtentCreate part size parentPtr nextPtr fs.memory
    return mem
  | .addFile handle file junk => do
    let (_, fs) ← fsDirectoryAddFile part handle file junk fs
    return fs.memory

/-- The creation returns, leaves every byte, and the device opens as before. -/
def Atomic (part : Partition) (fs : FileSystem) (op : Creation) : Prop :=
  ∃ mem, op.run part fs = .ok mem ∧ mem = fs.memory ∧
    fsDeviceOpen part.blockAddress mem = fsDeviceOpen part.blockAddress fs.memory

/-- An added file needs a new extent, behind a block that is a file. -/
def Creation.NeedsSpace (part : Partition) (fs : FileSystem) : Creation → Prop
  | .addFile handle _ _ => ∃ block size, lastFullBlock part handle fs.memory = some block ∧
    FileAt part fs.memory block size
  | _ => True

/-- The device header, taken for the block of a directory, has room in its buffer for an entry, and
the bytes the entry is written to hold it: those of the first four data bytes that are written and
not written over with what was read there. -/
def EntryHeld (part : Partition) (file : UInt32) (mem : Memory) : Prop :=
  let size := fsFileGetSize part 0 mem
  let n := movedBytes part.blockAddress size
  n ≤ (size + part.sectorSize).toNat ∧ 4 ≤ (size + part.sectorSize).toNat ∧
    ∀ j < 4, j < n → (∀ k, j < k → k < n → positionOffset part k ≠ positionOffset part j) →
      mem (part.blockAddress + positionOffset part j) = wordByte file j

/-- The fields that a creation without a handle writes to the device header are there already; an
added file has no extents before it, and finds a closed slot. -/
def Creation.Held (part : Partition) (fs : FileSystem) : Creation → Prop
  | .directory _ => fsFileGetAttributes part 0 fs.memory = chars [' ', 'r', 'w', 'd'] ∧
    fsDirectoryGetReferenceCount part 0 fs.memory = 0
  | .directoryExtent parentPtr nextPtr | .fileExtent _ parentPtr nextPtr =>
    links part 0 fs.memory =
      { attributes := chars [' ', 'r', 'w', 'E'], count := 0, parent := parentPtr, next := nextPtr }
  | .addFile handle file _ => fsFileGetNextAddress part handle fs.memory = 0 ∧
    links part 0 fs.memory =
      { attributes := chars [' ', 'r', 'w', 'E'], count := 1, parent := handle, next := 0 } ∧
    (∃ i, fs.fileList i = 0) ∧ EntryHeld part file fs.memory

section Full

variable {part : Partition} {mem : Memory} {fs : FileSystem} {handle block file size : UInt32}

/-- A device without room for 30 bytes has none for any size. -/
theorem fsAllocate_full (hp : part.Formatted) (hdev : sectorMarker part mem 0 ≠ sectorFree)
    (hfull : fsAllocate part 30 mem = .ok (0, mem)) (size : UInt32) :
    fsAllocate part size mem = .ok (0, mem) := by
  have hss := hp.le_sectorSize
  have hone : ∀ size, (size / (part.sectorSize - 1) + 1).toNat + 1 = runLength part size :=
    fun size => div_add_toNat hp size (k := 1) (by decide)
  have hthirty : (30 / (part.sectorSize - 1) + 1 : UInt32).toNat = 1 := by
    have h := hone 30
    have hdiv : (30 : UInt32).toNat / (part.sectorSize.toNat - 1) = 0 :=
      Nat.div_eq_of_lt (by show 30 < _; omega)
    rw [runLength, hdiv] at h
    omega
  -- the failure is the scan's own answer, since a handle it finds is returned
  have hscan : scan part mem (30 / (part.sectorSize - 1) + 1) part.blockSize.toNat
      (UInt32.ofNat 0) 0 = 0 := by
    by_contra hne
    have heq := (fsAllocate_eq hp rfl rfl).symm.trans hfull
    rw [if_neg hne, Except.ok.injEq, Prod.mk.injEq] at heq
    exact hne heq.1
  rcases scan_spec part mem (30 / (part.sectorSize - 1) + 1) part.blockSize.toNat 0 0 with
    ⟨j, -, -, hfit, -, heq⟩ | ⟨hnone, heq⟩
  · -- a run found at sector 0 would make the device header free
    have hmarker := hfit.marker_eq
    rw [marker, ← heq, hscan] at hmarker
    rw [sectorMarker, Nat.zero_mul] at hdev
    exact absurd hmarker hdev
  · -- no run of two sectors was found, and a longer one starts with such
    rw [hscan] at heq
    refine fsAllocate_of_not_fits hp (fun i hi hfit => ?_) fun hne hlast => ?_
    · refine hnone i (Nat.zero_le _) (by omega) fun a ha => hfit a ?_
      have hlen : 2 ≤ runLength part size := Nat.le_add_left _ _
      have := hone size
      omega
    · -- the last stride would have left its flag
      have hbs : part.blockSize.toNat ≠ 0 := fun h => hne (UInt32.toNat_inj.mp h)
      have hsub : UInt32.ofNat (0 + part.blockSize.toNat - 1) = part.blockSize - 1 := by
        apply UInt32.toNat_inj.mp
        have := part.blockSize.toNat_lt
        rw [UInt32.toNat_ofNat', UInt32.toNat_sub]
        show _ = (2 ^ 32 - 1 + part.blockSize.toNat) % 2 ^ 32
        omega
      rw [if_neg hbs, hsub, if_pos hlast] at heq
      exact absurd heq (by decide)

/-- The walk over full extents ends at one without a next. -/
theorem fullChainEnd_spec {limit : ℕ} {extent : DirectoryHandle} (hne : extent ≠ 0)
    (h : fullChainEnd part mem limit extent = some block) :
    block ≠ 0 ∧ fsFileGetNextAddress part block mem = 0 := by
  induction limit generalizing extent with
  | zero => cases h
  | succ limit ih =>
    rw [fullChainEnd] at h
    split at h
    · split at h
      · next hnext =>
        cases h
        exact ⟨hne, hnext⟩
      · next hnext => exact ih hnext h
    · cases h

/-- On a full device the walk of `fsDirectoryAddFile` over full extents writes the link fields of a
new extent to the device header. -/
theorem findExtent_full (hfail : fsAllocate part 30 mem = .ok (0, mem)) {limit : ℕ}
    {extent : DirectoryHandle} (hne : extent ≠ 0)
    (h : fullChainEnd part mem limit extent = some block) :
    findExtent part limit extent mem =
      .ok (block, fsFileSetNextAddress part block 0 (extentHeader part 0 block 0 mem)) := by
  induction limit generalizing extent with
  | zero => cases h
  | succ limit ih =>
    rw [fullChainEnd] at h
    split at h
    · next hfull =>
      rw [findExtent, if_neg hne, if_pos hfull]
      split at h
      · next hnext =>
        cases h
        rw [if_pos hnext, fsDirectoryExtentCreate_eq (fsFileCreate_eq_zero hfail)]
        rfl
      · next hnext =>
        rw [if_neg hnext]
        exact ih hnext h
    · cases h

/-- **The target of an added file** on a full device, when it needs a new extent: the device header
if the directory has no extents, and else the last of them. -/
theorem targetBlock_full (hp : part.Formatted) (hfail : fsAllocate part 30 mem = .ok (0, mem))
    (hlast : lastFullBlock part handle mem = some block) (hb : FileAt part mem block size) :
    targetBlock part handle mem =
      .ok (if fsFileGetNextAddress part handle mem = 0 then 0 else block,
        extentHeader part 0 block 0 mem) := by
  have hhead := hb.header_le hp
  -- linking the extent of handle 0 behind the last block writes the zero that is there
  have hself : fsFileGetNextAddress part block mem = 0 →
      fsFileSetNextAddress part block 0 (extentHeader part 0 block 0 mem) =
        extentHeader part 0 block 0 mem := by
    intro hnext
    refine fsFileSetNextAddress_self hhead (Eq.trans ?_ hnext)
    have hle := hb.le
    have hss := hp.le_sectorSize
    refine congrArg Links.next (links_of_agreeOff hhead
      (agreeOff_extentHeader (by decide) part block 0 mem) (Set.disjoint_left.mpr fun o ho ho' => ?_))
    have h₁ := (linkFields_subset_headerFields ho).1
    have h₂ : o < 0 + 32 := (linkFields_subset_headerFields ho').2.1
    omega
  rw [lastFullBlock] at hlast
  rw [targetBlock]
  split at hlast
  · next hfull =>
    rw [if_pos hfull]
    split at hlast
    · next hnext =>
      cases hlast
      rw [if_pos hnext, if_pos hnext, hnext,
        fsDirectoryExtentCreate_eq (fsFileCreate_eq_zero hfail)]
      exact congrArg (fun m => Except.ok (0, m)) (hself hnext)
    · next hnext =>
      rw [if_neg hnext, if_neg hnext, findExtent_full hfail hnext hlast,
        hself (fullChainEnd_spec hnext hlast).2]
  · cases hlast

/-- Byte `j` of the first four of the data of the device header. -/
theorem positionOffset_first (hp : part.Formatted) (hss : part.sectorSize.toNat + 5 ≤ 2 ^ 32) {j : ℕ}
    (hj : j < 4) : (positionOffset part j).toNat = part.sectorSize.toNat + 1 + j := by
  have hle := hp.le_sectorSize
  have hoff : dataOffset part j = part.sectorSize.toNat + 1 + j := by
    rw [dataOffset, Nat.div_eq_of_lt (by omega), Nat.mod_eq_of_lt (by omega)]
    omega
  rw [positionOffset_toNat (by omega) (by omega), hoff]

/-- Writing the data of the device header back with an entry in it changes the bytes of the entry
only. -/
theorem agreeOff_transfer_entry (hp : part.Formatted) (hss : part.sectorSize.toNat + 5 ≤ 2 ^ 32)
    {n : ℕ} {buffer : List UInt8} (hb : ∀ k < n, buffer.getD k 0 =
      if k < 4 then wordByte file k else mem (part.blockAddress + positionOffset part k)) :
    AgreeOff part.blockAddress {o | part.sectorSize.toNat < o ∧ o < part.sectorSize.toNat + 5} mem
      (transfer part part.blockAddress buffer n mem) := by
  intro o ho hout
  refine writeEach_of_forall_eq fun k hk heq => ?_
  rw [hb k (List.mem_range.mp hk), if_neg, heq]
  intro h4
  have hoff := (add_ofNat_inj ho).mp heq.symm
  rw [positionOffset_first hp hss h4] at hoff
  exact hout ⟨by omega, by omega⟩

/-- Writing the data back leaves the memory exactly when the bytes of the entry are there, but for
those that are written over with what was read. -/
theorem transfer_entry_eq_self {n : ℕ} {buffer : List UInt8} (hb : ∀ k < n, buffer.getD k 0 =
      if k < 4 then wordByte file k else mem (part.blockAddress + positionOffset part k)) :
    transfer part part.blockAddress buffer n mem = mem ↔
      ∀ j < 4, j < n → (∀ k, j < k → k < n → positionOffset part k ≠ positionOffset part j) →
        mem (part.blockAddress + positionOffset part j) = wordByte file j := by
  rw [transfer, writeEach_range_eq_self]
  simp only [ne_eq, UInt32.add_right_inj]
  constructor
  · intro h j h4 hj hlast
    rw [h j hj hlast, hb j hj, if_pos h4]
  · intro h j hj hlast
    rw [hb j hj]
    split
    · next h4 => exact h j h4 hj hlast
    · rfl

/-- The link fields of the device header lie in its first 32 bytes. -/
theorem mem_linkFields_zero {o : ℕ} (h : o ∈ linkFields 0) : 15 ≤ o ∧ o < 32 := by
  have hatt : fileOffsetAttributes.toNat = 15 := rfl
  have href : fileOffsetRefCount.toNat = 19 := rfl
  have hpar : fileOffsetParent.toNat = 24 := rfl
  have hnxt : fileOffsetNext.toNat = 28 := rfl
  have hzero : (0 : UInt32).toNat = 0 := rfl
  rcases h with ⟨h₁, h₂⟩ | ⟨h₁, h₂⟩ | ⟨h₁, h₂⟩ | ⟨h₁, h₂⟩ <;> omega

/-- Link fields set and the data written back leave the memory exactly when both do: the entry is in
the first four data bytes, behind the link fields. -/
theorem transfer_entry_eq_iff (hp : part.Formatted) (hss : part.sectorSize.toNat + 5 ≤ 2 ^ 32)
    (ha : AgreeOff part.blockAddress (linkFields 0) fs.memory mem) {n : ℕ} {buffer : List UInt8}
    (hb : ∀ k < n, buffer.getD k 0 =
      if k < 4 then wordByte file k else mem (part.blockAddress + positionOffset part k)) :
    transfer part part.blockAddress buffer n mem = fs.memory ↔ mem = fs.memory ∧
      ∀ j < 4, j < n → (∀ k, j < k → k < n → positionOffset part k ≠ positionOffset part j) →
        fs.memory (part.blockAddress + positionOffset part j) = wordByte file j := by
  have hle := hp.le_sectorSize
  have hdisj : Disjoint (linkFields 0)
      {o | part.sectorSize.toNat < o ∧ o < part.sectorSize.toNat + 5} :=
    Set.disjoint_left.mpr fun o ho hmem => by
      have := (mem_linkFields_zero ho).2
      have := hmem.1
      omega
  have hsector : ∀ j < 4, mem (part.blockAddress + positionOffset part j) =
      fs.memory (part.blockAddress + positionOffset part j) := by
    intro j hj
    have hoff := positionOffset_first hp hss hj
    rw [← view_toNat (m := mem), ← view_toNat (m := fs.memory)]
    refine ha _ (positionOffset part j).toNat_lt fun ho => ?_
    have := (mem_linkFields_zero ho).2
    omega
  rw [ha.eq_iff_of_disjoint (agreeOff_transfer_entry hp hss hb) hdisj, transfer_entry_eq_self hb]
  refine and_congr_right fun _ => forall₂_congr fun j hj => ?_
  rw [hsector j hj]

/-- **An entry appended to the device header** leaves the memory if and only if everything written
is there already. -/
theorem appendEntry_device (hp : part.Formatted)
    (hdev : sectorMarker part fs.memory 0 ≠ sectorFree)
    (hss : part.sectorSize.toNat + 5 ≤ 2 ^ 32) (junk : ℕ → UInt8) :
    (∃ fs', appendEntry part 0 file junk
        { fs with memory := extentHeader part 0 block 0 fs.memory } = .ok fs' ∧
          fs'.memory = fs.memory) ↔
      links part 0 fs.memory =
          { attributes := chars [' ', 'r', 'w', 'E'], count := 1, parent := block, next := 0 } ∧
        (∃ i, fs.fileList i = 0) ∧ EntryHeld part file fs.memory := by
  have h0 : (0 : UInt32).toNat + 32 ≤ 2 ^ 32 := by decide
  have hcount : fsDirectoryGetReferenceCount part 0 (extentHeader part 0 block 0 fs.memory) = 0 :=
    congrArg Links.count (links_extentHeader h0 block 0 fs.memory)
  -- the memory before the data is written back
  obtain ⟨mem, hmem⟩ : ∃ mem, fsDirectorySetReferenceCount part 0 (0 + 1)
    (extentHeader part 0 block 0 fs.memory) = mem := ⟨_, rfl⟩
  have ha : AgreeOff part.blockAddress (linkFields 0) fs.memory mem := by
    rw [← hmem]
    exact (agreeOff_extentHeader h0 part block 0 _).trans (agreeOff_fsDirectorySetReferenceCount h0)
  have hlinks : links part 0 mem =
      { attributes := chars [' ', 'r', 'w', 'E'], count := 1, parent := block, next := 0 } := by
    rw [← hmem, links_fsDirectorySetReferenceCount h0, links_extentHeader h0]
    rfl
  have hsize : fsFileGetSize part 0 mem = fsFileGetSize part 0 fs.memory := by
    refine getWord_of_agreeOff ha h0 (by decide) ?_
    rintro o ⟨-, h₂⟩ ho
    have := (mem_linkFields_zero ho).1
    have hoff : fileOffsetSize.toNat = 11 := rfl
    have hzero : (0 : UInt32).toNat = 0 := rfl
    omega
  have hfree : mem (part.blockAddress + 0) ≠ sectorFree := by
    have hview := ha 0 (by decide) fun ho => absurd (mem_linkFields_zero ho).1 (by decide)
    rw [sectorMarker, Nat.zero_mul, ← hview] at hdev
    exact hdev
  have hsame : mem = fs.memory ↔ links part 0 fs.memory =
      { attributes := chars [' ', 'r', 'w', 'E'], count := 1, parent := block, next := 0 } := by
    rw [eq_iff_links h0 ha, hlinks, eq_comm]
  obtain ⟨fs₁, hfs₁⟩ : ∃ fs₁, { fs with memory := extentHeader part 0 block 0 fs.memory } = fs₁ :=
    ⟨_, rfl⟩
  have hlist : fs₁.fileList = fs.fileList := by rw [← hfs₁]
  have hmem₁ : fs₁.memory = extentHeader part 0 block 0 fs.memory := by rw [← hfs₁]
  rw [hfs₁, ← hlist]
  rw [← hmem₁] at hcount hmem
  by_cases hslot : ∃ i, fs₁.fileList i = 0
  · obtain ⟨i, hi, -⟩ := freeSlot_eq_ok hslot
    rw [appendEntry_eq file junk hi (by rw [hcount]; exact hmem) rfl hfree hsize, hcount,
      UInt32.add_zero]
    simp only [EntryHeld, hslot, true_and]
    have hle32 := (fsFileGetSize part 0 fs.memory + part.sectorSize).toNat_lt
    generalize (fsFileGetSize part 0 fs.memory + part.sectorSize).toNat = length at *
    generalize movedBytes part.blockAddress (fsFileGetSize part 0 fs.memory) = n
    by_cases hn : n ≤ length
    · have hlen : (fileBytes part part.blockAddress n mem ++
          (localBuffer junk length).drop n).length = length := by
        simp [hn]
      have hzero : (0 : UInt32).toNat = 0 := rfl
      simp only [hn, if_true, true_and, map_eq_ok]
      by_cases h4 : 4 ≤ length
      · obtain ⟨buffer, hstore⟩ : ∃ buffer, storeEntry (fileBytes part part.blockAddress n mem ++
            (localBuffer junk length).drop n) 0 file = .ok buffer :=
          ⟨_, storeEntry_eq file (by omega) (by omega)⟩
        have hb : ∀ k < n, buffer.getD k 0 =
            if k < 4 then wordByte file k else mem (part.blockAddress + positionOffset part k) := by
          intro k hk
          rw [getD_storeEntry (by omega) (by omega) hstore, getD_fileBytes hk]
          exact if_congr (by omega) (by rw [hzero, Nat.mul_zero, Nat.sub_zero]) rfl
        have hiff := transfer_entry_eq_iff hp hss ha hb
        rw [hsame] at hiff
        constructor
        · rintro ⟨_, ⟨buffer', hstore', rfl⟩, hfinal⟩
          rw [hstore] at hstore'
          cases hstore'
          obtain ⟨hl, hheld⟩ := hiff.mp hfinal
          exact ⟨hl, h4, hheld⟩
        · rintro ⟨hl, -, hheld⟩
          exact ⟨_, ⟨buffer, hstore, rfl⟩, hiff.mpr ⟨hl, hheld⟩⟩
      · have hnone : ∀ buffer, storeEntry (fileBytes part part.blockAddress n mem ++
            (localBuffer junk length).drop n) 0 file ≠ .ok buffer := by
          intro buffer hstore
          have h3 : ((0 : UInt32) * 4 + 3).toNat = 3 := rfl
          have := (storeEntry_ok hstore).1
          omega
        simp [hnone, h4]
    · simp [hn]
  · rw [appendEntry_eq_error hslot]
    simp [hslot]

/-- An entry appended to a file shows in its reference count. -/
theorem not_appendEntry_file (hp : part.Formatted) (hb : FileAt part fs.memory block size)
    (junk : ℕ → UInt8) :
    ¬ ∃ fs', appendEntry part block file junk
        { fs with memory := extentHeader part 0 block 0 fs.memory } = .ok fs' ∧
          fs'.memory = fs.memory := by
  rintro ⟨fs', heq, hmem⟩
  have hhead := hb.header_le hp
  have hle := hb.le
  have hss := hp.le_sectorSize
  have h0 : (0 : UInt32).toNat + 32 ≤ 2 ^ 32 := by decide
  have ha := agreeOff_extentHeader h0 part block 0 fs.memory
  have hb' : FileAt part { fs with memory := extentHeader part 0 block 0 fs.memory }.memory block
      size :=
    hb.of_agreeOff hp ha fun o ho hrun => by
      have := (mem_linkFields_zero ho).2
      have := hrun.1
      omega
  have hcount := count_appendEntry hp hb' heq
  have hsame : links part block (extentHeader part 0 block 0 fs.memory) =
      links part block fs.memory :=
    links_of_agreeOff hhead ha (Set.disjoint_left.mpr fun o ho ho' => by
      have := (mem_linkFields_zero ho').2
      have := (linkFields_subset_headerFields ho).1
      omega)
  have hsame' : fsDirectoryGetReferenceCount part block (extentHeader part 0 block 0 fs.memory) =
      fsDirectoryGetReferenceCount part block fs.memory := congrArg Links.count hsame
  rw [hmem, hsame'] at hcount
  simp at hcount

theorem atomic_iff_run {op : Creation} {mem : Memory} (h : op.run part fs = .ok mem) :
    Atomic part fs op ↔ mem = fs.memory := by
  constructor
  · rintro ⟨mem', heq, hmem, -⟩
    rw [h] at heq
    cases heq
    exact hmem
  · rintro rfl
    exact ⟨fs.memory, h, rfl, rfl⟩

/-- **A creation on a full device** leaves every byte if and only if what it writes to the device
header is there already. -/
theorem atomic_iff (hp : part.Formatted) (hdev : sectorMarker part fs.memory 0 ≠ sectorFree)
    (hfull : fsAllocate part 30 fs.memory = .ok (0, fs.memory)) (op : Creation)
    (hneeds : op.NeedsSpace part fs) : Atomic part fs op ↔ op.Held part fs := by
  have h0 : (0 : UInt32).toNat + 32 ≤ 2 ^ 32 := by decide
  cases op with
  | directory filename =>
    -- the allocation failed, and handle 0 of the failure is written to as if it were the directory
    have hrun : (Creation.directory filename).run part fs = .ok (fsFileSetAttributes part 0
        (chars [' ', 'r', 'w', 'd']) (fsDirectorySetReferenceCount part 0 0 fs.memory)) := by
      simp only [Creation.run, fsDirectoryCreate, fsFileCreate_eq_zero hfull]
      rfl
    rw [atomic_iff_run hrun, eq_iff_links h0 ((agreeOff_fsDirectorySetReferenceCount h0).trans
      (agreeOff_fsFileSetAttributes_links h0)), links_fsFileSetAttributes h0 rfl,
      links_fsDirectorySetReferenceCount h0, Creation.Held, links, Links.mk.injEq]
    simp only [and_true, eq_comm]
  | directoryExtent parentPtr nextPtr =>
    have hrun : (Creation.directoryExtent parentPtr nextPtr).run part fs =
        .ok (extentHeader part 0 parentPtr nextPtr fs.memory) := by
      simp only [Creation.run, fsDirectoryExtentCreate_eq (fsFileCreate_eq_zero hfull)]
      rfl
    rw [atomic_iff_run hrun, eq_iff_links h0 (agreeOff_extentHeader h0 part parentPtr nextPtr _),
      links_extentHeader h0, eq_comm]
    rfl
  | fileExtent size parentPtr nextPtr =>
    have hrun : (Creation.fileExtent size parentPtr nextPtr).run part fs =
        .ok (extentHeader part 0 parentPtr nextPtr fs.memory) := by
      simp only [Creation.run, fsFileExtentCreate,
        fsFileCreate_eq_zero (fsAllocate_full hp hdev hfull size)]
      rfl
    rw [atomic_iff_run hrun, eq_iff_links h0 (agreeOff_extentHeader h0 part parentPtr nextPtr _),
      links_extentHeader h0, eq_comm]
    rfl
  | addFile handle file junk =>
    obtain ⟨block, size, hlast, hb⟩ := hneeds
    -- what is left of the operation is one append, whose memory decides
    have hss : part.sectorSize.toNat + 5 ≤ 2 ^ 32 := by
      have := hb.size_add_le hp
      have := hb.le
      have := hb.header_le hp
      omega
    have hatomic : Atomic part fs (.addFile handle file junk) ↔
        ∃ fs', appendEntry part (if fsFileGetNextAddress part handle fs.memory = 0 then 0
          else block) file junk { fs with memory := extentHeader part 0 block 0 fs.memory } =
            .ok fs' ∧ fs'.memory = fs.memory := by
      simp only [Atomic, Creation.run, fsDirectoryAddFile, targetBlock_full hp hfull hlast hb]
      show (∃ mem, (((appendEntry ..) >>= fun fs => pure (1, fs)) >>= _) = _ ∧ _) ↔ _
      cases appendEntry part _ file junk { fs with memory := extentHeader part 0 block 0 fs.memory }
      with
      | error e =>
        constructor
        · rintro ⟨mem, h, -⟩
          cases h
        · rintro ⟨fs', h, -⟩
          cases h
      | ok fs' =>
        constructor
        · rintro ⟨mem, h, hmem, -⟩
          cases h
          exact ⟨fs', rfl, hmem⟩
        · rintro ⟨_, h, hmem⟩
          cases h
          exact ⟨fs'.memory, rfl, hmem, by rw [hmem]⟩
    rw [hatomic]
    by_cases hnext : fsFileGetNextAddress part handle fs.memory = 0
    · -- the file goes to the extent at handle 0, which is the device header
      have hblock : block = handle := by
        rw [lastFullBlock, if_pos hnext] at hlast
        split at hlast
        · exact (Option.some.inj hlast).symm
        · cases hlast
      rw [if_pos hnext, appendEntry_device hp hdev hss, hblock]
      simp only [Creation.Held, hnext, true_and]
    · -- the file goes to the last extent, whose count changes
      rw [if_neg hnext]
      refine iff_of_false (not_appendEntry_file hp hb junk) fun h => hnext h.1

end Full

/-- The memory of a device of three sectors just formatted: its root directory fills it. -/
def threeSectorsMemory : Memory :=
  match fsDeviceFormat ⟨0, 0, 0, 0⟩ 0 96 32 fun _ => 0 with
  | .ok (_, mem) => mem
  | .error _ => fun _ => 0

/-- Its file system, with every slot closed. -/
def threeSectorsFs : FileSystem where
  memory := threeSectorsMemory
  fileList := fun _ => 0
  fileSize := fun _ => 0

theorem formatted_threeSectors : threeSectors.Formatted := ⟨by decide, rfl⟩

/-- Where the scan of the device finds nothing, no sector is allocated. -/
theorem fsAllocate_threeSectors {mem : Memory}
    (hscan : scan threeSectors mem (30 / (threeSectors.sectorSize - 1) + 1)
      threeSectors.blockSize.toNat (UInt32.ofNat 0) 0 = 0) :
    fsAllocate threeSectors 30 mem = .ok (0, mem) := by
  rw [fsAllocate_eq formatted_threeSectors rfl hscan, if_pos rfl]

/-- That file system behind an extent that was refused: the link fields are in the device header. -/
def refusedFs : FileSystem :=
  { threeSectorsFs with memory := extentHeader threeSectors 0 32 0 threeSectorsMemory }

/-- `atomic_iff` for an extent that is refused again. -/
theorem atomic_refused : Atomic threeSectors refusedFs (.directoryExtent 32 0) := by
  have hfull := fsAllocate_threeSectors (by decide +kernel :
    scan threeSectors refusedFs.memory (30 / (threeSectors.sectorSize - 1) + 1) _ _ 0 = 0)
  have hheld : links threeSectors 0 refusedFs.memory =
      { attributes := chars [' ', 'r', 'w', 'E'], count := 0, parent := 32, next := 0 } := by
    decide +kernel
  exact (atomic_iff formatted_threeSectors (by decide +kernel) hfull (.directoryExtent 32 0)
    trivial).mpr hheld

/-- Not every creation on a full device leaves its bytes: behind a directory that finds no room, the
device does not open. -/
theorem not_atomic : ¬ ∀ (mem : Memory) (fs : FileSystem) (op : Creation),
    fsDeviceFormat ⟨0, 0, 0, 0⟩ 0 96 32 mem = .ok (threeSectors, fs.memory) →
      fsAllocate threeSectors 30 fs.memory = .ok (0, fs.memory) →
        op.NeedsSpace threeSectors fs → Atomic threeSectors fs op := by
  intro h
  have hformat : fsDeviceFormat ⟨0, 0, 0, 0⟩ 0 96 32 (fun _ => 0) =
      .ok (threeSectors, threeSectorsMemory) := by
    have hpart : (fsDeviceFormat ⟨0, 0, 0, 0⟩ 0 96 32 fun _ => 0).map Prod.fst =
        .ok threeSectors := by decide +kernel
    obtain ⟨⟨part, mem⟩, heq, rfl⟩ := map_eq_ok.mp hpart
    rw [heq, threeSectorsMemory, heq]
  obtain ⟨mem, hrun, -, hopen⟩ := h _ threeSectorsFs (.directory (chars ['a'])) hformat
    (fsAllocate_threeSectors (by decide +kernel)) trivial
  have hdevice : ((Creation.directory (chars ['a'])).run threeSectors threeSectorsFs).map
      (fsDeviceOpen 0) = .ok ⟨0, 0, 0, 0⟩ := by decide +kernel
  have hbefore : fsDeviceOpen 0 threeSectorsMemory = threeSectors := by decide +kernel
  rw [hrun] at hdevice
  have hafter : fsDeviceOpen 0 mem = ⟨0, 0, 0, 0⟩ := Except.ok.inj hdevice
  have hopen : fsDeviceOpen 0 mem = fsDeviceOpen 0 threeSectorsMemory := hopen
  rw [hafter, hbefore] at hopen
  exact absurd hopen (by decide)

end MicroKernel.Fs
