import MicroKernel.Fs.Transfer
import MicroKernel.Fs.Links
import MicroKernel.Fs.Listing

/-!
# Blocks of a directory

The blocks of a listing in the memory, on partitions with sectors of 32 bytes: a block is a file of
30 bytes, its reference count the number of its entries, and its entries are words from its first
data byte on. The loops over a buffer that a block was read into compute what the list of its files
says.

## Main definitions

* `Partition.Small`: sectors of 32 bytes, in the address space
* `Block.Stored`, `Block.Readable`: the block lies in the memory, and can be read there

## Main results

* `loadEntry_eq`, `findEntryIn_eq`, `findNameIn_eq`: entries of a buffer
* `Block.Readable.readBlock`: reading a block
* `Block.Stored.append`, `Block.Stored.remove`: appending an entry, and removing one
-/

namespace MicroKernel.Fs

open Store

/-- A partition with the sectors of the kernel, which lies in the address space. -/
structure Partition.Small (part : Partition) : Prop extends part.Formatted where
  sectorSize_eq : part.sectorSize.toNat = 32
  le_addresses : part.blockAddress.toNat + part.blockSize.toNat ≤ 2 ^ 32

/-! ## Entries of a buffer -/

section Buffer

variable {buffer : List UInt8} {files : List FileHandle} {i n : ℕ}

theorem toNat_ofNat_mul_add {a : UInt32} (hi : 4 * i + 4 ≤ 2 ^ 32) (ha : a.toNat < 4) :
    (UInt32.ofNat i * 4 + a).toNat = 4 * i + a.toNat := by
  have h4 : (4 : UInt32).toNat = 4 := rfl
  rw [UInt32.toNat_add, UInt32.toNat_mul, UInt32.toNat_ofNat', h4]
  omega

theorem loadByte_eq {index : UInt32} (h : index.toNat < buffer.length) :
    loadByte buffer index = .ok (buffer.getD index.toNat 0) := by
  rw [loadByte, dif_pos h, List.getD_eq_getElem?_getD, List.getElem?_eq_getElem h]
  rfl

/-- **An entry of a buffer**, when it lies in it. -/
theorem loadEntry_eq (hi : 4 * i + 4 ≤ buffer.length) (hlen : buffer.length ≤ 2 ^ 32) :
    loadEntry buffer (UInt32.ofNat i) = .ok (wordOf fun k => buffer.getD (4 * i + k) 0) := by
  have hindex := fun a (ha : UInt32.toNat a < 4) =>
    toNat_ofNat_mul_add (i := i) (a := a) (by omega) ha
  have hbyte : ∀ a : UInt32, a.toNat < 4 → loadByte buffer (UInt32.ofNat i * 4 + a) =
      .ok (buffer.getD (4 * i + a.toNat) 0) := by
    intro a ha
    rw [loadByte_eq (by rw [hindex a ha]; omega), hindex a ha]
  have hbyte0 := hbyte 0 (by decide)
  rw [UInt32.add_zero] at hbyte0
  rw [loadEntry, hbyte0, ok_bind, hbyte 1 (by decide), ok_bind, hbyte 2 (by decide), ok_bind,
    hbyte 3 (by decide), ok_bind]
  refine congrArg Except.ok (wordOf_congr fun k hk => ?_)
  interval_cases k <;> rfl

/-- The entries of a buffer that holds the files of a block. -/
theorem loadEntry_of_holds (h : HoldsWords (fun n => buffer.getD n 0) files)
    (hlen : 4 * files.length ≤ buffer.length) (hle : buffer.length ≤ 2 ^ 32)
    (hi : i < files.length) : loadEntry buffer (UInt32.ofNat i) = .ok files[i] := by
  rw [loadEntry_eq (by omega) hle, h.wordOf_eq hi]

theorem ofNat_succ (i : ℕ) : UInt32.ofNat i + 1 = UInt32.ofNat (i + 1) := (UInt32.ofNat_add i 1).symm

/-- **The search for an entry** finds the first that is the file. -/
theorem findEntryIn_eq (file : FileHandle) (h : HoldsWords (fun n => buffer.getD n 0) files)
    (hlen : 4 * files.length ≤ buffer.length) (hle : buffer.length ≤ 2 ^ 32) :
    findEntryIn buffer file files.length 0 =
      .ok (if file ∈ files then some (UInt32.ofNat (files.idxOf file)) else none) := by
  suffices hfrom : ∀ left i, i + left = files.length →
      findEntryIn buffer file left (UInt32.ofNat i) =
        .ok (if file ∈ files.drop i then some (UInt32.ofNat (i + (files.drop i).idxOf file))
          else none) by
    simpa using hfrom files.length 0 (Nat.zero_add _)
  intro left
  induction left with
  | zero =>
    intro i hi
    rw [List.drop_eq_nil_of_le (by omega)]
    rfl
  | succ left ih =>
    intro i hi
    have hlt : i < files.length := by omega
    rw [findEntryIn, loadEntry_of_holds h hlen hle hlt, List.drop_eq_getElem_cons hlt]
    show (if file = files[i] then _ else _) = _
    by_cases heq : file = files[i]
    · rw [if_pos heq, if_pos (by rw [heq]; exact List.mem_cons_self), ← heq, List.idxOf_cons_self,
        Nat.add_zero]
      rfl
    · rw [if_neg heq, ofNat_succ, ih (i + 1) (by omega), List.idxOf_cons_ne _ (Ne.symm heq)]
      simp only [List.mem_cons, heq, false_or, Nat.succ_eq_add_one]
      rw [show i + 1 + (files.drop (i + 1)).idxOf file = i + ((files.drop (i + 1)).idxOf file + 1)
        by omega]

/-- The file has the name. -/
def HasName (part : Partition) (mem : Memory) (sourceFilename : List UInt8) (file : FileHandle) :
    Bool :=
  sameString (fsFileGetName part file (cleanName []) mem) sourceFilename

/-- **The search for a name** finds the first file that has it. -/
theorem findNameIn_eq (part : Partition) (mem : Memory) (sourceFilename : List UInt8)
    (h : HoldsWords (fun n => buffer.getD n 0) files)
    (hlen : 4 * files.length ≤ buffer.length) (hle : buffer.length ≤ 2 ^ 32) :
    findNameIn part mem buffer sourceFilename files.length 0 =
      .ok (files.find? (HasName part mem sourceFilename)) := by
  suffices hfrom : ∀ left i, i + left = files.length →
      findNameIn part mem buffer sourceFilename left (UInt32.ofNat i) =
        .ok ((files.drop i).find? (HasName part mem sourceFilename)) by
    simpa using hfrom files.length 0 (Nat.zero_add _)
  intro left
  induction left with
  | zero =>
    intro i hi
    rw [List.drop_eq_nil_of_le (by omega)]
    rfl
  | succ left ih =>
    intro i hi
    have hlt : i < files.length := by omega
    rw [findNameIn, loadEntry_of_holds h hlen hle hlt, List.drop_eq_getElem_cons hlt,
      List.find?_cons]
    show (if HasName part mem sourceFilename files[i] then _ else _) = _
    cases HasName part mem sourceFilename files[i] with
    | true => rfl
    | false =>
      rw [ofNat_succ]
      exact ih (i + 1) (by omega)

/-- One pass of the loop that replaces an entry by the last. -/
theorem replaceByte_eq {last : ℕ} {a : UInt32} (ha : a.toNat < 4) (hi : i ≤ last)
    (hlast : 4 * last + 4 ≤ buffer.length) (hle : buffer.length ≤ 2 ^ 32) :
    ∃ buffer', (do
        let byte ← loadByte buffer (UInt32.ofNat last * 4 + a)
        let buffer ← storeByte buffer (UInt32.ofNat i * 4 + a) byte
        storeByte buffer (UInt32.ofNat last * 4 + a) ' '.toUInt8) = .ok buffer' ∧
      buffer'.length = buffer.length ∧
      ∀ k, k ≠ 4 * last + a.toNat → buffer'.getD k 0 =
        if k = 4 * i + a.toNat then buffer.getD (4 * last + a.toNat) 0 else buffer.getD k 0 := by
  have hl := toNat_ofNat_mul_add (i := last) (a := a) (by omega) ha
  have hi' := toNat_ofNat_mul_add (i := i) (a := a) (by omega) ha
  refine ⟨(buffer.set (4 * i + a.toNat) (buffer.getD (4 * last + a.toNat) 0)).set
    (4 * last + a.toNat) ' '.toUInt8, ?_, by simp, fun k hk => ?_⟩
  · rw [loadByte_eq (by omega), hl]
    show (storeByte buffer _ _ >>= _) = _
    rw [storeByte_eq _ (by omega), hi']
    show storeByte _ _ _ = _
    rw [storeByte_eq _ (by rw [List.length_set]; omega), hl]
  · simp only [List.getD_eq_getElem?_getD]
    rw [List.getElem?_set_ne (Ne.symm hk), List.getElem?_set]
    by_cases heq : k = 4 * i + a.toNat
    · rw [if_pos heq.symm, if_pos heq, if_pos (by omega), Option.getD_some]
    · rw [if_neg (Ne.symm heq), if_neg heq]

/-- **An entry replaced by the last**, in the bytes before that. -/
theorem replaceEntry_eq {last : ℕ} (hi : i ≤ last) (hlast : 4 * last + 4 ≤ buffer.length)
    (hle : buffer.length ≤ 2 ^ 32) :
    ∃ buffer', replaceEntry buffer (UInt32.ofNat i) (UInt32.ofNat last) = .ok buffer' ∧
      buffer'.length = buffer.length ∧
      ∀ k < 4 * last, buffer'.getD k 0 =
        if k / 4 = i then buffer.getD (4 * last + k % 4) 0 else buffer.getD k 0 := by
  -- the four bytes of the entry are replaced one after the other
  obtain ⟨b₀, h₀, hlen₀, hb₀⟩ := replaceByte_eq (a := 0) (by decide) hi hlast hle
  obtain ⟨b₁, h₁, hlen₁, hb₁⟩ :=
    replaceByte_eq (a := 1) (by decide) hi (hlen₀ ▸ hlast) (hlen₀ ▸ hle)
  rw [hlen₀] at hlen₁
  obtain ⟨b₂, h₂, hlen₂, hb₂⟩ :=
    replaceByte_eq (a := 2) (by decide) hi (hlen₁ ▸ hlast) (hlen₁ ▸ hle)
  rw [hlen₁] at hlen₂
  obtain ⟨b₃, h₃, hlen₃, hb₃⟩ :=
    replaceByte_eq (a := 3) (by decide) hi (hlen₂ ▸ hlast) (hlen₂ ▸ hle)
  rw [hlen₂] at hlen₃
  refine ⟨b₃, ?_, hlen₃, fun k hk => ?_⟩
  · simp only [replaceEntry, List.foldlM_cons, List.foldlM_nil]
    rw [h₀, ok_bind, h₁, ok_bind, h₂, ok_bind, h₃]
    rfl
  · have t0 : (0 : UInt32).toNat = 0 := rfl
    have t1 : (1 : UInt32).toNat = 1 := rfl
    have t2 : (2 : UInt32).toNat = 2 := rfl
    have t3 : (3 : UInt32).toNat = 3 := rfl
    rw [t0] at hb₀
    rw [t1] at hb₁
    rw [t2] at hb₂
    rw [t3] at hb₃
    rw [hb₃ k (by omega), hb₂ k (by omega), hb₁ k (by omega), hb₀ k (by omega)]
    -- byte `r` of the entry is what replacement `r` left, and the later ones leave it
    by_cases hki : k / 4 = i
    · obtain ⟨r, hr, rfl⟩ : ∃ r < 4, k = 4 * i + r := ⟨k % 4, by omega, by omega⟩
      rw [if_pos hki, show (4 * i + r) % 4 = r by omega]
      interval_cases r
      · rw [if_neg (by omega), if_neg (by omega), if_neg (by omega), if_pos rfl]
      · rw [if_neg (by omega), if_neg (by omega), if_pos rfl, hb₀ _ (by omega), if_neg (by omega)]
      · rw [if_neg (by omega), if_pos rfl, hb₁ _ (by omega), if_neg (by omega), hb₀ _ (by omega),
          if_neg (by omega)]
      · rw [if_pos rfl, hb₂ _ (by omega), if_neg (by omega), hb₁ _ (by omega), if_neg (by omega),
          hb₀ _ (by omega), if_neg (by omega)]
    · rw [if_neg hki, if_neg (by omega), if_neg (by omega), if_neg (by omega), if_neg (by omega)]

end Buffer

/-! ## Blocks in the memory -/

/-- The block lies in the memory: a file of 30 bytes, not at address 0, with the number of its
entries and the entries. -/
structure Block.Stored (part : Partition) (mem : Memory) (b : Block) : Prop where
  fileAt : FileAt part mem b.handle 30
  address_ne : part.blockAddress + b.handle ≠ 0
  length_le : b.files.length ≤ 7
  count : fsDirectoryGetReferenceCount part b.handle mem = UInt32.ofNat b.files.length
  holds : HoldsWords (fun n => view part.blockAddress mem (b.handle.toNat + 33 + n)) b.files

/-- The block can be read in the memory, whatever lies around it: it is not free, has 30 bytes, not at
address 0, and the number of its entries and the entries. -/
structure Block.Readable (part : Partition) (mem : Memory) (b : Block) : Prop where
  handle_le : b.handle.toNat + 64 ≤ 2 ^ 32
  address_ne : part.blockAddress + b.handle ≠ 0
  live : mem (part.blockAddress + b.handle) ≠ sectorFree
  size_eq : fsFileGetSize part b.handle mem = 30
  length_le : b.files.length ≤ 7
  count : fsDirectoryGetReferenceCount part b.handle mem = UInt32.ofNat b.files.length
  holds : HoldsWords (fun n => view part.blockAddress mem (b.handle.toNat + 33 + n)) b.files

/-- The bytes of the reference count and the entries of a block. -/
def entryBytes (part : Partition) (h : DirectoryHandle) : Set ℕ :=
  {o | o ∈ field h fileOffsetRefCount 4 ∨ o ∈ dataBytes part h 30}

section Stored

variable {part : Partition} {mem mem' : Memory} {b : Block} {h : DirectoryHandle} {S : Set ℕ}

theorem Partition.Small.runLength_eq (hp : part.Small) : runLength part 30 = 2 := by
  rw [runLength, hp.sectorSize_eq]
  rfl

theorem Partition.Small.mem_runBytes (hp : part.Small) {o : ℕ} :
    o ∈ runBytes part h 30 ↔ h.toNat ≤ o ∧ o < h.toNat + 64 := by
  rw [runBytes, hp.runLength_eq, hp.sectorSize_eq]
  rfl

theorem Partition.Small.dataOffset_eq (hp : part.Small) {k : ℕ} (hk : k < 31) :
    dataOffset part k = 33 + k := by
  rw [dataOffset, hp.sectorSize_eq, Nat.div_eq_of_lt hk, Nat.mod_eq_of_lt hk]

theorem entryBytes_subset (hp : part.Small) : entryBytes part h ⊆ contentBytes part h 30 := by
  rintro o (ho | ho)
  · exact headerFields_subset hp.toFormatted 30
      (field_subset_headerFields (by decide) (by decide) ho)
  · exact dataBytes_subset hp.toFormatted ho

/-- A transfer of a whole block moves all bytes but the last. -/
theorem movedBytes_block {address : UInt32} (h : address ≠ 0) : movedBytes address 30 = 29 := by
  rw [movedBytes, if_neg (not_or.mpr ⟨h, by decide⟩)]
  rfl

/-- The bytes a block is read as. -/
theorem Partition.Small.getD_fileBytes (hp : part.Small) (hh : h.toNat + 64 ≤ 2 ^ 32) (mem : Memory)
    (rest : List UInt8) {k : ℕ} (hk : k < 29) :
    (fileBytes part (part.blockAddress + h) 29 mem ++ rest).getD k 0 =
      view part.blockAddress mem (h.toNat + 33 + k) := by
  have h30 : (30 : UInt32).toNat = 30 := rfl
  have hread : mem (part.blockAddress + h + positionOffset part k) =
      view part.blockAddress mem (h.toNat + dataOffset part k) := by
    have hrun : h.toNat + runLength part 30 * part.sectorSize.toNat ≤ 2 ^ 32 := by
      rw [hp.runLength_eq, hp.sectorSize_eq]
      exact hh
    have hk : k ≤ (30 : UInt32).toNat := by omega
    exact read_eq_view (by rw [hp.sectorSize_eq]; decide) hrun hk
  rw [hp.dataOffset_eq (by omega), ← Nat.add_assoc] at hread
  exact (Fs.getD_fileBytes hk rest).trans hread

section FileAt

variable (hp : part.Small) (hf : FileAt part mem h 30)

include hp hf

theorem FileAt.handle_le : 32 ≤ h.toNat ∧ h.toNat + 64 ≤ 2 ^ 32 := by
  have hle := hf.le
  have hrun := hf.run_le
  rw [hp.sectorSize_eq] at hle
  rw [hp.runLength_eq, hp.sectorSize_eq] at hrun
  exact ⟨hle, hrun⟩

theorem FileAt.handle_ne : h ≠ 0 := by
  rintro rfl
  exact absurd (hf.handle_le hp).1 (by decide)

/-- The bytes a block is read as. -/
theorem FileAt.getD_fileBytes (rest : List UInt8) {k : ℕ} (hk : k < 29) :
    (fileBytes part (part.blockAddress + h) 29 mem ++ rest).getD k 0 =
      view part.blockAddress mem (h.toNat + 33 + k) :=
  hp.getD_fileBytes (hf.handle_le hp).2 mem rest hk

/-- **Writing a block back** stores the buffer in its data. -/
theorem FileAt.view_transfer (buffer : List UInt8) {k : ℕ} (hk : k < 29) :
    view part.blockAddress (transfer part (part.blockAddress + h) buffer 29 mem)
      (h.toNat + 33 + k) = buffer.getD k 0 := by
  have h30 : (30 : UInt32).toNat = 30 := rfl
  have hwrite : view part.blockAddress (transfer part (part.blockAddress + h) buffer 29 mem)
        (h.toNat + dataOffset part k) =
      if k < 29 then buffer.getD k 0
      else view part.blockAddress mem (h.toNat + dataOffset part k) :=
    Fs.view_transfer (by rw [hp.sectorSize_eq]; decide) hf.run_le (fun l hl => by omega)
      (by omega)
  rwa [hp.dataOffset_eq (by omega), if_pos hk, ← Nat.add_assoc] at hwrite

theorem FileAt.agreeOff_transfer (buffer : List UInt8) :
    AgreeOff part.blockAddress (dataBytes part h 30) mem
      (transfer part (part.blockAddress + h) buffer 29 mem) := by
  have h30 : (30 : UInt32).toNat = 30 := rfl
  exact Fs.agreeOff_transfer (by rw [hp.sectorSize_eq]; decide) hf.run_le mem buffer
    fun k hk => by omega

/-- The words of a header are not among its data. -/
theorem FileAt.getWord_of_agreeOff (ha : AgreeOff part.blockAddress (dataBytes part h 30) mem mem')
    {offset : UInt32} (ho : offset.toNat ≤ 28) :
    getWord part h offset mem' = getWord part h offset mem := by
  have hle := hf.handle_le hp
  refine Fs.getWord_of_agreeOff ha (by omega) ho ?_
  rintro o ⟨h₁, h₂⟩ ⟨h₃, -⟩
  rw [hp.sectorSize_eq] at h₃
  omega

/-- The entries of a block stay when its count is set. -/
theorem FileAt.view_setReferenceCount (count : UInt32) {n : ℕ} (hn : n < 31) :
    view part.blockAddress (fsDirectorySetReferenceCount part h count mem) (h.toNat + 33 + n) =
      view part.blockAddress mem (h.toNat + 33 + n) := by
  have hle := hf.handle_le hp
  have hoff : fileOffsetRefCount.toNat = 19 := rfl
  refine agreeOff_setWord (by omega) (by decide) _ (by omega) ?_
  rintro ⟨h₁, h₂⟩
  omega

theorem FileAt.agreeOff_setReferenceCount (count : UInt32) :
    AgreeOff part.blockAddress (entryBytes part h) mem
      (fsDirectorySetReferenceCount part h count mem) := by
  have hle := hf.handle_le hp
  exact AgreeOff.mono (agreeOff_setWord (by omega) (by decide)) fun _ ho => Or.inl ho

theorem FileAt.of_entryBytes (ha : AgreeOff part.blockAddress (entryBytes part h) mem mem') :
    FileAt part mem' h 30 :=
  hf.of_agreeOff hp.toFormatted ha fun _ ho _ => entryBytes_subset hp ho

end FileAt

/-- **A block stays** when bytes of other runs change. -/
theorem Block.Stored.of_agreeOff (hp : part.Small) (hb : b.Stored part mem)
    (ha : AgreeOff part.blockAddress S mem mem') (hS : Disjoint (runBytes part b.handle 30) S) :
    b.Stored part mem' := by
  have hle := hb.fileAt.handle_le hp
  have hnot : ∀ o, b.handle.toNat ≤ o → o < b.handle.toNat + 64 → o ∉ S := fun o h₁ h₂ =>
    Set.disjoint_left.mp hS (hp.mem_runBytes.mpr ⟨h₁, h₂⟩)
  have hcount : fileOffsetRefCount.toNat = 19 := rfl
  have hlen := hb.length_le
  refine ⟨hb.fileAt.of_agreeOff hp.toFormatted ha fun o hoS hor =>
    absurd hoS (Set.disjoint_left.mp hS hor), hb.address_ne, hb.length_le, ?_, ?_⟩
  · rw [← hb.count]
    refine getWord_of_agreeOff ha (by omega) (by decide) ?_
    rintro o ⟨h₁, h₂⟩
    exact hnot o (by omega) (by omega)
  · exact hb.holds.congr fun n hn => ha _ (by omega) (hnot _ (by omega) (by omega))

/-- A block whose count and entries are rewritten. -/
theorem Block.Stored.rewrite (hp : part.Small) (hb : b.Stored part mem) {files : List FileHandle}
    (hlen : files.length ≤ 7)
    (ha : AgreeOff part.blockAddress (entryBytes part b.handle) mem mem')
    (hcount : fsDirectoryGetReferenceCount part b.handle mem' = UInt32.ofNat files.length)
    (hholds : HoldsWords (fun n => view part.blockAddress mem' (b.handle.toNat + 33 + n)) files) :
    Block.Stored part mem' ⟨b.handle, files⟩ :=
  ⟨hb.fileAt.of_entryBytes hp ha, hb.address_ne, hlen, hcount, hholds⟩

theorem Block.Stored.readable (hp : part.Small) (hb : b.Stored part mem) : b.Readable part mem := by
  refine ⟨(hb.fileAt.handle_le hp).2, hb.address_ne, ?_, hb.fileAt.marked.size_eq, hb.length_le,
    hb.count, hb.holds⟩
  have hheader := hb.fileAt.marked.header
  rw [view_toNat] at hheader
  rw [hheader]
  decide

/-- A buffer that a block was read into holds its entries. -/
theorem Block.Readable.holds_fileBytes (hp : part.Small) (hb : b.Readable part mem)
    (rest : List UInt8) :
    HoldsWords (fun n => (fileBytes part (part.blockAddress + b.handle) 29 mem ++ rest).getD n 0)
      b.files := by
  have hlen := hb.length_le
  exact hb.holds.congr fun n hn => hp.getD_fileBytes hb.handle_le mem rest (by omega)

end Stored

/-! ## Operations on a block -/

section Operations

variable {part : Partition} {fs : FileSystem} {b : Block} {i : Fin maxOpenFiles}

theorem FileSystem.fileList_setSlot_zero (h : fs.fileList i = 0) (size : UInt32) :
    (fs.setSlot i 0 size).fileList = fs.fileList := by
  rw [FileSystem.setSlot_fileList, ← h, Function.update_eq_self]

/-- Closing the slot a block was opened at. -/
theorem fsFileClose_setSlot (fs : FileSystem) (i : Fin maxOpenFiles) {address : UInt32}
    (h : address ≠ 0) (size : UInt32) :
    fsFileClose (i : ℤ) (fs.setSlot i address size) = .ok (1, fs.setSlot i 0 0) := by
  have hlist : (fs.setSlot i address size).fileList i = address := Function.update_self ..
  rw [fsFileClose, slotOf_natCast, ok_bind]
  show (if (fs.setSlot i address size).fileList i = 0 then _ else _) = _
  rw [hlist, if_neg h, FileSystem.setSlot_setSlot]
  rfl

/-- Opening a block takes a closed slot. -/
theorem Block.Readable.fsFileOpen (hb : b.Readable part fs.memory)
    (hslot : ∃ i, fs.fileList i = 0) :
    ∃ i : Fin maxOpenFiles, freeSlot fs = .ok i ∧ fs.fileList i = 0 ∧
      Fs.fsFileOpen part b.handle fs =
        .ok ((i : ℤ), fs.setSlot i (part.blockAddress + b.handle) 30) := by
  obtain ⟨i, hi, h0, heq⟩ := fsFileOpen_eq_ok hslot hb.live
  rw [hb.size_eq] at heq
  exact ⟨i, hi, h0, heq⟩

/-- **Reading a file of 30 bytes** into a buffer of 64 bytes. -/
theorem readBlock_eq {h : DirectoryHandle} (hne : part.blockAddress + h ≠ 0)
    (hlive : fs.memory (part.blockAddress + h) ≠ sectorFree)
    (hsize : fsFileGetSize part h fs.memory = 30) (hslot : ∃ i, fs.fileList i = 0)
    {buffer : List UInt8} (hlen : buffer.length = 64) :
    ∃ i : Fin maxOpenFiles, fs.fileList i = 0 ∧ readBlock part h buffer fs =
      .ok ((i : ℤ), fileBytes part (part.blockAddress + h) 29 fs.memory ++ buffer.drop 29,
        fs.setSlot i (part.blockAddress + h) 30) := by
  obtain ⟨i, -, h0, heq⟩ := fsFileOpen_eq_ok hslot hlive
  rw [hsize] at heq
  obtain ⟨r, hread⟩ := fsFileRead_natCast part
    (show (fs.setSlot i (part.blockAddress + h) 30).fileList i = _ from Function.update_self ..)
    (show (fs.setSlot i (part.blockAddress + h) 30).fileSize i = 30 from Function.update_self ..)
    (show movedBytes (part.blockAddress + h) 30 ≤ buffer.length by
      rw [movedBytes_block hne, hlen]; decide)
  rw [movedBytes_block hne] at hread
  refine ⟨i, h0, ?_⟩
  rw [readBlock, heq, ok_bind]
  simp only [FileSystem.setSlot_memory, hsize, hread, ok_bind]
  rfl

theorem Block.Readable.readBlock (hb : b.Readable part fs.memory) (hslot : ∃ i, fs.fileList i = 0)
    {buffer : List UInt8} (hlen : buffer.length = 64) :
    ∃ i : Fin maxOpenFiles, fs.fileList i = 0 ∧ Fs.readBlock part b.handle buffer fs =
      .ok ((i : ℤ), fileBytes part (part.blockAddress + b.handle) 29 fs.memory ++ buffer.drop 29,
        fs.setSlot i (part.blockAddress + b.handle) 30) :=
  readBlock_eq hb.address_ne hb.live hb.size_eq hslot hlen

/-- **An appended entry** raises the count of a block, and stores as many bytes of the entry as a
transfer of the block moves: of an eighth, only the first. -/
theorem Block.Stored.appendEntry (hp : part.Small) (hb : b.Stored part fs.memory)
    (hslot : ∃ i, fs.fileList i = 0) (file : FileHandle) (junk : ℕ → UInt8) :
    ∃ fs', Fs.appendEntry part b.handle file junk fs = .ok fs' ∧ fs'.fileList = fs.fileList ∧
      AgreeOff part.blockAddress (entryBytes part b.handle) fs.memory fs'.memory ∧
      fsDirectoryGetReferenceCount part b.handle fs'.memory = UInt32.ofNat (b.files.length + 1) ∧
      ∀ k < 29, view part.blockAddress fs'.memory (b.handle.toNat + 33 + k) =
        if 4 * b.files.length ≤ k ∧ k < 4 * b.files.length + 4 then
          wordByte file (k - 4 * b.files.length)
        else view part.blockAddress fs.memory (b.handle.toNat + 33 + k) := by
  have hlen := hb.length_le
  obtain ⟨i, hi, h0, -⟩ := (hb.readable hp).fsFileOpen hslot
  obtain ⟨mem, hmem⟩ : ∃ mem, fsDirectorySetReferenceCount part b.handle
    (fsDirectoryGetReferenceCount part b.handle fs.memory + 1) fs.memory = mem := ⟨_, rfl⟩
  have hset : AgreeOff part.blockAddress (entryBytes part b.handle) fs.memory mem := by
    rw [← hmem]
    exact hb.fileAt.agreeOff_setReferenceCount hp _
  have hcount : fsDirectoryGetReferenceCount part b.handle mem =
      UInt32.ofNat (b.files.length + 1) := by
    have hle := hb.fileAt.handle_le hp
    rw [← hmem, ← ofNat_succ, ← hb.count]
    exact getWord_setWord (by omega) (by decide)
  have hfile := hb.fileAt.of_entryBytes hp hset
  have hheader := hfile.marked.header
  rw [view_toNat] at hheader
  have hmoved := movedBytes_block hb.address_ne
  have hlength : (30 + part.sectorSize).toNat = 62 := by
    rw [UInt32.toNat_add, hp.sectorSize_eq]
    rfl
  -- the buffer: what was read, with the entry behind the others
  have hsize : (fileBytes part (part.blockAddress + b.handle) 29 mem ++
      (localBuffer junk 62).drop 29).length = 62 := by simp
  have hindex : (UInt32.ofNat b.files.length).toNat = b.files.length := by
    rw [UInt32.toNat_ofNat']
    omega
  obtain ⟨buffer, hstore⟩ : ∃ buffer, storeEntry (fileBytes part (part.blockAddress + b.handle) 29
      mem ++ (localBuffer junk 62).drop 29) (UInt32.ofNat b.files.length) file = .ok buffer :=
    ⟨_, storeEntry_eq file (by omega) (by omega)⟩
  have hgetD := getD_storeEntry (by omega) (by omega) hstore
  rw [hindex] at hgetD
  have hwrite : AgreeOff part.blockAddress (entryBytes part b.handle) mem
      (transfer part (part.blockAddress + b.handle) buffer 29 mem) :=
    (hfile.agreeOff_transfer hp buffer).mono fun _ ho => Or.inr ho
  refine ⟨{ fs with memory := transfer part (part.blockAddress + b.handle) buffer 29 mem }.setSlot
    i 0 0, ?_, FileSystem.fileList_setSlot_zero h0 0,
    hset.trans hwrite, ?_, fun k hk => ?_⟩
  · rw [appendEntry_eq file junk hi hmem rfl (by rw [hheader]; decide) hfile.marked.size_eq, hmoved,
      hlength, if_pos (by decide), hb.count, hstore, if_neg hb.address_ne]
    rfl
  · rw [← hcount]
    exact hfile.getWord_of_agreeOff hp (hfile.agreeOff_transfer hp buffer) (by decide)
  · rw [FileSystem.setSlot_memory, hfile.view_transfer hp buffer hk, hgetD]
    split_ifs
    · rfl
    · rw [hfile.getD_fileBytes hp _ hk, ← hmem, hb.fileAt.view_setReferenceCount hp _ (by omega)]

/-- **Appending an entry** to a block with room adds the file to it, and changes only the bytes of
its count and its entries. -/
theorem Block.Stored.append (hp : part.Small) (hb : b.Stored part fs.memory)
    (hroom : b.files.length < 7) (hslot : ∃ i, fs.fileList i = 0) (file : FileHandle)
    (junk : ℕ → UInt8) :
    ∃ fs', Fs.appendEntry part b.handle file junk fs = .ok fs' ∧ fs'.fileList = fs.fileList ∧
      (b.add file).Stored part fs'.memory ∧
      AgreeOff part.blockAddress (entryBytes part b.handle) fs.memory fs'.memory := by
  obtain ⟨fs', heq, hlist, ha, hcount, hview⟩ := hb.appendEntry hp hslot file junk
  refine ⟨fs', heq, hlist, hb.rewrite hp (by simp; omega) ha (by simpa using hcount)
    (hb.holds.concat (fun n hn => ?_) fun k hk => ?_), ha⟩
  · rw [hview n (by omega), if_neg (by omega)]
  · rw [hview _ (by omega), if_pos (by omega), Nat.add_sub_cancel_left]

theorem ofNat_sub_one {n : ℕ} (h : 0 < n) : UInt32.ofNat n - 1 = UInt32.ofNat (n - 1) := by
  obtain ⟨m, rfl⟩ := Nat.exists_eq_add_of_le' h
  rw [← ofNat_succ, UInt32.add_sub_cancel, Nat.add_sub_cancel]

/-- **Removing an entry** from a block: the buffer with the entry replaced by the last, written
back, and the count. -/
theorem Block.Stored.remove {mem : Memory} {file : FileHandle} (hp : part.Small)
    (hb : b.Stored part mem) (hfile : file ∈ b.files) (rest : List UInt8) (hrest : rest.length = 35) :
    ∃ buffer, replaceEntry (fileBytes part (part.blockAddress + b.handle) 29 mem ++ rest)
        (UInt32.ofNat (b.files.idxOf file)) (UInt32.ofNat b.files.length - 1) = .ok buffer ∧
      29 ≤ buffer.length ∧
      (b.remove file).Stored part (fsDirectorySetReferenceCount part b.handle
        (UInt32.ofNat b.files.length - 1)
          (transfer part (part.blockAddress + b.handle) buffer 29 mem)) ∧
      AgreeOff part.blockAddress (entryBytes part b.handle) mem
        (fsDirectorySetReferenceCount part b.handle (UInt32.ofNat b.files.length - 1)
          (transfer part (part.blockAddress + b.handle) buffer 29 mem)) := by
  have hlen := hb.length_le
  have hpos := List.length_pos_of_mem hfile
  have hidx := List.idxOf_lt_length_of_mem hfile
  have hsize : (fileBytes part (part.blockAddress + b.handle) 29 mem ++ rest).length = 64 := by
    simp [hrest]
  rw [ofNat_sub_one hpos]
  obtain ⟨buffer, heq, hlength, hbuffer⟩ := replaceEntry_eq
    (show b.files.idxOf file ≤ b.files.length - 1 by omega)
    (hsize.ge.trans' (show 4 * (b.files.length - 1) + 4 ≤ 64 by omega))
    (hsize.le.trans (by decide))
  have htransfer := hb.fileAt.agreeOff_transfer hp buffer
  have hfile' := hb.fileAt.of_entryBytes hp (htransfer.mono fun _ ho => Or.inr ho)
  have ha := (htransfer.mono fun _ ho => Or.inr ho).trans
    (hfile'.agreeOff_setReferenceCount hp (UInt32.ofNat (b.files.length - 1)))
  refine ⟨buffer, heq, by omega, hb.rewrite hp (by rw [List.length_swapRemove]; omega) ha ?_
    (hb.holds.swapRemove fun n hn => ?_), ha⟩
  · have hle := hb.fileAt.handle_le hp
    rw [List.length_swapRemove]
    exact getWord_setWord (by omega) (by decide)
  · rw [hfile'.view_setReferenceCount hp _ (by omega), hb.fileAt.view_transfer hp buffer (by omega),
      hbuffer n hn, hb.fileAt.getD_fileBytes hp rest (by omega),
      hb.fileAt.getD_fileBytes hp rest (by omega)]

end Operations

end MicroKernel.Fs
