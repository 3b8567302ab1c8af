import MicroKernel.Fs.Ownership

/-!
# Transfers of whole files

Reading and writing a whole file through a slot it was just opened on, as the directory operations
do with their blocks, and appending an entry to a block.

## Main definitions

* `movedBytes`: how many bytes such a transfer moves
* `fileBytes`: the bytes it reads
* `FileAt`: a file with its markers and its size

## Main results

* `appendEntry_eq`: appending an entry to a block
* `count_appendEntry`: an appended entry is counted
-/

namespace MicroKernel.Fs

open Store

/-- The bytes a transfer of a whole file moves, through a slot with its address and its size. -/
def movedBytes (address size : UInt32) : ℕ :=
  if address = 0 ∨ size - 1 ≥ size + 2 then 0 else (size - 1).toNat

/-- The first `n` bytes of the data of the file at an address. -/
def fileBytes (part : Partition) (address : UInt32) (n : ℕ) (mem : Memory) : List UInt8 :=
  (List.range n).map fun k => mem (address + positionOffset part k)

@[simp] theorem length_fileBytes (part : Partition) (address : UInt32) (n : ℕ) (mem : Memory) :
    (fileBytes part address n mem).length = n := by
  simp [fileBytes]

theorem getD_fileBytes {part : Partition} {address : UInt32} {n k : ℕ} {mem : Memory} (hk : k < n)
    (rest : List UInt8) : (fileBytes part address n mem ++ rest).getD k 0 =
      mem (address + positionOffset part k) := by
  simp [fileBytes, List.getElem?_append_left, hk]

@[simp] theorem length_localBuffer (junk : ℕ → UInt8) (length : ℕ) :
    (localBuffer junk length).length = length := by
  simp [localBuffer]

/-! ## Transfers through an open slot -/

section Slot

variable {part : Partition} {fs : FileSystem} {i : Fin maxOpenFiles} {address size : UInt32}
  {buffer : List UInt8}

/-- A transfer of the whole file a slot was opened on is refused, or moves its bytes. -/
theorem transferSlot_natCast (haddr : fs.fileList i = address) (hsize : fs.fileSize i = size) :
    transferSlot (i : ℤ) size fs =
      .ok (if address = 0 ∨ size - 1 ≥ size + 2 then none else some i) := by
  rw [transferSlot, slotOf_natCast]
  show (if fs.fileList i = 0 then _ else if size - 1 ≥ fs.fileSize i + 2 then _ else _) = _
  rw [haddr, hsize]
  by_cases h0 : address = 0
  · rw [if_pos h0, if_pos (Or.inl h0)]
    rfl
  · by_cases h1 : size - 1 ≥ size + 2
    · rw [if_neg h0, if_pos h1, if_pos (Or.inr h1)]
      rfl
    · rw [if_neg h0, if_neg h1, if_neg (not_or.mpr ⟨h0, h1⟩)]
      rfl

theorem fsFileRead_natCast (part : Partition) (haddr : fs.fileList i = address)
    (hsize : fs.fileSize i = size)
    (hn : movedBytes address size ≤ buffer.length) :
    ∃ b, fsFileRead part (i : ℤ) buffer size fs =
      .ok (b, fileBytes part address (movedBytes address size) fs.memory ++
        buffer.drop (movedBytes address size)) := by
  rw [fsFileRead, transferSlot_natCast haddr hsize]
  rw [movedBytes] at *
  split
  · exact ⟨0, rfl⟩
  · next hacc =>
    rw [if_neg hacc] at hn
    refine ⟨1, ?_⟩
    show (if _ then _ else _) = _
    rw [if_pos hn, haddr]
    rfl

theorem fsFileRead_natCast_error (part : Partition) (haddr : fs.fileList i = address)
    (hsize : fs.fileSize i = size)
    (hn : buffer.length < movedBytes address size) :
    fsFileRead part (i : ℤ) buffer size fs = .error .outOfBounds := by
  rw [fsFileRead, transferSlot_natCast haddr hsize]
  rw [movedBytes] at hn
  split at hn
  · exact absurd hn (Nat.not_lt_zero _)
  · next hacc =>
    rw [if_neg hacc]
    exact if_neg (Nat.not_le.mpr hn)

theorem fsFileWrite_natCast (part : Partition) (haddr : fs.fileList i = address)
    (hsize : fs.fileSize i = size)
    (hn : movedBytes address size ≤ buffer.length) :
    ∃ b, fsFileWrite part (i : ℤ) buffer size fs =
      .ok (b, { fs with
        memory := transfer part address buffer (movedBytes address size) fs.memory }) := by
  rw [fsFileWrite, transferSlot_natCast haddr hsize]
  rw [movedBytes] at *
  split
  · exact ⟨0, rfl⟩
  · next hacc =>
    rw [if_neg hacc] at hn
    refine ⟨1, ?_⟩
    show (if _ then _ else _) = _
    rw [if_pos hn, haddr]
    rfl

theorem fsFileClose_natCast (i : Fin maxOpenFiles) (fs : FileSystem) :
    ∃ b, fsFileClose (i : ℤ) fs = .ok (b, if fs.fileList i = 0 then fs else fs.setSlot i 0 0) := by
  rw [fsFileClose, slotOf_natCast]
  by_cases h0 : fs.fileList i = 0
  · exact ⟨0, by rw [if_pos h0]; exact if_pos h0⟩
  · exact ⟨1, by rw [if_neg h0]; exact if_neg h0⟩

@[simp] theorem FileSystem.setSlot_setSlot (fs : FileSystem) (i : Fin maxOpenFiles)
    (a s a' s' : UInt32) : (fs.setSlot i a s).setSlot i a' s' = fs.setSlot i a' s' := by
  simp [FileSystem.setSlot]

end Slot

/-! ## Files -/

/-- A file behind the device header, with its markers and its size. -/
structure FileAt (part : Partition) (mem : Memory) (h : FileHandle) (size : UInt32) : Prop where
  le : part.sectorSize.toNat ≤ h.toNat
  run_le : h.toNat + runLength part size * part.sectorSize.toNat ≤ 2 ^ 32
  marked : Marked part mem h size

section Files

variable {part : Partition} {mem mem' : Memory} {live : Files} {h : FileHandle} {size : UInt32}
  {S : Set ℕ}

theorem Owned.fileAt (hp : part.Formatted) (ho : Owned part mem live) (hl : live h = some size) :
    FileAt part mem h size :=
  ⟨(ho.run_le hp hl).1, ho.run_le_pow hp hl, ho.marked h size hl⟩

theorem FileAt.header_le (hp : part.Formatted) (hf : FileAt part mem h size) :
    h.toNat + 32 ≤ 2 ^ 32 :=
  (Fs.header_le hp hf.run_le).trans hf.run_le

/-- A file stays when bytes change that are neither its markers nor its size. -/
theorem FileAt.of_agreeOff (hp : part.Formatted) (hf : FileAt part mem h size)
    (ha : AgreeOff part.blockAddress S mem mem')
    (hS : ∀ o ∈ S, o ∈ runBytes part h size → o ∈ contentBytes part h size) :
    FileAt part mem' h size := by
  refine ⟨hf.le, hf.run_le, hf.marked.of_agreeOff hp hf.run_le ha (fun k hk hmem => ?_)
    fun o ho hmem => (hS o hmem (sizeField_subset hp ho)).2.2 ho⟩
  have hrun := (mem_runBytes hp hf.run_le hk).2
  refine (hS _ hmem ⟨Nat.le_add_right _ _, by omega⟩).2.1 ?_
  rw [Nat.add_sub_cancel_left, Nat.mul_mod_left]

/-- The size of a file leaves a sector of addresses. -/
theorem FileAt.size_add_le (hp : part.Formatted) (hf : FileAt part mem h size) :
    size.toNat + part.sectorSize.toNat < 2 ^ 32 := by
  have hss := hp.le_sectorSize
  have hrun := hf.run_le
  obtain ⟨m, hm⟩ : ∃ m, part.sectorSize.toNat = m + 1 := Nat.exists_eq_add_of_le' (by omega)
  rw [runLength, hm, Nat.add_sub_cancel] at hrun
  have hmod := Nat.mod_lt size.toNat (show 0 < m by omega)
  have hdiv := Nat.div_add_mod size.toNat m
  have hmul : (size.toNat / m + 2) * (m + 1) = m * (size.toNat / m) + size.toNat / m + 2 * (m + 1) := by
    ring
  generalize size.toNat / m = q at *
  omega

end Files

/-! ## Appending an entry -/

section Append

variable {part : Partition} {fs : FileSystem} {i : Fin maxOpenFiles} {h : DirectoryHandle}
  {address size file : UInt32} {buffer buffer' : List UInt8} {mem : Memory} {junk : ℕ → UInt8}

theorem storeByte_eq {index : UInt32} (byte : UInt8) (h : index.toNat < buffer.length) :
    storeByte buffer index byte = .ok (buffer.set index.toNat byte) := if_pos h

theorem storeByte_ok {index : UInt32} {byte : UInt8}
    (h : storeByte buffer index byte = .ok buffer') :
    index.toNat < buffer.length ∧ buffer'.length = buffer.length := by
  rw [storeByte] at h
  split at h
  · next hlt =>
    cases h
    exact ⟨hlt, List.length_set⟩
  · cases h

/-- An entry is stored inside the buffer, and leaves its length. -/
theorem storeEntry_ok {r : UInt32} (h : storeEntry buffer r file = .ok buffer') :
    (r * 4 + 3).toNat < buffer.length ∧ buffer'.length = buffer.length := by
  rw [storeEntry] at h
  cases h₀ : storeByte buffer (r * 4) (wordByte file 0) with
  | error e => rw [h₀] at h; cases h
  | ok b₀ =>
    rw [h₀] at h
    cases h₁ : storeByte b₀ (r * 4 + 1) (wordByte file 1) with
    | error e => simp only [bind, Except.bind, h₁] at h; cases h
    | ok b₁ =>
      cases h₂ : storeByte b₁ (r * 4 + 2) (wordByte file 2) with
      | error e => simp only [bind, Except.bind, h₁, h₂] at h; cases h
      | ok b₂ =>
        simp only [bind, Except.bind, h₁, h₂] at h
        obtain ⟨hlt, hlen⟩ := storeByte_ok h
        have hlen₂ := (storeByte_ok h₂).2
        have hlen₁ := (storeByte_ok h₁).2
        have hlen₀ := (storeByte_ok h₀).2
        omega

/-- Entry `r` of a buffer, when it lies in it. -/
theorem storeEntry_eq {r : UInt32} (w : UInt32) (hr : 4 * r.toNat + 4 ≤ buffer.length)
    (hlen : buffer.length ≤ 2 ^ 32) :
    storeEntry buffer r w = .ok ((((buffer.set (4 * r.toNat) (wordByte w 0)).set
      (4 * r.toNat + 1) (wordByte w 1)).set (4 * r.toNat + 2) (wordByte w 2)).set
        (4 * r.toNat + 3) (wordByte w 3)) := by
  have h4 : (4 : UInt32).toNat = 4 := rfl
  have h1 : (1 : UInt32).toNat = 1 := rfl
  have h2 : (2 : UInt32).toNat = 2 := rfl
  have h3 : (3 : UInt32).toNat = 3 := rfl
  have h₀ : (r * 4).toNat = 4 * r.toNat := by
    rw [UInt32.toNat_mul, h4]
    omega
  have h₁ : (r * 4 + 1).toNat = 4 * r.toNat + 1 := by
    rw [UInt32.toNat_add, h₀, h1]
    omega
  have h₂ : (r * 4 + 2).toNat = 4 * r.toNat + 2 := by
    rw [UInt32.toNat_add, h₀, h2]
    omega
  have h₃ : (r * 4 + 3).toNat = 4 * r.toNat + 3 := by
    rw [UInt32.toNat_add, h₀, h3]
    omega
  simp only [storeEntry, bind, Except.bind]
  rw [storeByte_eq _ (by omega), h₀]
  simp only
  rw [storeByte_eq _ (by rw [List.length_set]; omega), h₁]
  simp only
  rw [storeByte_eq _ (by rw [List.length_set, List.length_set]; omega), h₂]
  simp only
  rw [storeByte_eq _ (by rw [List.length_set, List.length_set, List.length_set]; omega), h₃]

/-- The bytes of a buffer after an entry is stored. -/
theorem getD_storeEntry {r : UInt32} (hr : 4 * r.toNat + 4 ≤ buffer.length)
    (hlen : buffer.length ≤ 2 ^ 32) (h : storeEntry buffer r file = .ok buffer') (k : ℕ) :
    buffer'.getD k 0 = if 4 * r.toNat ≤ k ∧ k < 4 * r.toNat + 4 then wordByte file (k - 4 * r.toNat)
      else buffer.getD k 0 := by
  rw [storeEntry_eq file hr hlen] at h
  cases h
  have hset : ∀ (l : List UInt8) (i : ℕ) (b : UInt8), i < l.length →
      (l.set i b).getD k 0 = if i = k then b else l.getD k 0 := by
    intro l i b hi
    simp only [List.getD_eq_getElem?_getD, List.getElem?_set, hi, if_true]
    split <;> rfl
  rw [hset _ _ _ (by simp only [List.length_set]; omega),
    hset _ _ _ (by simp only [List.length_set]; omega),
    hset _ _ _ (by simp only [List.length_set]; omega), hset _ _ _ (by omega)]
  by_cases hk : 4 * r.toNat ≤ k ∧ k < 4 * r.toNat + 4
  · rw [if_pos hk]
    obtain ⟨j, rfl⟩ := Nat.exists_eq_add_of_le hk.1
    have hj : j < 4 := by omega
    rw [Nat.add_sub_cancel_left]
    interval_cases j <;> simp
  · rw [if_neg hk, if_neg (by omega), if_neg (by omega), if_neg (by omega), if_neg (by omega)]

theorem map_eq_ok {E A B : Type*} {f : A → B} {x : Except E A} {b : B} :
    x.map f = .ok b ↔ ∃ a, x = .ok a ∧ f a = b := by
  cases x <;> simp [Except.map]

/-- **Appending an entry** to a block counts it, and writes the data of the block back with the
entry in it, if the buffer holds them. -/
theorem appendEntry_eq (file : UInt32) (junk : ℕ → UInt8) (hslot : freeSlot fs = .ok i)
    (hmem : fsDirectorySetReferenceCount part h
      (fsDirectoryGetReferenceCount part h fs.memory + 1) fs.memory = mem)
    (haddr : part.blockAddress + h = address) (hfree : mem address ≠ sectorFree)
    (hsize : fsFileGetSize part h mem = size) :
    appendEntry part h file junk fs =
      if movedBytes address size ≤ (size + part.sectorSize).toNat then
        (storeEntry (fileBytes part address (movedBytes address size) mem ++
            (localBuffer junk (size + part.sectorSize).toNat).drop (movedBytes address size))
          (fsDirectoryGetReferenceCount part h fs.memory) file).map fun buffer =>
            { fs with memory := transfer part address buffer (movedBytes address size) mem }.setSlot
              i 0 (if address = 0 then size else 0)
      else .error .outOfBounds := by
  have hopen : fsFileOpen part h { fs with memory := mem } =
      .ok ((i : ℤ), { fs with memory := mem }.setSlot i address size) := by
    rw [fsFileOpen, show freeSlot { fs with memory := mem } = .ok i from hslot]
    show (if mem (part.blockAddress + h) = sectorFree then _ else _) = _
    rw [haddr, if_neg hfree, hsize]
    rfl
  have hlist : ({ fs with memory := mem }.setSlot i address size).fileList i = address :=
    Function.update_self ..
  have hlen : ({ fs with memory := mem }.setSlot i address size).fileSize i = size :=
    Function.update_self ..
  split
  case isFalse hn =>
    -- the block has more data than the buffer of its size and a sector
    have hread := fsFileRead_natCast_error part hlist hlen
      (show (localBuffer junk (size + part.sectorSize).toNat).length < _ by simpa using hn)
    simp only [appendEntry, hmem, hopen, bind, Except.bind, FileSystem.setSlot_memory, hsize, hread]
  next hn =>
  obtain ⟨_, hread⟩ := fsFileRead_natCast part hlist hlen
    (show _ ≤ (localBuffer junk (size + part.sectorSize).toNat).length by simpa using hn)
  simp only [appendEntry, hmem, hopen, bind, Except.bind, FileSystem.setSlot_memory, hsize, hread]
  cases hstore : storeEntry (fileBytes part address (movedBytes address size) mem ++
      (localBuffer junk (size + part.sectorSize).toNat).drop (movedBytes address size))
    (fsDirectoryGetReferenceCount part h fs.memory) file with
  | error e => rfl
  | ok buffer =>
    have hbuffer := (storeEntry_ok hstore).2
    obtain ⟨_, hwrite⟩ := fsFileWrite_natCast part hlist hlen (show _ ≤ buffer.length by
      rw [hbuffer]
      simp)
    obtain ⟨_, hclose⟩ := fsFileClose_natCast i
      { { fs with memory := mem }.setSlot i address size with
        memory := transfer part address buffer (movedBytes address size) mem }
    simp only [hwrite, FileSystem.setSlot_memory, hclose, hlist]
    show Except.ok _ = Except.ok _
    -- a slot of address 0 counts as closed already, and keeps its size
    by_cases h0 : address = 0
    · rw [if_pos h0, if_pos h0, h0]
      rfl
    · rw [if_neg h0, if_neg h0]
      exact congrArg Except.ok (FileSystem.setSlot_setSlot
        { fs with memory := transfer part address buffer (movedBytes address size) mem } ..)

/-- Without a closed slot, nothing is appended. -/
theorem appendEntry_eq_error (hslot : ¬ ∃ i, fs.fileList i = 0) :
    appendEntry part h file junk fs = .error .outOfBounds := by
  have hopen : ∀ mem, fsFileOpen part h { fs with memory := mem } = .error .outOfBounds := by
    intro mem
    rw [fsFileOpen, show freeSlot { fs with memory := mem } = .error .outOfBounds from
      freeSlot_eq_error hslot]
    rfl
  simp only [appendEntry, hopen]
  rfl

/-- A transfer of a whole file moves bytes of its data. -/
theorem lt_of_movedBytes {k : ℕ} (hk : k < movedBytes address size) : k ≤ size.toNat := by
  rw [movedBytes] at hk
  split at hk
  · exact absurd hk (Nat.not_lt_zero k)
  · next hacc => exact (lt_of_accepted fun h => hacc (Or.inr h)).1 k hk

/-- **Appending an entry** to a file counts it. -/
theorem count_appendEntry {fs' : FileSystem} (hp : part.Formatted)
    (hf : FileAt part fs.memory h size) (heq : appendEntry part h file junk fs = .ok fs') :
    fsDirectoryGetReferenceCount part h fs'.memory =
      fsDirectoryGetReferenceCount part h fs.memory + 1 := by
  have hss := hp.le_sectorSize
  have hhead := hf.header_le hp
  by_cases hslot : ∃ i, fs.fileList i = 0
  · obtain ⟨i, hi, -⟩ := freeSlot_eq_ok hslot
    have hcount : AgreeOff part.blockAddress (field h fileOffsetRefCount 4) fs.memory
        (fsDirectorySetReferenceCount part h
          (fsDirectoryGetReferenceCount part h fs.memory + 1) fs.memory) :=
      agreeOff_setWord hhead (by decide)
    have hf' := hf.of_agreeOff hp hcount fun o ho _ =>
      headerFields_subset hp size (field_subset_headerFields (by decide) (by decide) ho)
    have hheader := hf'.marked.header
    rw [view_toNat] at hheader
    rw [appendEntry_eq file junk hi rfl rfl (by rw [hheader]; decide) hf'.marked.size_eq] at heq
    split at heq
    · obtain ⟨buffer, -, rfl⟩ := map_eq_ok.mp heq
      have ha := agreeOff_transfer (by omega) hf.run_le (fsDirectorySetReferenceCount part h
        (fsDirectoryGetReferenceCount part h fs.memory + 1) fs.memory) buffer
          fun k (hk : k < movedBytes (part.blockAddress + h) size) => lt_of_movedBytes hk
      refine (getWord_of_agreeOff ha hhead (by decide) ?_).trans (getWord_setWord hhead (by decide))
      rintro o ⟨h₁, h₂⟩ ⟨h₃, -⟩
      have : fileOffsetRefCount.toNat = 19 := rfl
      omega
    · cases heq
  · rw [appendEntry_eq_error hslot] at heq
    cases heq

end Append

end MicroKernel.Fs
