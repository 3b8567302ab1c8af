import MicroKernel.Fs.Atomicity

/-!
# Reading back what was written

A request of `n` bytes through an open slot, as `fsFileWrite` and `fsFileRead` serve it. The loops
of both run to `size - 1`, and the acceptance test compares `size - 1` with the size of the file
plus 2. So an accepted request moves all bytes but the last, and requests of one and two bytes more
than the file are accepted too.

## Main definitions

* `OpenAt`: a file opened at an index
* `TransfersExactly`: a request moves what was asked, or is refused without effect
* `LastByteKept`: the requests the code serves exactly

## Main results

* `getD_read_write`: the bytes a read gets behind a write
* `transfersExactly_iff`: which requests are served exactly
-/

namespace MicroKernel.Fs

open Store

/-- A file of `size` bytes opened at an index. A slot with address 0 is a closed one. -/
structure OpenAt (part : Partition) (fs : FileSystem) (i : Fin maxOpenFiles) (h : FileHandle)
    (size : UInt32) : Prop where
  address : fs.fileList i = part.blockAddress + h
  isOpen : fs.fileList i ≠ 0
  size_eq : fs.fileSize i = size

/-- A request of `n` bytes at a file of `size` bytes moves all of them there and back when the file
has them, and is refused without effect when `n` is 0 or more than that. -/
def TransfersExactly (part : Partition) (index : File) (size n : UInt32) (buffer out : List UInt8)
    (fs : FileSystem) : Prop :=
  (1 ≤ n → n ≤ size → ∃ fs' out',
    fsFileWrite part index buffer n fs = .ok (1, fs') ∧
      fsFileRead part index out n fs' = .ok (1, out') ∧
        ∀ k < n.toNat, out'.getD k 0 = buffer.getD k 0) ∧
  (n = 0 ∨ size < n →
    (∃ fs', fsFileWrite part index buffer n fs = .ok (0, fs') ∧ fs'.memory = fs.memory) ∧
      fsFileRead part index out n fs = .ok (0, out))

/-- The requests that need no byte of the file behind the last the loops reach: none is asked for,
too many are, or the last one asked for is in the caller's buffer already. -/
def LastByteKept (size n : UInt32) (buffer out : List UInt8) : Prop :=
  n = 0 ∨ size.toNat + 2 < n.toNat ∨
    n ≤ size ∧ out.getD (n.toNat - 1) 0 = buffer.getD (n.toNat - 1) 0

section Request

variable {part : Partition} {fs : FileSystem} {i : Fin maxOpenFiles} {h : FileHandle}
  {size n : UInt32} {buffer out : List UInt8}

/-- Opening a live file opens it at the index returned, when its address is not 0. -/
theorem openAt_of_fsFileOpen {fs' : FileSystem} {live : Files} (ho : Owned part fs.memory live)
    (hl : live h = some size) (hne : part.blockAddress + h ≠ 0)
    (heq : fsFileOpen part h fs = .ok ((i : ℤ), fs')) : OpenAt part fs' i h size := by
  have hm := ho.marked h size hl
  have hheader := hm.header
  rw [view_toNat] at hheader
  have hslot : ∃ i, fs.fileList i = 0 := by
    by_contra hnone
    rw [fsFileOpen, freeSlot_eq_error hnone] at heq
    cases heq
  obtain ⟨j, -, -, hj⟩ := fsFileOpen_eq_ok hslot (by rw [hheader]; decide)
  rw [hj] at heq
  obtain ⟨hij, rfl⟩ := Prod.mk.inj (Except.ok.inj heq)
  obtain rfl : j = i := Fin.ext (Int.natCast_inj.mp hij)
  refine ⟨Function.update_self .., ?_, ?_⟩
  · rw [FileSystem.setSlot_fileList, Function.update_self]
    exact hne
  · rw [FileSystem.setSlot_fileSize, Function.update_self]
    exact hm.size_eq

/-- A request through an open slot passes the acceptance test or is refused. -/
theorem OpenAt.transferSlot_eq (hopen : OpenAt part fs i h size) (n : UInt32) :
    transferSlot (i : ℤ) n fs = .ok (if n - 1 ≥ size + 2 then none else some i) := by
  rw [transferSlot, slotOf_natCast]
  show (if fs.fileList i = 0 then _ else if n - 1 ≥ fs.fileSize i + 2 then _ else _) = _
  rw [if_neg hopen.isOpen, hopen.size_eq]
  split <;> rfl

/-- The acceptance test refuses an empty request, and one of three bytes more than the file. -/
theorem refused_iff (n : UInt32) (hsize : size.toNat + 2 < 2 ^ 32) :
    n - 1 ≥ size + 2 ↔ n = 0 ∨ size.toNat + 2 < n.toNat := by
  have hn := n.toNat_lt
  have h0 : n = 0 ↔ n.toNat = 0 := UInt32.toNat_inj.symm
  have h1 : (1 : UInt32).toNat = 1 := rfl
  have h2 : (2 : UInt32).toNat = 2 := rfl
  rw [ge_iff_le, UInt32.le_iff_toNat_le, UInt32.toNat_add, UInt32.toNat_sub, h1, h2, h0]
  omega

theorem toNat_sub_one (hn : n ≠ 0) : (n - 1).toNat = n.toNat - 1 := by
  have h0 : n.toNat ≠ 0 := fun h => hn (UInt32.toNat_inj.mp h)
  have hlt := n.toNat_lt
  have h1 : (1 : UInt32).toNat = 1 := rfl
  rw [UInt32.toNat_sub, h1]
  omega

/-- **A refused request** moves nothing. -/
theorem OpenAt.refused (hopen : OpenAt part fs i h size) (buffer out : List UInt8)
    (hn : n - 1 ≥ size + 2) :
    fsFileWrite part (i : ℤ) buffer n fs = .ok (0, fs) ∧
      fsFileRead part (i : ℤ) out n fs = .ok (0, out) := by
  rw [fsFileWrite, fsFileRead, hopen.transferSlot_eq, if_pos hn]
  exact ⟨rfl, rfl⟩

/-- An accepted write transfers all bytes of the buffer but the last. -/
theorem OpenAt.write (hopen : OpenAt part fs i h size) (hn : ¬ n - 1 ≥ size + 2)
    (hb : (n - 1).toNat ≤ buffer.length) :
    fsFileWrite part (i : ℤ) buffer n fs = .ok (1, { fs with
      memory := transfer part (part.blockAddress + h) buffer (n - 1).toNat fs.memory }) := by
  rw [fsFileWrite, hopen.transferSlot_eq, if_neg hn]
  show (if _ then _ else _) = _
  rw [if_pos hb, hopen.address]
  rfl

/-- An accepted read fills all bytes of the buffer but the last. -/
theorem OpenAt.read (hopen : OpenAt part fs i h size) (hn : ¬ n - 1 ≥ size + 2)
    (hout : (n - 1).toNat ≤ out.length) :
    fsFileRead part (i : ℤ) out n fs = .ok (1,
      fileBytes part (part.blockAddress + h) (n - 1).toNat fs.memory ++
        out.drop (n - 1).toNat) := by
  rw [fsFileRead, hopen.transferSlot_eq, if_neg hn]
  show (if _ then _ else _) = _
  rw [if_pos hout, hopen.address]
  rfl

/-- A write through a slot leaves the open table. -/
theorem OpenAt.with_memory (hopen : OpenAt part fs i h size) (mem : Memory) :
    OpenAt part { fs with memory := mem } i h size := ⟨hopen.1, hopen.2, hopen.3⟩

/-- **A read behind a write** gets the bytes the write moved, and leaves the rest of the buffer. -/
theorem getD_read_write (buffer out : List UInt8) (hp : part.Formatted)
    (hf : FileAt part fs.memory h size) (hn : ¬ n - 1 ≥ size + 2) {mem : Memory}
    (hmem : mem = transfer part (part.blockAddress + h) buffer (n - 1).toNat fs.memory) (k : ℕ) :
    (fileBytes part (part.blockAddress + h) (n - 1).toNat mem ++
        out.drop (n - 1).toNat).getD k 0 =
      if k < (n - 1).toNat then buffer.getD k 0 else out.getD k 0 := by
  have hss := hp.le_sectorSize
  have hdata := (lt_of_accepted hn).1
  split
  · next hk =>
    rw [getD_fileBytes hk]
    refine (read_eq_view (by omega) hf.run_le (hdata k hk)).trans ?_
    rw [hmem, view_transfer (by omega) hf.run_le hdata (hdata k hk), if_pos hk]
  · next hk =>
    rw [List.getD_eq_getElem?_getD, List.getElem?_append_right (by rw [length_fileBytes]; omega),
      length_fileBytes, List.getElem?_drop, List.getD_eq_getElem?_getD]
    congr 2
    omega

/-- **The requests served exactly** are those that need no byte behind the last the loops reach:
every request at a live file through its open slot, with buffers that hold the bytes of the
request. -/
theorem transfersExactly_iff (hp : part.Formatted) {live : Files} (ho : Owned part fs.memory live)
    (hl : live h = some size) (hopen : OpenAt part fs i h size) (hb : n.toNat ≤ buffer.length)
    (hout : n.toNat ≤ out.length) :
    TransfersExactly part (i : ℤ) size n buffer out fs ↔ LastByteKept size n buffer out := by
  have hf := ho.fileAt hp hl
  have hss := hp.le_sectorSize
  have hsize := hf.size_add_le hp
  have hrefused := refused_iff n (show size.toNat + 2 < 2 ^ 32 by omega)
  by_cases hn : n - 1 ≥ size + 2
  · -- the request is refused, as it should be
    have hlarge := hrefused.mp hn
    refine iff_of_true ⟨fun h₁ h₂ => ?_, fun _ => ?_⟩ ?_
    · rw [UInt32.le_iff_toNat_le] at h₁ h₂
      have hone : (1 : UInt32).toNat = 1 := rfl
      rcases hlarge with rfl | hlarge
      · exact absurd h₁ (by decide)
      · omega
    · obtain ⟨hw, hr⟩ := hopen.refused buffer out hn
      exact ⟨⟨fs, hw, rfl⟩, hr⟩
    · exact hlarge.imp_right Or.inl
  · obtain ⟨hne, hle⟩ := not_or.mp fun h => hn (hrefused.mpr h)
    have hpos : n.toNat ≠ 0 := fun h => hne (UInt32.toNat_inj.mp h)
    have hsub := toNat_sub_one hne
    have hwrite := hopen.write hn (show (n - 1).toNat ≤ buffer.length by omega)
    by_cases hns : n ≤ size
    · have hread := (hopen.with_memory (transfer part (part.blockAddress + h) buffer
        (n - 1).toNat fs.memory)).read hn (show (n - 1).toNat ≤ out.length by omega)
      have hgetD := getD_read_write buffer out hp hf hn rfl
      constructor
      · rintro ⟨hexact, -⟩
        have hone : 1 ≤ n := by
          rw [UInt32.le_iff_toNat_le]
          exact Nat.one_le_iff_ne_zero.mpr hpos
        obtain ⟨fs', out', hw, hr, hbytes⟩ := hexact hone hns
        rw [hwrite] at hw
        obtain ⟨-, rfl⟩ := Prod.mk.inj (Except.ok.inj hw)
        rw [hread] at hr
        obtain ⟨-, rfl⟩ := Prod.mk.inj (Except.ok.inj hr)
        -- the last byte of the request is left as it was
        have hlast := hbytes (n.toNat - 1) (by omega)
        rw [hgetD, if_neg (by omega)] at hlast
        exact Or.inr (Or.inr ⟨hns, hlast⟩)
      · intro hkept
        have hlast : out.getD (n.toNat - 1) 0 = buffer.getD (n.toNat - 1) 0 := by
          rcases hkept with h | h | ⟨-, h⟩
          · exact absurd h hne
          · exact absurd h hle
          · exact h
        refine ⟨fun _ _ => ⟨_, _, hwrite, hread, fun k hk => ?_⟩, fun h => ?_⟩
        · rw [hgetD]
          split
          · rfl
          · next hge =>
            obtain rfl : k = n.toNat - 1 := by omega
            exact hlast
        · rcases h with h | h
          · exact absurd h hne
          · exact absurd hns (UInt32.not_le.mpr h)
    · -- a byte or two more than the file has are accepted
      refine iff_of_false (fun hexact => ?_) fun hkept => ?_
      · obtain ⟨⟨fs', hw, -⟩, -⟩ := hexact.2 (Or.inr (UInt32.not_le.mp hns))
        rw [hwrite] at hw
        obtain ⟨hone, -⟩ := Prod.mk.inj (Except.ok.inj hw)
        exact absurd hone (by decide)
      · rcases hkept with h | h | ⟨h, -⟩
        · exact hne h
        · exact hle h
        · exact hns h

end Request

/-! ## A request of one byte -/

/-- The device of three sectors, with its root directory open at index 0. -/
def openRootFs : FileSystem := threeSectorsFs.setSlot 0 32 30

theorem owned_threeSectors :
    Owned threeSectors openRootFs.memory (formatFiles threeSectors openRootFs.memory) := by
  have hroom : Room threeSectors 30 (formatHeader threeSectors fun _ => 0) := by decide +kernel
  obtain ⟨mem, heq, ho, -⟩ := owned_format formatted_threeSectors (Or.inl hroom)
    (show formatted ⟨0, 0, 0, 0⟩ 0 96 32 = threeSectors from rfl)
  obtain rfl : mem = openRootFs.memory := by
    rw [openRootFs, FileSystem.setSlot_memory, threeSectorsFs]
    show mem = threeSectorsMemory
    rw [threeSectorsMemory, heq]
  exact ho

theorem openAt_threeSectors : OpenAt threeSectors openRootFs 0 32 30 :=
  ⟨rfl, by decide, rfl⟩

/-- `transfersExactly_iff` at the root directory of three sectors, for a request of three bytes whose
last is in the buffer that is read into, and for one of 33 bytes. -/
theorem transfersExactly_threeSectors :
    TransfersExactly threeSectors (0 : Fin maxOpenFiles) 30 3 [5, 6, 7] [0, 0, 7] openRootFs ∧
      TransfersExactly threeSectors (0 : Fin maxOpenFiles) 30 33 (List.replicate 33 1)
        (List.replicate 33 0) openRootFs :=
  ⟨(transfersExactly_iff formatted_threeSectors owned_threeSectors (by decide +kernel)
    openAt_threeSectors (by decide) (by decide)).mpr (.inr (.inr ⟨by decide, rfl⟩)),
  (transfersExactly_iff formatted_threeSectors owned_threeSectors (by decide +kernel)
    openAt_threeSectors (by decide) (by decide)).mpr (.inr (.inl (by decide)))⟩

/-- Not every request is served exactly: of a request of one byte, none is moved. -/
theorem not_transfersExactly : ¬ ∀ (part : Partition) (fs : FileSystem) (live : Files)
    (i : Fin maxOpenFiles) (h : FileHandle) (size n : UInt32) (buffer out : List UInt8),
    part.Formatted → Owned part fs.memory live → live h = some size → OpenAt part fs i h size →
      n.toNat ≤ buffer.length → n.toNat ≤ out.length →
        TransfersExactly part (i : ℤ) size n buffer out fs := by
  intro hall
  obtain ⟨hexact, -⟩ := hall threeSectors openRootFs _ 0 32 30 1 [1] [0] formatted_threeSectors
    owned_threeSectors (by decide +kernel) openAt_threeSectors (by decide) (by decide)
  obtain ⟨fs', out', hw, hr, hbytes⟩ := hexact (by decide) (by decide)
  have hout : (fsFileWrite threeSectors (0 : Fin maxOpenFiles) [1] 1 openRootFs >>= fun p =>
      fsFileRead threeSectors (0 : Fin maxOpenFiles) [0] 1 p.2).map Prod.snd = .ok [0] := by
    decide +kernel
  rw [hw] at hout
  change (fsFileRead threeSectors (0 : Fin maxOpenFiles) [0] 1 fs').map Prod.snd = .ok [0] at hout
  rw [hr] at hout
  obtain rfl : out' = [0] := Except.ok.inj hout
  exact absurd (hbytes 0 (by decide)) (by decide)

end MicroKernel.Fs
