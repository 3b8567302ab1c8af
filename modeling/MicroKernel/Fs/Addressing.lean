import MicroKernel.Fs.File

/-!
# Where the bytes of a file lie

The transfer loops count bytes within a sector and pass over the marker of each sector they enter.
Pass `k` therefore goes to byte `k` of the data, whatever the size of a sector: the loops and the
closed form `dataOffset` agree modulo `2 ^ 32`.

## Main definitions

* `Accepts`: a request passes the checks of a transfer
* `Addressed`: what a transfer accesses

## Main results

* `transferSlot_eq_some_iff`, `transfer_eq_one_iff`: the transfers that are done
* `addressed`: a transfer accesses byte `k` of the data in pass `k`, never a marker, and stays in the
  data sectors of the file
-/

namespace MicroKernel.Fs

open Store

variable {part : Partition} {fs : FileSystem} {index : File} {size : UInt32} {buffer : List UInt8}
  {i : Fin maxOpenFiles} {k : ℕ}

/-- A request through a slot is accepted: the slot is open, and the size passes the check. -/
def Accepts (fs : FileSystem) (index : File) (size : UInt32) (i : Fin maxOpenFiles) : Prop :=
  index = i ∧ fs.fileList i ≠ 0 ∧ size - 1 < fs.fileSize i + 2

/-- What the transfers of a partition access: the data sectors that follow the header of a file. -/
structure Addressed (part : Partition) (fs : FileSystem) : Prop where
  /-- The open table has the address of the header, and the size recorded there. -/
  header : ∀ h index fs', fsFileOpen part h fs = .ok (index, fs') → index ≠ -1 →
    ∃ i : Fin maxOpenFiles, index = i ∧ fs'.fileList i = part.blockAddress + h ∧
      fs'.fileSize i = fsFileGetSize part h fs.memory
  /-- With a closed slot, a file is opened. -/
  opens : ∀ h, (∃ i, fs.fileList i = 0) → fs.memory (part.blockAddress + h) ≠ sectorFree →
    ∃ (i : Fin maxOpenFiles) (fs' : FileSystem), fsFileOpen part h fs = .ok ((i : ℤ), fs')
  /-- A write is done exactly when it is accepted and the buffer holds its bytes, and stores byte `k`
  of the buffer at `dataOffset part k` from the header. -/
  write : ∀ index buffer size fs', fsFileWrite part index buffer size fs = .ok (1, fs') ↔
    ∃ i, Accepts fs index size i ∧ (size - 1).toNat ≤ buffer.length ∧
      fs' = { fs with
        memory := writeEach (fun k => fs.fileList i + UInt32.ofNat (dataOffset part k))
          (fun k => buffer.getD k 0) (List.range (size - 1).toNat) fs.memory }
  /-- A read is done under the same condition, and fetches byte `k` from there. -/
  read : ∀ index buffer size buffer', fsFileRead part index buffer size fs = .ok (1, buffer') ↔
    ∃ i, Accepts fs index size i ∧ (size - 1).toNat ≤ buffer.length ∧
      buffer' = ((List.range (size - 1).toNat).map fun k =>
        fs.memory (fs.fileList i + UInt32.ofNat (dataOffset part k))) ++
          buffer.drop (size - 1).toNat
  /-- No two positions share an address. -/
  injOn : Set.InjOn (fun k => UInt32.ofNat (dataOffset part k)) {k | dataOffset part k < 2 ^ 32}
  /-- No position lies on the marker of a sector. -/
  marker : ∀ k, dataOffset part k < 2 ^ 32 →
    ¬ part.sectorSize.toNat ∣ (UInt32.ofNat (dataOffset part k)).toNat
  /-- What is accepted stays in the data sectors behind the header. -/
  sectors : ∀ index size i, Accepts fs index size i →
    ∀ k < (size - 1).toNat, dataOffset part k < 2 ^ 32 →
      (UInt32.ofNat (dataOffset part k)).toNat ∈ Set.Ico part.sectorSize.toNat
        ((1 + ((fs.fileSize i).toNat / (part.sectorSize.toNat - 1) + 1)) * part.sectorSize.toNat)

/-- A transfer goes through the slot of an accepted request. -/
theorem transferSlot_eq_some_iff :
    transferSlot index size fs = .ok (some i) ↔ Accepts fs index size i := by
  constructor
  · intro h
    by_cases h16 : index = 16
    · -- index 16 is outside of the table
      subst h16
      cases h
    · rcases transferSlot_eq_ok fs size h16 with hs | ⟨j, hs, hj, h₀, h₁⟩
      · cases hs.symm.trans h
      · cases hs.symm.trans h
        exact ⟨hj, h₀, UInt32.not_le.mp h₁⟩
  · rintro ⟨rfl, h₀, h₁⟩
    rw [transferSlot, slotOf_natCast]
    exact (if_neg h₀).trans (if_neg (UInt32.not_le.mpr h₁))

/-- A transfer is done through the slot of an accepted request, with a buffer that holds its bytes. -/
theorem transfer_eq_one_iff {S : Type} {n : ℕ} {refused result : S} {moved : Fin maxOpenFiles → S} :
    (transferSlot index size fs >>= fun slot => match slot with
      | none => (.ok (0, refused) : Except Fault (UInt8 × S))
      | some i => if n ≤ buffer.length then .ok (1, moved i) else .error .outOfBounds) =
        .ok (1, result) ↔
      ∃ i, Accepts fs index size i ∧ n ≤ buffer.length ∧ result = moved i := by
  simp only [← transferSlot_eq_some_iff]
  constructor
  · intro h
    obtain ⟨slot, hslot, h⟩ := bind_eq_ok h
    cases slot with
    | none => cases h
    | some i =>
      dsimp only at h
      split at h
      · next hn =>
        cases h
        exact ⟨i, hslot, hn, rfl⟩
      · cases h
  · rintro ⟨i, hslot, hn, rfl⟩
    rw [hslot]
    exact if_pos hn

/-- **A transfer accesses byte `k` of the data in pass `k`**, never a marker, and stays in the data
sectors of the file. -/
theorem addressed (hss : 2 ≤ part.sectorSize.toNat) (fs : FileSystem) : Addressed part fs where
  header h index fs' ho hne := by
    rw [fsFileOpen] at ho
    obtain ⟨i, -, ho⟩ := bind_eq_ok ho
    split at ho
    · cases ho
      exact absurd rfl hne
    · cases ho
      exact ⟨i, rfl, by simp, by simp⟩
  opens h hclosed hused := by
    obtain ⟨i, -, -, ho⟩ := fsFileOpen_eq_ok hclosed hused
    exact ⟨i, _, ho⟩
  write index buffer size fs' := by
    simp only [← positionOffset_eq_ofNat hss]
    exact transfer_eq_one_iff
  read index buffer size buffer' := by
    simp only [← positionOffset_eq_ofNat hss]
    exact transfer_eq_one_iff
  injOn k hk l hl hkl := by
    have heq := congrArg UInt32.toNat hkl
    rw [UInt32.toNat_ofNat_of_lt' hk, UInt32.toNat_ofNat_of_lt' hl] at heq
    exact dataOffset_injective hss heq
  marker k hk := by
    obtain ⟨-, hm⟩ := dataOffset_div_mod hss k
    rw [UInt32.toNat_ofNat_of_lt' hk, Nat.dvd_iff_mod_eq_zero, hm]
    omega
  sectors index size i hslot k hk hlt := by
    rw [UInt32.toNat_ofNat_of_lt' hlt]
    have hle := (lt_of_accepted (UInt32.not_le.mpr hslot.2.2)).1 k hk
    -- the bytes behind a header at 0
    obtain ⟨hfirst, hlast, -⟩ : (0 : FileHandle).toNat + dataOffset part k ∈
      dataBytes part 0 (fs.fileSize i) := dataOffset_mem hss hle
    rw [UInt32.toNat_zero] at hfirst hlast
    rw [runLength] at hlast
    refine ⟨by omega, ?_⟩
    rw [Nat.add_left_comm]
    rwa [Nat.zero_add, Nat.zero_add] at hlast

/-- An open table with files of 40 bytes. -/
def openFs : FileSystem where
  memory := fun _ => sectorFree
  fileList := fun _ => 64
  fileSize := fun _ => 40

/-- `addressed` for sectors of 32 bytes, and a write that reaches the second data sector. -/
theorem addressed_32 : Addressed ⟨0, 1024, 32, 32⟩ openFs ∧
    ∃ fs', fsFileWrite ⟨0, 1024, 32, 32⟩ 3 (List.replicate 40 7) 40 openFs = .ok (1, fs') ∧
      fs'.memory (64 + 32 + 1) = 7 ∧ fs'.memory (64 + 64) = sectorFree ∧
        fs'.memory (64 + 64 + 1) = 7 := by
  have h : Addressed ⟨0, 1024, 32, 32⟩ openFs := addressed (by decide) _
  have hwrite := (h.write 3 (List.replicate 40 7) 40 _).mpr
    ⟨⟨3, by decide⟩, ⟨rfl, by decide, by decide⟩, by decide, rfl⟩
  exact ⟨h, _, hwrite, by decide +kernel, by decide +kernel, by decide +kernel⟩

end MicroKernel.Fs
