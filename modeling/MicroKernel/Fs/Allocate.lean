import MicroKernel.Fs.Header

/-!
# Allocation of sectors

`fsAllocate` and `fsFree` of `kernel/fs/basefs/fs.c`. A file of `size` bytes takes a header sector
and `size / (sector_size - 1) + 1` data sectors, the first byte of each a marker. The scan is over
the sector strides below `block_size`, which counts bytes: it goes on behind the partition.

## Main definitions

* `fsAllocate`, `fsFree`
* `runLength`: the number of sectors a file takes
* `FreeRun`, `Marked`: free sectors, and the sectors of an allocated file

## Main results

* `scan_spec`: the scan finds the first run that fits
* `fsAllocate_of_room`: with room in the partition, an allocation takes the first free run
* `marked_allocateAt`, `fsFree_spec`: what an allocation and a release leave in the memory
-/

namespace MicroKernel.Fs

open Store

/-- `size / (part.sector_size - 1)` -/
def dataSectors (part : Partition) (size : UInt32) : Except Fault UInt32 :=
  if part.sectorSize - 1 = 0 then .error .divisionByZero else .ok (size / (part.sectorSize - 1))

/-- The byte at a sector stride. -/
def marker (part : Partition) (mem : Memory) (i : UInt32) : UInt8 :=
  mem (part.blockAddress + i * part.sectorSize)

/-- The strides from `i` on are free, `numberOfSectors` behind the first. -/
def fits (part : Partition) (mem : Memory) (numberOfSectors i : UInt32) : Bool :=
  (List.range (numberOfSectors.toNat + 1)).all fun a =>
    marker part mem (UInt32.ofNat a + i) = sectorFree

/-- The scan for available space: `left` strides from `i` on. The variable `address` is also the
flag of a run that does not fit, and keeps it behind the last stride. -/
def scan (part : Partition) (mem : Memory) (numberOfSectors : UInt32) :
    ℕ → (i address : UInt32) → UInt32
  | 0, _, address => address
  | left + 1, i, _ =>
    if marker part mem i ≠ sectorFree then scan part mem numberOfSectors left (i + 1) 0
    else if fits part mem numberOfSectors i then i * part.sectorSize
    else scan part mem numberOfSectors left (i + 1) 1

/-- Mark the sectors at `address` and write the allocation size. -/
def allocateAt (part : Partition) (numberOfSectors size address : UInt32) (mem : Memory) : Memory :=
  let mem := Function.update mem (part.blockAddress + address) sectorHeader
  let mem := writeEach
    (fun i => part.blockAddress + (address + UInt32.ofNat i * part.sectorSize + part.sectorSize))
    (fun _ => sectorUsed) (List.range numberOfSectors.toNat) mem
  setWord part address fileOffsetSize size mem

def fsAllocate (part : Partition) (size : UInt32) (mem : Memory) :
    Except Fault (FileHandle × Memory) := do
  let numberOfSectors := (← dataSectors part size) + 1
  let address := scan part mem numberOfSectors part.blockSize.toNat 0 0
  if address = 0 then return (0, mem)
  else return (address, allocateAt part numberOfSectors size address mem)

def fsFree (part : Partition) (address : FileHandle) (mem : Memory) : Except Fault Memory := do
  let sizeTotal := fsFileGetSize part address mem
  let numberOfSectors := (← dataSectors part sizeTotal) + 2
  return writeEach (fun i => part.blockAddress + (address + UInt32.ofNat i * part.sectorSize))
    (fun _ => sectorFree) (List.range numberOfSectors.toNat) mem

/-! ## The scan -/

section Scan

variable {part : Partition} {mem : Memory} {n : UInt32}

/-- The strides from `i` on are free, as many as an allocation of `n` data sectors takes. -/
def Fits (part : Partition) (mem : Memory) (n : UInt32) (i : ℕ) : Prop :=
  ∀ a ≤ n.toNat, marker part mem (UInt32.ofNat (i + a)) = sectorFree

theorem fits_iff {i : ℕ} : fits part mem n (UInt32.ofNat i) = true ↔ Fits part mem n i := by
  simp only [fits, List.all_eq_true, List.mem_range, decide_eq_true_eq, Fits, ← UInt32.ofNat_add,
    Nat.add_comm i, Nat.lt_succ_iff]

instance (i : ℕ) : Decidable (Fits part mem n i) := decidable_of_iff _ fits_iff

theorem Fits.marker_eq {i : ℕ} (h : Fits part mem n i) :
    marker part mem (UInt32.ofNat i) = sectorFree :=
  h 0 (Nat.zero_le _)

/-- **The scan finds the first run that fits**; where none does, its result is the flag of the last
stride. -/
theorem scan_spec (part : Partition) (mem : Memory) (n : UInt32) (left i : ℕ) (address : UInt32) :
    (∃ j, i ≤ j ∧ j < i + left ∧ Fits part mem n j ∧ (∀ k, i ≤ k → k < j → ¬ Fits part mem n k) ∧
        scan part mem n left (UInt32.ofNat i) address = UInt32.ofNat j * part.sectorSize) ∨
      (∀ j, i ≤ j → j < i + left → ¬ Fits part mem n j) ∧
        scan part mem n left (UInt32.ofNat i) address =
          if left = 0 then address
          else if marker part mem (UInt32.ofNat (i + left - 1)) = sectorFree then 1 else 0 := by
  induction left generalizing i address with
  | zero => exact Or.inr ⟨fun j _ _ => by omega, rfl⟩
  | succ left ih =>
    have hsucc : UInt32.ofNat i + 1 = UInt32.ofNat (i + 1) := (UInt32.ofNat_add i 1).symm
    -- the run fits here, or the scan goes on with its flag
    by_cases hfit : Fits part mem n i
    · refine Or.inl ⟨i, le_rfl, by omega, hfit, fun k _ _ => by omega, ?_⟩
      rw [scan, if_neg (not_not.mpr hfit.marker_eq), if_pos (fits_iff.mpr hfit)]
    · obtain ⟨flag, hscan, hflag⟩ : ∃ flag, scan part mem n (left + 1) (UInt32.ofNat i) address =
          scan part mem n left (UInt32.ofNat (i + 1)) flag ∧
          flag = if marker part mem (UInt32.ofNat i) = sectorFree then 1 else 0 := by
        rw [scan, hsucc]
        by_cases hm : marker part mem (UInt32.ofNat i) = sectorFree
        · refine ⟨1, ?_, (if_pos hm).symm⟩
          rw [if_neg (not_not.mpr hm), if_neg (mt fits_iff.mp hfit)]
        · exact ⟨0, if_pos hm, (if_neg hm).symm⟩
      rw [hscan]
      rcases ih (i + 1) flag with ⟨j, hij, hj, hfj, hmin, heq⟩ | ⟨hnone, heq⟩
      · refine Or.inl ⟨j, by omega, by omega, hfj, fun k hik hkj => ?_, heq⟩
        rcases Nat.eq_or_lt_of_le hik with rfl | hlt
        · exact hfit
        · exact hmin k hlt hkj
      · refine Or.inr ⟨fun j hij hj => ?_, ?_⟩
        · rcases Nat.eq_or_lt_of_le hij with rfl | hlt
          · exact hfit
          · exact hnone j hlt (by omega)
        · rw [heq, hflag, if_neg (Nat.succ_ne_zero left)]
          by_cases hl : left = 0
          · subst hl
            rfl
          · rw [if_neg hl, show i + 1 + left - 1 = i + (left + 1) - 1 by omega]

end Scan

/-! ## Sectors of a partition -/

/-- The sectors of the partition are those `fsDeviceFormat` counts, and hold a file header. -/
structure Partition.Formatted (part : Partition) : Prop where
  le_sectorSize : 32 ≤ part.sectorSize.toNat
  sectorCount_eq : part.sectorCount = part.blockSize / part.sectorSize

/-- The marker of sector `i`. -/
def sectorMarker (part : Partition) (mem : Memory) (i : ℕ) : UInt8 :=
  view part.blockAddress mem (i * part.sectorSize.toNat)

/-- The number of sectors of a file of `size` bytes, its header included. -/
def runLength (part : Partition) (size : UInt32) : ℕ :=
  size.toNat / (part.sectorSize.toNat - 1) + 2

/-- `length` sectors from `i` on are free. -/
def FreeRun (part : Partition) (mem : Memory) (i length : ℕ) : Prop :=
  ∀ k < length, sectorMarker part mem (i + k) = sectorFree

instance (part : Partition) (mem : Memory) (i length : ℕ) :
    Decidable (FreeRun part mem i length) :=
  inferInstanceAs (Decidable (∀ k < length, _))

/-- Some sectors of the partition are free, as many as a file of `size` bytes takes. -/
def Room (part : Partition) (size : UInt32) (mem : Memory) : Prop :=
  ∃ i, i + runLength part size ≤ part.sectorCount.toNat ∧ FreeRun part mem i (runLength part size)

instance (part : Partition) (size : UInt32) (mem : Memory) : Decidable (Room part size mem) :=
  decidable_of_iff (∃ i < part.sectorCount.toNat + 1, i + runLength part size ≤
      part.sectorCount.toNat ∧ FreeRun part mem i (runLength part size))
    ⟨fun ⟨i, _, h⟩ => ⟨i, h⟩, fun ⟨i, h⟩ => ⟨i, by omega, h⟩⟩

section Sectors

variable {part : Partition} {mem : Memory} {size : UInt32}

theorem Partition.Formatted.sectorCount_toNat (hp : part.Formatted) :
    part.sectorCount.toNat = part.blockSize.toNat / part.sectorSize.toNat := by
  rw [hp.sectorCount_eq, UInt32.toNat_div]

/-- The sectors lie in the partition. -/
theorem Partition.Formatted.mul_le (hp : part.Formatted) {i : ℕ}
    (hi : i ≤ part.sectorCount.toNat) : i * part.sectorSize.toNat ≤ part.blockSize.toNat := by
  rw [hp.sectorCount_toNat] at hi
  exact (Nat.mul_le_mul_right _ hi).trans (Nat.div_mul_le_self _ _)

theorem Partition.Formatted.sectorSize_sub_toNat (hp : part.Formatted) :
    (part.sectorSize - 1).toNat = part.sectorSize.toNat - 1 := by
  have := hp.le_sectorSize
  have := part.sectorSize.toNat_lt
  rw [UInt32.toNat_sub]
  show (2 ^ 32 - 1 + part.sectorSize.toNat) % 2 ^ 32 = _
  omega

theorem dataSectors_eq (hp : part.Formatted) (size : UInt32) :
    dataSectors part size = .ok (size / (part.sectorSize - 1)) := by
  have := hp.le_sectorSize
  rw [dataSectors, if_neg]
  intro h
  have h' := hp.sectorSize_sub_toNat
  rw [h] at h'
  have : (0 : UInt32).toNat = 0 := rfl
  omega

/-- The quotient is small enough for the sums of the source not to wrap around. -/
theorem runLength_le (hp : part.Formatted) (size : UInt32) : runLength part size ≤ 2 ^ 28 := by
  have := hp.le_sectorSize
  have := size.toNat_lt
  have h : size.toNat / (part.sectorSize.toNat - 1) ≤ size.toNat / 31 :=
    Nat.div_le_div_left (by omega) (by omega)
  rw [runLength]
  omega

theorem div_add_toNat (hp : part.Formatted) (size : UInt32) {k : UInt32} (hk : k.toNat ≤ 2) :
    (size / (part.sectorSize - 1) + k).toNat + (2 - k.toNat) = runLength part size := by
  have := runLength_le hp size
  have hdiv : (size / (part.sectorSize - 1)).toNat = size.toNat / (part.sectorSize.toNat - 1) := by
    rw [UInt32.toNat_div, hp.sectorSize_sub_toNat]
  rw [runLength] at *
  rw [UInt32.toNat_add, hdiv]
  omega

theorem ofNat_mul_toNat {i : ℕ} (hi : i * part.sectorSize.toNat < 2 ^ 32) :
    (UInt32.ofNat i * part.sectorSize).toNat = i * part.sectorSize.toNat := by
  rw [UInt32.toNat_mul, UInt32.toNat_ofNat', Nat.mod_mul_mod, Nat.mod_eq_of_lt hi]

theorem ofNat_mul_add (i : ℕ) :
    UInt32.ofNat i * part.sectorSize + part.sectorSize = UInt32.ofNat (i + 1) * part.sectorSize := by
  rw [UInt32.ofNat_add, UInt32.add_mul, show UInt32.ofNat 1 = 1 from rfl, UInt32.one_mul]

/-- A stride that does not wrap around is the marker of a sector. -/
theorem marker_ofNat {i : ℕ} (hi : i * part.sectorSize.toNat < 2 ^ 32) :
    marker part mem (UInt32.ofNat i) = sectorMarker part mem i := by
  rw [marker, sectorMarker, ← ofNat_mul_toNat hi, view_toNat]

/-- Inside the partition the fit check is about the sectors of the run. -/
theorem fits_iff_freeRun (hp : part.Formatted) {i : ℕ}
    (hi : i + runLength part size ≤ part.sectorCount.toNat) :
    Fits part mem (size / (part.sectorSize - 1) + 1) i ↔
      FreeRun part mem i (runLength part size) := by
  have hn := div_add_toNat hp size (k := 1) (by decide)
  have hlt : ∀ k < runLength part size, (i + k) * part.sectorSize.toNat < 2 ^ 32 := by
    intro k hk
    have hle : (i + k + 1) * part.sectorSize.toNat ≤ part.blockSize.toNat := hp.mul_le (by omega)
    have := hp.le_sectorSize
    have := part.blockSize.toNat_lt
    rw [Nat.add_mul] at hle
    omega
  have hone : (1 : UInt32).toNat = 1 := rfl
  constructor
  · intro h k hk
    rw [← marker_ofNat (hlt k hk)]
    exact h k (by omega)
  · intro h k hk
    rw [marker_ofNat (hlt k (by omega))]
    exact h k (by omega)

end Sectors

/-! ## Allocation and release -/

section Effects

variable {part : Partition} {mem : Memory} {size : UInt32}

theorem fsAllocate_eq (hp : part.Formatted) {n address : UInt32}
    (hn : size / (part.sectorSize - 1) + 1 = n)
    (hscan : scan part mem n part.blockSize.toNat (UInt32.ofNat 0) 0 = address) :
    fsAllocate part size mem =
      if address = 0 then .ok (0, mem) else .ok (address, allocateAt part n size address mem) := by
  subst hn hscan
  rw [fsAllocate, dataSectors_eq hp]
  show (if scan part mem _ _ (UInt32.ofNat 0) 0 = 0 then _ else _) = _
  split <;> rfl

/-- **An allocation with room** in the partition takes the first free run. -/
theorem fsAllocate_of_room (hp : part.Formatted) (h0 : sectorMarker part mem 0 ≠ sectorFree)
    (hr : Room part size mem) :
    ∃ i, 0 < i ∧ i + runLength part size ≤ part.sectorCount.toNat ∧
      FreeRun part mem i (runLength part size) ∧
      (∀ j < i, ¬ FreeRun part mem j (runLength part size)) ∧
      fsAllocate part size mem = .ok (UInt32.ofNat (i * part.sectorSize.toNat),
        allocateAt part (size / (part.sectorSize - 1) + 1) size
          (UInt32.ofNat (i * part.sectorSize.toNat)) mem) := by
  have hss := hp.le_sectorSize
  have hlt := part.blockSize.toNat_lt
  have hlen : 2 ≤ runLength part size := Nat.le_add_left _ _
  obtain ⟨i, hi, hfree⟩ := hr
  -- the scan makes as many passes as the device has bytes, which is more than its sectors
  have hle : ∀ {j}, j ≤ part.sectorCount.toNat → j ≤ part.blockSize.toNat := fun {j} hj =>
    (Nat.le_mul_of_pos_right j (by omega)).trans (hp.mul_le hj)
  obtain ⟨j, -, hj, hfit, hmin, hscan⟩ :=
    (scan_spec part mem (size / (part.sectorSize - 1) + 1)
      part.blockSize.toNat 0 0).resolve_right fun h =>
        h.1 i (Nat.zero_le _) (by have := hle hi; omega) ((fits_iff_freeRun hp hi).mpr hfree)
  have hji : j ≤ i := by
    by_contra hlt
    exact hmin i (Nat.zero_le _) (by omega) ((fits_iff_freeRun hp hi).mpr hfree)
  have hjlen : j + runLength part size ≤ part.sectorCount.toNat := by omega
  have hfreej := (fits_iff_freeRun hp hjlen).mp hfit
  -- sector 0 holds the device header, which is not free
  have hpos : 0 < j := by
    refine Nat.pos_of_ne_zero ?_
    rintro rfl
    exact h0 (hfreej 0 (by omega))
  have haddr : UInt32.ofNat j * part.sectorSize = UInt32.ofNat (j * part.sectorSize.toNat) := by
    rw [UInt32.ofNat_mul, UInt32.ofNat_toNat]
  have hmul : j * part.sectorSize.toNat < 2 ^ 32 := by
    have := hp.mul_le (i := j) (by omega)
    omega
  have hne : UInt32.ofNat (j * part.sectorSize.toNat) ≠ 0 := by
    intro h
    have h' : (UInt32.ofNat (j * part.sectorSize.toNat)).toNat = 0 := congrArg UInt32.toNat h
    rw [UInt32.toNat_ofNat', Nat.mod_eq_of_lt hmul] at h'
    have : 0 < j * part.sectorSize.toNat := Nat.mul_pos hpos (by omega)
    exact absurd h' (by omega)
  refine ⟨j, hpos, hjlen, hfreej, fun k hk hk' => ?_, ?_⟩
  · exact hmin k (Nat.zero_le _) hk ((fits_iff_freeRun hp (by omega)).mpr hk')
  · rw [fsAllocate_eq hp rfl (hscan.trans haddr), if_neg hne]

/-- An allocation that finds no run fails, if the last stride does not leave the flag. -/
theorem fsAllocate_of_not_fits (hp : part.Formatted)
    (hfit : ∀ i < part.blockSize.toNat, ¬ Fits part mem (size / (part.sectorSize - 1) + 1) i)
    (hlast : part.blockSize ≠ 0 → marker part mem (part.blockSize - 1) ≠ sectorFree) :
    fsAllocate part size mem = .ok (0, mem) := by
  have hscan : scan part mem (size / (part.sectorSize - 1) + 1) part.blockSize.toNat
      (UInt32.ofNat 0) 0 = 0 := by
    rcases scan_spec part mem (size / (part.sectorSize - 1) + 1) part.blockSize.toNat 0 0 with
      ⟨j, -, hj, hf, -, -⟩ | ⟨-, h⟩
    · exact absurd hf (hfit j (by omega))
    · rw [h]
      by_cases h0 : part.blockSize.toNat = 0
      · rw [if_pos h0]
      · have hone : UInt32.ofNat (0 + part.blockSize.toNat - 1) = part.blockSize - 1 := by
          apply UInt32.toNat_inj.mp
          have := part.blockSize.toNat_lt
          rw [UInt32.toNat_ofNat', UInt32.toNat_sub]
          show _ = (2 ^ 32 - 1 + part.blockSize.toNat) % 2 ^ 32
          omega
        rw [if_neg h0, hone, if_neg (hlast fun h => h0 (congrArg UInt32.toNat h))]
  rw [fsAllocate_eq hp rfl hscan, if_pos rfl]

/-- The markers and the size of an allocated run. -/
structure Marked (part : Partition) (mem : Memory) (h : FileHandle) (size : UInt32) : Prop where
  header : view part.blockAddress mem h.toNat = sectorHeader
  used : ∀ k, 0 < k → k < runLength part size →
    view part.blockAddress mem (h.toNat + k * part.sectorSize.toNat) = sectorUsed
  size_eq : fsFileGetSize part h mem = size

section Run

variable {h : FileHandle}

/-- Sector `k` of a run that does not wrap around. -/
theorem toNat_handle_add_mul {k : ℕ}
    (hk : h.toNat + k * part.sectorSize.toNat < 2 ^ 32) :
    (h + UInt32.ofNat k * part.sectorSize).toNat = h.toNat + k * part.sectorSize.toNat := by
  rw [UInt32.toNat_add, ofNat_mul_toNat (by omega), Nat.mod_eq_of_lt hk]

/-- The bytes of a run. -/
def runBytes (part : Partition) (h : FileHandle) (size : UInt32) : Set ℕ :=
  Set.Ico h.toNat (h.toNat + runLength part size * part.sectorSize.toNat)

/-- The markers of a run and the bytes of its size. -/
def allocatedBytes (part : Partition) (h : FileHandle) (size : UInt32) : Set ℕ :=
  {o | (∃ k < runLength part size, o = h.toNat + k * part.sectorSize.toNat) ∨
    o ∈ field h fileOffsetSize 4}

variable (hp : part.Formatted)
  (hrun : h.toNat + runLength part size * part.sectorSize.toNat ≤ 2 ^ 32)

include hp hrun

theorem mem_runBytes {k : ℕ} (hk : k < runLength part size) :
    (h + UInt32.ofNat k * part.sectorSize).toNat = h.toNat + k * part.sectorSize.toNat ∧
      h.toNat + k * part.sectorSize.toNat + 32 ≤
        h.toNat + runLength part size * part.sectorSize.toNat := by
  have hss := hp.le_sectorSize
  have hmul : (k + 1) * part.sectorSize.toNat ≤ runLength part size * part.sectorSize.toNat :=
    Nat.mul_le_mul_right _ hk
  rw [Nat.add_mul] at hmul
  exact ⟨toNat_handle_add_mul (by omega), by omega⟩

theorem header_le : h.toNat + 32 ≤ h.toNat + runLength part size * part.sectorSize.toNat := by
  simpa using (mem_runBytes (k := 0) hp hrun (Nat.succ_pos _)).2

/-- `allocateAt` writes its markers and the size. -/
theorem agreeOff_allocateAt_markers (mem : Memory) :
    AgreeOff part.blockAddress (allocatedBytes part h size) mem
      (allocateAt part (size / (part.sectorSize - 1) + 1) size h mem) := by
  have hhead := header_le hp hrun
  have hn := div_add_toNat hp size (k := 1) (by decide)
  have hone : (1 : UInt32).toNat = 1 := rfl
  refine (agreeOff_update _ ?_).trans ((agreeOff_writeEach ?_).trans
    ((agreeOff_setWord (by omega) (by decide)).mono fun o ho => Or.inr ho))
  · exact Or.inl ⟨0, Nat.succ_pos _, by omega⟩
  · intro i hi
    rw [List.mem_range] at hi
    have h' := mem_runBytes (k := i + 1) hp hrun (by omega)
    rw [UInt32.add_assoc, ofNat_mul_add, h'.1]
    exact Or.inl ⟨i + 1, by omega, rfl⟩

theorem allocatedBytes_subset : allocatedBytes part h size ⊆ runBytes part h size := by
  have hhead := header_le hp hrun
  rintro o (⟨k, hk, rfl⟩ | ⟨h₁, h₂⟩)
  · have h' := (mem_runBytes hp hrun hk).2
    exact ⟨by omega, by omega⟩
  · have : fileOffsetSize.toNat = 11 := rfl
    exact ⟨by omega, by omega⟩

/-- The bytes `allocateAt` marks and the size it writes are those of the run. -/
theorem agreeOff_allocateAt (mem : Memory) : AgreeOff part.blockAddress (runBytes part h size) mem
    (allocateAt part (size / (part.sectorSize - 1) + 1) size h mem) :=
  (agreeOff_allocateAt_markers hp hrun mem).mono (allocatedBytes_subset hp hrun)

/-- **An allocation** marks its run and records its size. -/
theorem marked_allocateAt :
    Marked part (allocateAt part (size / (part.sectorSize - 1) + 1) size h mem) h size := by
  have hss := hp.le_sectorSize
  have hhead := header_le hp hrun
  have hn := div_add_toNat hp size (k := 1) (by decide)
  have hone : (1 : UInt32).toNat = 1 := rfl
  have hsize : fileOffsetSize.toNat = 11 := rfl
  have hlen : 2 ≤ runLength part size := Nat.le_add_left _ _
  -- the size bytes stand between the markers
  have hfield : ∀ k, h.toNat + k * part.sectorSize.toNat ∉ field h fileOffsetSize 4 := by
    rintro k ⟨h₁, h₂⟩
    rcases Nat.eq_zero_or_pos k with rfl | hk
    · omega
    · have := Nat.mul_le_mul_right part.sectorSize.toNat (show 1 ≤ k from hk)
      omega
  have hword : ∀ m : Memory, AgreeOff part.blockAddress (field h fileOffsetSize 4) m
      (setWord part h fileOffsetSize size m) := fun m => agreeOff_setWord (by omega) (by decide)
  have hoff : ∀ i, i + 1 < runLength part size →
      (h + UInt32.ofNat i * part.sectorSize + part.sectorSize).toNat =
        h.toNat + (i + 1) * part.sectorSize.toNat := by
    intro i hi
    rw [UInt32.add_assoc, ofNat_mul_add, (mem_runBytes hp hrun hi).1]
  refine ⟨?_, fun k hk hlt => ?_, getWord_setWord (by omega) (by decide)⟩
  · have hf := hfield 0
    rw [Nat.zero_mul, Nat.add_zero] at hf
    rw [allocateAt, hword _ _ (by omega) hf, view_writeEach_of_forall_ne (by omega), view_toNat,
      Function.update_self]
    intro i hi
    rw [List.mem_range] at hi
    rw [hoff i (by omega)]
    have := Nat.mul_le_mul_right part.sectorSize.toNat (show 1 ≤ i + 1 by omega)
    omega
  · have hlt' := mem_runBytes hp hrun hlt
    obtain ⟨i, rfl⟩ : ∃ i, k = i + 1 := ⟨k - 1, by omega⟩
    rw [allocateAt, hword _ _ (by omega) (hfield _), ← hoff i hlt, view_toNat]
    exact writeEach_const ⟨i, List.mem_range.mpr (by omega), rfl⟩

/-- **A release** of a file whose size is recorded frees its run. -/
theorem fsFree_spec (hsize : fsFileGetSize part h mem = size) :
    ∃ mem', fsFree part h mem = .ok mem' ∧
      AgreeOff part.blockAddress (runBytes part h size) mem mem' ∧
      ∀ k < runLength part size,
        view part.blockAddress mem' (h.toNat + k * part.sectorSize.toNat) = sectorFree := by
  have hn := div_add_toNat hp size (k := 2) (by decide)
  have htwo : (2 : UInt32).toNat = 2 := rfl
  rw [htwo, Nat.sub_self, Nat.add_zero] at hn
  refine ⟨writeEach (fun i => part.blockAddress + (h + UInt32.ofNat i * part.sectorSize))
    (fun _ => sectorFree) (List.range (size / (part.sectorSize - 1) + 2).toNat) mem, ?_, ?_, ?_⟩
  · rw [fsFree, hsize, dataSectors_eq hp]
    rfl
  · refine agreeOff_writeEach fun i hi => ?_
    rw [List.mem_range, hn] at hi
    have h' := mem_runBytes hp hrun hi
    rw [h'.1]
    exact ⟨by omega, by omega⟩
  · intro k hk
    rw [← (mem_runBytes hp hrun hk).1, view_toNat]
    exact writeEach_const ⟨k, List.mem_range.mpr (by omega), rfl⟩

end Run

end Effects

end MicroKernel.Fs
