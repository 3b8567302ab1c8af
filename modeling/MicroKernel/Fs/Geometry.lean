import MicroKernel.Fs.Format

/-!
# Geometries of a device

`fsDeviceOpen` takes the sector size of the medium as it is, if it is not zero. The allocator
divides by one less, and a file header takes 32 bytes, so that with smaller sectors it covers the
markers of the sectors behind its own.

## Main definitions

* `CreatedRun`: what the markers are after a creation
* `Usable`: no division by zero, and every creation leaves the markers right
* `SoundGeometry`: the condition on the device
* `ClearOfHeader`: the sector sizes whose markers lie beside the fields of a header

## Main results

* `createdRun_iff`: a creation leaves the markers right where the header lies clear of them
* `usable_iff`: the devices that are usable
-/

namespace MicroKernel.Fs

open Store

/-- The sectors behind the first of a run, as `fsAllocate` counts them. -/
def usedSectors (part : Partition) (size : UInt32) : UInt32 := size / (part.sectorSize - 1) + 1

/-- Where the marker of sector `k` of a run lies. -/
def runMarker (part : Partition) (h : FileHandle) (k : ℕ) : UInt32 :=
  h + UInt32.ofNat k * part.sectorSize

/-- A sector of the partition that is none of the run. -/
def Beside (part : Partition) (size : UInt32) (h : FileHandle) (i : ℕ) : Prop :=
  i < part.sectorCount.toNat ∧ ∀ k ≤ (usedSectors part size).toNat,
    UInt32.ofNat i * part.sectorSize ≠ runMarker part h k

/-- The markers of the run at a handle read `U` and then `D`, and the other markers of the partition
are as they were. -/
structure CreatedRun (part : Partition) (size : UInt32) (h : FileHandle) (mem mem' : Memory) :
    Prop where
  header : mem' (part.blockAddress + runMarker part h 0) = sectorHeader
  used : ∀ k, 0 < k → k ≤ (usedSectors part size).toNat →
    mem' (part.blockAddress + runMarker part h k) = sectorUsed
  unchanged : ∀ i, Beside part size h i →
    marker part mem' (UInt32.ofNat i) = marker part mem (UInt32.ofNat i)

/-- Nothing divides by zero, and every file that is created leaves the markers right. -/
structure Usable (part : Partition) (mem : Memory) : Prop where
  create : ∀ filename size, ∃ h mem', fsFileCreate part filename size mem = .ok (h, mem') ∧
    (h ≠ 0 → CreatedRun part size h mem mem')
  release : ∀ h, ∃ mem', fsFree part h mem = .ok mem'

/-! ## The condition -/

/-- The byte of a header at an offset; a new file has no reference count. -/
def headerByte (filename : List UInt8) (size : UInt32) (o : ℕ) : Option UInt8 :=
  if o = 0 then some sectorHeader
  else if o < 11 then some ((cleanName filename).getD (o - 1) 0)
  else if o < 15 then some (wordByte size (o - 11))
  else if o < 19 then some ((chars [' ', 'r', 'w', ' ']).getD (o - 15) 0)
  else if 23 ≤ o ∧ o < 32 then some 0
  else none

/-- Where the scan finds room for `n` sectors behind a header: at the first stride that fits, or
where none does and the last stride is free, at the flag. -/
inductive Found (part : Partition) (mem : Memory) (n : UInt32) : FileHandle → Prop
  | first (j : ℕ) (hj : j < part.blockSize.toNat) (hfit : Fits part mem n j)
      (hmin : ∀ i < j, ¬ Fits part mem n i) : Found part mem n (UInt32.ofNat j * part.sectorSize)
  | flag (hpos : 0 < part.blockSize.toNat) (hnone : ∀ i < part.blockSize.toNat, ¬ Fits part mem n i)
      (hlast : marker part mem (UInt32.ofNat (part.blockSize.toNat - 1)) = sectorFree) :
      Found part mem n 1

/-- A header at a handle lies clear of the markers: where it covers one of its run or of another
sector, the two bytes are the same. -/
structure HeaderClear (part : Partition) (size : UInt32) (mem : Memory) (h : FileHandle)
    (filename : List UInt8) : Prop where
  run : ∀ k, 0 < k → k ≤ (usedSectors part size).toNat →
    ∀ b ∈ headerByte filename size (UInt32.ofNat k * part.sectorSize).toNat, b = sectorUsed
  beside : ∀ i, Beside part size h i →
    ∀ b ∈ headerByte filename size (UInt32.ofNat i * part.sectorSize - h).toNat,
      b = marker part mem (UInt32.ofNat i)

/-- The sectors have more than one byte, and the header of a file lies clear of the markers wherever
the scan finds room. -/
structure SoundGeometry (part : Partition) (mem : Memory) : Prop where
  sectorSize_ne_one : part.sectorSize ≠ 1
  clear : ∀ filename size h, Found part mem (usedSectors part size) h →
    HeaderClear part size mem h filename

/-- The sectors have room for a header, or the only marker under it lies at the reference count,
which a creation does not set. -/
def ClearOfHeader (part : Partition) : Prop :=
  32 ≤ part.sectorSize.toNat ∨ 19 ≤ part.sectorSize.toNat ∧ part.sectorSize.toNat ≤ 22

/-! ## The bytes of a creation -/

section Created

variable {part : Partition} {mem : Memory} {n size p : UInt32} {h : FileHandle}
  {filename : List UInt8}

/-- The markers `allocateAt` sets. -/
def markRun (part : Partition) (n : UInt32) (h : FileHandle) (mem : Memory) : Memory :=
  writeEach (fun i => part.blockAddress + runMarker part h (i + 1)) (fun _ => sectorUsed)
    (List.range n.toNat) (Function.update mem (part.blockAddress + h) sectorHeader)

theorem runMarker_zero : runMarker part h 0 = h := by
  rw [runMarker, show UInt32.ofNat 0 = 0 from rfl, UInt32.zero_mul, UInt32.add_zero]

theorem allocateAt_eq :
    allocateAt part n size h mem = setWord part h fileOffsetSize size (markRun part n h mem) := by
  simp only [allocateAt, markRun, runMarker, ← ofNat_mul_add, UInt32.add_assoc]

theorem markRun_used {k : ℕ} (hpos : 0 < k) (hk : k ≤ n.toNat) :
    markRun part n h mem (part.blockAddress + runMarker part h k) = sectorUsed :=
  writeEach_const ⟨k - 1, List.mem_range.mpr (by omega), by rw [Nat.sub_add_cancel hpos]⟩

theorem markRun_of_ne (hp : ∀ k ≤ n.toNat, p ≠ runMarker part h k) :
    markRun part n h mem (part.blockAddress + p) = mem (part.blockAddress + p) := by
  rw [markRun, writeEach_of_forall_ne, Function.update_of_ne]
  · have h0 := hp 0 (Nat.zero_le _)
    rw [runMarker_zero] at h0
    exact fun he => h0 ((UInt32.add_right_inj _).mp he)
  · intro i hi he
    exact hp (i + 1) (List.mem_range.mp hi) ((UInt32.add_right_inj _).mp he).symm

theorem markRun_header (hne : ∀ k, 0 < k → k ≤ n.toNat → UInt32.ofNat k * part.sectorSize ≠ 0) :
    markRun part n h mem (part.blockAddress + h) = sectorHeader := by
  rw [markRun, writeEach_of_forall_ne, Function.update_self]
  intro i hi he
  rw [UInt32.add_right_inj, runMarker, UInt32.add_eq_left] at he
  exact hne (i + 1) (Nat.succ_pos i) (List.mem_range.mp hi) he

/-- The header of a new file, seen from its handle. -/
theorem view_initHeader {o : ℕ} (ho : o < 2 ^ 32) (hpos : 0 < o) :
    view (part.blockAddress + h)
        (initHeader part h filename (setWord part h fileOffsetSize size mem)) o =
      (headerByte filename size o).getD (view (part.blockAddress + h) mem o) := by
  have hzero : ∀ k, wordByte 0 k = 0 := fun k => by simp [wordByte]
  simp only [initHeader, fsFileSetName, fsFileSetAttributes, fsFileSetNextAddress,
    fsFileSetParentAddress, setWord, ← UInt32.add_assoc]
  rw [view_update _ ho, view_writeWord (by decide) ho, view_writeWord (by decide) ho,
    view_writeEach_range _ (by decide) ho, view_writeEach_range _ (by decide) ho,
    view_writeWord (by decide) ho, hzero, hzero, headerByte]
  have hname : fileOffsetName.toNat = 1 := rfl
  have hsize : fileOffsetSize.toNat = 11 := rfl
  have hattributes : fileOffsetAttributes.toNat = 15 := rfl
  have hflag : fileOffsetFlag.toNat = 23 := rfl
  have hparent : fileOffsetParent.toNat = 24 := rfl
  have hnext : fileOffsetNext.toNat = 28 := rfl
  have hlen : fileNameLength = 10 := rfl
  rw [hname, hsize, hattributes, hflag, hparent, hnext, hlen]
  grind

/-- The marker of the header is no field. -/
theorem view_initHeader_zero :
    view (part.blockAddress + h)
        (initHeader part h filename (setWord part h fileOffsetSize size mem)) 0 =
      view (part.blockAddress + h) mem 0 := by
  simp only [initHeader, fsFileSetName, fsFileSetAttributes, fsFileSetNextAddress,
    fsFileSetParentAddress, setWord, ← UInt32.add_assoc]
  rw [view_update _ (by decide), view_writeWord (by decide) (by decide),
    view_writeWord (by decide) (by decide), view_writeEach_range _ (by decide) (by decide),
    view_writeEach_range _ (by decide) (by decide), view_writeWord (by decide) (by decide)]
  rfl

/-- The byte at an address behind the handle. -/
theorem created_apply (hp : p ≠ h) :
    initHeader part h filename (allocateAt part n size h mem) (part.blockAddress + p) =
      (headerByte filename size (p - h).toNat).getD
        (markRun part n h mem (part.blockAddress + p)) := by
  have hview : ∀ m : Memory, m (part.blockAddress + p) =
      view (part.blockAddress + h) m (p - h).toNat := fun m => by
    rw [view, UInt32.ofNat_toNat, UInt32.add_assoc, UInt32.add_comm h, UInt32.sub_add_cancel]
  have hpos : 0 < (p - h).toNat := by
    refine Nat.pos_of_ne_zero fun h0 => hp ?_
    have hsub : p - h = 0 := UInt32.toNat_inj.mp h0
    rw [← UInt32.sub_add_cancel p h, hsub, UInt32.zero_add]
  rw [hview (initHeader _ _ _ _), allocateAt_eq, view_initHeader (UInt32.toNat_lt _) hpos, ← hview]

theorem created_header :
    initHeader part h filename (allocateAt part n size h mem) (part.blockAddress + h) =
      markRun part n h mem (part.blockAddress + h) := by
  have hview : ∀ m : Memory, m (part.blockAddress + h) = view (part.blockAddress + h) m 0 :=
    fun m => congrArg m (UInt32.add_zero _).symm
  rw [hview (initHeader _ _ _ _), allocateAt_eq, view_initHeader_zero, ← hview]

/-- **The markers are right** if and only if the header lies clear of them. -/
theorem createdRun_iff : CreatedRun part size h mem (initHeader part h filename
      (allocateAt part (usedSectors part size) size h mem)) ↔
    HeaderClear part size mem h filename := by
  have hsub : ∀ k, runMarker part h k - h = UInt32.ofNat k * part.sectorSize := fun k => by
    rw [runMarker, UInt32.add_comm, UInt32.add_sub_cancel]
  constructor
  · intro hc
    refine ⟨fun k hpos hk b hb => ?_, fun i hi b hb => ?_⟩
    · have hused := hc.used k hpos hk
      by_cases h0 : runMarker part h k = h
      · -- the run would come back to its header
        rw [h0] at hused
        have hheader := hc.header
        rw [runMarker_zero, hused] at hheader
        exact absurd hheader (by decide)
      · rw [created_apply h0, hsub, Option.mem_def.mp hb] at hused
        exact hused
    · have h0 : UInt32.ofNat i * part.sectorSize ≠ h := fun he =>
        hi.2 0 (Nat.zero_le _) (he.trans runMarker_zero.symm)
      have hsame := hc.unchanged i hi
      rw [marker, created_apply h0, Option.mem_def.mp hb] at hsame
      exact hsame
  · intro hc
    -- no marker of the run comes back to the header, whose first byte is not that of a used sector
    have hne : ∀ k, 0 < k → k ≤ (usedSectors part size).toNat →
        UInt32.ofNat k * part.sectorSize ≠ 0 := by
      intro k hpos hk h0
      have hb := hc.run k hpos hk sectorHeader (by rw [h0]; rfl)
      exact absurd hb (by decide)
    refine ⟨?_, fun k hpos hk => ?_, fun i hi => ?_⟩
    · rw [runMarker_zero, created_header, markRun_header hne]
    · have h0 : runMarker part h k ≠ h := fun he =>
        hne k hpos hk (by rw [← hsub, he, UInt32.sub_self])
      rw [created_apply h0, hsub, markRun_used hpos hk]
      cases hb : headerByte filename size (UInt32.ofNat k * part.sectorSize).toNat with
      | none => rfl
      | some b => exact hc.run k hpos hk b hb
    · have h0 : UInt32.ofNat i * part.sectorSize ≠ h := fun he =>
        hi.2 0 (Nat.zero_le _) (he.trans runMarker_zero.symm)
      rw [marker, created_apply h0, markRun_of_ne hi.2]
      cases hb : headerByte filename size (UInt32.ofNat i * part.sectorSize - h).toNat with
      | none => rfl
      | some b => exact hc.beside i hi b hb

end Created

/-! ## Opened devices -/

/-- A partition as `fsDeviceOpen` returns it for a device with sectors of more than one byte. -/
structure Opened (part : Partition) (mem : Memory) : Prop where
  two_le : 2 ≤ part.sectorSize.toNat
  sectorCount_eq : part.sectorCount.toNat = part.blockSize.toNat / part.sectorSize.toNat
  device : sectorMarker part mem 0 ≠ sectorFree

section Opened

variable {part : Partition} {mem mem' : Memory} {size : UInt32} {h : FileHandle}

/-- **What `fsDeviceOpen` accepts**, but for sectors of one byte. -/
theorem opened_fsDeviceOpen {address : UInt32}
    (hne : (fsDeviceOpen address mem).sectorSize ≠ 0)
    (hone : (fsDeviceOpen address mem).sectorSize ≠ 1) : Opened (fsDeviceOpen address mem) mem := by
  have hzero : (0 : UInt32).toNat = 0 := rfl
  have htwo : 2 ≤ (fsDeviceOpen address mem).sectorSize.toNat := by
    have h₀ : (fsDeviceOpen address mem).sectorSize.toNat ≠ 0 := fun h =>
      hne (UInt32.toNat_inj.mp h)
    have h₁ : (fsDeviceOpen address mem).sectorSize.toNat ≠ 1 := fun h =>
      hone (UInt32.toNat_inj.mp h)
    omega
  rw [fsDeviceOpen] at htwo ⊢
  simp only at htwo ⊢
  split at htwo
  · exact absurd htwo (show ¬ 2 ≤ 0 by decide)
  · next hok =>
    rw [if_neg hok]
    rw [not_or, not_not] at hok
    refine ⟨htwo, UInt32.toNat_div .., ?_⟩
    show mem (address + UInt32.ofNat (0 * _)) ≠ sectorFree
    rw [Nat.zero_mul, show UInt32.ofNat 0 = 0 from rfl, UInt32.add_zero, hok.1]
    decide

theorem Opened.sub_one_ne (ho : Opened part mem) : ¬ part.sectorSize - 1 = 0 := by
  intro h
  have hone : part.sectorSize = 1 :=
    (UInt32.sub_add_cancel part.sectorSize 1).symm.trans (by rw [h]; rfl)
  have h₂ := ho.two_le
  rw [hone] at h₂
  exact absurd h₂ (by decide)

theorem Opened.dataSectors_eq (ho : Opened part mem) (size : UInt32) :
    dataSectors part size = .ok (size / (part.sectorSize - 1)) := if_neg ho.sub_one_ne

theorem Opened.mul_le (ho : Opened part mem) {i : ℕ} (hi : i ≤ part.sectorCount.toNat) :
    i * part.sectorSize.toNat ≤ part.blockSize.toNat := by
  rw [ho.sectorCount_eq] at hi
  exact (Nat.mul_le_mul_right _ hi).trans (Nat.div_mul_le_self _ _)

theorem Opened.marker_ofNat (ho : Opened part mem) {i : ℕ} (hi : i < part.sectorCount.toNat)
    (m : Memory) : marker part m (UInt32.ofNat i) = sectorMarker part m i := by
  have hle := ho.mul_le (show i ≤ part.sectorCount.toNat by omega)
  have hlt := part.blockSize.toNat_lt
  exact Fs.marker_ofNat (by omega)

/-- **What fits** starts at a sector of the partition, and lies in it. -/
theorem Opened.lt_of_fits (ho : Opened part mem) (hn : NoFreeBehind part mem) {n : UInt32} {j : ℕ}
    (hj : j < part.blockSize.toNat) (hfit : Fits part mem n j) :
    0 < j ∧ j + n.toNat < part.sectorCount.toNat := by
  have h₂ := ho.two_le
  have hpos : 0 < j := by
    refine Nat.pos_of_ne_zero ?_
    rintro rfl
    have hm := hfit.marker_eq
    rw [Fs.marker_ofNat (by omega)] at hm
    exact ho.device hm
  have hcount : part.sectorCount.toNat < part.blockSize.toNat := by
    rw [ho.sectorCount_eq]
    exact Nat.div_lt_self (by omega) h₂
  refine ⟨hpos, ?_⟩
  by_contra hle
  rcases Nat.lt_or_ge j part.sectorCount.toNat with hlt | hge
  · have hfree := hfit (part.sectorCount.toNat - j) (by omega)
    rw [show j + (part.sectorCount.toNat - j) = part.sectorCount.toNat by omega] at hfree
    exact hn _ le_rfl (by omega) hcount hfree
  · exact hn j hge hpos hj hfit.marker_eq

/-- The source computes the sum of the scan once. -/
theorem Opened.fsAllocate_eq (ho : Opened part mem) {address : UInt32}
    (hscan : scan part mem (usedSectors part size) part.blockSize.toNat 0 0 = address) :
    fsAllocate part size mem =
      if address = 0 then .ok (0, mem)
      else .ok (address, allocateAt part (usedSectors part size) size address mem) := by
  subst hscan
  rw [fsAllocate, ho.dataSectors_eq, ok_bind]
  show (if scan part mem (usedSectors part size) part.blockSize.toNat 0 0 = 0 then _ else _) = _
  split <;> rfl

/-- What the scan finds, if not 0. -/
theorem found_of_scan {n : UInt32} (h0 : scan part mem n part.blockSize.toNat 0 0 ≠ 0) :
    Found part mem n (scan part mem n part.blockSize.toNat 0 0) := by
  rcases scan_spec part mem n part.blockSize.toNat 0 0 with
    ⟨j, -, hj, hfit, hmin, hscan⟩ | ⟨hnone, hscan⟩
  · have hfound : Found part mem n (UInt32.ofNat j * part.sectorSize) :=
      Found.first j (by omega) hfit fun i hi => hmin i (Nat.zero_le _) hi
    rwa [← hscan] at hfound
  · have hscan' : scan part mem n part.blockSize.toNat 0 0 = _ := hscan
    rw [hscan'] at h0 ⊢
    split_ifs at h0 ⊢ with hpos hlast
    · exact absurd rfl h0
    · rw [Nat.zero_add] at hlast
      exact Found.flag (Nat.pos_of_ne_zero hpos) (fun i hi => hnone i (Nat.zero_le _) (by omega))
        hlast
    · exact absurd rfl h0

theorem Found.scan_eq {n : UInt32} (hf : Found part mem n h) :
    scan part mem n part.blockSize.toNat 0 0 = h := by
  cases hf with
  | first j hj hfit hmin =>
    rcases scan_spec part mem n part.blockSize.toNat 0 0 with
      ⟨k, -, hk, hfitk, hmink, hscan⟩ | ⟨hnone, -⟩
    · have hjk : j = k := by
        refine Nat.le_antisymm (Nat.not_lt.mp fun hlt => hmin k hlt hfitk) ?_
        exact Nat.not_lt.mp fun hlt => hmink j (Nat.zero_le _) hlt hfit
      rw [hjk]
      exact hscan
    · exact absurd hfit (hnone j (Nat.zero_le _) (by omega))
  | flag hpos hnone hlast =>
    rcases scan_spec part mem n part.blockSize.toNat 0 0 with ⟨k, -, hk, hfit, -⟩ | ⟨-, hscan⟩
    · exact absurd hfit (hnone k (by omega))
    · rw [Nat.zero_add] at hscan
      rw [if_neg (by omega), if_pos hlast] at hscan
      exact hscan

/-- The first stride is the device header's. -/
theorem Opened.found_ne_zero (ho : Opened part mem) {n : UInt32} (hf : Found part mem n h) :
    h ≠ 0 := by
  have hdevice : mem (part.blockAddress + 0) ≠ sectorFree := by
    have hd := ho.device
    rwa [sectorMarker, Nat.zero_mul] at hd
  cases hf with
  | first j hj hfit hmin =>
    intro h0
    have hm := hfit.marker_eq
    rw [marker, h0] at hm
    exact hdevice hm
  | flag => decide

/-- **The files of an opened device** leave the markers right if and only if their headers lie clear
of them wherever the scan finds room. -/
theorem Opened.usable_iff_clear (ho : Opened part mem) : Usable part mem ↔
    ∀ filename size h, Found part mem (usedSectors part size) h →
      HeaderClear part size mem h filename := by
  constructor
  · intro hu filename size h hf
    have h0 := ho.found_ne_zero hf
    have ha := ho.fsAllocate_eq hf.scan_eq
    rw [if_neg h0] at ha
    obtain ⟨h', mem', hcreate, hrun⟩ := hu.create filename size
    rw [fsFileCreate_eq ha h0] at hcreate
    cases hcreate
    exact createdRun_iff.mp (hrun h0)
  · intro hc
    refine ⟨fun filename size => ?_, fun h => ?_⟩
    · obtain ⟨address, hscan⟩ : ∃ a, scan part mem (usedSectors part size) part.blockSize.toNat 0 0 = a :=
        ⟨_, rfl⟩
      have ha := ho.fsAllocate_eq hscan
      by_cases h0 : address = 0
      · rw [if_pos h0] at ha
        exact ⟨0, mem, fsFileCreate_eq_zero ha, fun h => absurd rfl h⟩
      · rw [if_neg h0] at ha
        subst hscan
        exact ⟨_, _, fsFileCreate_eq ha h0, fun _ =>
          createdRun_iff.mpr (hc filename size _ (found_of_scan h0))⟩
    · rw [fsFree, ho.dataSectors_eq]
      exact ⟨_, rfl⟩

/-- A file of no bytes takes one sector behind its header. -/
theorem usedSectors_zero : usedSectors part 0 = 1 := by
  rw [usedSectors, UInt32.zero_div, UInt32.zero_add]

/-- A header without a byte of the size or of the name that is a marker. -/
theorem exists_headerByte_ne : ∀ o < 32, 0 < o → (o < 19 ∨ 23 ≤ o) →
    ∃ b ∈ headerByte (List.replicate 10 'A'.toUInt8) 0 o, b ≠ sectorUsed := by
  decide +kernel

/-- **Smaller sectors** are not clear of the headers, if a file fits. -/
theorem Opened.clear_of_room (ho : Opened part mem) (hr : Room part 0 mem)
    (hc : ∀ filename size h, Found part mem (usedSectors part size) h →
      HeaderClear part size mem h filename) : ClearOfHeader part := by
  have h₂ := ho.two_le
  obtain ⟨i, hi, hfree⟩ := hr
  have hlen : runLength part 0 = 2 := by
    rw [runLength, show (0 : UInt32).toNat = 0 from rfl, Nat.zero_div]
  rw [hlen] at hi hfree
  have hone : (1 : UInt32).toNat = 1 := rfl
  have hfit : Fits part mem 1 i := by
    intro a ha
    rw [hone] at ha
    rw [ho.marker_ofNat (by omega)]
    exact hfree a (by omega)
  -- the first run that fits
  have hblock : i < part.blockSize.toNat := by
    have hle := ho.mul_le (show i + 1 ≤ part.sectorCount.toNat by omega)
    have := Nat.le_mul_of_pos_right (i + 1) (show 0 < part.sectorSize.toNat by omega)
    omega
  obtain ⟨j, hj, hmin⟩ : ∃ j, Fits part mem 1 j ∧ ∀ k < j, ¬ Fits part mem 1 k := by
    classical
    exact ⟨Nat.find ⟨i, hfit⟩, Nat.find_spec _, fun k hk => Nat.find_min _ hk⟩
  have hji : j ≤ i := Nat.not_lt.mp fun hlt => hmin i hlt hfit
  have hfound := Found.first j (by omega) hj hmin
  rw [show (1 : UInt32) = usedSectors part 0 from usedSectors_zero.symm] at hfound
  by_contra hclear
  have hss : part.sectorSize.toNat < 32 ∧
      (part.sectorSize.toNat < 19 ∨ 23 ≤ part.sectorSize.toNat) := by
    rw [ClearOfHeader] at hclear
    omega
  obtain ⟨b, hb, hne⟩ := exists_headerByte_ne _ hss.1 (by omega) hss.2
  refine hne ((hc (List.replicate 10 'A'.toUInt8) 0 _ hfound).run 1 Nat.one_pos ?_ b ?_)
  · rw [usedSectors_zero, hone]
  · rwa [show UInt32.ofNat 1 = 1 from rfl, UInt32.one_mul]

/-- An offset with no field of a new file. -/
theorem headerByte_eq_none {filename : List UInt8} {o : ℕ} (ho : 32 ≤ o ∨ 19 ≤ o ∧ o ≤ 22) :
    headerByte filename size o = none := by
  rw [headerByte, if_neg (by omega), if_neg (by omega), if_neg (by omega), if_neg (by omega),
    if_neg (by omega)]

/-- The count of the sectors does not wrap around. -/
theorem one_le_usedSectors (hss : 3 ≤ part.sectorSize.toNat) (size : UInt32) :
    1 ≤ (usedSectors part size).toNat := by
  have hone : (1 : UInt32).toNat = 1 := rfl
  have hlt := part.sectorSize.toNat_lt
  have hsub : (part.sectorSize - 1).toNat = part.sectorSize.toNat - 1 := by
    rw [UInt32.toNat_sub, hone]
    omega
  have hdiv : size.toNat / (part.sectorSize.toNat - 1) ≤ size.toNat / 2 :=
    Nat.div_le_div_left (by omega) (by omega)
  have hsize := size.toNat_lt
  rw [usedSectors, UInt32.toNat_add, UInt32.toNat_div, hsub, hone,
    Nat.mod_eq_of_lt (by omega)]
  exact Nat.le_add_left 1 _

/-- A marker lies beside the fields of a header, where the geometry is clear. -/
theorem ClearOfHeader.mul (hc : ClearOfHeader part) {k : ℕ} (hk : 0 < k) :
    32 ≤ k * part.sectorSize.toNat ∨
      19 ≤ k * part.sectorSize.toNat ∧ k * part.sectorSize.toNat ≤ 22 := by
  rcases Nat.lt_or_ge 1 k with hlt | hle
  · have := Nat.mul_le_mul_right part.sectorSize.toNat hlt
    rcases hc with hc | ⟨h₁, h₂⟩ <;> omega
  · rw [show k = 1 by omega, Nat.one_mul]
    exact hc

/-- **Larger sectors**, and those with a marker at the reference count, are clear of the headers, if
nothing behind the last sector looks free. -/
theorem Opened.headerClear (ho : Opened part mem) (hn : NoFreeBehind part mem)
    (hclear : ClearOfHeader part) (hf : Found part mem (usedSectors part size) h)
    (filename : List UInt8) : HeaderClear part size mem h filename := by
  have hss : 19 ≤ part.sectorSize.toNat := by rcases hclear with h | h <;> omega
  have hlt := part.blockSize.toNat_lt
  have hcount : part.sectorCount.toNat < part.blockSize.toNat ∨ part.blockSize.toNat = 0 := by
    rw [ho.sectorCount_eq]
    rcases Nat.eq_zero_or_pos part.blockSize.toNat with h0 | hpos
    · exact Or.inr h0
    · exact Or.inl (Nat.div_lt_self hpos (by omega))
  cases hf with
  | flag hpos hnone hlast =>
    -- the last stride lies behind the last sector
    rcases Nat.eq_zero_or_pos (part.blockSize.toNat - 1) with h0 | hpos'
    · rw [h0, Fs.marker_ofNat (by omega)] at hlast
      exact absurd hlast ho.device
    · exact absurd hlast (hn _ (by omega) hpos' (by omega))
  | first j hj hfit hmin =>
    obtain ⟨hpos, hrun⟩ := ho.lt_of_fits hn hj hfit
    have hone : (1 : UInt32).toNat = 1 := rfl
    have hmul : ∀ i ≤ part.sectorCount.toNat,
        (UInt32.ofNat i * part.sectorSize).toNat = i * part.sectorSize.toNat := fun i hi =>
      ofNat_mul_toNat ((ho.mul_le hi).trans_lt hlt)
    refine ⟨fun k hk hle b hb => ?_, fun i hi b hb => ?_⟩
    · rw [hmul k (by omega), headerByte_eq_none (hclear.mul hk)] at hb
      exact absurd hb (Option.not_mem_none _)
    · have hij : i ≠ j := by
        rintro rfl
        exact hi.2 0 (Nat.zero_le _) runMarker_zero.symm
      rw [headerByte_eq_none] at hb
      · exact absurd hb (Option.not_mem_none _)
      · have hi' := hi.1
        have hused := one_le_usedSectors (show 3 ≤ part.sectorSize.toNat by omega) size
        have hjle := ho.mul_le (show j + 2 ≤ part.sectorCount.toNat by omega)
        have hile := ho.mul_le (show i ≤ part.sectorCount.toNat by omega)
        rw [UInt32.toNat_sub, hmul i (by omega), hmul j (by omega)]
        rw [Nat.add_mul] at hjle
        rcases Nat.lt_or_ge i j with hij' | hij'
        · -- the sectors in front of the header
          refine Or.inl ?_
          have hlt' := Nat.mul_lt_mul_of_pos_right hij' (show 0 < part.sectorSize.toNat by omega)
          rw [Nat.mod_eq_of_lt (by omega)]
          omega
        · obtain ⟨d, rfl⟩ := Nat.exists_eq_add_of_le hij'
          have hd := hclear.mul (show 0 < d by omega)
          rw [Nat.add_mul] at hile ⊢
          rw [show 2 ^ 32 - j * part.sectorSize.toNat +
            (j * part.sectorSize.toNat + d * part.sectorSize.toNat) =
              d * part.sectorSize.toNat + 2 ^ 32 by omega, Nat.add_mod_right,
            Nat.mod_eq_of_lt (by omega)]
          exact hd

end Opened

/-! ## The devices that are accepted -/

section Accepted

variable {address : UInt32} {mem : Memory}

/-- With sectors of one byte a release divides by zero. -/
theorem Usable.sectorSize_ne_one {part : Partition} (hu : Usable part mem) :
    part.sectorSize ≠ 1 := by
  intro hone
  obtain ⟨mem', hfree⟩ := hu.release 0
  have hzero : part.sectorSize - 1 = 0 := by rw [hone, UInt32.sub_self]
  rw [fsFree, dataSectors, if_pos hzero] at hfree
  cases hfree

/-- **A device that `fsDeviceOpen` accepts is usable** if and only if its sectors have more than one
byte and the headers lie clear of the markers wherever the scan finds room. For a device with room
for a file, and nothing behind its last sector that looks free, this is a matter of the sector size
alone. -/
theorem usable_iff (hne : (fsDeviceOpen address mem).sectorSize ≠ 0) :
    (Usable (fsDeviceOpen address mem) mem ↔ SoundGeometry (fsDeviceOpen address mem) mem) ∧
      (Room (fsDeviceOpen address mem) 0 mem → NoFreeBehind (fsDeviceOpen address mem) mem →
        (Usable (fsDeviceOpen address mem) mem ↔
          (fsDeviceOpen address mem).sectorSize ≠ 1 ∧
            ClearOfHeader (fsDeviceOpen address mem))) := by
  refine ⟨⟨fun hu => ?_, fun hs => ?_⟩, fun hr hn => ⟨fun hu => ?_, fun hc => ?_⟩⟩
  · have ho := opened_fsDeviceOpen hne hu.sectorSize_ne_one
    exact ⟨hu.sectorSize_ne_one, ho.usable_iff_clear.mp hu⟩
  · exact (opened_fsDeviceOpen hne hs.sectorSize_ne_one).usable_iff_clear.mpr hs.clear
  · have ho := opened_fsDeviceOpen hne hu.sectorSize_ne_one
    exact ⟨hu.sectorSize_ne_one, ho.clear_of_room hr (ho.usable_iff_clear.mp hu)⟩
  · have ho := opened_fsDeviceOpen hne hc.1
    exact ho.usable_iff_clear.mpr fun filename size h hf => ho.headerClear hn hc.2 hf filename

/-- A device with the capacity and the sector size, whose bytes from 40 on are free. -/
def deviceOf (capacity sectorSize : UInt8) : Memory := fun a =>
  if a = 0 then 0x13 else if a = 1 then 'f'.toUInt8 else if a = 2 then 's'.toUInt8
  else if a = 12 then capacity else if a = 20 then sectorSize
  else if 40 ≤ a ∧ a < capacity.toUInt32 then sectorFree else 0

/-- A device of twelve sectors of eight bytes, the last seven free. -/
def eightBytes : Memory := deviceOf 96 8

/-- A device of five sectors of twenty bytes, the last three free. -/
def twentyBytes : Memory := deviceOf 100 20

/-- `usable_iff` for sectors of twenty bytes, where the only marker under a header lies at its reference
count, and for sectors of eight bytes. -/
theorem usable_iff_twentyBytes : Usable (fsDeviceOpen 0 twentyBytes) twentyBytes ∧
    ¬ Usable (fsDeviceOpen 0 eightBytes) eightBytes := by
  have hfree₂₀ : ∀ i < 100, 5 ≤ i →
      marker (fsDeviceOpen 0 twentyBytes) twentyBytes (UInt32.ofNat i) ≠ sectorFree := by
    decide +kernel
  have hfree₈ : ∀ i < 96, 12 ≤ i →
      marker (fsDeviceOpen 0 eightBytes) eightBytes (UInt32.ofNat i) ≠ sectorFree := by
    decide +kernel
  have hopen₂₀ : fsDeviceOpen 0 twentyBytes = ⟨0, 100, 5, 20⟩ := by decide +kernel
  have hopen₈ : fsDeviceOpen 0 eightBytes = ⟨0, 96, 12, 8⟩ := by decide +kernel
  constructor
  · refine ((usable_iff (by decide +kernel)).2 (by decide +kernel) fun i hle _ hlt => ?_).mpr ?_
    · rw [hopen₂₀] at hle hlt
      exact hfree₂₀ i hlt hle
    · rw [ClearOfHeader, hopen₂₀]
      decide
  · intro h
    have hclear := (((usable_iff (by decide +kernel)).2 (by decide +kernel) fun i hle _ hlt => ?_).mp
      h).2
    · rw [ClearOfHeader, hopen₈] at hclear
      exact absurd hclear (by decide)
    · rw [hopen₈] at hle hlt
      exact hfree₈ i hlt hle

/-- Not every device that is accepted is usable: with sectors of eight bytes, the name of a file
lies on the marker of its second sector. -/
theorem not_usable : ¬ ∀ (address : UInt32) (mem : Memory),
    (fsDeviceOpen address mem).sectorSize ≠ 0 → Usable (fsDeviceOpen address mem) mem := by
  intro h
  obtain ⟨handle, mem', hcreate, hrun⟩ :=
    (h 0 eightBytes (by decide +kernel)).create (chars ['a']) 0
  have hhandle : (fsFileCreate (fsDeviceOpen 0 eightBytes) (chars ['a']) 0 eightBytes).map
      Prod.fst = .ok 40 := by decide +kernel
  have hbyte : (fsFileCreate (fsDeviceOpen 0 eightBytes) (chars ['a']) 0 eightBytes).map
      (fun r => r.2 48) = .ok ' '.toUInt8 := by decide +kernel
  rw [hcreate] at hhandle hbyte
  obtain rfl : handle = 40 := Except.ok.inj hhandle
  have hbyte' : mem' 48 = ' '.toUInt8 := Except.ok.inj hbyte
  have hused := (hrun (by decide)).used 1 Nat.one_pos (by decide +kernel)
  have haddress : (fsDeviceOpen 0 eightBytes).blockAddress +
      runMarker (fsDeviceOpen 0 eightBytes) 40 1 = 48 := by decide +kernel
  rw [haddress, hbyte'] at hused
  exact absurd hused (by decide)

end Accepted

end MicroKernel.Fs
