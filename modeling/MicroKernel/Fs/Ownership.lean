import MicroKernel.Fs.Device

/-!
# Ownership of sectors

The files of a partition own disjoint runs of its sectors, and the other sectors are free. The
operations on files keep this, as long as an allocation does not leave the partition.

## Main definitions

* `Files`: the handles of the files of a partition, with their sizes
* `Owned`: every file owns its run, and no sector is lost

## Main results

* `Owned.allocate`, `Owned.release`: an allocation adds a file, a release removes one
* `Owned.of_agreeOff`: writes to the content of a file keep ownership
-/

namespace MicroKernel.Fs

open Store

/-- The handles of the files, each with the size it was created with. -/
abbrev Files := FileHandle → Option UInt32

/-- Every file of `live` owns the sectors of its run, marked and with its size recorded; the runs
are disjoint, lie in the partition and leave sector 0, and the other sectors are free. -/
structure Owned (part : Partition) (mem : Memory) (live : Files) : Prop where
  device : sectorMarker part mem 0 ≠ sectorFree
  aligned : ∀ h size, live h = some size → ∃ i, 0 < i ∧
    i + runLength part size ≤ part.sectorCount.toNat ∧ h.toNat = i * part.sectorSize.toNat
  marked : ∀ h size, live h = some size → Marked part mem h size
  disjoint : ∀ h size h' size', live h = some size → live h' = some size' → h ≠ h' →
    Disjoint (runBytes part h size) (runBytes part h' size')
  free : ∀ i, 0 < i → i < part.sectorCount.toNat →
    (∀ h size, live h = some size → i * part.sectorSize.toNat ∉ runBytes part h size) →
    sectorMarker part mem i = sectorFree

/-- The bytes of a file that are neither markers nor its size. -/
def contentBytes (part : Partition) (h : FileHandle) (size : UInt32) : Set ℕ :=
  {o | o ∈ runBytes part h size ∧ (o - h.toNat) % part.sectorSize.toNat ≠ 0 ∧
    o ∉ field h fileOffsetSize 4}

section Owned

variable {part : Partition} {mem mem' : Memory} {live : Files} {h h' : FileHandle}
  {size size' : UInt32} {S : Set ℕ}

theorem headerFields_subset (hp : part.Formatted) (size : UInt32) :
    headerFields h ⊆ contentBytes part h size := by
  have hss := hp.le_sectorSize
  have hlen := Nat.mul_le_mul_right part.sectorSize.toNat
    (show 2 ≤ runLength part size from Nat.le_add_left _ _)
  rintro o ⟨h₁, h₂, h₃⟩
  refine ⟨⟨by omega, by omega⟩, ?_, h₃⟩
  rw [Nat.mod_eq_of_lt (by omega)]
  omega

theorem dataBytes_subset (hp : part.Formatted) :
    dataBytes part h size ⊆ contentBytes part h size := by
  have hss := hp.le_sectorSize
  have hsize : fileOffsetSize.toNat = 11 := rfl
  rintro o ⟨h₁, h₂, h₃⟩
  refine ⟨⟨by omega, h₂⟩, h₃, ?_⟩
  rintro ⟨h₄, h₅⟩
  omega

theorem contentBytes_subset : contentBytes part h size ⊆ runBytes part h size := fun _ ho => ho.1

/-- The markers and the size of a file stay when its run does. -/
theorem Marked.of_agreeOff (hp : part.Formatted) (hm : Marked part mem h size)
    (hrun : h.toNat + runLength part size * part.sectorSize.toNat ≤ 2 ^ 32)
    (ha : AgreeOff part.blockAddress S mem mem')
    (hstride : ∀ k < runLength part size, h.toNat + k * part.sectorSize.toNat ∉ S)
    (hsize : ∀ o ∈ field h fileOffsetSize 4, o ∉ S) : Marked part mem' h size := by
  have hlen : 2 ≤ runLength part size := Nat.le_add_left _ _
  have hhead := header_le hp hrun
  refine ⟨?_, fun k hk hlt => ?_, ?_⟩
  · have h0 := hstride 0 (by omega)
    rw [Nat.zero_mul, Nat.add_zero] at h0
    rw [ha _ (by omega) h0, hm.header]
  · have := (mem_runBytes hp hrun hlt).2
    rw [ha _ (by omega) (hstride k hlt), hm.used k hk hlt]
  · rw [← hm.size_eq]
    exact getWord_of_agreeOff ha (by omega) (by decide) hsize

section Member

variable (hp : part.Formatted) (ho : Owned part mem live) (hl : live h = some size)

include hp ho hl

/-- The run of a file lies in the partition, behind the device header. -/
theorem Owned.run_le : part.sectorSize.toNat ≤ h.toNat ∧
    h.toNat + runLength part size * part.sectorSize.toNat ≤ part.blockSize.toNat := by
  obtain ⟨i, hpos, hle, hi⟩ := ho.aligned h size hl
  have := hp.mul_le hle
  have := Nat.mul_le_mul_right part.sectorSize.toNat (show 1 ≤ i from hpos)
  rw [Nat.add_mul] at *
  omega

theorem Owned.run_le_pow : h.toNat + runLength part size * part.sectorSize.toNat ≤ 2 ^ 32 :=
  (ho.run_le hp hl).2.trans part.blockSize.toNat_lt.le

/-- A sector stride inside the run of a file is one of its sectors. -/
theorem Owned.exists_of_mem_run {i : ℕ} (hi : i * part.sectorSize.toNat ∈ runBytes part h size) :
    ∃ k < runLength part size, i * part.sectorSize.toNat = h.toNat + k * part.sectorSize.toNat := by
  obtain ⟨j, -, -, hj⟩ := ho.aligned h size hl
  obtain ⟨h₁, h₂⟩ := hi
  have hss := hp.le_sectorSize
  rw [hj, ← Nat.add_mul] at h₂
  rw [hj] at h₁
  have hji := Nat.le_of_mul_le_mul_right h₁ (by omega)
  have hij := Nat.lt_of_mul_lt_mul_right h₂
  refine ⟨i - j, by omega, ?_⟩
  rw [hj, ← Nat.add_mul]
  congr 1
  omega

omit hp in
/-- No sector of a file is free. -/
theorem Owned.marker_ne_free {k : ℕ} (hk : k < runLength part size) :
    view part.blockAddress mem (h.toNat + k * part.sectorSize.toNat) ≠ sectorFree := by
  have hm := ho.marked h size hl
  rcases Nat.eq_zero_or_pos k with rfl | hpos
  · rw [Nat.zero_mul, Nat.add_zero, hm.header]
    decide
  · rw [hm.used k hpos hk]
    decide

theorem Owned.stride_notMem_content (i : ℕ) :
    i * part.sectorSize.toNat ∉ contentBytes part h size := by
  rintro ⟨hr, hmod, -⟩
  obtain ⟨k, -, hk⟩ := ho.exists_of_mem_run hp hl hr
  rw [hk, Nat.add_sub_cancel_left, Nat.mul_mod_left] at hmod
  exact hmod rfl

end Member

theorem sizeField_subset (hp : part.Formatted) :
    field h fileOffsetSize 4 ⊆ runBytes part h size := by
  have hss := hp.le_sectorSize
  have hsize : fileOffsetSize.toNat = 11 := rfl
  have hlen := Nat.mul_le_mul_right part.sectorSize.toNat
    (show 2 ≤ runLength part size from Nat.le_add_left _ _)
  rintro o ⟨h₁, h₂⟩
  exact ⟨by omega, by omega⟩

/-- **Writes to the content of a file** keep ownership. -/
theorem Owned.of_agreeOff (hp : part.Formatted) (ho : Owned part mem live)
    (hl : live h = some size)
    (ha : AgreeOff part.blockAddress (contentBytes part h size) mem mem') :
    Owned part mem' live := by
  have hss := hp.le_sectorSize
  have hlt := part.blockSize.toNat_lt
  have hstride := ho.stride_notMem_content hp hl
  have hmarker : ∀ i ≤ part.sectorCount.toNat, i * part.sectorSize.toNat < 2 ^ 32 →
      sectorMarker part mem' i = sectorMarker part mem i := fun i _ hi => ha _ hi (hstride i)
  refine ⟨?_, ho.aligned, fun h' size' hl' => ?_, ho.disjoint, fun i hpos hi hnone => ?_⟩
  · rw [hmarker 0 (Nat.zero_le _) (by omega)]
    exact ho.device
  · refine (ho.marked h' size' hl').of_agreeOff hp (ho.run_le_pow hp hl') ha (fun k hk => ?_) ?_
    · obtain ⟨i, -, -, hi⟩ := ho.aligned h' size' hl'
      rw [hi, ← Nat.add_mul]
      exact hstride _
    · intro o hof hoc
      by_cases heq : h' = h
      · subst heq
        exact hoc.2.2 hof
      · exact Set.disjoint_left.mp (ho.disjoint h' size' h size hl' hl heq)
          (sizeField_subset hp hof) hoc.1
  · have hle := hp.mul_le (show i + 1 ≤ part.sectorCount.toNat from hi)
    rw [Nat.add_mul] at hle
    rw [hmarker i hi.le (by omega)]
    exact ho.free i hpos hi hnone

/-- A free run meets the run of no file. -/
theorem Owned.disjoint_freeRun (hp : part.Formatted) (ho : Owned part mem live)
    (hl : live h' = some size') {i : ℕ} (hfree : FreeRun part mem i (runLength part size))
    (hh : h.toNat = i * part.sectorSize.toNat) :
    Disjoint (runBytes part h size) (runBytes part h' size') := by
  have hss := hp.le_sectorSize
  obtain ⟨j, -, -, hj⟩ := ho.aligned h' size' hl
  have hnot : ∀ k < runLength part size, ∀ k' < runLength part size', i + k ≠ j + k' := by
    intro k hk k' hk' he
    have hm := ho.marker_ne_free hl hk'
    rw [hj, ← Nat.add_mul, ← he] at hm
    exact hm (hfree k hk)
  have hlen : 2 ≤ runLength part size := Nat.le_add_left _ _
  have hlen' : 2 ≤ runLength part size' := Nat.le_add_left _ _
  -- of two runs one lies behind the other, or they have a sector in common
  have hapart : i + runLength part size ≤ j ∨ j + runLength part size' ≤ i := by
    by_contra hover
    push Not at hover
    rcases Nat.le_total i j with hij | hji
    · exact hnot (j - i) (by omega) 0 (by omega) (by omega)
    · exact hnot 0 (by omega) (i - j) (by omega) (by omega)
  rw [Set.disjoint_left]
  rintro o ⟨h₁, h₂⟩ ⟨h₃, h₄⟩
  rw [hh, ← Nat.add_mul] at h₂
  rw [hj, ← Nat.add_mul] at h₄
  rcases hapart with hle | hle
  · have := Nat.mul_le_mul_right part.sectorSize.toNat hle
    omega
  · have := Nat.mul_le_mul_right part.sectorSize.toNat hle
    omega

/-- A change of one file's run leaves the others. -/
theorem Owned.marked_of_ne (hp : part.Formatted) (ho : Owned part mem live)
    (hl' : live h' = some size') (hd : Disjoint (runBytes part h size) (runBytes part h' size'))
    (ha : AgreeOff part.blockAddress (runBytes part h size) mem mem') :
    Marked part mem' h' size' := by
  have hrun := ho.run_le_pow hp hl'
  refine (ho.marked h' size' hl').of_agreeOff hp hrun ha (fun k hk => ?_) fun o hof => ?_
  · exact Set.disjoint_right.mp hd ⟨by omega, by have := (mem_runBytes hp hrun hk).2; omega⟩
  · exact Set.disjoint_right.mp hd (sizeField_subset hp hof)

/-- **A run marked in free sectors** is a new file. -/
theorem Owned.insert (hp : part.Formatted) (ho : Owned part mem live) {i : ℕ} (hpos : 0 < i)
    (hle : i + runLength part size ≤ part.sectorCount.toNat)
    (hfree : FreeRun part mem i (runLength part size))
    (hh : h.toNat = i * part.sectorSize.toNat)
    (ha : AgreeOff part.blockAddress (runBytes part h size) mem mem')
    (hm : Marked part mem' h size) :
    live h = none ∧ Owned part mem' (Function.update live h (some size)) := by
  have hss := hp.le_sectorSize
  have hlt := part.blockSize.toNat_lt
  have hlen : 2 ≤ runLength part size := Nat.le_add_left _ _
  -- sectors of live files are not free, so the new run meets none of them
  have hdisj : ∀ {h' size'}, live h' = some size' →
      Disjoint (runBytes part h size) (runBytes part h' size') :=
    fun hl' => ho.disjoint_freeRun hp hl' hfree hh
  have hnone : live h = none := by
    rcases hlive : live h with _ | size'
    · rfl
    · exact absurd (Set.disjoint_left.mp (hdisj hlive) ⟨le_rfl, by
        have := Nat.mul_le_mul_right part.sectorSize.toNat hlen; omega⟩) fun hn => hn ⟨le_rfl, by
        have := Nat.mul_le_mul_right part.sectorSize.toNat
          (show 2 ≤ runLength part size' from Nat.le_add_left _ _)
        omega⟩
  have hcases : ∀ {h' size'}, Function.update live h (some size) h' = some size' →
      h' = h ∧ size' = size ∨ h' ≠ h ∧ live h' = some size' := by
    intro h' size' hl'
    by_cases heq : h' = h
    · subst heq
      rw [Function.update_self, Option.some_inj] at hl'
      exact Or.inl ⟨rfl, hl'.symm⟩
    · rw [Function.update_of_ne heq] at hl'
      exact Or.inr ⟨heq, hl'⟩
  have hone := Nat.mul_le_mul_right part.sectorSize.toNat (show 1 ≤ i from hpos)
  refine ⟨hnone, ?_, ?_, ?_, ?_, ?_⟩
  · rw [sectorMarker, ha _ (by omega)]
    · exact ho.device
    · rintro ⟨h₁, -⟩
      omega
  · intro h' size' hl'
    rcases hcases hl' with ⟨rfl, rfl⟩ | ⟨-, hl'⟩
    · exact ⟨i, hpos, hle, hh⟩
    · exact ho.aligned h' size' hl'
  · intro h' size' hl'
    rcases hcases hl' with ⟨rfl, rfl⟩ | ⟨-, hl'⟩
    · exact hm
    · exact ho.marked_of_ne hp hl' (hdisj hl') ha
  · intro h₁ size₁ h₂ size₂ hl₁ hl₂ hne
    rcases hcases hl₁ with ⟨rfl, rfl⟩ | ⟨-, hl₁'⟩ <;>
      rcases hcases hl₂ with ⟨rfl, rfl⟩ | ⟨-, hl₂'⟩
    · exact absurd rfl hne
    · exact hdisj hl₂'
    · exact (hdisj hl₁').symm
    · exact ho.disjoint _ _ _ _ hl₁' hl₂' hne
  · -- a sector outside the new files is outside the old ones, and is not written
    intro j hj hjlt hout
    have hjnot := hout h size (Function.update_self ..)
    have hmul := hp.mul_le (show j + 1 ≤ part.sectorCount.toNat from hjlt)
    rw [Nat.add_mul] at hmul
    rw [sectorMarker, ha _ (by omega) hjnot]
    refine ho.free j hj hjlt fun h' size' hl' => hout h' size' ?_
    rw [Function.update_of_ne, hl']
    rintro rfl
    rw [hnone] at hl'
    cases hl'

/-- **A run whose sectors are freed** is no longer a file. -/
theorem Owned.erase (hp : part.Formatted) (ho : Owned part mem live) (hl : live h = some size)
    (ha : AgreeOff part.blockAddress (runBytes part h size) mem mem')
    (hfree : ∀ k < runLength part size,
      view part.blockAddress mem' (h.toNat + k * part.sectorSize.toNat) = sectorFree) :
    Owned part mem' (Function.update live h none) := by
  have hss := hp.le_sectorSize
  have hlt := part.blockSize.toNat_lt
  have hrun := ho.run_le hp hl
  have hcases : ∀ {h' size'}, Function.update live h none h' = some size' →
      h' ≠ h ∧ live h' = some size' := by
    intro h' size' hl'
    by_cases heq : h' = h
    · subst heq
      rw [Function.update_self] at hl'
      cases hl'
    · rw [Function.update_of_ne heq] at hl'
      exact ⟨heq, hl'⟩
  refine ⟨?_, ?_, ?_, ?_, ?_⟩
  · rw [sectorMarker, ha _ (by omega)]
    · exact ho.device
    · rintro ⟨h₁, -⟩
      omega
  · exact fun h' size' hl' => ho.aligned h' size' (hcases hl').2
  · intro h' size' hl'
    obtain ⟨hne, hl'⟩ := hcases hl'
    exact ho.marked_of_ne hp hl' (ho.disjoint _ _ _ _ hl hl' hne.symm) ha
  · exact fun h₁ size₁ h₂ size₂ hl₁ hl₂ hne =>
      ho.disjoint _ _ _ _ (hcases hl₁).2 (hcases hl₂).2 hne
  · -- a sector without a file is of the freed run, or was free before
    intro j hj hjlt hout
    have hmul := hp.mul_le (show j + 1 ≤ part.sectorCount.toNat from hjlt)
    rw [Nat.add_mul] at hmul
    by_cases hin : j * part.sectorSize.toNat ∈ runBytes part h size
    · obtain ⟨k, hk, hjk⟩ := ho.exists_of_mem_run hp hl hin
      rw [sectorMarker, hjk]
      exact hfree k hk
    · rw [sectorMarker, ha _ (by omega) hin]
      refine ho.free j hj hjlt fun h' size' hl' => ?_
      by_cases heq : h' = h
      · subst heq
        rw [hl, Option.some_inj] at hl'
        exact hl' ▸ hin
      · exact hout h' size' (by rwa [Function.update_of_ne heq])

/-! ## Operations -/

/-- **An allocation with room** adds a file. -/
theorem Owned.allocate (hp : part.Formatted) (ho : Owned part mem live)
    (hr : Room part size mem) :
    ∃ h mem', fsAllocate part size mem = .ok (h, mem') ∧ h ≠ 0 ∧ live h = none ∧
      Owned part mem' (Function.update live h (some size)) ∧
      AgreeOff part.blockAddress (runBytes part h size) mem mem' := by
  have hss := hp.le_sectorSize
  have hlt := part.blockSize.toNat_lt
  obtain ⟨i, hpos, hle, hfree, -, heq⟩ := fsAllocate_of_room hp ho.device hr
  have hmul := hp.mul_le hle
  have hone := Nat.mul_le_mul_right part.sectorSize.toNat (show 1 ≤ i from hpos)
  rw [Nat.add_mul] at hmul
  have hh : (UInt32.ofNat (i * part.sectorSize.toNat)).toNat = i * part.sectorSize.toNat := by
    rw [UInt32.toNat_ofNat', Nat.mod_eq_of_lt (by omega)]
  have hrun : (UInt32.ofNat (i * part.sectorSize.toNat)).toNat +
      runLength part size * part.sectorSize.toNat ≤ 2 ^ 32 := by omega
  have ha := agreeOff_allocateAt hp hrun mem
  obtain ⟨hnone, ho'⟩ := ho.insert hp hpos hle hfree hh ha (marked_allocateAt hp hrun)
  refine ⟨_, _, heq, ?_, hnone, ho', ha⟩
  intro h0
  rw [h0] at hh
  have : (0 : UInt32).toNat = 0 := rfl
  omega

/-- **A creation with room** adds a file. -/
theorem Owned.create (hp : part.Formatted) (ho : Owned part mem live) (hr : Room part size mem)
    (filename : List UInt8) :
    ∃ h mem₁ mem', fsFileCreate part filename size mem = .ok (h, mem') ∧ h ≠ 0 ∧ live h = none ∧
      mem' = initHeader part h filename mem₁ ∧
      Owned part mem' (Function.update live h (some size)) ∧
      AgreeOff part.blockAddress (runBytes part h size) mem mem' := by
  obtain ⟨h, mem₁, ha, hne, hnone, ho₁, hag⟩ := ho.allocate hp hr
  have hl : Function.update live h (some size) h = some size := Function.update_self ..
  have hh : h.toNat + 32 ≤ 2 ^ 32 := by
    have := ho₁.run_le_pow hp hl
    have := header_le hp this
    omega
  have hinit : AgreeOff part.blockAddress (contentBytes part h size) mem₁
      (initHeader part h filename mem₁) :=
    (agreeOff_initHeader mem₁ filename hh).mono (headerFields_subset hp size)
  exact ⟨h, mem₁, _, fsFileCreate_eq ha hne, hne, hnone, rfl, ho₁.of_agreeOff hp hl hinit,
    hag.trans (hinit.mono contentBytes_subset)⟩

/-- **A deletion** of a file removes it. -/
theorem Owned.delete (hp : part.Formatted) (ho : Owned part mem live) (hl : live h = some size) :
    ∃ mem', fsFileDelete part h mem = .ok (h, mem') ∧
      Owned part mem' (Function.update live h none) ∧
      AgreeOff part.blockAddress (runBytes part h size) mem mem' := by
  obtain ⟨mem', heq, ha, hfree⟩ := fsFree_spec hp (ho.run_le_pow hp hl) (ho.marked h size hl).size_eq
  refine ⟨mem', ?_, ho.erase hp hl ha hfree, ha⟩
  rw [fsFileDelete, heq]
  rfl

end Owned

end MicroKernel.Fs
