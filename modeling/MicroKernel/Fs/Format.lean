import MicroKernel.Fs.Links
import MicroKernel.Fs.Session

/-!
# Opening a formatted device

What a format writes is what an open reads. The root directory takes the first sectors behind the
device header, so its handle is the sector size, and the getter that reads the sector size for it
reads it all the same.

## Main results

* `fsAllocate_formatHeader`, `fsDirectoryCreate_formatHeader`: where the root directory goes
* `fsDeviceOpen_eq`: which device headers are opened
* `fsDeviceOpen_of_format`: opening a device just formatted
-/

namespace MicroKernel.Fs

open Store

section Format

variable {part : Partition} {mem mem' : Memory}

/-- On a device of three sectors or more the root directory takes the second and the third. -/
theorem fsAllocate_formatHeader (hp : part.Formatted) (hthree : 3 ≤ part.sectorCount.toNat)
    {root : FileHandle} (heq : fsAllocate part 30 (formatHeader part mem) = .ok (root, mem')) :
    root = part.sectorSize := by
  have hss := hp.le_sectorSize
  have hlt := part.blockSize.toNat_lt
  have hsize := part.sectorSize.toNat_lt
  have hmul := hp.mul_le hthree
  have hmarker : ∀ i, 0 < i → i < part.sectorCount.toNat →
      sectorMarker part (formatHeader part mem) i = sectorFree := by
    intro i hpos hi
    have hle := hp.mul_le hi.le
    rw [sectorMarker_formatHeader hp (by omega), if_neg hpos.ne', if_pos hi]
  have h0 : sectorMarker part (formatHeader part mem) 0 ≠ sectorFree := by
    rw [sectorMarker_formatHeader hp (by omega), if_pos rfl]
    decide
  have hlen : runLength part 30 = 2 := by
    have h30 : (30 : UInt32).toNat = 30 := rfl
    rw [runLength, h30, Nat.div_eq_of_lt (by omega)]
  have hfree : FreeRun part (formatHeader part mem) 1 (runLength part 30) := by
    intro k hk
    exact hmarker _ (by omega) (by omega)
  obtain ⟨i, hpos, -, -, hmin, hroom⟩ := fsAllocate_of_room hp h0 ⟨1, by omega, hfree⟩
  have hi : i = 1 := by
    by_contra hne
    exact hmin 1 (by omega) hfree
  rw [heq, hi, Except.ok.injEq, Prod.mk.injEq, Nat.one_mul, UInt32.ofNat_toNat] at hroom
  exact hroom.1

variable (part) in
/-- The bytes a format writes behind the creation of the root directory. -/
theorem agreeOff_deviceFields (root : DirectoryHandle) (mem : Memory) :
    AgreeOff part.blockAddress (Set.Ico 16 24) mem (setWord part 0 deviceOffsetSectSz part.sectorSize
      (setWord part 0 deviceOffsetRoot root mem)) := by
  have h0 : (0 : UInt32).toNat + 32 ≤ 2 ^ 32 := by decide
  have hroot : field 0 deviceOffsetRoot 4 ⊆ Set.Ico 16 24 := Set.Ico_subset_Ico (by decide) (by decide)
  have hsect : field 0 deviceOffsetSectSz 4 ⊆ Set.Ico 16 24 :=
    Set.Ico_subset_Ico (by decide) (by decide)
  exact ((agreeOff_setWord h0 (by decide)).mono hroot).trans
    ((agreeOff_setWord h0 (by decide)).mono hsect)

variable (part mem) in
/-- The device header before the root directory is created. -/
theorem deviceHeader_formatHeader :
    view part.blockAddress (formatHeader part mem) 0 = 0x13 ∧
      view part.blockAddress (formatHeader part mem) 1 = 'f'.toUInt8 ∧
      view part.blockAddress (formatHeader part mem) 2 = 's'.toUInt8 ∧
      getWord part 0 deviceOffsetCapacity (formatHeader part mem) = part.blockSize := by
  have h0 : (0 : UInt32).toNat + 32 ≤ 2 ^ 32 := by decide
  have htype : deviceOffsetType.toNat = 11 := rfl
  have hcapacity : deviceOffsetCapacity.toNat = 12 := rfl
  have hbyte : ∀ o < 3, view part.blockAddress (formatHeader part mem) o =
      deviceHeaderString.getD o 0 := by
    intro o ho
    have hset : ∀ m : Memory, AgreeOff part.blockAddress (field 0 deviceOffsetCapacity 4) m
        (setWord part 0 deviceOffsetCapacity part.blockSize m) :=
      fun m => agreeOff_setWord h0 (by decide)
    rw [formatHeader, view_update _ (by omega), if_neg (by omega), hset _ _ (by omega),
      view_deviceHeader (by omega), if_pos (by omega)]
    rintro ⟨h, -⟩
    have : (0 : UInt32).toNat = 0 := rfl
    omega
  refine ⟨hbyte 0 (by decide), hbyte 1 (by decide), hbyte 2 (by decide), ?_⟩
  rw [formatHeader, getWord_of_agreeOff (S := {11}) (agreeOff_update _ (by rw [htype]; rfl)) h0
    (by decide), getWord_setWord h0 (by decide)]
  rintro o ⟨h, -⟩ rfl
  have : (0 : UInt32).toNat = 0 := rfl
  omega

/-- **The root directory of a device just formatted**: the only file there. -/
theorem fsDirectoryCreate_formatHeader (hp : part.Formatted) (hthree : 3 ≤ part.sectorCount.toNat)
    (mem : Memory) : ∃ mem',
      fsDirectoryCreate part (chars ['r', 'o', 'o', 't']) (formatHeader part mem) =
        .ok (part.sectorSize, mem') ∧
      Owned part mem' (Function.update (fun _ => none) part.sectorSize (some 30)) ∧
      AgreeOff part.blockAddress (runBytes part part.sectorSize 30) (formatHeader part mem) mem' ∧
      fsDirectoryGetReferenceCount part part.sectorSize mem' = 0 ∧
      fsFileGetAttributes part part.sectorSize mem' = chars [' ', 'r', 'w', 'd'] := by
  have ho₀ : Owned part (formatHeader part mem) fun _ => none := owned_formatHeader hp
  have hroom : Room part 30 (formatHeader part mem) := by
    have h30 : (30 : UInt32).toNat = 30 := rfl
    have hss := hp.le_sectorSize
    have hlen : runLength part 30 = 2 := by
      rw [runLength, h30, Nat.div_eq_of_lt (by omega)]
    exact ⟨1, by omega, fun k hk => ho₀.free _ (by omega) (by omega) (by simp)⟩
  -- the first sector behind the device header begins the root directory
  obtain ⟨root, m₁, halloc, hne, -, ho₁, ha₁⟩ := ho₀.allocate hp hroom
  obtain rfl : root = part.sectorSize := fsAllocate_formatHeader hp hthree halloc
  have hself : Function.update (fun _ => none) part.sectorSize (some 30) part.sectorSize =
      some (30 : UInt32) := Function.update_self ..
  have hhead : part.sectorSize.toNat + 32 ≤ 2 ^ 32 := by
    have hrun := ho₁.run_le hp hself
    have hh := header_le hp (ho₁.run_le_pow hp hself)
    have hlt := part.blockSize.toNat_lt
    omega
  have hfile : fsFileCreate part (chars ['r', 'o', 'o', 't']) 30 (formatHeader part mem) =
      .ok (part.sectorSize, _) := fsFileCreate_eq halloc hne
  have ha₂ : AgreeOff part.blockAddress (headerFields part.sectorSize) m₁
      (directoryHeader part part.sectorSize
        (initHeader part part.sectorSize (chars ['r', 'o', 'o', 't']) m₁)) :=
    (agreeOff_initHeader _ _ hhead).trans
      ((agreeOff_directoryHeader hhead part _).mono linkFields_subset_headerFields)
  have hlinks := links_directoryHeader part hhead
    (initHeader part part.sectorSize (chars ['r', 'o', 'o', 't']) m₁)
  exact ⟨_, fsDirectoryCreate_eq hfile, ho₁.of_agreeOff hp hself (ha₂.mono (headerFields_subset hp 30)),
    ha₁.trans (ha₂.mono ((headerFields_subset hp 30).trans contentBytes_subset)),
    congrArg Links.count hlinks, congrArg Links.attributes hlinks⟩

/-- **A device header is opened** when it has the magic bytes, a size and a sector size. -/
theorem fsDeviceOpen_eq (hp : part.Formatted) (hsize : part.blockSize ≠ 0)
    (h₀ : view part.blockAddress mem 0 = 0x13) (h₁ : view part.blockAddress mem 1 = 'f'.toUInt8)
    (h₂ : view part.blockAddress mem 2 = 's'.toUInt8)
    (hcapacity : getWord part 0 deviceOffsetCapacity mem = part.blockSize)
    (hsect : getWord part 0 deviceOffsetSectSz mem = part.sectorSize) :
    fsDeviceOpen part.blockAddress mem = part := by
  have hsector : part.sectorSize ≠ 0 := by
    have hss := hp.le_sectorSize
    intro h
    rw [h] at hss
    exact absurd hss (by decide)
  have hfirst : mem part.blockAddress = view part.blockAddress mem 0 := by
    rw [view, show UInt32.ofNat 0 = 0 from rfl, UInt32.add_zero]
  have haccept : ¬ (mem part.blockAddress ≠ 0x13 ∨ mem (part.blockAddress + 1) ≠ 'f'.toUInt8 ∨
      mem (part.blockAddress + 2) ≠ 's'.toUInt8 ∨ part.blockSize = 0 ∨ part.sectorSize = 0) := by
    simp only [not_or, not_not]
    exact ⟨hfirst.trans h₀, h₁, h₂, hsize, hsector⟩
  have hsz : fsDeviceGetSize ⟨part.blockAddress, 0, 0, 0⟩ mem = part.blockSize := hcapacity
  have hsc : fsDeviceGetSectorSize ⟨part.blockAddress, 0, 0, 0⟩ mem = part.sectorSize := hsect
  rw [fsDeviceOpen]
  simp only [hsz, hsc]
  rw [if_neg haccept, ← hp.sectorCount_eq]

/-- **A device just formatted** opens as it was formatted, with the root directory that the format
created: it lies in the partition, is empty, and every sector behind the header and besides its own
is free. -/
theorem fsDeviceOpen_of_format (p : Partition) (beginning ending sectorSize : UInt32) (mem : Memory)
    (hpart : formatted p beginning ending sectorSize = part) (hss : 32 ≤ sectorSize.toNat)
    (hthree : 3 ≤ part.sectorCount.toNat) :
    ∃ mem' root, fsDeviceFormat p beginning ending sectorSize mem = .ok (part, mem') ∧
      fsDeviceOpen p.blockAddress mem' = part ∧
      (∃ mem₁, fsDirectoryCreate part (chars ['r', 'o', 'o', 't']) (formatHeader part mem) =
        .ok (root, mem₁)) ∧
      fsDeviceGetRootDirectory part mem' = root ∧ getWord part 0 deviceOffsetRoot mem' = root ∧
      runBytes part root 30 ⊆ Set.Ico part.sectorSize.toNat part.blockSize.toNat ∧
      fsDirectoryGetReferenceCount part root mem' = 0 ∧
      fsFileGetAttributes part root mem' = chars [' ', 'r', 'w', 'd'] ∧
      ∀ i, 0 < i → i < part.sectorCount.toNat →
        i * part.sectorSize.toNat ∉ runBytes part root 30 →
          sectorMarker part mem' i = sectorFree := by
  have hp : part.Formatted := by
    subst hpart
    exact ⟨hss, rfl⟩
  have hsize := hp.le_sectorSize
  have hlt := part.blockSize.toNat_lt
  have h0 : (0 : UInt32).toNat + 32 ≤ 2 ^ 32 := by decide
  have hzero : (0 : UInt32).toNat = 0 := rfl
  have hmul := hp.mul_le hthree
  -- the root directory is created
  obtain ⟨m₂, hcreate, ho₂, ha, hcount, hattributes⟩ :=
    fsDirectoryCreate_formatHeader hp hthree mem
  have hself : Function.update (fun _ => none) part.sectorSize (some 30) part.sectorSize =
      some (30 : UInt32) := Function.update_self ..
  have hrun := ho₂.run_le hp hself
  have hh := header_le hp (ho₂.run_le_pow hp hself)
  have hhead : part.sectorSize.toNat + 32 ≤ 2 ^ 32 := by omega
  -- and then the last fields of the device header
  have ha₃ := agreeOff_deviceFields part part.sectorSize m₂
  have hsect : getWord part 0 deviceOffsetSectSz (setWord part 0 deviceOffsetSectSz part.sectorSize
      (setWord part 0 deviceOffsetRoot part.sectorSize m₂)) = part.sectorSize :=
    getWord_setWord h0 (by decide)
  have hroot : getWord part 0 deviceOffsetRoot (setWord part 0 deviceOffsetSectSz part.sectorSize
      (setWord part 0 deviceOffsetRoot part.sectorSize m₂)) = part.sectorSize := by
    rw [getWord_setWord_of_ne h0 (by decide) (by decide) (by decide), getWord_setWord h0 (by decide)]
  have ho₃ := ho₂.of_agreeOff_device hp (ha₃.mono fun o ho => ⟨by have := ho.1; omega, by
    have := ho.2; omega⟩)
  obtain ⟨m₃, hm₃⟩ : ∃ m₃, setWord part 0 deviceOffsetSectSz part.sectorSize
    (setWord part 0 deviceOffsetRoot part.sectorSize m₂) = m₃ := ⟨_, rfl⟩
  rw [hm₃] at ha₃ hsect hroot ho₃
  have hlinks₃ : links part part.sectorSize m₃ = links part part.sectorSize m₂ := by
    refine links_of_agreeOff hhead ha₃ (Set.disjoint_left.mpr fun o ho ho' => ?_)
    have h₁ := (linkFields_subset_headerFields ho).1
    have h₂ := ho'.2
    omega
  refine ⟨m₃, part.sectorSize, ?_, ?_, ⟨m₂, hcreate⟩, hsect, hroot, fun o ho => ?_,
    (congrArg Links.count hlinks₃).trans hcount,
    (congrArg Links.attributes hlinks₃).trans hattributes, fun i hpos hi hout => ?_⟩
  · have hnonzero : sectorSize ≠ 0 := by
      rintro rfl
      exact absurd hss (by decide)
    rw [fsDeviceFormat, if_neg hnonzero]
    simp only [hpart, hcreate]
    exact congrArg (fun m => Except.ok (part, m)) hm₃
  · -- the first sixteen bytes stay from the loop over the sectors on
    have hstay : ∀ o < 16, view part.blockAddress m₃ o =
        view part.blockAddress (formatHeader part mem) o := by
      intro o ho
      rw [ha₃ o (by omega) (by rintro ⟨h, -⟩; omega), ha o (by omega) (by rintro ⟨h, -⟩; omega)]
    obtain ⟨hb₀, hb₁, hb₂, hcapacity⟩ := deviceHeader_formatHeader part mem
    have hsizeWord : getWord part 0 deviceOffsetCapacity m₃ = part.blockSize := by
      have hoff : deviceOffsetCapacity.toNat = 12 := rfl
      rw [getWord_of_agreeOff ha₃ h0 (by decide), getWord_of_agreeOff ha h0 (by decide), hcapacity]
      · rintro o ⟨-, h⟩ ⟨h', -⟩
        omega
      · rintro o ⟨-, h⟩ ⟨h', -⟩
        omega
    have hlarge : part.blockSize ≠ 0 := by
      intro h
      rw [h] at hmul
      omega
    have hbase : p.blockAddress = part.blockAddress := by
      rw [← hpart]
      rfl
    rw [hbase]
    exact fsDeviceOpen_eq hp hlarge ((hstay 0 (by decide)).trans hb₀)
      ((hstay 1 (by decide)).trans hb₁) ((hstay 2 (by decide)).trans hb₂) hsizeWord hsect
  · exact ⟨by have := ho.1; omega, by have := ho.2; omega⟩
  · -- the root directory is the only file
    refine ho₃.free i hpos hi fun h size hl => ?_
    obtain ⟨rfl, rfl⟩ : h = part.sectorSize ∧ size = 30 := by
      by_cases heq : h = part.sectorSize
      · rw [heq, Function.update_self, Option.some_inj] at hl
        exact ⟨heq, hl.symm⟩
      · rw [Function.update_of_ne heq] at hl
        cases hl
    exact hout

/-- `fsDeviceOpen_of_format` for the device `kInit` formats. -/
theorem fsDeviceOpen_of_format_kInit :
    ∃ mem' root, fsDeviceFormat ⟨0, 0, 0, 0⟩ 0 32768 32 (fun _ => 0) =
        .ok (formatted ⟨0, 0, 0, 0⟩ 0 32768 32, mem') ∧
      fsDeviceOpen 0 mem' = formatted ⟨0, 0, 0, 0⟩ 0 32768 32 ∧
      fsDeviceGetRootDirectory (formatted ⟨0, 0, 0, 0⟩ 0 32768 32) mem' = root := by
  obtain ⟨mem', root, heq, hopen, -, hroot, -⟩ :=
    fsDeviceOpen_of_format ⟨0, 0, 0, 0⟩ 0 32768 32 (fun _ => 0) rfl (by decide) (by decide)
  exact ⟨mem', root, heq, hopen, hroot⟩

end Format

end MicroKernel.Fs
