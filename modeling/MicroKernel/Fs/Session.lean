import MicroKernel.Fs.Ownership
import MicroKernel.Lib.Run

/-!
# Sessions of file operations

Runs of file operations on a formatted device. Where no byte behind the last sector looks like a
free sector, an allocation finds its sectors in the partition or fails, and every run keeps the
ownership of the sectors.

## Main definitions

* `NoFreeBehind`: no sector stride behind the partition is free
* `FileOp`, `Session`, `fileStep`: the operations, and their effect on the file system and the
  files
* `FileAllowed`: the operations a session may take

## Main results

* `room_or_fsAllocate_eq_zero`: an allocation finds room in the partition or fails
* `owned_format`: a formatted device is owned by its root directory
* `owned_of_session`: every session keeps ownership
-/

namespace MicroKernel.Fs

open Store

/-- The addresses of the scan do not wrap around. -/
def Partition.NoWrap (part : Partition) : Prop :=
  part.blockAddress.toNat + (part.blockSize.toNat - 1) * part.sectorSize.toNat < 2 ^ 32

/-- No byte at a sector stride behind the last sector is `SECTOR_FREE`. -/
def NoFreeBehind (part : Partition) (mem : Memory) : Prop :=
  ∀ i, part.sectorCount.toNat ≤ i → 0 < i → i < part.blockSize.toNat →
    marker part mem (UInt32.ofNat i) ≠ sectorFree

section Behind

variable {part : Partition} {mem mem' : Memory} {size : UInt32}

theorem Partition.NoWrap.mul_lt (hw : part.NoWrap) {i : ℕ} (hi : i < part.blockSize.toNat) :
    i * part.sectorSize.toNat < 2 ^ 32 := by
  have hle := Nat.mul_le_mul_right part.sectorSize.toNat
    (show i ≤ part.blockSize.toNat - 1 by omega)
  rw [Partition.NoWrap] at hw
  omega

/-- Writes in the partition leave what lies behind it. -/
theorem NoFreeBehind.of_agreeOff (hw : part.NoWrap) (hn : NoFreeBehind part mem) {S : Set ℕ}
    (ha : AgreeOff part.blockAddress S mem mem')
    (hS : ∀ i, part.sectorCount.toNat ≤ i → 0 < i → i * part.sectorSize.toNat ∉ S) :
    NoFreeBehind part mem' := by
  intro i hi hpos hlt
  have hmul := hw.mul_lt hlt
  rw [marker_ofNat hmul, sectorMarker, ha _ hmul (hS i hi hpos)]
  rw [← sectorMarker, ← marker_ofNat hmul]
  exact hn i hi hpos hlt

/-- **An allocation** finds room in the partition or fails. -/
theorem room_or_fsAllocate_eq_zero (size : UInt32) (hp : part.Formatted)
    (h0 : sectorMarker part mem 0 ≠ sectorFree)
    (hn : NoFreeBehind part mem) :
    Room part size mem ∨ fsAllocate part size mem = .ok (0, mem) := by
  have hss := hp.le_sectorSize
  have hbehind : ∀ i, part.sectorCount.toNat ≤ i → i < part.blockSize.toNat →
      marker part mem (UInt32.ofNat i) ≠ sectorFree := by
    intro i hi hlt
    rcases Nat.eq_zero_or_pos i with rfl | hpos
    · rw [marker_ofNat (by omega)]
      exact h0
    · exact hn i hi hpos hlt
  -- there are more strides than sectors
  have hcount : part.blockSize ≠ 0 → part.sectorCount.toNat < part.blockSize.toNat := by
    intro hne
    have hmul := hp.mul_le le_rfl
    have hlarge := Nat.mul_le_mul_left part.sectorCount.toNat hss
    have hpos : 0 < part.blockSize.toNat :=
      Nat.pos_of_ne_zero fun h => hne (UInt32.toNat_inj.mp h)
    omega
  by_cases hr : Room part size mem
  · exact Or.inl hr
  · refine Or.inr (fsAllocate_of_not_fits hp (fun i hi hfit => ?_) fun hne => ?_)
    · by_cases hin : i + runLength part size ≤ part.sectorCount.toNat
      · exact hr ⟨i, hin, (fits_iff_freeRun hp hin).mp hfit⟩
      · have hlen := div_add_toNat hp size (k := 1) (by decide)
        have hone : (1 : UInt32).toNat = 1 := rfl
        by_cases hlt : i < part.sectorCount.toNat
        · have hfree := hfit (part.sectorCount.toNat - i) (by omega)
          rw [show i + (part.sectorCount.toNat - i) = part.sectorCount.toNat by omega] at hfree
          exact hbehind _ le_rfl (hcount fun h => by simp [h] at hi) hfree
        · exact hbehind i (by omega) hi hfit.marker_eq
    · have hlt := hcount hne
      have hsub : part.blockSize - 1 = UInt32.ofNat (part.blockSize.toNat - 1) := by
        apply UInt32.toNat_inj.mp
        have := part.blockSize.toNat_lt
        rw [UInt32.toNat_sub, UInt32.toNat_ofNat']
        show (2 ^ 32 - 1 + part.blockSize.toNat) % 2 ^ 32 = _
        omega
      rw [hsub]
      exact hbehind _ (by omega) (by omega)

/-- Writes to the run of a file leave what lies behind the partition. -/
theorem NoFreeBehind.of_run (hw : part.NoWrap) (hn : NoFreeBehind part mem)
    {live : Files} {h : FileHandle} {mem₀ : Memory} (ho : Owned part mem₀ live)
    (hl : live h = some size) (ha : AgreeOff part.blockAddress (runBytes part h size) mem mem') :
    NoFreeBehind part mem' := by
  refine hn.of_agreeOff hw ha fun i hi _ hmem => ?_
  obtain ⟨j, -, hle, hj⟩ := ho.aligned h size hl
  have h₂ := hmem.2
  rw [hj, ← Nat.add_mul] at h₂
  have := Nat.lt_of_mul_lt_mul_right h₂
  omega

end Behind

/-! ## Formatting -/

section Format

variable {part : Partition} {mem mem' : Memory}

/-- Writes to the device header keep ownership. -/
theorem Owned.of_agreeOff_device (hp : part.Formatted) {live : Files} (ho : Owned part mem live)
    (ha : AgreeOff part.blockAddress {o | 0 < o ∧ o < 32} mem mem') : Owned part mem' live := by
  have hss := hp.le_sectorSize
  -- neither a marker nor a run lies in the device header
  have hmarker : ∀ i, i * part.sectorSize.toNat ∉ {o | 0 < o ∧ o < 32} := by
    rintro i ⟨h₁, h₂⟩
    rcases Nat.eq_zero_or_pos i with rfl | hpos
    · omega
    · have := Nat.mul_le_mul_right part.sectorSize.toNat (show 1 ≤ i from hpos)
      omega
  have hrun : ∀ h size, live h = some size →
      Disjoint {o | 0 < o ∧ o < 32} (runBytes part h size) := by
    intro h size hl
    have hle := ho.run_le hp hl
    rw [Set.disjoint_left]
    rintro o ⟨-, h₁⟩ ⟨h₂, -⟩
    omega
  refine ⟨?_, ho.aligned, fun h size hl => ?_, ho.disjoint, fun i hpos hi hnone => ?_⟩
  · rw [sectorMarker, ha _ (by omega) (hmarker 0)]
    exact ho.device
  · have hle := ho.run_le_pow hp hl
    refine (ho.marked h size hl).of_agreeOff hp hle ha (fun k hk => ?_) fun o hof => ?_
    · exact Set.disjoint_right.mp (hrun h size hl)
        ⟨by omega, by have := (mem_runBytes hp hle hk).2; omega⟩
    · exact Set.disjoint_right.mp (hrun h size hl) (sizeField_subset hp hof)
  · have hle := hp.mul_le (show i + 1 ≤ part.sectorCount.toNat from hi)
    have := part.blockSize.toNat_lt
    rw [Nat.add_mul] at hle
    rw [sectorMarker, ha _ (by omega) (hmarker i)]
    exact ho.free i hpos hi hnone

theorem NoFreeBehind.of_agreeOff_device (hp : part.Formatted) (hw : part.NoWrap)
    (hn : NoFreeBehind part mem)
    (ha : AgreeOff part.blockAddress {o | 0 < o ∧ o < 32} mem mem') : NoFreeBehind part mem' := by
  refine hn.of_agreeOff hw ha fun i _ hpos hmem => ?_
  have hss := hp.le_sectorSize
  have := Nat.mul_le_mul_right part.sectorSize.toNat (show 1 ≤ i from hpos)
  have := hmem.2
  omega

/-- The bytes of the device header besides its first. -/
theorem field_device_subset {offset : UInt32} {n : ℕ} (hpos : 0 < offset.toNat)
    (hn : offset.toNat + n ≤ 32) : field 0 offset n ⊆ {o | 0 < o ∧ o < 32} := by
  rintro o ⟨h₁, h₂⟩
  have : (0 : UInt32).toNat = 0 := rfl
  exact ⟨by omega, by omega⟩

/-- The loop over the header string. -/
theorem view_deviceHeader {o : ℕ} (ho : o < 2 ^ 32) :
    view part.blockAddress (writeEach (fun i => part.blockAddress + 0 + UInt32.ofNat i)
        (fun i => deviceHeaderString.getD i 0) (List.range deviceHeaderString.length) mem) o =
      if o < 11 then deviceHeaderString.getD o 0 else view part.blockAddress mem o := by
  have hzero : (0 : UInt32).toNat = 0 := rfl
  have hlen : deviceHeaderString.length = 11 := rfl
  rw [view_writeEach_range (n := deviceHeaderString.length) _ (by rw [hlen]; decide) ho, hzero,
    hlen]
  exact if_congr (by omega) rfl rfl

/-- The markers and the header bytes of a formatted device. -/
theorem sectorMarker_formatHeader (hp : part.Formatted) {i : ℕ}
    (hi : i * part.sectorSize.toNat < 2 ^ 32) :
    sectorMarker part (formatHeader part mem) i =
      if i = 0 then 0x13 else if i < part.sectorCount.toNat then sectorFree
      else sectorMarker part mem i := by
  have hss := hp.le_sectorSize
  have hpos : ∀ {j}, 0 < j → 32 ≤ j * part.sectorSize.toNat := fun {j} hj => by
    have := Nat.mul_le_mul_right part.sectorSize.toNat (show 1 ≤ j from hj)
    omega
  have hword : ∀ m : Memory, AgreeOff part.blockAddress (field 0 deviceOffsetCapacity 4) m
      (setWord part 0 deviceOffsetCapacity part.blockSize m) :=
    fun m => agreeOff_setWord (by decide) (by decide)
  have hnotMem : i * part.sectorSize.toNat ∉ field 0 deviceOffsetCapacity 4 := by
    rintro ⟨h₁, h₂⟩
    have : deviceOffsetCapacity.toNat = 12 := rfl
    have : (0 : UInt32).toNat = 0 := rfl
    rcases Nat.eq_zero_or_pos i with rfl | hi0
    · omega
    · have := hpos hi0
      omega
  have htype : i * part.sectorSize.toNat ≠ deviceOffsetType.toNat := by
    have : deviceOffsetType.toNat = 11 := rfl
    rcases Nat.eq_zero_or_pos i with rfl | hi0
    · omega
    · have := hpos hi0
      omega
  -- the header fields lie between two markers, so only the loop over the sectors writes one
  rw [sectorMarker, formatHeader, view_update _ hi, if_neg htype, hword _ _ hi hnotMem,
    view_deviceHeader hi]
  rcases Nat.eq_zero_or_pos i with rfl | hi0
  · rw [Nat.zero_mul]
    rfl
  · have := hpos hi0
    rw [if_neg (by omega), if_neg (by omega : i ≠ 0)]
    split
    · next hlt =>
      rw [← ofNat_mul_toNat hi, view_toNat]
      exact writeEach_const ⟨i, List.mem_range.mpr hlt, rfl⟩
    · next hge =>
      refine view_writeEach_of_forall_ne hi fun j hj he => ?_
      rw [List.mem_range] at hj
      have hle := Nat.mul_le_mul_right part.sectorSize.toNat (show j ≤ i by omega)
      rw [ofNat_mul_toNat (by omega)] at he
      have := Nat.eq_of_mul_eq_mul_right (by omega) he
      omega

/-- The sectors of a formatted device are free. -/
theorem owned_formatHeader (hp : part.Formatted) :
    Owned part (formatHeader part mem) fun _ => none := by
  refine ⟨?_, by simp, by simp, by simp, fun i hpos hi _ => ?_⟩
  · rw [sectorMarker_formatHeader hp (by omega), if_pos rfl]
    decide
  · have hle := hp.mul_le hi.le
    have := part.blockSize.toNat_lt
    rw [sectorMarker_formatHeader hp (by omega), if_neg hpos.ne', if_pos hi]

theorem noFreeBehind_formatHeader (hp : part.Formatted) (hw : part.NoWrap)
    (hn : NoFreeBehind part mem) : NoFreeBehind part (formatHeader part mem) := by
  intro i hi hpos hlt
  have hmul := hw.mul_lt hlt
  rw [marker_ofNat hmul, sectorMarker_formatHeader hp hmul, if_neg hpos.ne', if_neg (by omega),
    ← marker_ofNat hmul]
  exact hn i hi hpos hlt

/-- A creation that fails leaves the memory, and a directory's writes to the device header. -/
theorem owned_fsDirectoryCreate (hp : part.Formatted) {live : Files} (ho : Owned part mem live)
    (hr : Room part 30 mem ∨ fsAllocate part 30 mem = .ok (0, mem)) (filename : List UInt8) :
    ∃ h mem', fsDirectoryCreate part filename mem = .ok (h, mem') ∧
      (h = 0 ∧ Owned part mem' live ∧
          AgreeOff part.blockAddress {o | 0 < o ∧ o < 32} mem mem' ∨
        h ≠ 0 ∧ live h = none ∧ Owned part mem' (Function.update live h (some 30)) ∧
          AgreeOff part.blockAddress (runBytes part h 30) mem mem') := by
  have hset : ∀ {h : FileHandle} {m : Memory}, h.toNat + 32 ≤ 2 ^ 32 →
      AgreeOff part.blockAddress (headerFields h) m
        (fsFileSetAttributes part h (chars [' ', 'r', 'w', 'd'])
          (fsDirectorySetReferenceCount part h 0 m)) := by
    intro h m hh
    refine ((agreeOff_setWord hh (by decide)).mono ?_).trans
      ((agreeOff_fsFileSetAttributes hh).mono ?_)
    all_goals exact field_subset_headerFields (by decide) (by decide)
  rcases hr with hr | hfail
  · obtain ⟨h, -, mem₁, heq, hne, hnone, -, ho₁, ha₁⟩ := ho.create hp hr filename
    have hl : Function.update live h (some 30) h = some 30 := Function.update_self ..
    have hh : h.toNat + 32 ≤ 2 ^ 32 := by
      have hrun := ho₁.run_le_pow hp hl
      have := header_le hp hrun
      omega
    have ha₂ := (hset (m := mem₁) hh).mono (headerFields_subset hp 30)
    refine ⟨h, _, ?_, Or.inr ⟨hne, hnone, ho₁.of_agreeOff hp hl ha₂,
      ha₁.trans (ha₂.mono contentBytes_subset)⟩⟩
    rw [fsDirectoryCreate, heq]
    rfl
  · have ha : AgreeOff part.blockAddress {o | 0 < o ∧ o < 32} mem _ :=
      (hset (h := 0) (m := mem) (by decide)).mono fun o ho => ⟨Nat.zero_lt_of_lt ho.1, by
        simpa using ho.2.1⟩
    refine ⟨0, _, ?_, Or.inl ⟨rfl, ho.of_agreeOff_device hp ha, ha⟩⟩
    rw [fsDirectoryCreate, fsFileCreate_eq_zero hfail]
    rfl

/-- The files of a device just formatted: its root directory, if there was room for it. -/
def formatFiles (part : Partition) (mem : Memory) : Files :=
  let root := getWord part 0 deviceOffsetRoot mem
  fun h => if h = root ∧ root ≠ 0 then some 30 else none

theorem formatFiles_eq {root : FileHandle} (hroot : getWord part 0 deviceOffsetRoot mem = root) :
    formatFiles part mem =
      if root = 0 then fun _ => none else Function.update (fun _ => none) root (some 30) := by
  funext h
  rw [formatFiles, hroot]
  by_cases h0 : root = 0
  · simp [h0]
  · by_cases heq : h = root <;> simp [h0, heq]

/-- The bytes a formatted device writes behind its markers and its header string: those of the
device header, and sectors of the partition. -/
def formatBytes (part : Partition) : Set ℕ :=
  {o | 0 < o ∧ (o < 32 ∨ o < part.sectorCount.toNat * part.sectorSize.toNat)}

/-- **A formatted device** is owned by its root directory, if there is room for that in the
partition, and else by no file. -/
theorem owned_format (hp : part.Formatted) (hr : Room part 30 (formatHeader part mem) ∨
      fsAllocate part 30 (formatHeader part mem) = .ok (0, formatHeader part mem))
    {beginning ending sectorSize : UInt32} {p : Partition}
    (hpart : formatted p beginning ending sectorSize = part) :
    ∃ mem', fsDeviceFormat p beginning ending sectorSize mem = .ok (part, mem') ∧
      Owned part mem' (formatFiles part mem') ∧
      AgreeOff part.blockAddress (formatBytes part) (formatHeader part mem) mem' := by
  have hne : sectorSize ≠ 0 := by
    rintro rfl
    have hss := hp.le_sectorSize
    rw [← hpart] at hss
    have : 32 ≤ (0 : UInt32).toNat := hss
    exact absurd this (by decide)
  obtain ⟨root, mem₁, heq, hcases⟩ :=
    owned_fsDirectoryCreate hp (owned_formatHeader hp) hr (chars ['r', 'o', 'o', 't'])
  have h0 : (0 : UInt32).toNat + 32 ≤ 2 ^ 32 := by decide
  -- behind the creation of the root, two words of the device header are set
  have hset : AgreeOff part.blockAddress {o | 0 < o ∧ o < 32} mem₁
      (setWord part 0 deviceOffsetSectSz part.sectorSize (setWord part 0 deviceOffsetRoot root mem₁)) :=
    ((agreeOff_setWord h0 (by decide)).mono (field_device_subset (by decide) (by decide))).trans
      ((agreeOff_setWord h0 (by decide)).mono (field_device_subset (by decide) (by decide)))
  have hroot : getWord part 0 deviceOffsetRoot (setWord part 0 deviceOffsetSectSz part.sectorSize
      (setWord part 0 deviceOffsetRoot root mem₁)) = root := by
    rw [getWord_of_agreeOff (agreeOff_setWord h0 (by decide)) h0 (by decide),
      getWord_setWord h0 (by decide)]
    rintro o ⟨h₁, h₂⟩ ⟨h₃, h₄⟩
    have : deviceOffsetRoot.toNat = 16 := rfl
    have : deviceOffsetSectSz.toNat = 20 := rfl
    omega
  have hheader : {o | 0 < o ∧ o < 32} ⊆ formatBytes part := fun o ho => ⟨ho.1, Or.inl ho.2⟩
  refine ⟨setWord part 0 deviceOffsetSectSz part.sectorSize
    (setWord part 0 deviceOffsetRoot root mem₁), ?_, ?_, ?_⟩
  · simp only [fsDeviceFormat, if_neg hne, hpart, heq]
    rfl
  · rw [formatFiles_eq hroot]
    rcases hcases with ⟨hr0, ho, -⟩ | ⟨hr0, -, ho, -⟩
    · rw [if_pos hr0]
      exact ho.of_agreeOff_device hp hset
    · rw [if_neg hr0]
      exact ho.of_agreeOff_device hp hset
  · rcases hcases with ⟨-, -, ha⟩ | ⟨-, -, ho, ha⟩
    · exact (ha.mono hheader).trans (hset.mono hheader)
    · -- the run of the root directory is of sectors of the partition
      refine (ha.mono fun o hmem => ?_).trans (hset.mono hheader)
      obtain ⟨i, hpos, hle, hi⟩ := ho.aligned root 30 (Function.update_self ..)
      have hss := hp.le_sectorSize
      have h₁ := Nat.mul_le_mul_right part.sectorSize.toNat (show 1 ≤ i from hpos)
      have h₂ := Nat.mul_le_mul_right part.sectorSize.toNat hle
      rw [Nat.add_mul] at h₂
      exact ⟨by have := hmem.1; omega, Or.inr (by have := hmem.2; omega)⟩

end Format

/-! ## Sessions -/

/-- The header setters with their arguments. -/
inductive Setter where
  | name (filename : List UInt8)
  | attributes (bytes : List UInt8)
  | flag (index state : UInt8)
  | parentAddress (parent : UInt32)
  | nextAddress (next : UInt32)
  | referenceCount (count : UInt32)

def Setter.apply (part : Partition) (handle : FileHandle) : Setter → Memory → Memory
  | .name filename => fsFileSetName part handle filename
  | .attributes bytes => fsFileSetAttributes part handle bytes
  | .flag index state => fsFileSetFlag part handle index state
  | .parentAddress parent => fsFileSetParentAddress part handle parent
  | .nextAddress next => fsFileSetNextAddress part handle next
  | .referenceCount count => fsDirectorySetReferenceCount part handle count

inductive FileOp where
  | create (filename : List UInt8) (size : UInt32)
  | delete (handle : FileHandle)
  | openFile (handle : FileHandle)
  | write (index : File) (buffer : List UInt8) (size : UInt32)
  | close (index : File)
  | set (handle : FileHandle) (setter : Setter)

/-- A file system, and the files created and not deleted in it. -/
structure Session where
  fs : FileSystem
  live : Files

/-- Every slot of the open table is closed. -/
def Session.start (mem : Memory) (live : Files) : Session where
  fs := { memory := mem, fileList := fun _ => 0, fileSize := fun _ => 0 }
  live := live

/-- The effect of an operation. -/
def fileStep (part : Partition) : FileOp → Session → Except Fault Session
  | .create filename size, s => do
    let (handle, memory) ← fsFileCreate part filename size s.fs.memory
    return { fs := { s.fs with memory }
             live := if handle = 0 then s.live else Function.update s.live handle (some size) }
  | .delete handle, s => do
    let (_, memory) ← fsFileDelete part handle s.fs.memory
    return { fs := { s.fs with memory }, live := Function.update s.live handle none }
  | .openFile handle, s => do
    let (_, fs) ← fsFileOpen part handle s.fs
    return { s with fs }
  | .write index buffer size, s => do
    let (_, fs) ← fsFileWrite part index buffer size s.fs
    return { s with fs }
  | .close index, s => do
    let (_, fs) ← fsFileClose index s.fs
    return { s with fs }
  | .set handle setter, s =>
    return { s with fs := { s.fs with memory := setter.apply part handle s.fs.memory } }

/-- The operations of a session: handles are those of files, a file is not deleted while it is
open, at most 16 files are open, an index is in the open table or refused, and the buffer of a write
holds the bytes. -/
def FileAllowed (part : Partition) : FileOp → Session → Prop
  | .create _ _, _ => True
  | .delete handle, s => s.live handle ≠ none ∧ ∀ i, s.fs.fileList i ≠ part.blockAddress + handle
  | .openFile handle, s => s.live handle ≠ none ∧ ∃ i, s.fs.fileList i = 0
  | .write index buffer size, _ => index ≠ 16 ∧ size.toNat ≤ buffer.length
  | .close index, _ => index ≠ 16
  | .set handle _, s => s.live handle ≠ none

instance (part : Partition) : ∀ op s, Decidable (FileAllowed part op s)
  | .create _ _, _ => .isTrue trivial
  | .delete _, _ | .openFile _, _ | .write _ _ _, _ => inferInstanceAs (Decidable (_ ∧ _))
  | .close index, _ => inferInstanceAs (Decidable (index ≠ 16))
  | .set _ _, _ => inferInstanceAs (Decidable (_ ≠ _))

/-- An open slot holds the address and the size of a file. -/
def OpenTable (part : Partition) (s : Session) : Prop :=
  ∀ i, s.fs.fileList i ≠ 0 → ∃ h size, s.live h = some size ∧
    s.fs.fileList i = part.blockAddress + h ∧ s.fs.fileSize i = size

/-- The invariant of sessions. -/
structure SessionInv (part : Partition) (s : Session) : Prop where
  owned : Owned part s.fs.memory s.live
  behind : NoFreeBehind part s.fs.memory
  opened : OpenTable part s

section Sessions

variable {part : Partition} {s : Session} {h : FileHandle} {size : UInt32} {mem : Memory}

/-- The setters write header fields only. -/
theorem agreeOff_setter (hh : h.toNat + 32 ≤ 2 ^ 32) (setter : Setter) :
    AgreeOff part.blockAddress (headerFields h) mem (setter.apply part h mem) := by
  cases setter with
  | name => refine AgreeOff.mono (agreeOff_fsFileSetName hh) (field_subset_headerFields ?_ ?_) <;>
      decide
  | attributes =>
    refine AgreeOff.mono (agreeOff_fsFileSetAttributes hh) (field_subset_headerFields ?_ ?_) <;>
      decide
  | flag =>
    refine AgreeOff.mono (agreeOff_setFlagByte hh) (field_subset_headerFields ?_ ?_) <;> decide
  | parentAddress | nextAddress | referenceCount =>
    refine AgreeOff.mono (agreeOff_setWord hh ?_) (field_subset_headerFields ?_ ?_) <;> decide

/-- Writes to the content of a file keep the invariant. -/
theorem SessionInv.of_agreeOff (hp : part.Formatted) (hw : part.NoWrap) (hs : SessionInv part s)
    (hl : s.live h = some size)
    (ha : AgreeOff part.blockAddress (contentBytes part h size) s.fs.memory mem) :
    SessionInv part { s with fs := { s.fs with memory := mem } } :=
  ⟨hs.owned.of_agreeOff hp hl ha,
    hs.behind.of_run hw hs.owned hl (ha.mono contentBytes_subset), hs.opened⟩

theorem sessionInv_create (hp : part.Formatted) (hw : part.NoWrap) (hs : SessionInv part s)
    (filename : List UInt8) (size : UInt32) :
    ∃ t, fileStep part (.create filename size) s = .ok t ∧ SessionInv part t := by
  rcases room_or_fsAllocate_eq_zero size hp hs.owned.device hs.behind with hr | hfail
  · obtain ⟨h, -, mem, heq, hne, hnone, -, ho, ha⟩ := hs.owned.create hp hr filename
    refine ⟨⟨{ s.fs with memory := mem }, Function.update s.live h (some size)⟩, ?_, ho,
      hs.behind.of_run hw ho (Function.update_self ..) ha, fun i hi => ?_⟩
    · simp only [fileStep, heq]
      show Except.ok _ = _
      rw [if_neg hne]
    · obtain ⟨h', size', hl', haddr, hsize⟩ := hs.opened i hi
      refine ⟨h', size', ?_, haddr, hsize⟩
      show Function.update s.live h (some size) h' = some size'
      rw [Function.update_of_ne, hl']
      rintro rfl
      rw [hnone] at hl'
      cases hl'
  · refine ⟨s, ?_, hs⟩
    simp only [fileStep, fsFileCreate_eq_zero hfail]
    rfl

theorem sessionInv_delete (hp : part.Formatted) (hw : part.NoWrap) (hs : SessionInv part s)
    (ha : FileAllowed part (.delete h) s) :
    ∃ t, fileStep part (.delete h) s = .ok t ∧ SessionInv part t := by
  obtain ⟨hl, hclosed⟩ := ha
  obtain ⟨size, hl⟩ := Option.ne_none_iff_exists'.mp hl
  obtain ⟨mem, heq, ho, ha⟩ := hs.owned.delete hp hl
  refine ⟨⟨{ s.fs with memory := mem }, Function.update s.live h none⟩, ?_, ho,
    hs.behind.of_run hw hs.owned hl ha, fun i hi => ?_⟩
  · simp only [fileStep, heq]
    rfl
  · obtain ⟨h', size', hl', haddr, hsize⟩ := hs.opened i hi
    refine ⟨h', size', ?_, haddr, hsize⟩
    show Function.update s.live h none h' = some size'
    rw [Function.update_of_ne, hl']
    rintro rfl
    exact hclosed i haddr

theorem sessionInv_openFile (hs : SessionInv part s) (ha : FileAllowed part (.openFile h) s) :
    ∃ t, fileStep part (.openFile h) s = .ok t ∧ SessionInv part t := by
  obtain ⟨hl, hslot⟩ := ha
  obtain ⟨size, hl⟩ := Option.ne_none_iff_exists'.mp hl
  have hm := hs.owned.marked h size hl
  have hmark : s.fs.memory (part.blockAddress + h) = sectorHeader := view_toNat.symm.trans hm.header
  have hne : s.fs.memory (part.blockAddress + h) ≠ sectorFree := by
    rw [hmark]
    decide
  obtain ⟨i, -, -, heq⟩ := fsFileOpen_eq_ok hslot hne
  rw [hm.size_eq] at heq
  refine ⟨{ s with fs := s.fs.setSlot i (part.blockAddress + h) size }, ?_, hs.owned, hs.behind,
    fun j hj => ?_⟩
  · simp only [fileStep, heq]
    rfl
  · by_cases hij : j = i
    · subst hij
      exact ⟨h, size, hl, Function.update_self .., Function.update_self ..⟩
    · obtain ⟨h', size', hl', haddr, hsize⟩ := hs.opened j (by simpa [hij] using hj)
      exact ⟨h', size', hl', (Function.update_of_ne hij ..).trans haddr,
        (Function.update_of_ne hij ..).trans hsize⟩

theorem sessionInv_write (hp : part.Formatted) (hw : part.NoWrap) (hs : SessionInv part s)
    {index : File} {buffer : List UInt8} (ha : FileAllowed part (.write index buffer size) s) :
    ∃ t, fileStep part (.write index buffer size) s = .ok t ∧ SessionInv part t := by
  rcases fsFileWrite_eq_ok part s.fs ha.1 ha.2 with heq | ⟨i, -, hi, hacc, heq⟩
  · exact ⟨s, by simp only [fileStep, heq]; rfl, hs⟩
  · obtain ⟨h, size', hl, haddr, hsize⟩ := hs.opened i hi
    have hss : 2 ≤ part.sectorSize.toNat := (by decide : 2 ≤ 32).trans hp.le_sectorSize
    rw [hsize] at hacc
    have htr := agreeOff_transfer hss (hs.owned.run_le_pow hp hl) s.fs.memory buffer
      (lt_of_accepted hacc).1
    rw [← haddr] at htr
    exact ⟨_, by simp only [fileStep, heq]; rfl,
      hs.of_agreeOff hp hw hl (htr.mono (dataBytes_subset hp))⟩

theorem sessionInv_close (hs : SessionInv part s) {index : File} (ha : index ≠ 16) :
    ∃ t, fileStep part (.close index) s = .ok t ∧ SessionInv part t := by
  rcases fsFileClose_eq_ok s.fs ha with heq | ⟨i, -, -, heq⟩
  · exact ⟨s, by simp only [fileStep, heq]; rfl, hs⟩
  · refine ⟨{ s with fs := s.fs.setSlot i 0 0 }, ?_, hs.owned, hs.behind, fun j hj => ?_⟩
    · simp only [fileStep, heq]
      rfl
    · by_cases hij : j = i
      · subst hij
        exact absurd (Function.update_self ..) hj
      · obtain ⟨h', size', hl', haddr, hsize⟩ := hs.opened j (by simpa [hij] using hj)
        exact ⟨h', size', hl', (Function.update_of_ne hij ..).trans haddr,
          (Function.update_of_ne hij ..).trans hsize⟩

/-- An allowed operation does not fail and keeps the invariant. -/
theorem sessionInv_fileStep (hp : part.Formatted) (hw : part.NoWrap) (op : FileOp) (s : Session)
    (hs : SessionInv part s) (ha : FileAllowed part op s) :
    ∃ t, fileStep part op s = .ok t ∧ SessionInv part t := by
  cases op with
  | create filename size => exact sessionInv_create hp hw hs filename size
  | delete handle => exact sessionInv_delete hp hw hs ha
  | openFile handle => exact sessionInv_openFile hs ha
  | write index buffer size => exact sessionInv_write hp hw hs ha
  | close index => exact sessionInv_close hs ha
  | set handle setter =>
    obtain ⟨size, hl⟩ := Option.ne_none_iff_exists'.mp ha
    have hrun := hs.owned.run_le_pow hp hl
    have hhead := header_le hp hrun
    exact ⟨_, rfl, hs.of_agreeOff hp hw hl
      ((agreeOff_setter (by omega) setter).mono (headerFields_subset hp _))⟩

/-- **Every session on a device just formatted** keeps the ownership of its sectors: no operation
fails, and afterwards every file owns the run of its sectors, with its size as it was created, and
every other sector but the first is free. -/
theorem owned_of_session {p : Partition} {beginning ending sectorSize : UInt32}
    (hss : 32 ≤ sectorSize.toNat) (hpart : formatted p beginning ending sectorSize = part)
    (hw : part.NoWrap) (hn : NoFreeBehind part mem) :
    ∃ mem', fsDeviceFormat p beginning ending sectorSize mem = .ok (part, mem') ∧
      ∀ ops, Run.Legal (fileStep part) (FileAllowed part) ops
          (.start mem' (formatFiles part mem')) →
        ∃ s, Run.exec (fileStep part) ops (.start mem' (formatFiles part mem')) = .ok s ∧
          Owned part s.fs.memory s.live := by
  have hp : part.Formatted := by
    subst hpart
    exact ⟨hss, rfl⟩
  have hbehind := noFreeBehind_formatHeader hp hw hn
  obtain ⟨mem', heq, ho, ha⟩ := owned_format hp
    (room_or_fsAllocate_eq_zero 30 hp (owned_formatHeader hp).device hbehind) hpart
  refine ⟨mem', heq, fun ops hl => ?_⟩
  have hinv : SessionInv part (.start mem' (formatFiles part mem')) := by
    refine ⟨ho, hbehind.of_agreeOff hw ha fun i hi hpos hmem => ?_, fun i hi => absurd rfl hi⟩
    have h₁ := Nat.mul_le_mul_right part.sectorSize.toNat hi
    have h₂ := Nat.mul_le_mul_right part.sectorSize.toNat (show 1 ≤ i from hpos)
    have := hp.le_sectorSize
    obtain ⟨-, h₃ | h₃⟩ := hmem <;> omega
  obtain ⟨s, hs, hinv'⟩ := Run.exec_legal (sessionInv_fileStep hp hw) hinv hl
  exact ⟨s, hs, hinv'.owned⟩

/-- A partition of five sectors. -/
def fiveSectors : Partition := formatted ⟨0, 0, 0, 0⟩ 0 160 32

/-- The memory of the device just formatted. -/
def fiveSectorsMemory : Memory :=
  match fsDeviceFormat ⟨0, 0, 0, 0⟩ 0 160 32 fun _ => 0 with
  | .ok (_, mem) => mem
  | .error _ => fun _ => 0

/-- A file is opened, written to, closed and deleted, and another takes its sectors. -/
def fiveSectorsOps : List FileOp :=
  [.create (chars ['a']) 30, .openFile 96, .write 0 [7, 8] 2, .close 0, .delete 96,
    .create (chars ['b']) 30]

/-- `owned_of_session` for a device of five sectors. -/
theorem owned_of_session_fiveSectors :
    ∃ mem', fsDeviceFormat ⟨0, 0, 0, 0⟩ 0 160 32 (fun _ => 0) = .ok (fiveSectors, mem') ∧
      ∃ s, Run.exec (fileStep fiveSectors) fiveSectorsOps
          (.start mem' (formatFiles fiveSectors mem')) = .ok s ∧
        Owned fiveSectors s.fs.memory s.live ∧ s.live 96 = some 30 ∧ s.fs.memory 129 = 7 := by
  have hn : NoFreeBehind fiveSectors fun _ => 0 := by
    intro i _ _ _
    show (0 : UInt8) ≠ sectorFree
    decide
  obtain ⟨mem', hformat, h⟩ := owned_of_session (by decide)
    (show formatted ⟨0, 0, 0, 0⟩ 0 160 32 = fiveSectors from rfl) (by decide :
      fiveSectors.blockAddress.toNat + (fiveSectors.blockSize.toNat - 1) * _ < _) hn
  obtain rfl : mem' = fiveSectorsMemory := by rw [fiveSectorsMemory, hformat]
  obtain ⟨s, hs, ho⟩ := h fiveSectorsOps (by decide +kernel)
  have hend : (Run.exec (fileStep fiveSectors) fiveSectorsOps
      (.start fiveSectorsMemory (formatFiles fiveSectors fiveSectorsMemory))).map
        (fun s => (s.live 96, s.fs.memory 129)) = .ok (some 30, 7) := by decide +kernel
  rw [hs] at hend
  obtain ⟨hlive, hbyte⟩ := Prod.mk.inj (Except.ok.inj hend)
  exact ⟨fiveSectorsMemory, hformat, s, hs, ho, hlive, hbyte⟩

end Sessions

end MicroKernel.Fs
