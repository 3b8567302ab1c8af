import MicroKernel.Fs.Session

/-!
# Containment in the partition

The scan of `fsAllocate` is over `block_size` strides, not over the sectors, so that an allocation
without room in the partition takes free-looking bytes behind it, if the memory has them there. The
flag of a run that does not fit is also a result: it makes 1 a handle when it is set for the last
stride.

## Main definitions

* `AllocOp`, `Volume`, `allocStep`: creations and deletions
* `Stays`: an allocation finds room in the partition, or nothing that looks like room
* `ContainedStep`, `ContainedRuns`: what is allocated and written lies in the partition

## Main results

* `containedRuns_of_stays`: runs whose allocations all stay are contained
-/

namespace MicroKernel.Fs

open Store

/-- An allocation of `size` bytes finds room in the partition; or no stride starts a run of free
bytes and the last one is not free. -/
def Stays (part : Partition) (size : UInt32) (mem : Memory) : Prop :=
  Room part size mem ∨
    (∀ i < part.blockSize.toNat, ¬ Fits part mem (size / (part.sectorSize - 1) + 1) i) ∧
      (part.blockSize ≠ 0 → marker part mem (part.blockSize - 1) ≠ sectorFree)

instance (part : Partition) (size : UInt32) (mem : Memory) : Decidable (Stays part size mem) :=
  inferInstanceAs (Decidable (_ ∨ _))

inductive AllocOp where
  | create (filename : List UInt8) (size : UInt32)
  | createDirectory (filename : List UInt8)
  | delete (handle : FileHandle)

/-- The size an operation allocates. -/
def AllocOp.size : AllocOp → Option UInt32
  | .create _ size => some size
  | .createDirectory _ => some 30
  | .delete _ => none

/-- A memory, and the files created and not deleted in it. -/
structure Volume where
  memory : Memory
  live : Files

/-- The files after a creation, which failed if its handle is 0. -/
def Files.add (live : Files) (handle : FileHandle) (size : UInt32) : Files :=
  if handle = 0 then live else Function.update live handle (some size)

def allocStep (part : Partition) : AllocOp → Volume → Except Fault Volume
  | .create filename size, v => do
    let (handle, memory) ← fsFileCreate part filename size v.memory
    return { memory, live := v.live.add handle size }
  | .createDirectory filename, v => do
    let (handle, memory) ← fsDirectoryCreate part filename v.memory
    return { memory, live := v.live.add handle 30 }
  | .delete handle, v => do
    let (_, memory) ← fsFileDelete part handle v.memory
    return { memory, live := Function.update v.live handle none }

/-- Only files are deleted. -/
def AllocAllowed : AllocOp → Volume → Prop
  | .delete handle, v => v.live handle ≠ none
  | _, _ => True

/-- Only files are deleted, and every allocation stays. -/
def AllocStays (part : Partition) (op : AllocOp) (v : Volume) : Prop :=
  AllocAllowed op v ∧ ∀ size ∈ op.size, Stays part size v.memory

instance : ∀ op v, Decidable (AllocAllowed op v)
  | .create _ _, _ | .createDirectory _, _ => .isTrue trivial
  | .delete _, _ => inferInstanceAs (Decidable (_ ≠ _))

instance (part : Partition) (op : AllocOp) (v : Volume) : Decidable (AllocStays part op v) :=
  -- not the instance that tries all sizes
  have := Option.decidableForallMem (p := fun size => Stays part size v.memory) op.size
  inferInstanceAs (Decidable (_ ∧ _))

/-- The handle an operation allocates is a sector of the partition, with all its run, and no byte
changes outside the partition. -/
structure ContainedStep (part : Partition) (op : AllocOp) (v v' : Volume) : Prop where
  handle : ∀ size ∈ op.size, ∀ h mem, fsAllocate part size v.memory = .ok (h, mem) → h ≠ 0 →
    part.sectorSize.toNat ∣ h.toNat ∧
      h.toNat + runLength part size * part.sectorSize.toNat ≤ part.blockSize.toNat
  memory : AgreeOff part.blockAddress {o | o < part.blockSize.toNat} v.memory v'.memory

/-- In every run of allowed operations, no operation fails and every step is contained. -/
def ContainedRuns (part : Partition) (allowed : AllocOp → Volume → Prop) (v₀ : Volume) : Prop :=
  ∀ ops, Run.Legal (allocStep part) allowed ops v₀ →
    ∃ v, Run.exec (allocStep part) ops v₀ = .ok v ∧ ∀ op, allowed op v →
      ∃ v', allocStep part op v = .ok v' ∧ ContainedStep part op v v'

section Containment

variable {part : Partition} {mem mem' : Memory} {v : Volume} {size : UInt32} {live : Files}
  {h : FileHandle}

theorem Stays.room_or (hp : part.Formatted) (hs : Stays part size mem) :
    Room part size mem ∨ fsAllocate part size mem = .ok (0, mem) :=
  hs.imp_right fun h => fsAllocate_of_not_fits hp h.1 h.2

/-- The run of a file lies in the partition. -/
theorem Owned.runBytes_subset (hp : part.Formatted) (ho : Owned part mem live)
    (hl : live h = some size) : runBytes part h size ⊆ {o | o < part.blockSize.toNat} :=
  fun _ hmem => hmem.2.trans_le (ho.run_le hp hl).2

/-- A handle that stays is contained. -/
theorem contained_handle (hp : part.Formatted) (ho : Owned part mem live)
    (hs : Stays part size mem) (ha : fsAllocate part size mem = .ok (h, mem')) (hne : h ≠ 0) :
    part.sectorSize.toNat ∣ h.toNat ∧
      h.toNat + runLength part size * part.sectorSize.toNat ≤ part.blockSize.toNat := by
  rcases hs.room_or hp with hr | hfail
  · obtain ⟨h', mem'', heq, -, -, ho', -⟩ := ho.allocate hp hr
    rw [ha, Except.ok.injEq, Prod.mk.injEq] at heq
    obtain ⟨rfl, -⟩ := heq
    have hl : Function.update live h (some size) h = some size := Function.update_self ..
    obtain ⟨i, -, -, hi⟩ := ho'.aligned h size hl
    exact ⟨⟨i, by rw [hi, Nat.mul_comm]⟩, (ho'.run_le hp hl).2⟩
  · rw [ha, Except.ok.injEq, Prod.mk.injEq] at hfail
    exact absurd hfail.1 hne

/-- **A step that stays** does not fail, is contained and keeps ownership. -/
theorem containedStep (hp : part.Formatted) (hcount : part.sectorSize ≤ part.blockSize)
    (op : AllocOp) (v : Volume) (ho : Owned part v.memory v.live) (ha : AllocStays part op v) :
    ∃ v', allocStep part op v = .ok v' ∧ Owned part v'.memory v'.live ∧
      ContainedStep part op v v' := by
  have hss := hp.le_sectorSize
  have hheader : {o | 0 < o ∧ o < 32} ⊆ {o | o < part.blockSize.toNat} := by
    rw [UInt32.le_iff_toNat_le] at hcount
    rintro o ⟨-, h⟩
    exact (h.trans_le hss).trans_le hcount
  have hhandle : ∀ size ∈ op.size, ∀ h mem, fsAllocate part size v.memory = .ok (h, mem) →
      h ≠ 0 → part.sectorSize.toNat ∣ h.toNat ∧
        h.toNat + runLength part size * part.sectorSize.toNat ≤ part.blockSize.toNat :=
    fun size hsize h mem heq hne => contained_handle hp ho (ha.2 size hsize) heq hne
  cases op with
  | create filename size =>
    rcases (ha.2 size rfl).room_or hp with hr | hfail
    · -- only the new file's own run is written
      obtain ⟨h, -, mem, heq, hne, -, -, ho', hag⟩ := ho.create hp hr filename
      refine ⟨⟨mem, v.live.add h size⟩, ?_, ?_, hhandle, ?_⟩
      · simp only [allocStep, heq]
        rfl
      · rw [Files.add, if_neg hne]
        exact ho'
      · exact hag.mono (ho'.runBytes_subset hp (Function.update_self ..))
    · refine ⟨v, ?_, ho, hhandle, .refl _ _⟩
      simp only [allocStep, fsFileCreate_eq_zero hfail]
      rfl
  | createDirectory filename =>
    obtain ⟨h, mem, heq, hcases⟩ := owned_fsDirectoryCreate hp ho ((ha.2 30 rfl).room_or hp) filename
    refine ⟨⟨mem, v.live.add h 30⟩, by simp only [allocStep, heq]; rfl, ?_⟩
    rcases hcases with ⟨h0, ho', hag⟩ | ⟨hne, -, ho', hag⟩
    · -- without room, the device header is written to
      refine ⟨?_, hhandle, hag.mono hheader⟩
      rw [Files.add, if_pos h0]
      exact ho'
    · refine ⟨?_, hhandle, hag.mono (ho'.runBytes_subset hp (Function.update_self ..))⟩
      rw [Files.add, if_neg hne]
      exact ho'
  | delete h =>
    obtain ⟨size, hl⟩ := Option.ne_none_iff_exists'.mp ha.1
    obtain ⟨mem, heq, ho', hag⟩ := ho.delete hp hl
    refine ⟨⟨mem, Function.update v.live h none⟩, ?_, ho', hhandle,
      hag.mono (ho.runBytes_subset hp hl)⟩
    simp only [allocStep, heq]
    rfl

/-- **Runs whose allocations stay** are contained, on every device formatted in any memory: each
allocation, that of the root directory included, finds room in the partition or nothing that looks
like room, and the partition has a whole sector. -/
theorem containedRuns_of_stays {p : Partition} {beginning ending sectorSize : UInt32}
    (hss : 32 ≤ sectorSize.toNat) (hpart : formatted p beginning ending sectorSize = part)
    (hcount : part.sectorSize ≤ part.blockSize) (hs : Stays part 30 (formatHeader part mem)) :
    ∃ mem', fsDeviceFormat p beginning ending sectorSize mem = .ok (part, mem') ∧
      ContainedRuns part (AllocStays part) ⟨mem', formatFiles part mem'⟩ := by
  have hp : part.Formatted := by
    subst hpart
    exact ⟨hss, rfl⟩
  obtain ⟨mem', heq, ho, -⟩ := owned_format hp (hs.room_or hp) hpart
  refine ⟨mem', heq, fun ops hl => ?_⟩
  obtain ⟨v, hv, ho'⟩ := Run.exec_legal (I := fun v => Owned part v.memory v.live)
    (fun op v ho ha => by
      obtain ⟨v', hv', ho', -⟩ := containedStep hp hcount op v ho ha
      exact ⟨v', hv', ho'⟩) ho hl
  refine ⟨v, hv, fun op ha => ?_⟩
  obtain ⟨v', hv', -, hc⟩ := containedStep hp hcount op v ho' ha
  exact ⟨v', hv', hc⟩

end Containment

/-- A partition of three sectors. -/
def threeSectors : Partition := formatted ⟨0, 0, 0, 0⟩ 0 96 32

/-- `containedRuns_of_stays` for a device of five sectors in a zeroed memory: a file is deleted, a
directory takes its sectors, and another file finds none. -/
theorem containedRuns_fiveSectors :
    ∃ mem', fsDeviceFormat ⟨0, 0, 0, 0⟩ 0 160 32 (fun _ => 0) = .ok (fiveSectors, mem') ∧
      ∃ v v', Run.exec (allocStep fiveSectors)
          [.create (chars ['a']) 30, .delete 96, .createDirectory (chars ['b'])]
          ⟨mem', formatFiles fiveSectors mem'⟩ = .ok v ∧ v.live 96 = some 30 ∧
        allocStep fiveSectors (.create (chars ['c']) 30) v = .ok v' ∧
        ContainedStep fiveSectors (.create (chars ['c']) 30) v v' := by
  obtain ⟨mem', hformat, hruns⟩ := containedRuns_of_stays (by decide)
    (show formatted ⟨0, 0, 0, 0⟩ 0 160 32 = fiveSectors from rfl) (by decide)
    (show Stays fiveSectors 30 (formatHeader fiveSectors fun _ => 0) by decide +kernel)
  obtain rfl : mem' = fiveSectorsMemory := by rw [fiveSectorsMemory, hformat]
  obtain ⟨v, hv, hstep⟩ := hruns
    [.create (chars ['a']) 30, .delete 96, .createDirectory (chars ['b'])] (by decide +kernel)
  have hend : (Run.exec (allocStep fiveSectors)
      [.create (chars ['a']) 30, .delete 96, .createDirectory (chars ['b'])]
      ⟨fiveSectorsMemory, formatFiles fiveSectors fiveSectorsMemory⟩).map
        (fun v => (v.live 96, decide (AllocStays fiveSectors (.create (chars ['c']) 30) v))) =
          .ok (some 30, true) := by decide +kernel
  rw [hv] at hend
  obtain ⟨hlive, hstays⟩ := Prod.mk.inj (Except.ok.inj hend)
  obtain ⟨v', hv', hc⟩ := hstep _ (of_decide_eq_true hstays)
  exact ⟨fiveSectorsMemory, hformat, v, v', hv, hlive, hv', hc⟩

/-- Not all runs are contained: with free-looking bytes behind a full device of three sectors, the
next file is allocated there, at handle 96. -/
theorem not_containedRuns : ¬ ∀ mem : Memory,
    ∃ mem', fsDeviceFormat ⟨0, 0, 0, 0⟩ 0 96 32 mem = .ok (threeSectors, mem') ∧
      ContainedRuns threeSectors AllocAllowed ⟨mem', formatFiles threeSectors mem'⟩ := by
  intro h
  obtain ⟨mem', hformat, hruns⟩ := h fun _ => sectorFree
  obtain ⟨v, hv, hstep⟩ := hruns [] trivial
  cases hv
  obtain ⟨v', -, hc⟩ := hstep (.create [] 30) trivial
  have hrun : ((fsDeviceFormat ⟨0, 0, 0, 0⟩ 0 96 32 fun _ => sectorFree) >>= fun x =>
      (fsAllocate x.1 30 x.2).map Prod.fst) = .ok 96 := by decide +kernel
  rw [hformat] at hrun
  have hrun : (fsAllocate threeSectors 30 mem').map Prod.fst = .ok 96 := hrun
  cases ha : fsAllocate threeSectors 30 mem' with
  | error e =>
    rw [ha] at hrun
    cases hrun
  | ok x =>
    obtain ⟨handle, mem⟩ := x
    rw [ha] at hrun
    cases hrun
    exact absurd (hc.handle 30 rfl 96 mem ha (by decide)).2 (by decide)

end MicroKernel.Fs
