import Mathlib.Order.Bounds.Basic
import MicroKernel.Fs.Containment

/-!
# First fit

Where no byte behind the last sector looks like a free sector, `fsAllocate` takes the first free
run of the partition that is long enough, and fails only when there is none.

## Main definitions

* `freeRuns`: the sectors a free run long enough starts at
* `FirstFits`: what an exact allocation returns and leaves in the memory

## Main results

* `fsAllocate_firstFits`: every allocation is exact
-/

namespace MicroKernel.Fs

open Store

/-- The sectors at which a free run of the partition starts that holds `size` bytes. -/
def freeRuns (part : Partition) (size : UInt32) (mem : Memory) : Set ℕ :=
  {i | i + runLength part size ≤ part.sectorCount.toNat ∧
    FreeRun part mem i (runLength part size)}

/-- An allocation of `size` bytes takes the first of the free runs, marks its sectors and records
the size; without one it returns 0 and leaves the memory as it was. -/
structure FirstFits (part : Partition) (size : UInt32) (mem : Memory) (handle : FileHandle)
    (mem' : Memory) : Prop where
  eq_zero_iff : handle = 0 ↔ freeRuns part size mem = ∅
  unchanged : handle = 0 → mem' = mem
  least : handle ≠ 0 →
    ∃ i, IsLeast (freeRuns part size mem) i ∧ handle.toNat = i * part.sectorSize.toNat
  marked : handle ≠ 0 → Marked part mem' handle size
  agreeOff : handle ≠ 0 → AgreeOff part.blockAddress (allocatedBytes part handle size) mem mem'

section FirstFit

variable {part : Partition} {mem : Memory} {size : UInt32}

theorem room_iff : Room part size mem ↔ (freeRuns part size mem).Nonempty := Iff.rfl

/-- The data sectors hold the size. -/
theorem lt_dataSectors_mul (hp : part.Formatted) (size : UInt32) :
    size.toNat < (size.toNat / (part.sectorSize.toNat - 1) + 1) * (part.sectorSize.toNat - 1) := by
  have hss := hp.le_sectorSize
  rw [Nat.mul_comm]
  exact Nat.lt_mul_div_succ _ (by omega)

/-- The run of an allocation with room. -/
theorem firstFits_of_room (hp : part.Formatted) (h0 : sectorMarker part mem 0 ≠ sectorFree)
    (hr : Room part size mem) :
    ∃ handle mem', fsAllocate part size mem = .ok (handle, mem') ∧
      FirstFits part size mem handle mem' := by
  have hss := hp.le_sectorSize
  obtain ⟨i, hpos, hi, hfree, hmin, heq⟩ := fsAllocate_of_room hp h0 hr
  have hblock := part.blockSize.toNat_lt
  have hmul := hp.mul_le hi
  have hlen : 2 ≤ runLength part size := Nat.le_add_left _ _
  rw [Nat.add_mul] at hmul
  have hpos' : 0 < runLength part size * part.sectorSize.toNat :=
    Nat.mul_pos (by omega) (by omega)
  have hhandle : (UInt32.ofNat (i * part.sectorSize.toNat)).toNat = i * part.sectorSize.toNat := by
    rw [UInt32.toNat_ofNat', Nat.mod_eq_of_lt (by omega)]
  have hne : UInt32.ofNat (i * part.sectorSize.toNat) ≠ 0 := by
    intro h
    have h' : i * part.sectorSize.toNat = 0 := hhandle.symm.trans (congrArg UInt32.toNat h)
    have : 0 < i * part.sectorSize.toNat := Nat.mul_pos hpos (by omega)
    omega
  have hrun : (UInt32.ofNat (i * part.sectorSize.toNat)).toNat +
      runLength part size * part.sectorSize.toNat ≤ 2 ^ 32 := by
    rw [hhandle]
    omega
  refine ⟨_, _, heq, ⟨iff_of_false hne ?_, fun h => absurd h hne, fun _ => ⟨i, ?_, hhandle⟩,
    fun _ => marked_allocateAt hp hrun, fun _ => agreeOff_allocateAt_markers hp hrun mem⟩⟩
  · exact (room_iff.mp hr).ne_empty
  · exact ⟨⟨hi, hfree⟩, fun j hj => Nat.not_lt.mp fun hlt => hmin j hlt hj.2⟩

/-- **Every allocation is exact** on a partition with no free-looking byte behind its last sector:
it returns the first run of `n + 1` free sectors, where `n` data sectors hold the size, or 0 and an
unchanged memory when the partition has none. -/
theorem fsAllocate_firstFits (hp : part.Formatted) (h0 : sectorMarker part mem 0 ≠ sectorFree)
    (hn : NoFreeBehind part mem) (size : UInt32) :
    ∃ handle mem', fsAllocate part size mem = .ok (handle, mem') ∧
      FirstFits part size mem handle mem' ∧
      ∃ n, n = size.toNat / (part.sectorSize.toNat - 1) + 1 ∧ runLength part size = n + 1 ∧
        size.toNat < n * (part.sectorSize.toNat - 1) := by
  have hsize : ∃ n, n = size.toNat / (part.sectorSize.toNat - 1) + 1 ∧
      runLength part size = n + 1 ∧ size.toNat < n * (part.sectorSize.toNat - 1) :=
    ⟨_, rfl, rfl, lt_dataSectors_mul hp size⟩
  by_cases hr : Room part size mem
  · obtain ⟨handle, mem', heq, hfits⟩ := firstFits_of_room hp h0 hr
    exact ⟨handle, mem', heq, hfits, hsize⟩
  · have heq := (room_or_fsAllocate_eq_zero size hp h0 hn).resolve_left hr
    have hempty := Set.not_nonempty_iff_eq_empty.mp (mt room_iff.mpr hr)
    exact ⟨0, mem, heq, ⟨iff_of_true rfl hempty, fun _ => rfl, fun h => absurd rfl h,
      fun h => absurd rfl h, fun h => absurd rfl h⟩, hsize⟩

/-- A memory in which the two sectors of `threeSectors` behind the first are free. -/
def twoSectorsFree : Memory := fun address =>
  if address = 0 then 0x13 else if address = 32 ∨ address = 64 then sectorFree else 0

/-- `fsAllocate_firstFits` for a file on a device of three sectors. -/
theorem fsAllocate_firstFits_threeSectors :
    ∃ handle mem', fsAllocate threeSectors 30 twoSectorsFree = .ok (handle, mem') ∧
      FirstFits threeSectors 30 twoSectorsFree handle mem' := by
  have hp : threeSectors.Formatted := ⟨by decide, rfl⟩
  have hbehind : ∀ i < 96, 3 ≤ i →
      marker threeSectors twoSectorsFree (UInt32.ofNat i) ≠ sectorFree := by
    decide +kernel
  obtain ⟨handle, mem', heq, hfits, -⟩ :=
    fsAllocate_firstFits hp (by decide +kernel) (fun i hle _ hlt => hbehind i hlt hle) 30
  exact ⟨handle, mem', heq, hfits⟩

end FirstFit

end MicroKernel.Fs
