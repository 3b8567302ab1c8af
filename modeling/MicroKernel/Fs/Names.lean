import Mathlib.Data.List.TakeWhile
import MicroKernel.Fs.Contents

/-!
# Names of files

A file keeps its name, cut at ten characters and padded with spaces, as long as its run stays. A
directory finds it by any name that is cut and padded to the same.

## Main definitions

* `Named`: the header of a file holds a name

## Main results

* `named_initHeader`, `Named.of_keeps`: a file gets its name, and keeps it
* `hasName_iff`, `Named.hasName`: the names a file is found by
-/

namespace MicroKernel.Fs

open Store

@[simp] theorem length_cleanName (name : List UInt8) : (cleanName name).length = 10 := by
  have hten : fileNameLength = 10 := rfl
  rw [cleanName, List.length_rightpad, List.length_take, hten]
  omega

/-- A name that is cut and padded has no zero byte. -/
theorem ne_zero_of_mem_cleanName {name : List UInt8} {c : UInt8} (hc : c ∈ cleanName name) :
    c ≠ 0 := by
  rw [cleanName, List.rightpad, List.mem_append] at hc
  rcases hc with hc | hc
  · simpa using List.mem_takeWhile_imp (List.mem_of_mem_take hc)
  · rw [(List.mem_replicate.mp hc).2]
    decide

theorem takeWhile_cleanName (name : List UInt8) :
    (cleanName name).takeWhile (· ≠ 0) = cleanName name :=
  List.takeWhile_eq_self_iff.mpr fun _ hc => by simpa using ne_zero_of_mem_cleanName hc

/-- A name read into a buffer without zero bytes has none. -/
theorem ne_zero_of_mem_fsFileGetName {part : Partition} {file : FileHandle} {mem : Memory}
    {name : List UInt8} {c : UInt8} (hname : ∀ c ∈ name, c ≠ 0)
    (hc : c ∈ fsFileGetName part file name mem) : c ≠ 0 := by
  have hread : ∀ {l : List UInt8}, c ∈ l.takeWhile (· ≠ 0) → c ≠ 0 := fun h => by
    simpa using List.mem_takeWhile_imp h
  rw [fsFileGetName] at hc
  split at hc
  · rcases List.mem_append.mp hc with hc | hc
    · exact hread hc
    · rcases List.mem_cons.mp hc with rfl | hc
      · decide
      · exact hname c (List.mem_of_mem_drop hc)
  · rcases List.mem_append.mp hc with hc | hc
    · exact hread hc
    · exact hname c (List.mem_of_mem_drop hc)

/-- **The comparison with a name that is cut and padded** is one of what is read into a blank
buffer. -/
theorem hasName_iff (part : Partition) (mem : Memory) (name : List UInt8) (file : FileHandle) :
    HasName part mem (cleanName name) file ↔
      fsFileGetName part file (cleanName []) mem = cleanName name := by
  have hself : (fsFileGetName part file (cleanName []) mem).takeWhile (· ≠ 0) =
      fsFileGetName part file (cleanName []) mem :=
    List.takeWhile_eq_self_iff.mpr fun c hc => by
      simpa using ne_zero_of_mem_fsFileGetName (fun c hc => ne_zero_of_mem_cleanName hc) hc
  rw [HasName, sameString, hself, takeWhile_cleanName, decide_eq_true_iff]

/-- The header of the file holds the name. -/
def Named (part : Partition) (mem : Memory) (file : FileHandle) (filename : List UInt8) : Prop :=
  ∀ i < 10, view part.blockAddress mem (file.toNat + 1 + i) = (cleanName filename).getD i 0

section Named

variable {part : Partition} {mem mem' : Memory} {files : Files} {file : FileHandle}
  {filename : List UInt8} {size : UInt32}

/-- **A file just created** holds its name. -/
theorem named_initHeader (hh : file.toNat + 32 ≤ 2 ^ 32) (filename : List UInt8) (mem : Memory) :
    Named part (initHeader part file filename mem) file filename := by
  have hname : fileOffsetName.toNat = 1 := rfl
  have hadd := toNat_handle_add fileOffsetName hh (by decide)
  have hset : ∀ mem : Memory, Named part (fsFileSetName part file filename mem) file filename := by
    intro mem i hi
    have hten : fileNameLength = 10 := rfl
    rw [fsFileSetName, hten, view_writeEach_range _ (by omega) (by omega), if_pos (by omega), hadd,
      hname, Nat.add_sub_cancel_left]
  -- the fields set behind the name do not meet it
  have hstep : ∀ {m m' : Memory} {offset : UInt32} {n : ℕ}, 11 ≤ offset.toNat →
      Named part m file filename → AgreeOff part.blockAddress (field file offset n) m m' →
        Named part m' file filename := by
    intro m m' offset n hoff hn ha i hi
    rw [ha _ (by omega) (by rintro ⟨h, -⟩; omega)]
    exact hn i hi
  exact hstep (by decide) (hstep (by decide) (hstep (by decide) (hstep (by decide) (hset mem)
    (agreeOff_fsFileSetAttributes hh)) (agreeOff_setWord hh (by decide)))
      (agreeOff_setWord hh (by decide))) (agreeOff_setFlagByte hh)

/-- A name stays as long as the files do. -/
theorem Named.of_keeps (hn : Named part mem file filename) (hp : part.Small)
    (hl : files file = some size) (hk : Keeps part files mem mem') :
    Named part mem' file filename := by
  intro i hi
  have hlen : 2 ≤ runLength part size := Nat.le_add_left _ _
  have hmul := Nat.mul_le_mul_right part.sectorSize.toNat hlen
  have hss := hp.sectorSize_eq
  rw [hk.run file size hl _ ⟨by omega, by omega⟩]
  exact hn i hi

/-- **The names a file is found by** are those that are cut and padded to its own. -/
theorem Named.hasName (hn : Named part mem file filename) (hh : file.toNat + 32 ≤ 2 ^ 32)
    (name : List UInt8) : HasName part mem (cleanName name) file =
      decide (cleanName filename = cleanName name) := by
  have hoff : fileOffsetName.toNat = 1 := rfl
  have hadd := toNat_handle_add fileOffsetName hh (by decide)
  have hstored : ((List.range fileNameLength).map fun i =>
      mem (part.blockAddress + (file + fileOffsetName) + UInt32.ofNat i)) = cleanName filename := by
    refine List.ext_getElem (by simp [fileNameLength]) fun i hi hi' => ?_
    rw [length_cleanName] at hi'
    have hview := hn i hi'
    have htoNat : (file + fileOffsetName + UInt32.ofNat i).toNat = file.toNat + 1 + i := by
      rw [UInt32.toNat_add, hadd, UInt32.toNat_ofNat']
      omega
    rw [← htoNat, view_toNat, List.getD_eq_getElem?_getD, List.getElem?_eq_getElem (by simpa)] at hview
    rw [List.getElem_map, List.getElem_range, UInt32.add_assoc]
    exact hview
  have hread : fsFileGetName part file (cleanName []) mem = cleanName filename := by
    have hten : fileNameLength = 10 := rfl
    rw [fsFileGetName, hstored, takeWhile_cleanName]
    rw [length_cleanName, hten, if_neg (lt_irrefl 10), List.drop_eq_nil_of_le (by simp),
      List.append_nil]
  rw [Bool.eq_iff_iff, hasName_iff, hread, decide_eq_true_iff]

end Named

end MicroKernel.Fs
