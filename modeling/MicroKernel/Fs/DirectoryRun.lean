import MicroKernel.Fs.Fill

/-!
# Runs of directory operations

Files created in a partition, added to a directory and removed from it, in any order. A run that
removes none fills the blocks one after the other, and there is such a run of any length in a
partition with enough sectors.

## Main definitions

* `DirectoryOp`, `directoryStep`: the operations, with the files and the entries they leave
* `DirectoryAllowed`: there is space, an added file is new, and a removed one is an entry
* `SessionListed`: the directory lists the entries
* `DirectoryOp.Grows`, `Grown`: the operations that remove no file, and the invariant of their runs

## Main results

* `SessionListed.create`, `SessionListed.add`, `SessionListed.remove`: one operation
* `Grown.step`, `grown_of_run`: runs that remove no file
* `Grown.exists_filling`: a directory of any number of files
-/

namespace MicroKernel.Fs

open Store

/-- An operation on a partition with a directory. -/
inductive DirectoryOp where
  | create (filename : List UInt8) (size : UInt32)
  | add (file : FileHandle) (junk : ℕ → UInt8)
  | remove (file : FileHandle) (junk : ℕ → UInt8)

/-- A file system, its files besides the directory, and the files currently in the directory. -/
structure DirectorySession where
  fs : FileSystem
  files : Files
  entries : List FileHandle

def directoryStep (part : Partition) (dir : DirectoryHandle) :
    DirectoryOp → DirectorySession → Except Fault DirectorySession
  | .create filename size, s => do
    let (file, mem) ← fsFileCreate part filename size s.fs.memory
    return { s with
      fs := { s.fs with memory := mem }
      files := Function.update s.files file (some size) }
  | .add file junk, s => do
    let (_, fs) ← fsDirectoryAddFile part dir file junk s.fs
    return { s with fs, entries := file :: s.entries }
  | .remove file junk, s => do
    let (_, fs) ← fsDirectoryRemoveFile part dir file junk s.fs
    return { fs, files := Function.update s.files file none, entries := s.entries.erase file }

/-- There is space for what is created, an added file is live and not in the directory, and a removed
one is in the directory. -/
def DirectoryAllowed (part : Partition) (dir : DirectoryHandle) :
    DirectoryOp → DirectorySession → Prop
  | .create _ size, s => Room part size s.fs.memory
  | .add file _, s => s.files file ≠ none ∧ file ∉ s.entries ∧
    (lastFullBlock part dir s.fs.memory ≠ none → Room part 30 s.fs.memory)
  | .remove file _, s => file ∈ s.entries

instance (part : Partition) (dir : DirectoryHandle) :
    ∀ op s, Decidable (DirectoryAllowed part dir op s)
  | .create _ size, s => inferInstanceAs (Decidable (Room part size s.fs.memory))
  | .add _ _, _ => inferInstanceAs (Decidable (_ ∧ _ ∧ _))
  | .remove file _, s => inferInstanceAs (Decidable (file ∈ s.entries))

/-! ## Listed entries -/

/-- The directory lists the entries, in some order. -/
structure SessionListed (part : Partition) (dir : DirectoryHandle) (s : DirectorySession)
    (blocks : List Block) : Prop where
  contents : Contents part dir s.fs.memory s.files blocks
  listing_perm : (listing blocks).Perm s.entries
  slot : ∃ i, s.fs.fileList i = 0

section Listed

variable {part : Partition} {dir : DirectoryHandle} {s : DirectorySession} {blocks : List Block}
  {file : FileHandle} {size : UInt32}

theorem SessionListed.mem_listing (hs : SessionListed part dir s blocks) :
    file ∈ listing blocks ↔ file ∈ s.entries := hs.listing_perm.mem_iff

/-- **A creation** with space. -/
theorem SessionListed.create (hp : part.Small) (hs : SessionListed part dir s blocks)
    (hr : Room part size s.fs.memory) (filename : List UInt8) :
    ∃ file t, directoryStep part dir (.create filename size) s = .ok t ∧ s.files file = none ∧
      t.files = Function.update s.files file (some size) ∧ t.entries = s.entries ∧
      Keeps part s.files s.fs.memory t.fs.memory ∧ SessionListed part dir t blocks := by
  obtain ⟨file, mem₁, hcreate, hnone, -, hc, hk⟩ := hs.contents.create hp hr filename
  refine ⟨file, ⟨⟨initHeader part file filename mem₁, s.fs.fileList, s.fs.fileSize⟩,
    Function.update s.files file (some size), s.entries⟩, ?_, (withBlocks_eq_none hnone).2, rfl, rfl,
    hk, hc, hs.listing_perm, hs.slot⟩
  rw [directoryStep, hcreate]
  rfl

/-- **An addition** with an entry left, and with space for a new extent where the directory needs
one. -/
theorem SessionListed.add (hp : part.Small) (hs : SessionListed part dir s blocks)
    (hlive : s.files file ≠ none) (hnew : file ∉ s.entries)
    (hroom : lastFullBlock part dir s.fs.memory ≠ none → Room part 30 s.fs.memory)
    (hlast : LastHasRoom blocks) (junk : ℕ → UInt8) :
    ∃ t new, directoryStep part dir (.add file junk) s = .ok t ∧ t.files = s.files ∧
      t.entries = file :: s.entries ∧ Keeps part s.files s.fs.memory t.fs.memory ∧
      SessionListed part dir t (addTo new file blocks) := by
  obtain ⟨fs', new, hadd, hlist, -, hc, hk⟩ := hs.contents.add hp hs.slot hlive
    (fun hmem => hnew (hs.mem_listing.mp hmem))
    (fun hfull => hroom (hs.contents.lastFullBlock_ne hp hfull)) hlast junk
  refine ⟨⟨fs', s.files, file :: s.entries⟩, new, ?_, rfl, rfl, hk, hc,
    (listing_addTo new file hs.contents.ne_nil).trans (hs.listing_perm.cons file),
    hlist ▸ hs.slot⟩
  rw [directoryStep, hadd]
  rfl

/-- **A removal** of an entry. -/
theorem SessionListed.remove (hp : part.Small) (hs : SessionListed part dir s blocks)
    (hfile : file ∈ s.entries) (junk : ℕ → UInt8) :
    ∃ t, directoryStep part dir (.remove file junk) s = .ok t ∧
      t.files = Function.update s.files file none ∧ t.entries = s.entries.erase file ∧
      Keeps part t.files s.fs.memory t.fs.memory ∧
      SessionListed part dir t (removeFrom file 0 blocks) := by
  have hmem : file ∈ listing blocks := hs.mem_listing.mpr hfile
  obtain ⟨fs', hremove, hlist, hc, hk⟩ := hs.contents.remove hp hs.slot hmem junk
  refine ⟨⟨fs', Function.update s.files file none, s.entries.erase file⟩, ?_, rfl, rfl, hk, hc,
    (listing_removeFrom 0 hmem).trans (hs.listing_perm.erase file), hlist ▸ hs.slot⟩
  rw [directoryStep, hremove]
  rfl

end Listed

/-! ## Runs that remove no file -/

/-- The operation removes no file. -/
def DirectoryOp.Grows : DirectoryOp → Prop
  | .create _ _ | .add _ _ => True
  | .remove _ _ => False

/-- The invariant of a run that removes no file: the directory lists the entries in order, and the
files of before are kept. -/
structure Grown (part : Partition) (dir : DirectoryHandle) (mem₀ : Memory) (base : Files)
    (s : DirectorySession) (blocks : List Block) : Prop extends SessionListed part dir s blocks where
  filled : Filled blocks
  listing_eq : listing blocks = s.entries.reverse
  sameFiles : SameFiles blocks (blocksOf s.entries.reverse)
  base_le : ∀ h size, base h = some size → s.files h = some size
  keeps : Keeps part base mem₀ s.fs.memory

section Grown

variable {part : Partition} {dir : DirectoryHandle} {mem₀ : Memory} {base : Files}
  {s : DirectorySession} {blocks : List Block} {op : DirectoryOp} {file : FileHandle} {size : UInt32}

/-- A fresh directory. -/
theorem Grown.of_create (hp : part.Small) {fs : FileSystem} (ho : Owned part fs.memory base)
    (hslot : ∃ i, fs.fileList i = 0) (hr : Room part 30 fs.memory) (dirname : List UInt8) :
    ∃ dir mem, fsDirectoryCreate part dirname fs.memory = .ok (dir, mem) ∧
      Grown part dir fs.memory base ⟨⟨mem, fs.fileList, fs.fileSize⟩, base, []⟩ [⟨dir, []⟩] := by
  obtain ⟨dir, mem, hcreate, -, hc, hk⟩ := Contents.of_create hp ho hr dirname
  exact ⟨dir, mem, hcreate, ⟨hc, .refl _, hslot⟩, filled_singleton dir, rfl, .cons rfl .nil,
    fun _ _ h => h, hk⟩

theorem Grown.create (hp : part.Small) (hg : Grown part dir mem₀ base s blocks)
    (hr : Room part size s.fs.memory) (filename : List UInt8) :
    ∃ file t, directoryStep part dir (.create filename size) s = .ok t ∧ s.files file = none ∧
      t.files = Function.update s.files file (some size) ∧ t.entries = s.entries ∧
      Grown part dir mem₀ base t blocks := by
  obtain ⟨file, t, ht, hnone, hfiles, hentries, hk, hs⟩ := hg.toSessionListed.create hp hr filename
  refine ⟨file, t, ht, hnone, hfiles, hentries, hs, hg.filled, hentries ▸ hg.listing_eq,
    hentries ▸ hg.sameFiles, fun h size' hb => ?_, hg.keeps.trans (hk.mono hg.base_le)⟩
  rw [hfiles]
  exact (old_of_none hnone h size' (hg.base_le h size' hb)).2

theorem Grown.add (hp : part.Small) (hg : Grown part dir mem₀ base s blocks)
    (hlive : s.files file ≠ none) (hnew : file ∉ s.entries)
    (hroom : lastFullBlock part dir s.fs.memory ≠ none → Room part 30 s.fs.memory)
    (junk : ℕ → UInt8) :
    ∃ t blocks', directoryStep part dir (.add file junk) s = .ok t ∧ t.files = s.files ∧
      t.entries = file :: s.entries ∧ Grown part dir mem₀ base t blocks' := by
  obtain ⟨t, new, ht, hfiles, hentries, hk, hs⟩ :=
    hg.toSessionListed.add hp hlive hnew hroom hg.filled.lastHasRoom junk
  obtain ⟨hfilled, hlisting⟩ := hg.filled.addTo new file
  refine ⟨t, _, ht, hfiles, hentries, hs, hfilled, ?_, ?_, hfiles ▸ hg.base_le,
    hg.keeps.trans (hk.mono hg.base_le)⟩
  · rw [hlisting, hg.listing_eq, hentries, List.reverse_cons]
  · have hsame := @SameFiles.addTo file _ _ hg.sameFiles new 0
    rwa [hentries, List.reverse_cons, blocksOf, List.foldl_append]

/-- **One operation** that removes no file. -/
theorem Grown.step (hp : part.Small) (hg : Grown part dir mem₀ base s blocks)
    (hallowed : DirectoryAllowed part dir op s) (hgrows : op.Grows) :
    ∃ t blocks', directoryStep part dir op s = .ok t ∧ Grown part dir mem₀ base t blocks' := by
  cases op with
  | create filename size =>
    obtain ⟨-, t, ht, -, -, -, hg'⟩ := hg.create hp hallowed filename
    exact ⟨t, _, ht, hg'⟩
  | add file junk =>
    obtain ⟨hlive, hnew, hroom⟩ := hallowed
    obtain ⟨t, blocks', ht, -, -, hg'⟩ := hg.add hp hlive hnew hroom junk
    exact ⟨t, blocks', ht, hg'⟩
  | remove file junk => exact hgrows.elim

/-- **Every run** that removes no file. -/
theorem grown_of_run (hp : part.Small) (hg : Grown part dir mem₀ base s blocks)
    {ops : List DirectoryOp} (hl : Run.Legal (directoryStep part dir)
      (fun op s => DirectoryAllowed part dir op s ∧ op.Grows) ops s) :
    ∃ t, Run.exec (directoryStep part dir) ops s = .ok t ∧
      ∃ blocks', Grown part dir mem₀ base t blocks' := by
  refine Run.exec_legal (fun op s hinv hallowed => ?_) ⟨blocks, hg⟩ hl
  obtain ⟨blocks, hg⟩ := hinv
  obtain ⟨t, blocks', ht, hg'⟩ := hg.step hp hallowed.1 hallowed.2
  exact ⟨t, ht, blocks', hg'⟩

end Grown

/-! ## Directories of any number of files -/

/-- The operations that create files of 30 bytes and add them, one after the other. -/
def fillOps (created : List FileHandle) : List DirectoryOp :=
  created.flatMap fun file => [.create [] 30, .add file fun _ => 0]

section Filling

variable {part : Partition} {dir : DirectoryHandle} {mem₀ : Memory} {base : Files}
  {s : DirectorySession} {blocks : List Block}

/-- **A directory of any number of files**, in a partition without others that has eight sectors for
each. -/
theorem Grown.exists_filling (hp : part.Small) (hg : Grown part dir mem₀ base s blocks)
    (hfiles : ∀ h, s.files h = none) (hentries : s.entries = []) (n : ℕ)
    (hn : 8 * n + 3 ≤ part.sectorCount.toNat) :
    ∃ (created : List FileHandle) (t : DirectorySession) (blocks' : List Block),
      created.length = n ∧
      Run.Legal (directoryStep part dir) (fun op s => DirectoryAllowed part dir op s ∧ op.Grows)
        (fillOps created) s ∧
      Run.exec (directoryStep part dir) (fillOps created) s = .ok t ∧
      t.entries = created.reverse ∧
      (∀ h size, t.files h = some size → size = 30 ∧ h ∈ t.entries) ∧
      Grown part dir mem₀ base t blocks' := by
  -- induction on the number of files: the sectors of the blocks and files so far leave room
  induction n with
  | zero =>
    exact ⟨[], s, blocks, rfl, trivial, rfl, hentries, fun h size hl => by simp [hfiles] at hl, hg⟩
  | succ n ih =>
    obtain ⟨created, t, blocks', hlen, hl, ht, hte, htf, hgt⟩ := ih (by omega)
    have hcount : t.entries.length = n := by rw [hte, List.length_reverse, hlen]
    have hblocks : blocks'.length ≤ n + 1 := by
      have := hgt.filled.length_le
      rwa [hgt.listing_eq, List.length_reverse, hcount] at this
    -- a file is created ..
    have hr : Room part 30 t.fs.memory := hgt.contents.room hp htf (by omega)
    obtain ⟨file, u, hu, hnone, huf, hue, hgu⟩ := hgt.create hp hr []
    have hnew : file ∉ u.entries := by
      intro hmem
      rw [hue, ← hgt.mem_listing] at hmem
      exact hgt.contents.entries file hmem hnone
    have huf' : ∀ h size, u.files h = some size → size = 30 ∧ h ∈ file :: u.entries := by
      intro h size hl
      rw [huf, Function.update_apply] at hl
      split at hl
      · next heq => exact ⟨(Option.some_inj.mp hl).symm, heq ▸ List.mem_cons_self⟩
      · exact (htf h size hl).imp_right fun hmem => List.mem_cons_of_mem file (hue ▸ hmem)
    have hlive : u.files file ≠ none := by
      rw [huf, Function.update_self]
      exact Option.some_ne_none _
    -- .. and added, with room for an extent whether or not the directory needs one
    have hru : Room part 30 u.fs.memory := hgu.contents.room hp huf' (by
      rw [List.length_cons, hue]
      omega)
    obtain ⟨v, blocks'', hv, hvf, hve, hgv⟩ := hgu.add hp hlive hnew (fun _ => hru) fun _ => 0
    have hops : fillOps (created ++ [file]) =
        fillOps created ++ [.create [] 30, .add file fun _ => 0] := by
      rw [fillOps, List.flatMap_append]
      rfl
    have hend : Run.exec (directoryStep part dir) [.create [] 30, .add file fun _ => 0] t = .ok v := by
      rw [Run.exec_cons_of_ok hu, Run.exec_cons_of_ok hv]
      rfl
    refine ⟨created ++ [file], v, blocks'', by simp [hlen], ?_, ?_, ?_, ?_, hgv⟩
    · rw [hops]
      refine hl.append ht ⟨⟨hr, trivial⟩, fun u' hu' => ?_⟩
      obtain rfl : u = u' := Except.ok.inj (hu.symm.trans hu')
      exact ⟨⟨⟨hlive, hnew, fun _ => hru⟩, trivial⟩, fun _ _ => trivial⟩
    · rw [hops, Run.exec_append_of_ok ht, hend]
    · rw [hve, hue, hte, List.reverse_append]
      rfl
    · rw [hvf, hve]
      exact huf'

end Filling

/-- A directory of up to 15 files on a device of 128 sectors. -/
theorem exists_filling_manySectors {n : ℕ} (hn : n ≤ 15) :
    ∃ dir mem, fsDirectoryCreate manySectors (chars ['d']) manySectorsFs.memory = .ok (dir, mem) ∧
      ∃ (created : List FileHandle) (t : DirectorySession) (blocks : List Block),
        created.length = n ∧
        Run.Legal (directoryStep manySectors dir)
          (fun op s => DirectoryAllowed manySectors dir op s ∧ op.Grows) (fillOps created)
          ⟨⟨mem, manySectorsFs.fileList, manySectorsFs.fileSize⟩, fun _ => none, []⟩ ∧
        Run.exec (directoryStep manySectors dir) (fillOps created)
          ⟨⟨mem, manySectorsFs.fileList, manySectorsFs.fileSize⟩, fun _ => none, []⟩ = .ok t ∧
        t.entries = created.reverse ∧
        (∀ h size, t.files h = some size → size = 30 ∧ h ∈ t.entries) ∧
        Grown manySectors dir manySectorsFs.memory (fun _ => none) t blocks := by
  obtain ⟨dir, mem, hcreate, hg⟩ := Grown.of_create small_manySectors owned_manySectors ⟨0, rfl⟩
    (by decide +kernel) (chars ['d'])
  exact ⟨dir, mem, hcreate, hg.exists_filling small_manySectors (fun _ => rfl) rfl n
    (by rw [sectorCount_manySectors]; omega)⟩

end MicroKernel.Fs
