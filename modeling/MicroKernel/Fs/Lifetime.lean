import MicroKernel.Fs.DirectoryRun

/-!
# The life of a directory

A directory is created, filled, emptied and deleted. Its deletion frees the first block only, so the
others must be gone by then: an extent goes with the last of its files, unless the byte that counts
the blocks before it is 0, and one that was linked and never held a file stays.

## Main definitions

* `Tidy`: every extent holds files
* `EmptiesUnwrapped`: removals that empty no extent with a multiple of 256 blocks before it
* `SameMarkers`: the markers of the sectors are the same

## Main results

* `tail_removeAll_eq_nil_iff`: when the extents are gone
* `Owned.sameMarkers_iff`: the markers say whether blocks are left
* `sameMarkers_of_life`: when the life of a directory leaves no traces
* `exists_not_sameMarkers`: one of 14 files does
-/

namespace MicroKernel.Fs

open Store

/-! ## Emptying the blocks -/

/-- The blocks after files are removed, in order. -/
def removeAll (order : List FileHandle) (blocks : List Block) : List Block :=
  order.foldl (fun blocks file => removeFrom file 0 blocks) blocks

/-- The file is the only one of an extent that has a multiple of 256 blocks before it. -/
def EmptiesWrapped (file : FileHandle) (blocks : List Block) : Prop :=
  ∃ pre post, blocks.map Block.files = pre ++ [file] :: post ∧ 0 < pre.length ∧ 256 ∣ pre.length

/-- Removing the files in order empties no extent that has a multiple of 256 blocks before it. -/
def EmptiesUnwrapped : (order : List FileHandle) → List Block → Prop
  | [], _ => True
  | file :: order, blocks =>
    ¬ EmptiesWrapped file blocks ∧ EmptiesUnwrapped order (removeFrom file 0 blocks)

/-- Every extent holds files. -/
def Tidy (blocks : List Block) : Prop := ∀ e ∈ blocks.tail, e.files ≠ []

section Emptying

variable {file : FileHandle} {order : List FileHandle} {blocks blocks' : List Block} {b : Block}

/-- A block loses its only file, or keeps others. -/
theorem Block.files_remove_eq_nil_iff (h : file ∈ b.files) :
    (b.remove file).files = [] ↔ b.files = [file] := by
  have hlen := (List.swapRemove_perm h).length_eq
  rw [List.length_erase_of_mem h] at hlen
  rw [Block.remove, ← List.length_eq_zero_iff, hlen]
  constructor
  · intro hzero
    have hpos := List.length_pos_of_mem h
    obtain ⟨f, hf⟩ := List.length_eq_one_iff.mp (show b.files.length = 1 by omega)
    rw [hf, List.mem_singleton] at h
    rw [hf, h]
  · intro heq
    rw [heq]
    rfl

/-- The file stands in one block only. -/
theorem emptiesWrapped_iff {pre post : List Block} (hnodup : (listing (pre ++ b :: post)).Nodup)
    (hb : file ∈ b.files) (hpre : ∀ e ∈ pre, file ∉ e.files) :
    EmptiesWrapped file (pre ++ b :: post) ↔
      b.files = [file] ∧ 0 < pre.length ∧ 256 ∣ pre.length := by
  rw [EmptiesWrapped, List.map_append, List.map_cons]
  constructor
  · rintro ⟨pre', post', hsplit, hwrap⟩
    obtain ⟨as, rfl, has⟩ | ⟨as, hpre', has⟩ := List.append_eq_append_iff.mp hsplit
    · obtain ⟨rfl, hcons⟩ | ⟨as, rfl, hpost⟩ := List.cons_eq_append_iff.mp has
      · exact ⟨(List.cons.inj hcons).1.symm, by simpa using hwrap⟩
      · -- the file would stand behind the block, too
        have hmem : file ∈ listing post := by
          rw [listing, List.flatMap_def, hpost]
          simp
        rw [listing_append, listing_cons, List.nodup_append, List.nodup_append] at hnodup
        exact absurd rfl (hnodup.2.1.2.2 file hb file hmem)
    · obtain ⟨rfl, hcons⟩ | ⟨as, rfl, -⟩ := List.cons_eq_append_iff.mp has
      · rw [List.append_nil] at hpre'
        exact ⟨(List.cons.inj hcons).1, by simpa [← hpre'] using hwrap⟩
      · -- the file would stand before the block
        obtain ⟨e, he, hfiles⟩ := List.mem_map.mp
          (hpre' ▸ List.mem_append_right pre' List.mem_cons_self)
        exact absurd (hfiles ▸ List.mem_singleton_self file) (hpre e he)
  · rintro ⟨hfiles, hwrap⟩
    exact ⟨_, _, by rw [hfiles], by simpa using hwrap⟩

/-- **An extent is left without files** by a removal when there was one, or when the removal empties
an extent and the byte that counts the blocks before it is 0. -/
theorem tidy_removeFrom_iff (hnodup : (listing blocks).Nodup) (h : file ∈ listing blocks) :
    Tidy (removeFrom file 0 blocks) ↔ Tidy blocks ∧ ¬ EmptiesWrapped file blocks := by
  obtain ⟨pre, b, post, rfl, hb, hpre, heq⟩ := removeFrom_cases 0 h
  have hone : b.files.length ≤ 1 ↔ b.files = [file] := by
    rw [← Block.files_remove_eq_nil_iff hb, ← List.length_eq_zero_iff, Block.remove,
      (List.swapRemove_perm hb).length_eq, List.length_erase_of_mem hb]
    omega
  have hpos : 0 < 0 + UInt8.ofNat pre.length ↔ ¬ 256 ∣ pre.length := by
    rw [UInt8.zero_add, UInt8.lt_iff_toNat_lt, UInt8.toNat_ofNat', UInt8.toNat_zero,
      Nat.dvd_iff_mod_eq_zero]
    omega
  have hne : b.files ≠ [] := List.ne_nil_of_mem hb
  simp only [heq, emptiesWrapped_iff hnodup hb hpre, hone, hpos]
  cases pre with
  | nil =>
    -- the first block stays, and counts as no extent
    simp [Tidy]
  | cons first pre =>
    have htail : ∀ l : List Block, Tidy (first :: pre ++ l) ↔
        (∀ e ∈ pre, e.files ≠ []) ∧ ∀ e ∈ l, e.files ≠ [] := fun l => by
      rw [Tidy, List.cons_append, List.tail_cons, List.forall_mem_append]
    rw [htail, htail, List.forall_mem_cons]
    split_ifs with hempty
    · -- the extent is bypassed
      simp only [hne, hempty.2, ne_eq, not_false_eq_true, true_and, and_false, and_true]
    · rw [List.forall_mem_cons, ne_eq, Block.files_remove_eq_nil_iff hb]
      have hlen : 0 < (first :: pre).length := Nat.succ_pos _
      tauto

/-- Removing all files leaves none. -/
theorem listing_removeAll (hperm : order.Perm (listing blocks)) :
    listing (removeAll order blocks) = [] := by
  induction order generalizing blocks with
  | nil => exact hperm.nil_eq.symm
  | cons file order ih =>
    have hmem : file ∈ listing blocks := hperm.subset List.mem_cons_self
    refine ih (List.Perm.trans ?_ (listing_removeFrom 0 hmem).symm)
    simpa using hperm.erase file

/-- An extent is left without files by removals when there was one, or when one of them empties
an extent and the byte that counts the blocks before it is 0. -/
theorem tidy_removeAll_iff (hnodup : (listing blocks).Nodup) (hperm : order.Perm (listing blocks)) :
    Tidy (removeAll order blocks) ↔ Tidy blocks ∧ EmptiesUnwrapped order blocks := by
  induction order generalizing blocks with
  | nil => exact (and_iff_left trivial).symm
  | cons file order ih =>
    have hmem : file ∈ listing blocks := hperm.subset List.mem_cons_self
    have hremove := listing_removeFrom 0 hmem
    have hrest : order.Perm (listing (removeFrom file 0 blocks)) :=
      List.Perm.trans (by simpa using hperm.erase file) hremove.symm
    show Tidy (removeAll order (removeFrom file 0 blocks)) ↔ _
    rw [ih (hremove.nodup_iff.mpr (hnodup.erase file)) hrest, tidy_removeFrom_iff hnodup hmem,
      EmptiesUnwrapped, and_assoc]

/-- **The extents are gone** when all files are removed, if each held files, and none was emptied
with a multiple of 256 blocks before it. -/
theorem tail_removeAll_eq_nil_iff (hnodup : (listing blocks).Nodup)
    (hperm : order.Perm (listing blocks)) :
    (removeAll order blocks).tail = [] ↔ Tidy blocks ∧ EmptiesUnwrapped order blocks := by
  rw [← tidy_removeAll_iff hnodup hperm]
  have hnone := listing_removeAll hperm
  constructor
  · intro hnil e he
    rw [hnil] at he
    exact absurd he List.not_mem_nil
  · intro htidy
    refine List.eq_nil_iff_forall_not_mem.mpr fun e he => htidy e he ?_
    exact List.flatMap_eq_nil_iff.mp hnone e (List.mem_of_mem_tail he)

/-- Filled blocks have an empty extent when there are 14, 21, 28, .. files. -/
theorem Filled.tidy_iff (h : Filled blocks) :
    Tidy blocks ↔ (listing blocks).length < 14 ∨ ¬ 7 ∣ (listing blocks).length := by
  obtain ⟨pre, last, rfl, hpre, hlast, hone⟩ := h
  have hlen : (listing (pre ++ [last])).length = 7 * pre.length + last.files.length := by
    rw [listing_append, List.length_append, length_listing_of_forall hpre, listing_cons,
      listing_nil, List.append_nil]
  rw [hlen]
  cases pre with
  | nil =>
    refine iff_of_true (by simp [Tidy]) (Or.inl ?_)
    rw [List.length_nil]
    omega
  | cons first pre =>
    have hsix := hlast.resolve_right fun h => List.cons_ne_nil _ _ h.1
    have htidy : Tidy (first :: pre ++ [last]) ↔ last.files.length ≠ 0 := by
      rw [Tidy, List.cons_append, List.tail_cons, List.forall_mem_append, List.forall_mem_singleton]
      refine (and_iff_right fun e he hnil => ?_).trans (not_congr List.length_eq_zero_iff.symm)
      have := hpre e (List.mem_cons_of_mem _ he)
      rw [hnil] at this
      cases this
    rw [htidy]
    have hone : pre.length = 0 → last.files.length ≠ 0 := fun hzero =>
      mt List.length_eq_zero_iff.mp (hone (congrArg Nat.succ hzero))
    rw [List.length_cons]
    omega

theorem SameFiles.emptiesUnwrapped_iff (h : SameFiles blocks blocks') :
    EmptiesUnwrapped order blocks ↔ EmptiesUnwrapped order blocks' := by
  induction order generalizing blocks blocks' with
  | nil => exact Iff.rfl
  | cons file order ih =>
    have hmap : blocks.map Block.files = blocks'.map Block.files :=
      List.forall₂_eq_eq_eq ▸ List.forall₂_map_left_iff.mpr (List.forall₂_map_right_iff.mpr h)
    rw [EmptiesUnwrapped, EmptiesUnwrapped, EmptiesWrapped, hmap, ih (h.removeFrom 0)]
    rfl

theorem length_removeFrom_le (file : FileHandle) (position : UInt8) (blocks : List Block) :
    (removeFrom file position blocks).length ≤ blocks.length := by
  induction blocks generalizing position with
  | nil => exact Nat.le_refl 0
  | cons b blocks ih =>
    rw [removeFrom]
    split_ifs
    · exact Nat.le_succ _
    · exact Nat.le_refl _
    · exact Nat.succ_le_succ (ih _)

/-- Of at most 256 blocks, none has as many before it. -/
theorem emptiesUnwrapped_of_length_le (h : blocks.length ≤ 256) : EmptiesUnwrapped order blocks := by
  induction order generalizing blocks with
  | nil => trivial
  | cons file order ih =>
    refine ⟨?_, ih ((length_removeFrom_le file 0 blocks).trans h)⟩
    -- 256 blocks before it and the block itself are too many
    rintro ⟨pre, post, heq, hpos, hdvd⟩
    have hlen := congrArg List.length heq
    rw [List.length_map, List.length_append, List.length_cons] at hlen
    have := Nat.le_of_dvd hpos hdvd
    omega

end Emptying

/-! ## Markers -/

/-- The markers of the sectors of the partition are the same. -/
def SameMarkers (part : Partition) (mem mem' : Memory) : Prop :=
  ∀ i < part.sectorCount.toNat, sectorMarker part mem' i = sectorMarker part mem i

/-- **The markers are the same** when no blocks are left. -/
theorem Owned.sameMarkers_iff {part : Partition} {mem mem' : Memory} {base : Files}
    {blocks : List Block} (hp : part.Small) (ho : Owned part mem base)
    (ho' : Owned part mem' (withBlocks blocks base)) (hk : Keeps part base mem mem')
    (hapart : ∀ b ∈ blocks, base b.handle = none) :
    SameMarkers part mem mem' ↔ blocks = [] := by
  constructor
  · intro hsame
    rcases blocks with _ | ⟨b, blocks⟩
    · rfl
    · -- the first sector of the block was free
      have hl : withBlocks (b :: blocks) base b.handle = some 30 := withBlocks_of_mem List.mem_cons_self
      obtain ⟨i, hpos, hle, hi⟩ := ho'.aligned b.handle 30 hl
      have hlen : 2 ≤ runLength part 30 := Nat.le_add_left _ _
      have hused := ho'.marker_ne_free hl (show 0 < runLength part 30 by omega)
      rw [Nat.zero_mul, Nat.add_zero, hi] at hused
      refine absurd ((hsame i (by omega)).trans
        (ho.free i hpos (by omega) fun h size hh hmem => ?_)) hused
      have hh' := (withBlocks_of_some hapart hh).2
      have hne : h ≠ b.handle := by
        rintro rfl
        rw [hapart b List.mem_cons_self] at hh
        cases hh
      have hfirst : i * part.sectorSize.toNat ∈ runBytes part b.handle 30 := by
        rw [hp.mem_runBytes]
        omega
      exact Set.disjoint_left.mp (ho'.disjoint _ _ _ _ hh' hl hne) hmem hfirst
  · -- the device header, a sector that is free on both sides, or one of a file of before
    rintro rfl i hi
    rcases Nat.eq_zero_or_pos i with rfl | hpos
    · exact hk.device
    · by_cases hfree : ∀ h size, base h = some size → i * part.sectorSize.toNat ∉ runBytes part h size
      · rw [ho.free i hpos hi hfree]
        exact ho'.free i hpos hi hfree
      · push Not at hfree
        obtain ⟨h, size, hl, hmem⟩ := hfree
        exact hk.run h size hl _ hmem

/-! ## Removals -/

/-- The removals of files, in order. -/
def removeOps (order : List (FileHandle × (ℕ → UInt8))) : List DirectoryOp :=
  order.map fun p => .remove p.1 p.2

section Removals

variable {part : Partition} {dir : DirectoryHandle} {mem₀ : Memory} {base : Files}
  {s : DirectorySession} {blocks : List Block} {order : List (FileHandle × (ℕ → UInt8))}

/-- **Removing all files** leaves those of before. -/
theorem SessionListed.removeAll (hp : part.Small) (hs : SessionListed part dir s blocks)
    (hk : Keeps part base mem₀ s.fs.memory)
    (hbase : ∀ h size, base h = some size → s.files h = some size ∧ h ∉ s.entries)
    (hperm : (order.map Prod.fst).Perm s.entries) :
    ∃ t, Run.exec (directoryStep part dir) (removeOps order) s = .ok t ∧
      (∀ h, t.files h = if h ∈ s.entries then none else s.files h) ∧
      Keeps part base mem₀ t.fs.memory ∧
      SessionListed part dir t (removeAll (order.map Prod.fst) blocks) := by
  -- induction on the removals: no file of before is an entry, so none is removed
  induction order generalizing s blocks with
  | nil =>
    have hnil : s.entries = [] := hperm.nil_eq.symm
    exact ⟨s, rfl, fun h => by simp [hnil], hk, hs⟩
  | cons p order ih =>
    have hmem : p.1 ∈ s.entries := hperm.subset List.mem_cons_self
    obtain ⟨t, ht, htf, hte, hkt, hst⟩ := hs.remove hp hmem p.2
    have hnodup : s.entries.Nodup := hs.listing_perm.nodup_iff.mp hs.contents.nodup
    have hbase' : ∀ h size, base h = some size → t.files h = some size ∧ h ∉ t.entries := by
      intro h size hb
      obtain ⟨hl, hnot⟩ := hbase h size hb
      have hne : h ≠ p.1 := fun heq => hnot (by rwa [heq])
      rw [htf, hte, Function.update_of_ne hne]
      exact ⟨hl, fun hmem' => hnot (List.mem_of_mem_erase hmem')⟩
    have hperm' : (order.map Prod.fst).Perm t.entries := by
      have h := hperm.erase p.1
      rwa [List.map_cons, List.erase_cons_head, ← hte] at h
    obtain ⟨u, hu, huf, hku, hsu⟩ := ih hst (hk.trans (hkt.mono fun h size hb => (hbase' h size hb).1))
      hbase' hperm'
    refine ⟨u, (Run.exec_cons_of_ok ht).trans hu, fun h => ?_, hku, hsu⟩
    simp only [huf, hte, htf, hnodup.mem_erase_iff, Function.update_apply]
    by_cases heq : h = p.1
    · simp [heq, hmem]
    · simp [heq]

/-- **A directory emptied and deleted**: its extents are gone if each held files, and none was emptied
with a multiple of 256 blocks before it. -/
theorem Grown.sameMarkers_iff (hp : part.Small) (ho : Owned part mem₀ base)
    (hg : Grown part dir mem₀ base s blocks)
    (hentries : ∀ h, h ∈ s.entries ↔ s.files h ≠ none ∧ base h = none)
    (hperm : (order.map Prod.fst).Perm s.entries) :
    ∃ t mem', Run.exec (directoryStep part dir) (removeOps order) s = .ok t ∧
      fsDirectoryDelete part dir t.fs.memory = .ok (dir, mem') ∧
      (SameMarkers part mem₀ mem' ↔ (s.entries.length < 14 ∨ ¬ 7 ∣ s.entries.length) ∧
        EmptiesUnwrapped (order.map Prod.fst) (blocksOf s.entries.reverse)) := by
  have hbase : ∀ h size, base h = some size → s.files h = some size ∧ h ∉ s.entries := by
    intro h size hb
    refine ⟨hg.base_le h size hb, fun hmem => ?_⟩
    rw [((hentries h).mp hmem).2] at hb
    cases hb
  obtain ⟨t, ht, htf, hk, hs⟩ := hg.toSessionListed.removeAll hp hg.keeps hbase hperm
  -- the files left are those of before
  have hfiles : t.files = base := by
    funext h
    rw [htf]
    split_ifs with hmem
    · exact ((hentries h).mp hmem).2.symm
    · rcases hb : base h with _ | size
      · by_contra hne
        exact hmem ((hentries h).mpr ⟨hne, hb⟩)
      · exact hg.base_le h size hb
  have hc := hs.contents
  rw [hfiles] at hc
  obtain ⟨mem', hdelete, ho', hk'⟩ := hc.delete hp
  have hlisting : (order.map Prod.fst).Perm (listing blocks) := hperm.trans hg.listing_perm.symm
  refine ⟨t, mem', ht, hdelete, ?_⟩
  rw [ho.sameMarkers_iff hp ho' (hk.trans hk') fun b hb => hc.apart b (List.mem_of_mem_tail hb),
    tail_removeAll_eq_nil_iff hg.contents.nodup hlisting, hg.filled.tidy_iff,
    hg.listing_perm.length_eq, hg.sameFiles.emptiesUnwrapped_iff]

/-- In a partition without other files, the entries are the files. -/
theorem Grown.onlyEntries (hg : Grown part dir mem₀ (fun _ => none) s blocks)
    (hfiles : ∀ h size, s.files h = some size → size = 30 ∧ h ∈ s.entries) (h : FileHandle) :
    h ∈ s.entries ↔ s.files h ≠ none ∧ (none : Option UInt32) = none := by
  refine ⟨fun hmem => ⟨hg.contents.entries h (hg.mem_listing.mpr hmem), rfl⟩, fun hl => ?_⟩
  obtain ⟨size, hl⟩ := Option.ne_none_iff_exists'.mp hl.1
  exact (hfiles h size hl).2

theorem perm_entries {created : List FileHandle} (hs : s.entries = created.reverse) :
    ((created.map fun file => (file, fun _ : ℕ => (0 : UInt8))).map Prod.fst).Perm s.entries := by
  rw [hs, List.map_map]
  simp [Function.comp_def]

/-- **The life of a directory**: created, filled with files, emptied in any order and deleted, it
leaves every marker as it was when there were fewer than 14 files or not a multiple of 7, and no
extent was emptied with a multiple of 256 blocks before it. -/
theorem sameMarkers_of_life (hp : part.Small) {fs : FileSystem} (ho : Owned part fs.memory base)
    (hslot : ∃ i, fs.fileList i = 0) (hr : Room part 30 fs.memory) (dirname : List UInt8) :
    ∃ dir mem, fsDirectoryCreate part dirname fs.memory = .ok (dir, mem) ∧
      ∀ ops, Run.Legal (directoryStep part dir)
          (fun op s => DirectoryAllowed part dir op s ∧ op.Grows) ops
          ⟨⟨mem, fs.fileList, fs.fileSize⟩, base, []⟩ →
        ∃ s, Run.exec (directoryStep part dir) ops ⟨⟨mem, fs.fileList, fs.fileSize⟩, base, []⟩ =
          .ok s ∧
          ((∀ h, h ∈ s.entries ↔ s.files h ≠ none ∧ base h = none) →
            ∀ order, (order.map Prod.fst).Perm s.entries →
              ∃ t mem', Run.exec (directoryStep part dir) (removeOps order) s = .ok t ∧
                fsDirectoryDelete part dir t.fs.memory = .ok (dir, mem') ∧
                (SameMarkers part fs.memory mem' ↔
                  (s.entries.length < 14 ∨ ¬ 7 ∣ s.entries.length) ∧
                    EmptiesUnwrapped (order.map Prod.fst) (blocksOf s.entries.reverse))) := by
  obtain ⟨dir, mem, hcreate, hg₀⟩ := Grown.of_create hp ho hslot hr dirname
  refine ⟨dir, mem, hcreate, fun ops hl => ?_⟩
  obtain ⟨s, hs, blocks, hg⟩ := grown_of_run hp hg₀ hl
  exact ⟨s, hs, fun hentries order hperm => hg.sameMarkers_iff hp ho hentries hperm⟩

/-- The life of a directory of 13 files. -/
theorem sameMarkers_of_life_manySectors :
    ∃ dir mem, fsDirectoryCreate manySectors (chars ['d']) manySectorsFs.memory = .ok (dir, mem) ∧
      ∃ (created : List FileHandle) (s t : DirectorySession) (mem' : Memory), created.length = 13 ∧
        Run.exec (directoryStep manySectors dir) (fillOps created)
          ⟨⟨mem, manySectorsFs.fileList, manySectorsFs.fileSize⟩, fun _ => none, []⟩ = .ok s ∧
        Run.exec (directoryStep manySectors dir) (removeOps (created.map fun file => (file, fun _ => 0)))
          s = .ok t ∧
        fsDirectoryDelete manySectors dir t.fs.memory = .ok (dir, mem') ∧
        SameMarkers manySectors manySectorsFs.memory mem' := by
  obtain ⟨dir, mem, hcreate, created, s, blocks, hlen, hl, hs, hse, hsf, hg⟩ :=
    exists_filling_manySectors (show 13 ≤ 15 by decide)
  obtain ⟨dir', mem', hcreate', h⟩ := sameMarkers_of_life small_manySectors owned_manySectors
    ⟨0, rfl⟩ (by decide +kernel) (chars ['d'])
  obtain ⟨rfl, rfl⟩ := Prod.mk.inj (Except.ok.inj (hcreate.symm.trans hcreate'))
  obtain ⟨s', hs', h⟩ := h _ hl
  obtain rfl : s = s' := Except.ok.inj (hs.symm.trans hs')
  have hcount : s.entries.length = 13 := by rw [hse, List.length_reverse, hlen]
  obtain ⟨t, mem'', ht, hdelete, hiff⟩ := h (hg.onlyEntries hsf) _ (perm_entries hse)
  refine ⟨dir, mem, hcreate, created, s, t, mem'', hlen, hs, ht, hdelete, hiff.mpr
    ⟨Or.inl (by omega), emptiesUnwrapped_of_length_le ?_⟩⟩
  have hle := hg.filled.length_le
  rw [hg.listing_perm.length_eq, hcount, hg.sameFiles.length_eq] at hle
  exact hle.trans (by decide)

/-- A directory of 14 files has an extent linked that holds none, and leaves it. -/
theorem exists_not_sameMarkers :
    ∃ dir mem, fsDirectoryCreate manySectors (chars ['d']) manySectorsFs.memory = .ok (dir, mem) ∧
      ∃ (created : List FileHandle) (s t : DirectorySession) (mem' : Memory), created.length = 14 ∧
        Run.Legal (directoryStep manySectors dir)
          (fun op s => DirectoryAllowed manySectors dir op s ∧ op.Grows) (fillOps created)
          ⟨⟨mem, manySectorsFs.fileList, manySectorsFs.fileSize⟩, fun _ => none, []⟩ ∧
        Run.exec (directoryStep manySectors dir) (fillOps created)
          ⟨⟨mem, manySectorsFs.fileList, manySectorsFs.fileSize⟩, fun _ => none, []⟩ = .ok s ∧
        Run.exec (directoryStep manySectors dir) (removeOps (created.map fun file => (file, fun _ => 0)))
          s = .ok t ∧
        fsDirectoryDelete manySectors dir t.fs.memory = .ok (dir, mem') ∧
        ¬ SameMarkers manySectors manySectorsFs.memory mem' := by
  obtain ⟨dir, mem, hcreate, created, s, blocks, hlen, hl, hs, hse, hsf, hg⟩ :=
    exists_filling_manySectors (show 14 ≤ 15 by decide)
  have hcount : s.entries.length = 14 := by rw [hse, List.length_reverse, hlen]
  obtain ⟨t, mem', ht, hdelete, hiff⟩ := hg.sameMarkers_iff small_manySectors owned_manySectors
    (hg.onlyEntries hsf) (perm_entries hse)
  refine ⟨dir, mem, hcreate, created, s, t, mem', hlen, hl, hs, ht, hdelete, fun hsame => ?_⟩
  have := (hiff.mp hsame).1
  omega

end Removals

end MicroKernel.Fs
