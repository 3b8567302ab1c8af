import MicroKernel.Fs.Removal

/-!
# Contents of a directory

The files of a partition, with a directory among them whose blocks are not counted as files, and its
entries, which are. Each operation keeps this, and leaves the bytes of the files it does not delete.

## Main definitions

* `withBlocks blocks files`: the files and the blocks
* `Contents`: a directory of a partition, and its entries
* `Keeps`: the bytes of the files stay

## Main results

* `Contents.of_create`, `Contents.create`, `Contents.add`, `Contents.remove`, `Contents.delete`: the
  operations
* `Contents.totalSize`, `Contents.findByIndex`, `Contents.findByName`: what is found
-/

namespace MicroKernel.Fs

open Store

/-- The files, and the blocks of a directory. -/
def withBlocks (blocks : List Block) (files : Files) : Files :=
  fun h => if h ∈ blocks.map Block.handle then some 30 else files h

section WithBlocks

variable {files : Files} {blocks blocks' : List Block} {b : Block} {h : FileHandle} {size : UInt32}

theorem withBlocks_of_mem (hb : b ∈ blocks) : withBlocks blocks files b.handle = some 30 :=
  if_pos (List.mem_map_of_mem hb)

theorem withBlocks_of_notMem (hn : h ∉ blocks.map Block.handle) :
    withBlocks blocks files h = files h := if_neg hn

theorem withBlocks_of_some (hb : ∀ b ∈ blocks, files b.handle = none) (hs : files h = some size) :
    h ∉ blocks.map Block.handle ∧ withBlocks blocks files h = some size := by
  have hnot : h ∉ blocks.map Block.handle := by
    intro hmem
    obtain ⟨b, hb', rfl⟩ := List.mem_map.mp hmem
    rw [hb b hb'] at hs
    cases hs
  exact ⟨hnot, (withBlocks_of_notMem hnot).trans hs⟩

theorem withBlocks_eq_none (hn : withBlocks blocks files h = none) :
    h ∉ blocks.map Block.handle ∧ files h = none := by
  rw [withBlocks] at hn
  split at hn
  · cases hn
  · next hnot => exact ⟨hnot, hn⟩

/-- A new file is no block. -/
theorem withBlocks_update (hn : h ∉ blocks.map Block.handle) (value : Option UInt32) :
    withBlocks blocks (Function.update files h value) =
      Function.update (withBlocks blocks files) h value := by
  funext k
  by_cases hk : k = h
  · subst hk
    rw [withBlocks_of_notMem hn, Function.update_self, Function.update_self]
  · rw [Function.update_of_ne hk]
    simp only [withBlocks, Function.update_of_ne hk]

/-- The handles of the blocks, after a file is added: there is a new one if they were full. -/
theorem handles_addTo (new : DirectoryHandle) (file : FileHandle) (hne : blocks ≠ []) :
    (addTo new file blocks).map Block.handle =
      blocks.map Block.handle ++ if Full blocks then [new] else [] := by
  rcases addTo_cases hne with ⟨hfull, pre, b, post, rfl, -, hadd⟩ |
    ⟨hfull, ⟨first, rfl, hadd⟩ | ⟨pre, b, -, rfl, -, hadd⟩⟩
  · rw [hadd, if_neg hfull]
    simp [Block.add]
  · rw [hadd, if_pos hfull]
    rfl
  · rw [hadd, if_pos hfull]
    simp [Block.add]

theorem withExtent_withBlocks (new : DirectoryHandle) (file : FileHandle) (hne : blocks ≠ []) :
    withExtent blocks new (withBlocks blocks files) = withBlocks (addTo new file blocks) files := by
  funext k
  rw [withBlocks, handles_addTo new file hne, withExtent]
  split
  · simp only [List.mem_append, List.mem_singleton, Function.update_apply, withBlocks]
    by_cases hk : k = new
    · rw [if_pos hk, if_pos (Or.inr hk)]
    · simp only [hk, or_false, if_false]
  · rw [List.append_nil]
    rfl

/-- The handles of the blocks after a file is removed are among those before, and the first stays. -/
theorem handles_removeFrom (file : FileHandle) (h : file ∈ listing blocks) :
    (removeFrom file 0 blocks).map Block.handle ⊆ blocks.map Block.handle ∧
      ((removeFrom file 0 blocks).map Block.handle).head? = (blocks.map Block.handle).head? := by
  obtain ⟨pre, b, post, rfl, -, -, heq⟩ := removeFrom_cases 0 h
  rw [heq]
  split
  · next hlast =>
    have hpre : pre ≠ [] := by
      rintro rfl
      exact absurd hlast.2 (by decide)
    obtain ⟨a, pre, rfl⟩ := List.exists_cons_of_ne_nil hpre
    refine ⟨fun h hh => ?_, rfl⟩
    simp only [List.map_append, List.map_cons, List.mem_append, List.mem_cons] at hh ⊢
    tauto
  · simp [Block.remove]

theorem withoutFile_withBlocks {file : FileHandle} (hb : ∀ b ∈ blocks, files b.handle = none)
    (hsub : blocks'.map Block.handle ⊆ blocks.map Block.handle)
    (hfile : file ∉ blocks.map Block.handle) :
    withoutFile blocks blocks' file (withBlocks blocks files) =
      withBlocks blocks' (Function.update files file none) := by
  funext k
  have hnone : k ∈ blocks.map Block.handle → files k = none := by
    intro hk
    obtain ⟨b, hb', rfl⟩ := List.mem_map.mp hk
    exact hb b hb'
  rw [withoutFile, withBlocks, withBlocks, Function.update_apply]
  by_cases hk : k = file
  · subst hk
    rw [if_pos (Or.inl rfl), if_neg fun hk => hfile (hsub hk), if_pos rfl]
  · by_cases hk' : k ∈ blocks'.map Block.handle
    · rw [if_neg (by simp [hk, hk']), if_pos (hsub hk'), if_pos hk']
    · rw [if_neg hk', if_neg hk]
      split
      · next h => exact (hnone (h.resolve_left hk).1).symm
      · next h => exact if_neg fun hmem => h (Or.inr ⟨hmem, hk'⟩)

end WithBlocks

/-! ## The bytes of the files -/

/-- The marker of the device and the bytes of the files stay. -/
structure Keeps (part : Partition) (files : Files) (mem mem' : Memory) : Prop where
  device : sectorMarker part mem' 0 = sectorMarker part mem 0
  run : ∀ h size, files h = some size → ∀ o ∈ runBytes part h size,
    view part.blockAddress mem' o = view part.blockAddress mem o

section Keeps

variable {part : Partition} {files files' live : Files} {mem mem' mem'' : Memory} {S : Set ℕ}

theorem Keeps.refl (part : Partition) (files : Files) (mem : Memory) : Keeps part files mem mem :=
  ⟨rfl, fun _ _ _ _ _ => rfl⟩

theorem Keeps.trans (h : Keeps part files mem mem') (h' : Keeps part files mem' mem'') :
    Keeps part files mem mem'' :=
  ⟨h'.device.trans h.device, fun k size hl o ho =>
    (h'.run k size hl o ho).trans (h.run k size hl o ho)⟩

theorem Keeps.mono (h : Keeps part files mem mem')
    (hsub : ∀ k size, files' k = some size → files k = some size) : Keeps part files' mem mem' :=
  ⟨h.device, fun k size hl => h.run k size (hsub k size hl)⟩

/-- Writes off the files keep their bytes. -/
theorem Owned.keeps {mem₀ : Memory} (hp : part.Small) (ho : Owned part mem₀ live)
    (ha : AgreeOff part.blockAddress S mem mem') (h0 : 0 ∉ S)
    (hS : ∀ h size, files h = some size → live h = some size ∧ Disjoint (runBytes part h size) S) :
    Keeps part files mem mem' := by
  refine ⟨ha _ (by omega) (by rwa [Nat.zero_mul]), fun h size hl o hmem => ?_⟩
  obtain ⟨hlive, hd⟩ := hS h size hl
  exact ha o (hmem.2.trans_le (ho.run_le_pow hp.toFormatted hlive)) (Set.disjoint_left.mp hd hmem)

/-- The run of a file lies behind the first byte. -/
theorem Owned.zero_notMem_run (hp : part.Small) (ho : Owned part mem live) {h : FileHandle}
    {size : UInt32} (hl : live h = some size) : 0 ∉ runBytes part h size := by
  have hle := (ho.run_le hp.toFormatted hl).1
  rw [hp.sectorSize_eq] at hle
  rintro ⟨h₁, -⟩
  omega

end Keeps

/-! ## Contents -/

/-- A directory of the partition, besides its files: the handle is that of its first block, and its
entries are files. -/
structure Contents (part : Partition) (dir : DirectoryHandle) (mem : Memory) (files : Files)
    (blocks : List Block) : Prop where
  owned : Owned part mem (withBlocks blocks files)
  directory : Directory part mem (withBlocks blocks files) blocks
  head_eq : (blocks.map Block.handle).head? = some dir
  apart : ∀ b ∈ blocks, files b.handle = none
  entries : ∀ f ∈ listing blocks, files f ≠ none
  nodup : (listing blocks).Nodup

section Contents

variable {part : Partition} {dir : DirectoryHandle} {mem : Memory} {fs : FileSystem} {files : Files}
  {blocks : List Block} {file h : FileHandle} {size : UInt32}

theorem Contents.ne_nil (hc : Contents part dir mem files blocks) : blocks ≠ [] := by
  rintro rfl
  exact absurd hc.head_eq (by simp)

theorem Contents.headD_eq (hc : Contents part dir mem files blocks) :
    (blocks.map Block.handle).headD 0 = dir := by
  rw [List.headD_eq_head?_getD, hc.head_eq, Option.getD_some]

theorem Contents.file_eq (hc : Contents part dir mem files blocks) (hl : files h = some size) :
    h ∉ blocks.map Block.handle ∧ withBlocks blocks files h = some size :=
  withBlocks_of_some hc.apart hl

/-- The runs of the files are disjoint from those of the blocks. -/
theorem Contents.disjoint_directoryBytes (hc : Contents part dir mem files blocks)
    (hl : files h = some size) : Disjoint (runBytes part h size) (directoryBytes part blocks) := by
  obtain ⟨hnot, hlive⟩ := hc.file_eq hl
  rw [Set.disjoint_left]
  rintro o ho ⟨b, hb, ho'⟩
  exact Set.disjoint_left.mp (hc.owned.disjoint _ _ _ _ hlive (withBlocks_of_mem hb)
    fun heq => hnot (heq ▸ List.mem_map_of_mem hb)) ho ho'

theorem Contents.zero_notMem (hp : part.Small) (hc : Contents part dir mem files blocks) :
    0 ∉ directoryBytes part blocks := by
  rintro ⟨b, hb, ho⟩
  exact hc.owned.zero_notMem_run hp (withBlocks_of_mem hb) ho

/-- The next address of a file just created. -/
theorem fsFileGetNextAddress_initHeader (hh : h.toNat + 32 ≤ 2 ^ 32) (filename : List UInt8)
    (mem : Memory) : fsFileGetNextAddress part h (initHeader part h filename mem) = 0 := by
  have hflag : fileOffsetFlag.toNat = 23 := rfl
  have hnext : fileOffsetNext.toNat = 28 := rfl
  rw [initHeader, fsFileGetNextAddress, getWord_of_agreeOff (agreeOff_setFlagByte hh) hh (by decide)]
  · rw [fsFileSetParentAddress, getWord_setWord_of_ne hh (by decide) (by decide) (by decide)]
    exact getWord_setWord hh (by decide)
  · rintro o ⟨h₁, h₂⟩ ⟨h₃, h₄⟩
    omega

/-- **A new directory** is empty. -/
theorem Contents.of_create (hp : part.Small) (ho : Owned part mem files) (hr : Room part 30 mem)
    (filename : List UInt8) :
    ∃ dir mem', fsDirectoryCreate part filename mem = .ok (dir, mem') ∧ FirstFit part 30 mem dir ∧
      Contents part dir mem' files [⟨dir, []⟩] ∧ Keeps part files mem mem' := by
  obtain ⟨dir, mem₁, -, hcreate, -, hnone, rfl, ho₁, ha₁⟩ := ho.create hp.toFormatted hr filename
  have hdir : Function.update files dir (some 30) dir = some 30 := Function.update_self ..
  have hh := (ho₁.fileAt hp.toFormatted hdir).header_le hp.toFormatted
  have hset : AgreeOff part.blockAddress (contentBytes part dir 30) (initHeader part dir filename mem₁)
      (directoryHeader part dir (initHeader part dir filename mem₁)) :=
    (agreeOff_directoryHeader hh part _).mono
      (linkFields_subset_headerFields.trans (headerFields_subset hp.toFormatted 30))
  have hlinks := links_directoryHeader part hh (initHeader part dir filename mem₁)
  have ho₂ := ho₁.of_agreeOff hp.toFormatted hdir hset
  have hlive : withBlocks [⟨dir, []⟩] files = Function.update files dir (some 30) := by
    funext k
    simp [withBlocks, Function.update_apply]
  -- the header of a file just created has no next block
  refine ⟨dir, _, fsDirectoryCreate_eq hcreate, firstFit_of_fsFileCreate hp.toFormatted ho.device hcreate,
    ⟨hlive ▸ ho₂, ⟨⟨Linked.singleton ?_, ?_⟩, List.nodup_singleton _, ?_⟩, rfl, ?_, by simp, by simp⟩,
    ?_⟩
  · exact (congrArg Links.next hlinks).trans (fsFileGetNextAddress_initHeader hh filename mem₁)
  · rw [List.forall_mem_singleton]
    exact ⟨ho₂.fileAt hp.toFormatted hdir, ho₂.address_ne hp hdir, by simp,
      congrArg Links.count hlinks, holdsWords_nil _⟩
  · rw [List.forall_mem_singleton, hlive]
    exact hdir
  · simpa using hnone
  · refine ho₂.keeps hp (ha₁.trans (hset.mono contentBytes_subset)) (ho₂.zero_notMem_run hp hdir)
      fun h size hl => ?_
    have hne : h ≠ dir := by
      rintro rfl
      rw [hnone] at hl
      cases hl
    have hl' : Function.update files dir (some 30) h = some size := by
      rw [Function.update_of_ne hne, hl]
    exact ⟨hl', ho₂.disjoint _ _ _ _ hl' hdir hne⟩

/-- **A new file** is not in the directory. -/
theorem Contents.create (hp : part.Small) (hc : Contents part dir mem files blocks)
    (hr : Room part size mem) (filename : List UInt8) :
    ∃ file mem₁, fsFileCreate part filename size mem =
        .ok (file, initHeader part file filename mem₁) ∧ withBlocks blocks files file = none ∧
      FirstFit part size mem file ∧
      Contents part dir (initHeader part file filename mem₁)
        (Function.update files file (some size)) blocks ∧
      Keeps part files mem (initHeader part file filename mem₁) := by
  obtain ⟨file, mem₁, -, hcreate, -, hnone, rfl, ho, ha⟩ :=
    hc.owned.create hp.toFormatted hr filename
  obtain ⟨hnot, hfile⟩ := withBlocks_eq_none hnone
  have hself : Function.update (withBlocks blocks files) file (some size) file = some size :=
    Function.update_self ..
  have hold : ∀ c h, withBlocks blocks files c = some h → c ≠ file ∧
      Function.update (withBlocks blocks files) file (some size) c = some h := old_of_none hnone
  rw [← withBlocks_update hnot] at ho hself hold
  refine ⟨file, mem₁, hcreate, hnone, firstFit_of_fsFileCreate hp.toFormatted hc.owned.device hcreate,
    ⟨ho, hc.directory.of_agreeOff hp ha ?_ fun b hb => withBlocks_of_mem hb, hc.head_eq, ?_, ?_,
      hc.nodup⟩, ho.keeps hp ha (ho.zero_notMem_run hp hself) fun h size' hl => ?_⟩
  · -- the new file meets no block
    rw [Set.disjoint_left]
    rintro o ⟨b, hb, ho'⟩
    exact Set.disjoint_left.mp (ho.disjoint _ _ _ _ (withBlocks_of_mem hb) hself
      fun heq => hnot (heq ▸ List.mem_map_of_mem hb)) ho'
  · intro b hb
    have hne : b.handle ≠ file := fun heq => hnot (heq ▸ List.mem_map_of_mem hb)
    rw [Function.update_of_ne hne]
    exact hc.apart b hb
  · intro f hf
    have hne : f ≠ file := fun heq => hc.entries f hf (heq ▸ hfile)
    rw [Function.update_of_ne hne]
    exact hc.entries f hf
  · obtain ⟨hne, hl'⟩ := hold h size' (hc.file_eq hl).2
    exact ⟨hl', ho.disjoint _ _ _ _ hl' hself hne⟩

/-- **An added file**: with room for a new extent where the blocks are full, and an entry left in
the last of them. -/
theorem Contents.add (hp : part.Small) (hc : Contents part dir fs.memory files blocks)
    (hslot : ∃ i, fs.fileList i = 0) (hfile : files file ≠ none) (hnew : file ∉ listing blocks)
    (hroom : Full blocks → Room part 30 fs.memory) (hlast : LastHasRoom blocks) (junk : ℕ → UInt8) :
    ∃ fs' new, fsDirectoryAddFile part dir file junk fs = .ok (1, fs') ∧
      fs'.fileList = fs.fileList ∧ (Full blocks → FirstFit part 30 fs.memory new) ∧
      Contents part dir fs'.memory files (addTo new file blocks) ∧
      Keeps part files fs.memory fs'.memory := by
  obtain ⟨fs', new, heq, hlist, hnone, ho, hd, ha⟩ :=
    hc.directory.addFile hp hc.owned hc.ne_nil hslot hroom hlast file junk
  rw [hc.headD_eq] at heq
  rw [withExtent_withBlocks new file hc.ne_nil] at ho hd
  have hperm := listing_addTo new file hc.ne_nil
  have hhandles := handles_addTo new file hc.ne_nil
  -- a new block is no file
  have hapart : ∀ h ∈ (addTo new file blocks).map Block.handle, files h = none := by
    intro h hh
    rw [hhandles, List.mem_append] at hh
    rcases hh with hh | hh
    · obtain ⟨b, hb, rfl⟩ := List.mem_map.mp hh
      exact hc.apart b hb
    · split at hh
      · next hfull =>
        rw [List.mem_singleton] at hh
        rw [hh]
        exact (withBlocks_eq_none (hnone hfull).1).2
      · exact absurd hh List.not_mem_nil
  have hc' : Contents part dir fs'.memory files (addTo new file blocks) := by
    refine ⟨ho, hd, ?_, fun b hb => hapart _ (List.mem_map_of_mem hb), fun f hf => ?_,
      hperm.nodup_iff.mpr (List.nodup_cons.mpr ⟨hnew, hc.nodup⟩)⟩
    · rw [hhandles, List.head?_append, hc.head_eq, Option.some_or]
    · rcases List.mem_cons.mp (hperm.mem_iff.mp hf) with rfl | hf
      · exact hfile
      · exact hc.entries f hf
  exact ⟨fs', new, heq, hlist, fun h => (hnone h).2, hc', ho.keeps hp ha (hc'.zero_notMem hp)
    fun h size hl => ⟨(hc'.file_eq hl).2, hc'.disjoint_directoryBytes hl⟩⟩

/-- **A removed file** is deleted. -/
theorem Contents.remove (hp : part.Small) (hc : Contents part dir fs.memory files blocks)
    (hslot : ∃ i, fs.fileList i = 0) (hfile : file ∈ listing blocks) (junk : ℕ → UInt8) :
    ∃ fs', fsDirectoryRemoveFile part dir file junk fs = .ok (1, fs') ∧
      fs'.fileList = fs.fileList ∧
      Contents part dir fs'.memory (Function.update files file none) (removeFrom file 0 blocks) ∧
      Keeps part (Function.update files file none) fs.memory fs'.memory := by
  obtain ⟨size, hl⟩ := Option.ne_none_iff_exists'.mp (hc.entries file hfile)
  obtain ⟨hnot, hlive⟩ := hc.file_eq hl
  obtain ⟨fs', heq, hlist, ho, hd, ha⟩ := hc.directory.removeFile hp hc.owned hslot hfile hlive
    (fun c hcm h => hnot (h ▸ List.mem_map_of_mem hcm)) junk
  obtain ⟨hsub, hhead⟩ := handles_removeFrom file hfile
  rw [hc.headD_eq] at heq
  rw [withoutFile_withBlocks hc.apart hsub hnot] at ho hd
  have hperm := listing_removeFrom 0 hfile
  refine ⟨fs', heq, hlist, ⟨ho, hd, hhead.trans hc.head_eq, fun b hb => ?_, fun f hf => ?_,
    hperm.nodup_iff.mpr (hc.nodup.erase file)⟩, hc.owned.keeps hp ha ?_ fun h size' hl' => ?_⟩
  · obtain ⟨c, hcm, hceq⟩ := List.mem_map.mp (hsub (List.mem_map_of_mem hb))
    have hne : b.handle ≠ file := fun h => hnot (h ▸ hsub (List.mem_map_of_mem hb))
    rw [Function.update_of_ne hne, ← hceq]
    exact hc.apart c hcm
  · obtain ⟨hne, hmem⟩ := (hc.nodup.mem_erase_iff).mp (hperm.mem_iff.mp hf)
    rw [Function.update_of_ne hne]
    exact hc.entries f hmem
  · -- what a removal writes: the file, the blocks, and links of the device header
    rintro (h | h | h)
    · exact hc.owned.zero_notMem_run hp hlive h
    · exact hc.zero_notMem hp h
    · exact absurd h.1 (lt_irrefl 0)
  · -- another file lies apart from all of these
    have hne : h ≠ file := by
      rintro rfl
      rw [Function.update_self] at hl'
      cases hl'
    rw [Function.update_of_ne hne] at hl'
    have hle := (hc.owned.run_le hp.toFormatted (hc.file_eq hl').2).1
    rw [hp.sectorSize_eq] at hle
    refine ⟨(hc.file_eq hl').2, Set.disjoint_union_right.mpr
      ⟨hc.owned.disjoint _ _ _ _ (hc.file_eq hl').2 hlive hne, Set.disjoint_union_right.mpr
        ⟨hc.disjoint_directoryBytes hl', Set.disjoint_left.mpr ?_⟩⟩⟩
    rintro o ⟨h₁, -⟩ ⟨-, h₂⟩
    omega

/-- **A deleted directory** leaves the files, and its extents. -/
theorem Contents.delete (hp : part.Small) (hc : Contents part dir mem files blocks) :
    ∃ mem', fsDirectoryDelete part dir mem = .ok (dir, mem') ∧
      Owned part mem' (withBlocks blocks.tail files) ∧ Keeps part files mem mem' := by
  obtain ⟨first, rest, rfl⟩ := List.exists_cons_of_ne_nil hc.ne_nil
  obtain rfl : first.handle = dir := Option.some_inj.mp hc.head_eq
  have hfirst : withBlocks (first :: rest) files first.handle = some 30 :=
    withBlocks_of_mem List.mem_cons_self
  obtain ⟨mem', hdelete, ho, ha⟩ := hc.owned.delete hp.toFormatted hfirst
  refine ⟨mem', ?_, ?_, hc.owned.keeps hp ha (hc.owned.zero_notMem_run hp hfirst)
    fun h size hl => ?_⟩
  · rw [fsDirectoryDelete, hdelete]
    rfl
  · have hnodup := hc.directory.nodup
    rw [List.map_cons, List.nodup_cons] at hnodup
    convert ho using 1
    funext k
    rw [Function.update_apply]
    by_cases hk : k = first.handle
    · rw [if_pos hk, hk, List.tail_cons, withBlocks_of_notMem hnodup.1]
      exact hc.apart first List.mem_cons_self
    · rw [if_neg hk]
      simp [withBlocks, hk]
  · obtain ⟨hnot, hlive⟩ := hc.file_eq hl
    exact ⟨hlive, hc.owned.disjoint _ _ _ _ hlive hfirst fun heq => hnot (heq ▸ by simp)⟩

/-! ## What is found -/

theorem Contents.length_blocks_le (hp : part.Small) (hc : Contents part dir mem files blocks) :
    blocks.length ≤ 2 ^ 27 := hc.directory.length_le hp hc.owned

theorem Contents.length_listing_lt (hp : part.Small) (hc : Contents part dir mem files blocks) :
    (listing blocks).length < 2 ^ 32 := by
  have h₁ := hc.length_blocks_le hp
  have h₂ := length_listing_le hc.directory
  omega

/-- **The total size** is the number of the entries. -/
theorem Contents.totalSize (hp : part.Small) (hc : Contents part dir mem files blocks) :
    fsDirectoryGetTotalSize part dir mem = .ok (UInt32.ofNat (listing blocks).length) := by
  have hlen := hc.length_blocks_le hp
  obtain ⟨first, rest, rfl⟩ := List.exists_cons_of_ne_nil hc.ne_nil
  obtain rfl : first.handle = dir := Option.some_inj.mp hc.head_eq
  rw [List.length_cons] at hlen
  have hlimit : rest.length < walkLimit := by
    rw [walkLimit]
    omega
  rw [fsDirectoryGetTotalSize, (hc.directory.toChain.walk hp).getTotalSizeFrom hlimit, UInt32.zero_add]

/-- **The file at an index** is that of the entries. -/
theorem Contents.findByIndex (hp : part.Small) (hc : Contents part dir fs.memory files blocks)
    (hslot : ∃ i, fs.fileList i = 0) (index : UInt32) (junk : ℕ → UInt8) :
    ∃ fs', fsDirectoryFindByIndex part dir index junk fs =
        .ok ((listing blocks).getD index.toNat 0, fs') ∧
      fs.Restored fs' := by
  have hlen := hc.length_blocks_le hp
  have hlt := hc.length_listing_lt hp
  obtain ⟨first, rest, rfl⟩ := List.exists_cons_of_ne_nil hc.ne_nil
  obtain rfl : first.handle = dir := Option.some_inj.mp hc.head_eq
  rw [List.length_cons] at hlen
  exact (hc.directory.toChain.walk hp).findByIndexFrom hp (by rw [walkLimit]; omega) hslot
    (length_localBuffer junk 64) UInt32.zero_le (by simpa using hlt)

/-- **The file of a name** is the first of the entries that has it. -/
theorem Contents.findByName (hp : part.Small) (hc : Contents part dir fs.memory files blocks)
    (hslot : ∃ i, fs.fileList i = 0) (filename : List UInt8) (junk : ℕ → UInt8) :
    ∃ fs', fsDirectoryFindByName part dir filename junk fs =
        .ok (((listing blocks).find? (HasName part fs.memory (cleanName filename))).getD 0, fs') ∧
      fs.Restored fs' := by
  have hlen := hc.length_blocks_le hp
  obtain ⟨first, rest, rfl⟩ := List.exists_cons_of_ne_nil hc.ne_nil
  obtain rfl : first.handle = dir := Option.some_inj.mp hc.head_eq
  rw [List.length_cons] at hlen
  exact (hc.directory.toChain.walk hp).findByNameFrom hp (by rw [walkLimit]; omega) hslot
    (length_localBuffer junk 64) (cleanName filename)

end Contents

end MicroKernel.Fs
