import Mathlib.Data.List.Nodup
import Mathlib.Data.List.Perm.Subperm
import MicroKernel.Fs.Chain
import MicroKernel.Fs.Session

/-!
# Additions to a directory

A directory of an owned partition: a chain of blocks that are files of it. Adding a file does to the
blocks in the memory what it does to the listing, and leaves the other files.

## Main definitions

* `Directory`: a chain of files
* `directoryBytes`: the bytes of its blocks

## Main results

* `Directory.of_agreeOff`, `Directory.rewrite`: writes elsewhere, and to a block
* `Directory.linkExtent`, `Directory.append`: a new extent, and a new entry
* `Directory.addFile`: adding a file
-/

namespace MicroKernel.Fs

open Store

/-- A directory of the partition: a chain of blocks, each a file of its own. -/
structure Directory (part : Partition) (mem : Memory) (live : Files) (blocks : List Block) : Prop
    extends Chain part mem blocks where
  nodup : (blocks.map Block.handle).Nodup
  live_eq : ∀ b ∈ blocks, live b.handle = some 30

/-- The bytes of the blocks of a directory. -/
def directoryBytes (part : Partition) (blocks : List Block) : Set ℕ :=
  {o | ∃ b ∈ blocks, o ∈ runBytes part b.handle 30}

section Directory

variable {part : Partition} {mem mem' : Memory} {live live' : Files} {blocks pre post : List Block}
  {b b' : Block} {h h' : FileHandle} {size size' : UInt32} {S : Set ℕ}

theorem directoryBytes_subset {blocks' : List Block}
    (h : blocks.map Block.handle ⊆ blocks'.map Block.handle) :
    directoryBytes part blocks ⊆ directoryBytes part blocks' := by
  rintro o ⟨b, hb, ho⟩
  obtain ⟨c, hc, heq⟩ := List.mem_map.mp (h (List.mem_map_of_mem hb))
  exact ⟨c, hc, heq ▸ ho⟩

/-- A file of a partition in the address space does not lie at address 0. -/
theorem Owned.address_ne (hp : part.Small) (ho : Owned part mem live) (hl : live h = some size) :
    part.blockAddress + h ≠ 0 := by
  obtain ⟨h₁, h₂⟩ := ho.run_le hp.toFormatted hl
  have hlen := Nat.mul_le_mul_right part.sectorSize.toNat
    (show 2 ≤ runLength part size from Nat.le_add_left _ _)
  have hss := hp.sectorSize_eq
  have hle := hp.le_addresses
  intro h0
  have h0 : (part.blockAddress + h).toNat = 0 := congrArg UInt32.toNat h0
  rw [UInt32.toNat_add] at h0
  omega

/-- The handles of the files are multiples of the sector size. -/
theorem Owned.exists_sector (hp : part.Small) (ho : Owned part mem live)
    (hl : live h = some size) : ∃ i < 2 ^ 27, h.toNat = i * 32 := by
  obtain ⟨i, -, -, hi⟩ := ho.aligned h size hl
  have := h.toNat_lt
  rw [hp.sectorSize_eq] at hi
  exact ⟨i, by omega, hi⟩

/-- A partition has fewer blocks than there are words. -/
theorem Directory.length_le (hp : part.Small) (ho : Owned part mem live)
    (hd : Directory part mem live blocks) : blocks.length ≤ 2 ^ 27 := by
  -- different blocks start in different sectors, and there are 2 ^ 27 of these at most
  have hnodup : ((blocks.map Block.handle).map fun h => h.toNat / 32).Nodup := by
    refine List.Nodup.map_on ?_ hd.nodup
    simp only [List.mem_map, forall_exists_index, and_imp, forall_apply_eq_imp_iff₂]
    intro b hb c hc heq
    obtain ⟨i, -, hi⟩ := ho.exists_sector hp (hd.live_eq b hb)
    obtain ⟨j, -, hj⟩ := ho.exists_sector hp (hd.live_eq c hc)
    exact UInt32.toNat_inj.mp (by omega)
  have hsub : ((blocks.map Block.handle).map fun h => h.toNat / 32) ⊆ List.range (2 ^ 27) := by
    simp only [List.map_map, List.subset_def, List.mem_map, List.mem_range, forall_exists_index,
      and_imp, forall_apply_eq_imp_iff₂, Function.comp_apply]
    intro b hb
    obtain ⟨i, hlt, hi⟩ := ho.exists_sector hp (hd.live_eq b hb)
    omega
  have hle := (List.Nodup.subperm hnodup hsub).length_le
  rwa [List.length_map, List.length_map, List.length_range] at hle

theorem length_listing_le_of_forall (hcap : ∀ b ∈ blocks, b.files.length ≤ 7) :
    (listing blocks).length ≤ 7 * blocks.length := by
  induction blocks with
  | nil => simp
  | cons b blocks ih =>
    rw [List.forall_mem_cons] at hcap
    rw [listing_cons, List.length_append, List.length_cons]
    have := ih hcap.2
    omega

theorem length_listing_le (hd : Directory part mem live blocks) :
    (listing blocks).length ≤ 7 * blocks.length :=
  length_listing_le_of_forall fun b hb => (hd.stored b hb).length_le

/-- The link words of a block stay when its count and its entries change. -/
theorem getWord_of_entryBytes (hh : h.toNat + 64 ≤ 2 ^ 32) (hp : part.Small)
    (ha : AgreeOff part.blockAddress (entryBytes part h) mem mem') {offset : UInt32}
    (ho : offset.toNat = 24 ∨ offset.toNat = 28) :
    getWord part h offset mem' = getWord part h offset mem := by
  have hoff : fileOffsetRefCount.toNat = 19 := rfl
  refine getWord_of_agreeOff ha (by omega) (by omega) ?_
  rintro o ⟨h₁, h₂⟩ (⟨h₃, h₄⟩ | ⟨h₃, -⟩)
  · omega
  · rw [hp.sectorSize_eq] at h₃
    omega

/-- The words of a header stay when bytes off its run change. -/
theorem getWord_of_disjoint (hh : h.toNat + 64 ≤ 2 ^ 32) (hp : part.Small)
    (ha : AgreeOff part.blockAddress S mem mem') (hS : Disjoint (runBytes part h 30) S)
    {offset : UInt32} (ho : offset.toNat ≤ 28) :
    getWord part h offset mem' = getWord part h offset mem := by
  refine getWord_of_agreeOff ha (by omega) ho ?_
  rintro o ⟨h₁, h₂⟩
  exact Set.disjoint_left.mp hS (hp.mem_runBytes.mpr ⟨by omega, by omega⟩)

/-- **A directory stays** when bytes off its blocks change, and its blocks remain files. -/
theorem Directory.of_agreeOff (hp : part.Small) (hd : Directory part mem live blocks)
    (ha : AgreeOff part.blockAddress S mem mem') (hS : Disjoint (directoryBytes part blocks) S)
    (hlive : ∀ b ∈ blocks, live' b.handle = some 30) : Directory part mem' live' blocks := by
  have hdisj : ∀ b ∈ blocks, Disjoint (runBytes part b.handle 30) S := fun b hb =>
    Set.disjoint_left.mpr fun o ho => Set.disjoint_left.mp hS ⟨b, hb, ho⟩
  have hword : ∀ offset : UInt32, offset.toNat ≤ 28 → ∀ h ∈ blocks.map Block.handle,
      getWord part h offset mem' = getWord part h offset mem := by
    intro offset hoff h hh
    obtain ⟨b, hb, rfl⟩ := List.mem_map.mp hh
    exact getWord_of_disjoint ((hd.stored b hb).fileAt.handle_le hp).2 hp ha (hdisj b hb) hoff
  exact ⟨⟨hd.linked.congr (hword _ (by decide)) fun h hh =>
    hword _ (by decide) h (List.mem_of_mem_tail hh),
    fun b hb => (hd.stored b hb).of_agreeOff hp ha (hdisj b hb)⟩, hd.nodup, hlive⟩

/-- The runs of two files are disjoint. -/
theorem Owned.disjoint_entryBytes (hp : part.Small) (ho : Owned part mem live)
    (hl : live h = some 30) (hl' : live h' = some size) (hne : h' ≠ h) :
    Disjoint (runBytes part h' size) (entryBytes part h) :=
  (ho.disjoint _ _ _ _ hl' hl hne).mono_right
    ((entryBytes_subset hp).trans contentBytes_subset)

/-- The links stay when the count and the entries of a block change. -/
theorem Directory.linked_of_entryBytes (hp : part.Small) (ho : Owned part mem live)
    (hd : Directory part mem live blocks) (hb : b ∈ blocks)
    (ha : AgreeOff part.blockAddress (entryBytes part b.handle) mem mem') :
    Linked (fsFileGetNextAddress part · mem') (fsFileGetParentAddress part · mem') 0
      (blocks.map Block.handle) := by
  have hword : ∀ offset : UInt32, offset.toNat = 24 ∨ offset.toNat = 28 →
      ∀ h ∈ blocks.map Block.handle, getWord part h offset mem' = getWord part h offset mem := by
    intro offset hoff h hmap
    obtain ⟨c, hc, rfl⟩ := List.mem_map.mp hmap
    have hle := ((hd.stored c hc).fileAt.handle_le hp).2
    by_cases heq : c.handle = b.handle
    · rw [heq] at hle ⊢
      exact getWord_of_entryBytes hle hp ha hoff
    · exact getWord_of_disjoint hle hp ha (ho.disjoint_entryBytes hp (hd.live_eq b hb)
        (hd.live_eq c hc) heq) (by omega)
  exact hd.linked.congr (hword _ (by decide)) fun h hh =>
    hword _ (by decide) h (List.mem_of_mem_tail hh)

/-- **A block rewritten**: the others stay, and so do the links. -/
theorem Directory.rewrite (hp : part.Small) (ho : Owned part mem live)
    (hd : Directory part mem live (pre ++ b :: post))
    (ha : AgreeOff part.blockAddress (entryBytes part b.handle) mem mem')
    (hb' : b'.Stored part mem') (hh : b'.handle = b.handle) :
    Directory part mem' live (pre ++ b' :: post) := by
  have hmem : b ∈ pre ++ b :: post := by simp
  have hhandles : (pre ++ b' :: post).map Block.handle = (pre ++ b :: post).map Block.handle := by
    simp [hh]
  -- every block is the rewritten one, or one of before with another handle
  have hcases : ∀ c ∈ pre ++ b' :: post, c = b' ∨ c ∈ pre ++ b :: post ∧ c.handle ≠ b.handle := by
    have hnodup := hd.nodup
    rw [List.map_append, List.map_cons, List.nodup_middle, List.nodup_cons, List.mem_append] at hnodup
    intro c hc
    rcases List.mem_append.mp hc with hc | hc
    · exact Or.inr ⟨List.mem_append_left _ hc, fun heq =>
        hnodup.1 (Or.inl (heq ▸ List.mem_map_of_mem hc))⟩
    · rcases List.mem_cons.mp hc with rfl | hc
      · exact Or.inl rfl
      · exact Or.inr ⟨List.mem_append_right _ (List.mem_cons_of_mem _ hc), fun heq =>
          hnodup.1 (Or.inr (heq ▸ List.mem_map_of_mem hc))⟩
  refine ⟨⟨?_, fun c hc => ?_⟩, ?_, fun c hc => ?_⟩
  · rw [hhandles]
    exact hd.linked_of_entryBytes hp ho hmem ha
  · rcases hcases c hc with rfl | ⟨hc, hne⟩
    · exact hb'
    · exact (hd.stored c hc).of_agreeOff hp ha (ho.disjoint_entryBytes hp (hd.live_eq b hmem)
        (hd.live_eq c hc) hne)
  · rw [hhandles]
    exact hd.nodup
  · rcases hcases c hc with rfl | ⟨hc, -⟩
    · rw [hh]
      exact hd.live_eq b hmem
    · exact hd.live_eq c hc

/-- A block stays when a link of it is set. -/
theorem Block.Stored.setLink (hp : part.Small) (hb : b.Stored part mem) {offset : UInt32}
    (h₁ : 24 ≤ offset.toNat) (h₂ : offset.toNat ≤ 28) (w : UInt32) :
    b.Stored part (setWord part b.handle offset w mem) := by
  have hle := hb.fileAt.handle_le hp
  have hcount : fileOffsetRefCount.toNat = 19 := rfl
  have ha : AgreeOff part.blockAddress (field b.handle offset 4) mem
    (setWord part b.handle offset w mem) := agreeOff_setWord (by omega) h₂
  refine ⟨hb.fileAt.of_agreeOff hp.toFormatted ha fun o ho _ => headerFields_subset hp.toFormatted 30
    (field_subset_headerFields (by omega) (by omega) ho), hb.address_ne, hb.length_le, ?_, ?_⟩
  · rw [← hb.count]
    exact getWord_setWord_of_ne (by omega) (by decide) h₂ (by omega)
  · have hlen := hb.length_le
    refine hb.holds.congr fun n hn => ha _ (by omega) ?_
    rintro ⟨-, h⟩
    omega

/-- The bytes of a link are content of the block. -/
theorem link_subset (hp : part.Small) {offset : UInt32} (h₁ : 24 ≤ offset.toNat)
    (h₂ : offset.toNat ≤ 28) : field h offset 4 ⊆ contentBytes part h 30 :=
  (field_subset_headerFields (by omega) (by omega)).trans (headerFields_subset hp.toFormatted 30)

/-! ## Setting a link -/

section Link

variable {b : Block} {h h' : FileHandle} {size w offset offset' : UInt32} (hp : part.Small)
  (ho : Owned part mem live) (ht : h = 0 ∨ live h = some 30)
  (h₁ : 24 ≤ offset.toNat) (h₂ : offset.toNat ≤ 28)

include hp ho ht

/-- The header of a block, or that of the device, lies in the address space. -/
theorem Owned.header_le : h.toNat + 32 ≤ 2 ^ 32 := by
  rcases ht with rfl | hl
  · decide
  · have := (ho.fileAt hp.toFormatted hl).handle_le hp
    omega

include h₁ h₂

/-- A link, of a block or of the device header, lies in the run of no other file. -/
theorem Owned.disjoint_link (hl : live h' = some size) (hne : h' ≠ h) :
    Disjoint (runBytes part h' size) (field h offset 4) := by
  rcases ht with rfl | hlive
  · have hle := (ho.run_le hp.toFormatted hl).1
    have hzero : (0 : UInt32).toNat = 0 := rfl
    rw [hp.sectorSize_eq] at hle
    rw [Set.disjoint_left]
    rintro o ⟨h₃, -⟩ ⟨-, h₄⟩
    omega
  · exact (ho.disjoint _ _ _ _ hl hlive hne).mono_right
      ((link_subset hp h₁ h₂).trans contentBytes_subset)

theorem Owned.setLink : Owned part (setWord part h offset w mem) live := by
  have hle := ho.header_le hp ht
  have ha : AgreeOff part.blockAddress (field h offset 4) mem (setWord part h offset w mem) :=
    agreeOff_setWord hle h₂
  rcases ht with rfl | hlive
  · exact ho.of_agreeOff_device hp.toFormatted
      (ha.mono (field_device_subset (by omega) (by omega)))
  · exact ho.of_agreeOff hp.toFormatted hlive (ha.mono (link_subset hp h₁ h₂))

/-- The blocks stay when a link is set. -/
theorem Owned.stored_setLink (hl : live b.handle = some 30) (hb : b.Stored part mem) :
    b.Stored part (setWord part h offset w mem) := by
  by_cases heq : b.handle = h
  · rw [← heq]
    exact hb.setLink hp h₁ h₂ w
  · exact hb.of_agreeOff hp (agreeOff_setWord (ho.header_le hp ht) h₂)
      (ho.disjoint_link hp ht h₁ h₂ hl heq)

/-- The other links stay when a link is set. -/
theorem Owned.getWord_setLink (hl : live h' = some 30)
    (ho' : offset'.toNat = 24 ∨ offset'.toNat = 28)
    (hne : h' ≠ h ∨ offset'.toNat + 4 ≤ offset.toNat ∨ offset.toNat + 4 ≤ offset'.toNat) :
    getWord part h' offset' (setWord part h offset w mem) = getWord part h' offset' mem := by
  have hle := ho.header_le hp ht
  by_cases heq : h' = h
  · subst heq
    have hoff := hne.resolve_left (fun hn => hn rfl)
    exact getWord_setWord_of_ne hle (by omega) h₂ hoff
  · exact getWord_of_disjoint ((ho.fileAt hp.toFormatted hl).handle_le hp).2 hp
      (agreeOff_setWord hle h₂) (ho.disjoint_link hp ht h₁ h₂ hl heq) (by omega)

end Link

/-! ## A new extent -/

/-- No run of the size that is free lies before the handle. -/
def FirstFit (part : Partition) (size : UInt32) (mem : Memory) (h : FileHandle) : Prop :=
  ∀ i, i + runLength part size ≤ part.sectorCount.toNat → FreeRun part mem i (runLength part size) →
    h.toNat ≤ i * part.sectorSize.toNat

/-- A creation takes the first free run. -/
theorem firstFit_of_fsFileCreate (hp : part.Formatted) (h0 : sectorMarker part mem 0 ≠ sectorFree)
    {filename : List UInt8} (hcreate : fsFileCreate part filename size mem = .ok (h, mem')) :
    FirstFit part size mem h := by
  intro j hj hfree
  obtain ⟨i, -, -, -, hmin, heq⟩ := fsAllocate_of_room hp h0 ⟨j, hj, hfree⟩
  have hij : i ≤ j := Nat.not_lt.mp fun hlt => hmin j hlt hfree
  have hh : h = UInt32.ofNat (i * part.sectorSize.toNat) := by
    rw [fsFileCreate, heq, ok_bind] at hcreate
    simp only at hcreate
    split at hcreate
    · next hzero =>
      cases hcreate
      exact hzero.symm
    · cases hcreate
      rfl
  rw [hh, UInt32.toNat_ofNat']
  exact (Nat.mod_le _ _).trans (Nat.mul_le_mul_right _ hij)

/-- **A new extent**, created with room for it. -/
theorem Owned.createExtent (hp : part.Small) (ho : Owned part mem live) (hr : Room part 30 mem)
    (parentPtr : UInt32) :
    ∃ new mem₁, fsDirectoryExtentCreate part parentPtr 0 mem = .ok (new, mem₁) ∧
      (live new = none ∧ FirstFit part 30 mem new) ∧
      Owned part mem₁ (Function.update live new (some 30)) ∧
      AgreeOff part.blockAddress (runBytes part new 30) mem mem₁ ∧
      Block.Stored part mem₁ ⟨new, []⟩ ∧ fsFileGetParentAddress part new mem₁ = parentPtr ∧
      fsFileGetNextAddress part new mem₁ = 0 := by
  obtain ⟨new, -, m, hcreate, -, hnone, -, ho₁, ha₁⟩ :=
    ho.create hp.toFormatted hr (chars ['E', 'X', 'T', 'E', 'N', 'T'])
  have hnew : Function.update live new (some 30) new = some 30 := Function.update_self ..
  have hhead := (ho₁.fileAt hp.toFormatted hnew).header_le hp.toFormatted
  have ha₂ : AgreeOff part.blockAddress (contentBytes part new 30) m
      (extentHeader part new parentPtr 0 m) :=
    (agreeOff_extentHeader hhead part parentPtr 0 m).mono
      (linkFields_subset_headerFields.trans (headerFields_subset hp.toFormatted 30))
  have ho₂ := ho₁.of_agreeOff hp.toFormatted hnew ha₂
  have hlinks : links part new (extentHeader part new parentPtr 0 m) = _ :=
    links_extentHeader hhead parentPtr 0 m
  exact ⟨new, _, fsDirectoryExtentCreate_eq hcreate parentPtr 0,
    ⟨hnone, firstFit_of_fsFileCreate hp.toFormatted ho.device hcreate⟩, ho₂,
    ha₁.trans (ha₂.mono contentBytes_subset),
    ⟨ho₂.fileAt hp.toFormatted hnew, ho₂.address_ne hp hnew, by simp, congrArg Links.count hlinks,
      holdsWords_nil _⟩, congrArg Links.parent hlinks, congrArg Links.next hlinks⟩

/-- **An extent linked behind the last block.** -/
theorem Directory.linkExtent (hp : part.Small) (ho : Owned part mem' live')
    (hd : Directory part mem live (pre ++ [b])) {new : DirectoryHandle}
    (hlive : ∀ c h, live c = some h → c ≠ new ∧ live' c = some h) (hnew : live' new = some 30)
    (ha : AgreeOff part.blockAddress (runBytes part new 30) mem mem')
    (hstored : Block.Stored part mem' ⟨new, []⟩)
    (hparent : fsFileGetParentAddress part new mem' = b.handle)
    (hnext : fsFileGetNextAddress part new mem' = 0) :
    Owned part (fsFileSetNextAddress part b.handle new mem') live' ∧
      Directory part (fsFileSetNextAddress part b.handle new mem') live'
        (pre ++ [b, ⟨new, []⟩]) ∧
      AgreeOff part.blockAddress (directoryBytes part [b, ⟨new, []⟩]) mem
        (fsFileSetNextAddress part b.handle new mem') := by
  have hb : b ∈ pre ++ [b] := by simp
  have hlive' : ∀ c ∈ pre ++ [b], c.handle ≠ new ∧ live' c.handle = some 30 := fun c hc =>
    hlive _ _ (hd.live_eq c hc)
  -- the blocks stay while the new extent is created
  have hstored' : ∀ c ∈ pre ++ [b], c.Stored part mem' := fun c hc =>
    (hd.stored c hc).of_agreeOff hp ha
      (ho.disjoint _ _ _ _ (hlive' c hc).2 hnew (hlive' c hc).1)
  have hlast : b.handle = 0 ∨ live' b.handle = some 30 := Or.inr (hlive' b hb).2
  have hset : AgreeOff part.blockAddress (field b.handle fileOffsetNext 4) mem'
      (fsFileSetNextAddress part b.handle new mem') :=
    agreeOff_setWord (ho.header_le hp hlast) (by decide)
  have hfirst : ∀ {offset : UInt32}, offset.toNat ≤ 28 → ∀ h ∈ (pre ++ [b]).map Block.handle,
      getWord part h offset mem' = getWord part h offset mem := by
    intro offset hoff h hh
    obtain ⟨c, hc, rfl⟩ := List.mem_map.mp hh
    exact getWord_of_disjoint ((hd.stored c hc).fileAt.handle_le hp).2 hp ha
      (ho.disjoint _ _ _ _ (hlive' c hc).2 hnew (hlive' c hc).1) hoff
  -- the link is set in the last block only
  have hsecond : ∀ {offset : UInt32}, offset.toNat = 24 ∨ offset.toNat = 28 → ∀ {h},
      live' h = some 30 → h ≠ b.handle ∨ offset.toNat + 4 ≤ fileOffsetNext.toNat →
        getWord part h offset (fsFileSetNextAddress part b.handle new mem') =
          getWord part h offset mem' := fun hoff _ hl hne =>
    ho.getWord_setLink hp hlast (by decide) (by decide) hl hoff (hne.imp_right Or.inl)
  have hnodup : b.handle ∉ pre.map Block.handle := by
    have h := hd.nodup
    rw [List.map_append, List.map_cons, List.map_nil] at h
    exact (List.nodup_cons.mp (List.nodup_middle.mp h)).1 ∘ List.mem_append_left _
  have hlivemem : ∀ h ∈ (pre ++ [b]).map Block.handle, live' h = some 30 := fun h hh => by
    obtain ⟨c, hc, rfl⟩ := List.mem_map.mp hh
    exact (hlive' c hc).2
  have hne := (hlive' b hb).1
  have hblocks : ∀ c ∈ pre ++ [b, ⟨new, []⟩], live' c.handle = some 30 ∧ c.Stored part mem' := by
    intro c hc
    rw [List.append_cons, List.mem_append, List.mem_singleton] at hc
    rcases hc with hc | rfl
    · exact ⟨(hlive' c hc).2, hstored' c hc⟩
    · exact ⟨hnew, hstored⟩
  refine ⟨ho.setLink hp hlast (by decide) (by decide), ⟨⟨?_, fun c hc => ?_⟩, ?_,
    fun c hc => (hblocks c hc).1⟩, ?_⟩
  · -- the links of before, and those of the new extent
    have hl := hd.linked
    simp only [List.map_append, List.map_cons, List.map_nil] at hl hfirst hlivemem ⊢
    refine hl.concat (fun h hh => ?_) (fun h hh => ?_) ?_ ?_ ?_
    · have hmem := List.mem_append_left [b.handle] hh
      exact (hsecond (Or.inr rfl) (hlivemem h hmem) (Or.inl (ne_of_mem_of_not_mem hh hnodup))).trans
        (hfirst (by decide) h hmem)
    · have hmem := List.mem_of_mem_tail hh
      exact (hsecond (Or.inl rfl) (hlivemem h hmem) (Or.inr (by decide))).trans
        (hfirst (by decide) h hmem)
    · exact getWord_setWord (ho.header_le hp hlast) (by decide)
    · exact (hsecond (Or.inr rfl) hnew (Or.inl hne.symm)).trans hnext
    · exact (hsecond (Or.inl rfl) hnew (Or.inl hne.symm)).trans hparent
  · exact ho.stored_setLink hp hlast (by decide) (by decide) (hblocks c hc).1 (hblocks c hc).2
  · rw [List.append_cons, List.map_append, List.map_cons, List.map_nil, List.nodup_append]
    refine ⟨hd.nodup, List.nodup_singleton _, fun h hh k hk => ?_⟩
    obtain ⟨c, hc, rfl⟩ := List.mem_map.mp hh
    rw [List.mem_singleton] at hk
    rw [hk]
    exact (hlive' c hc).1
  · have hrun : runBytes part new 30 ⊆ directoryBytes part [b, ⟨new, []⟩] := fun o ho =>
      ⟨⟨new, []⟩, by simp, ho⟩
    have hfield : field b.handle fileOffsetNext 4 ⊆ directoryBytes part [b, ⟨new, []⟩] :=
      fun o ho => ⟨b, by simp, contentBytes_subset (link_subset hp (by decide) (by decide) ho)⟩
    exact (ha.mono hrun).trans (hset.mono hfield)

/-! ## Adding a file -/

/-- The files with a new extent, if there is one. -/
def withExtent (blocks : List Block) (new : DirectoryHandle) (live : Files) : Files :=
  if Full blocks then Function.update live new (some 30) else live

/-- The files there were before a new one. -/
theorem old_of_none {new : FileHandle} (hnone : live new = none) (c : FileHandle) (h : UInt32)
    (hc : live c = some h) : c ≠ new ∧ Function.update live new (some size) c = some h := by
  have hne : c ≠ new := by
    rintro rfl
    rw [hnone] at hc
    cases hc
  exact ⟨hne, (Function.update_of_ne hne ..).trans hc⟩

/-- Appending an entry to a block of a directory. -/
theorem Directory.append (fs : FileSystem) (hp : part.Small) (ho : Owned part fs.memory live)
    (hd : Directory part fs.memory live (pre ++ b :: post)) (hb : b.files.length < 7)
    (hslot : ∃ i, fs.fileList i = 0) (file : FileHandle) (junk : ℕ → UInt8) :
    ∃ fs', appendEntry part b.handle file junk fs = .ok fs' ∧ fs'.fileList = fs.fileList ∧
      Owned part fs'.memory live ∧ Directory part fs'.memory live (pre ++ b.add file :: post) ∧
      AgreeOff part.blockAddress (directoryBytes part (pre ++ b.add file :: post)) fs.memory
        fs'.memory := by
  have hmem : b ∈ pre ++ b :: post := by simp
  obtain ⟨fs', heq, hlist, hb', ha⟩ := (hd.stored b hmem).append hp hb hslot file junk
  refine ⟨fs', heq, hlist, ho.of_agreeOff hp.toFormatted (hd.live_eq b hmem)
    (ha.mono (entryBytes_subset hp)), hd.rewrite hp ho ha hb' rfl, ha.mono fun o ho => ?_⟩
  exact ⟨b.add file, by simp, contentBytes_subset (entryBytes_subset hp ho)⟩

/-- **Adding a file** does to the blocks what it does to the listing: with room for a new extent
when the blocks are full, and an entry left in the last of them. -/
theorem Directory.addFile {fs : FileSystem} (hp : part.Small) (ho : Owned part fs.memory live)
    (hd : Directory part fs.memory live blocks) (hne : blocks ≠ [])
    (hslot : ∃ i, fs.fileList i = 0) (hroom : Full blocks → Room part 30 fs.memory)
    (hlast : LastHasRoom blocks) (file : FileHandle) (junk : ℕ → UInt8) :
    ∃ fs' new, fsDirectoryAddFile part ((blocks.map Block.handle).headD 0) file junk fs =
        .ok (1, fs') ∧ fs'.fileList = fs.fileList ∧
      (Full blocks → live new = none ∧ FirstFit part 30 fs.memory new) ∧
      Owned part fs'.memory (withExtent blocks new live) ∧
      Directory part fs'.memory (withExtent blocks new live) (addTo new file blocks) ∧
      AgreeOff part.blockAddress (directoryBytes part (addTo new file blocks)) fs.memory
        fs'.memory := by
  have hlimit : blocks.length ≤ walkLimit := (hd.length_le hp ho).trans (by decide)
  have hrun : ∀ {target mem fs'}, targetBlock part ((blocks.map Block.handle).headD 0) fs.memory =
      .ok (target, mem) → appendEntry part target file junk { fs with memory := mem } = .ok fs' →
        fsDirectoryAddFile part ((blocks.map Block.handle).headD 0) file junk fs = .ok (1, fs') := by
    intro target mem fs' htarget happend
    rw [fsDirectoryAddFile, htarget, ok_bind]
    simp only [happend, ok_bind]
    rfl
  rcases addTo_cases hne with ⟨hfull, pre, b, post, rfl, hb, hadd⟩ |
    ⟨hfull, ⟨first, rfl, hadd⟩ | ⟨pre, b, hpre, rfl, hb, hadd⟩⟩
  · -- a block has room
    obtain ⟨fs', heq, hlist, ho', hd', ha⟩ :=
      hd.append fs hp ho (by rcases hb with ⟨-, hb⟩ | ⟨-, hb⟩ <;> omega) hslot file junk
    refine ⟨fs', 0, hrun (hd.targetBlock_room hp hb hlimit) heq, hlist, fun h => absurd h hfull, ?_⟩
    rw [withExtent, if_neg hfull, hadd]
    exact ⟨ho', hd', ha⟩
  · -- the only block is full: the file goes to a new extent
    have hd₀ : Directory part fs.memory live ([] ++ [first]) := hd
    obtain ⟨new, mem₁, hcreate, hnone, ho₁, ha₁, hs₁, hparent, hnext⟩ :=
      ho.createExtent hp (hroom hfull) first.handle
    obtain ⟨ho₂, hd₂, ha₂⟩ := hd₀.linkExtent hp ho₁ (old_of_none hnone.1) (Function.update_self ..) ha₁
      hs₁ hparent hnext
    have hd₃ : Directory part _ _ ([first] ++ ⟨new, []⟩ :: []) := hd₂
    obtain ⟨fs', heq, hlist, ho', hd', ha⟩ :=
      hd₃.append { fs with memory := fsFileSetNextAddress part first.handle new mem₁ } hp ho₂
        (Nat.zero_lt_succ 6) hslot file junk
    refine ⟨fs', new, hrun (hd.targetBlock_first hp hfull.1 hcreate) heq, hlist, fun _ => hnone, ?_⟩
    rw [withExtent, if_pos hfull, hadd]
    have hsub : directoryBytes part [first, ⟨new, []⟩] ⊆ directoryBytes part [first, ⟨new, [file]⟩] :=
      directoryBytes_subset fun _ hh => hh
    exact ⟨ho', hd', (ha₂.mono hsub).trans ha⟩
  · -- the extents are full: the last takes the file, and has a new one linked behind
    obtain ⟨new, mem₁, hcreate, hnone, ho₁, ha₁, hs₁, hparent, hnext⟩ :=
      ho.createExtent hp (hroom hfull) b.handle
    obtain ⟨ho₂, hd₂, ha₂⟩ := hd.linkExtent hp ho₁ (old_of_none hnone.1) (Function.update_self ..) ha₁
      hs₁ hparent hnext
    -- the walk only asks for six entries: without the bound, the file would become the eighth
    have hlt : b.files.length < 7 := by
      refine hlast hfull b ?_
      obtain ⟨first, pre, rfl⟩ := List.exists_cons_of_ne_nil fun h : pre = [] => by
        rw [h] at hpre
        exact hpre
      simp
    obtain ⟨fs', heq, hlist, ho', hd', ha⟩ :=
      hd₂.append { fs with memory := fsFileSetNextAddress part b.handle new mem₁ } hp ho₂ hlt hslot
        file junk
    refine ⟨fs', new, hrun (hd.targetBlock_last hp hpre hb hlimit hcreate) heq, hlist,
      fun _ => hnone, ?_⟩
    have hsub : [b, ⟨new, []⟩].map Block.handle ⊆
        (pre ++ [b.add file, ⟨new, []⟩]).map Block.handle := by
      rw [List.map_append]
      exact List.subset_append_right _ _
    rw [withExtent, if_pos hfull, hadd]
    exact ⟨ho', hd', (ha₂.mono (directoryBytes_subset hsub)).trans ha⟩

end Directory

end MicroKernel.Fs
