import MicroKernel.Fs.Fill
import MicroKernel.Fs.Format
import MicroKernel.Fs.Refinement

/-!
# The catalog of a directory

What a listing reads of the entries of a directory, in their order: the name, the attributes and the
size in the header of each. Files and directories that are created and added are catalogued as they
were created, and nothing else of the directory changes, nor does the header of the device.

## Main definitions

* `CatalogEntry`, `catalogEntry`: what a listing reads of a file
* `NewEntry`, `Addition`, `addEntry`: a file or a directory that is created and added
* `Catalog`: a directory of an opened device, with what a listing reads of it
* `Below`: the sectors that are in use

## Main results

* `Catalog.addEntry`: an addition with space
* `catalog_of_format`: the root directory of a device just formatted
* `Catalog.of_additions`: additions for which there are enough sectors
* `Catalog.findByName`: whether a name is found
-/

namespace MicroKernel.Fs

open Store

/-- What a listing reads of a file. -/
structure CatalogEntry where
  name : List UInt8
  attributes : List UInt8
  size : UInt32

/-- What the getters return for a file, with the name read into a blank buffer. -/
def catalogEntry (part : Partition) (mem : Memory) (h : FileHandle) : CatalogEntry where
  name := fsFileGetName part h (cleanName []) mem
  attributes := fsFileGetAttributes part h mem
  size := fsFileGetSize part h mem

/-- A file or a directory to create. -/
inductive NewEntry where
  | file (filename : List UInt8) (size : UInt32)
  | directory (filename : List UInt8)

namespace NewEntry

/-- The size that is allocated. -/
def size : NewEntry → UInt32
  | file _ size => size
  | directory _ => 30

/-- How the entry is catalogued. -/
def entry : NewEntry → CatalogEntry
  | file filename size => ⟨cleanName filename, chars [' ', 'r', 'w', ' '], size⟩
  | directory filename => ⟨cleanName filename, chars [' ', 'r', 'w', 'd'], 30⟩

def create (part : Partition) : NewEntry → Memory → Except Fault (FileHandle × Memory)
  | file filename size => fsFileCreate part filename size
  | directory filename => fsDirectoryCreate part filename

end NewEntry

/-- An entry to create, and what the stack holds when it is added. -/
structure Addition where
  new : NewEntry
  junk : ℕ → UInt8

/-- Create an entry and add it to the directory. -/
def addEntry (part : Partition) (dir : DirectoryHandle) (addition : Addition) (fs : FileSystem) :
    Except Fault FileSystem := do
  let (file, mem) ← addition.new.create part fs.memory
  let (_, fs) ← fsDirectoryAddFile part dir file addition.junk { fs with memory := mem }
  return fs

/-- The header of the device is the same. -/
def SameDevice (part : Partition) (mem mem' : Memory) : Prop :=
  ∀ o < 32, view part.blockAddress mem' o = view part.blockAddress mem o

/-- A directory of a device that opens as the partition, which no file was removed from, and what a
listing reads of its entries. -/
structure Catalog (part : Partition) (dir : DirectoryHandle) (mem : Memory) (files : Files)
    (blocks : List Block) (entries : List CatalogEntry) : Prop where
  contents : Contents part dir mem files blocks
  filled : Filled blocks
  entries_eq : (listing blocks).map (catalogEntry part mem) = entries
  opened : fsDeviceOpen part.blockAddress mem = part
  root_eq : fsDeviceGetRootDirectory part mem = dir

/-- The files lie in the sectors before sector `n`. -/
def Below (part : Partition) (live : Files) (n : ℕ) : Prop :=
  ∀ h size, live h = some size →
    h.toNat + runLength part size * part.sectorSize.toNat ≤ n * part.sectorSize.toNat

/-- A directory with `count` entries gets a new extent with the next. -/
def NeedsExtent (count : ℕ) : Prop := count = 7 ∨ 13 ≤ count ∧ count % 7 = 6

instance (count : ℕ) : Decidable (NeedsExtent count) := instDecidableOr

/-- The sectors that are taken when entries are added to a directory with `count` entries. -/
def sectorsFor (part : Partition) : (count : ℕ) → List NewEntry → ℕ
  | _, [] => 0
  | count, new :: news =>
    runLength part new.size + (if NeedsExtent count then 2 else 0) + sectorsFor part (count + 1) news

/-! ## What stays -/

section Stays

variable {part : Partition} {mem mem' mem'' : Memory} {S : Set ℕ} {files : Files} {h : FileHandle}
  {size : UInt32}

theorem SameDevice.trans (h : SameDevice part mem mem') (h' : SameDevice part mem' mem'') :
    SameDevice part mem mem'' :=
  fun o ho => (h' o ho).trans (h o ho)

theorem sameDevice_of_agreeOff (ha : AgreeOff part.blockAddress S mem mem') (hS : ∀ o ∈ S, 32 ≤ o) :
    SameDevice part mem mem' :=
  fun o ho => ha o (by omega) fun hmem => absurd (hS o hmem) (by omega)

theorem SameDevice.getWord (hd : SameDevice part mem mem') {p : Partition}
    (hbase : p.blockAddress = part.blockAddress) {offset : UInt32} (hoff : offset.toNat ≤ 28) :
    getWord p 0 offset mem' = getWord p 0 offset mem := by
  have hzero : (0 : UInt32).toNat = 0 := rfl
  have hagree : AgreeOff p.blockAddress {o | 32 ≤ o} mem mem' := fun o _ ho => by
    rw [hbase]
    exact hd o (not_le.mp ho)
  refine getWord_of_agreeOff hagree (by decide) hoff ?_
  rintro o ⟨-, hlt⟩ (hle : 32 ≤ o)
  omega

/-- **A device opens as before** when its header is the same. -/
theorem SameDevice.opened (hd : SameDevice part mem mem')
    (hopen : fsDeviceOpen part.blockAddress mem = part) :
    fsDeviceOpen part.blockAddress mem' = part := by
  have hfirst : ∀ m : Memory, m part.blockAddress = view part.blockAddress m 0 := fun m => by
    rw [view, show UInt32.ofNat 0 = 0 from rfl, UInt32.add_zero]
  have hbyte₀ : mem' part.blockAddress = mem part.blockAddress := by
    rw [hfirst mem', hfirst mem]
    exact hd 0 (by decide)
  have hbyte₁ : mem' (part.blockAddress + 1) = mem (part.blockAddress + 1) := hd 1 (by decide)
  have hbyte₂ : mem' (part.blockAddress + 2) = mem (part.blockAddress + 2) := hd 2 (by decide)
  have hsize : fsDeviceGetSize ⟨part.blockAddress, 0, 0, 0⟩ mem' =
      fsDeviceGetSize ⟨part.blockAddress, 0, 0, 0⟩ mem := hd.getWord rfl (by decide)
  have hsect : fsDeviceGetSectorSize ⟨part.blockAddress, 0, 0, 0⟩ mem' =
      fsDeviceGetSectorSize ⟨part.blockAddress, 0, 0, 0⟩ mem := hd.getWord rfl (by decide)
  rw [← hopen, fsDeviceOpen, fsDeviceOpen]
  rw [fsDeviceOpen] at hopen
  simp only [hopen, hbyte₀, hbyte₁, hbyte₂, hsize, hsect]

/-- A catalogued file is read through the getters of its header. -/
theorem catalogEntry_congr (hfields : getField part h mem' = getField part h mem) :
    catalogEntry part mem' h = catalogEntry part mem h := by
  show CatalogEntry.mk (getField part h mem' .name (cleanName [])) (getField part h mem' .attributes)
    (getField part h mem' .size) = _
  rw [hfields]
  rfl

/-- The files that are kept are read as before. -/
theorem Keeps.catalogEntry_eq (hk : Keeps part files mem mem') (hp : part.Formatted)
    (hl : files h = some size) : catalogEntry part mem' h = catalogEntry part mem h := by
  have hss := hp.le_sectorSize
  have hlen : 1 ≤ runLength part size := Nat.le_add_left _ _
  have hmul := Nat.mul_le_mul_right part.sectorSize.toNat hlen
  refine catalogEntry_congr (getField_congr fun o ho => ?_)
  rw [view_handle, view_handle]
  exact hk.run h size hl _ ⟨Nat.le_add_right _ _, by omega⟩

end Stays

/-! ## New entries -/

section Create

variable {part : Partition} {dir file : DirectoryHandle} {mem mem' : Memory} {files : Files}
  {blocks : List Block} {size : UInt32} {filename : List UInt8}

/-- The catalog of a file just created. -/
theorem catalogEntry_initHeader
    (hsize : fsFileGetSize part file (initHeader part file filename mem) = size) :
    catalogEntry part (initHeader part file filename mem) file =
      (NewEntry.file filename size).entry := by
  have hcreated := created_storedFile hsize
  have hname : fsFileGetName part file (cleanName []) (initHeader part file filename mem) =
      cleanName filename := by
    have h := congrFun hcreated.name (cleanName [])
    have hten : fileNameLength = 10 := rfl
    rwa [List.drop_eq_nil_of_le (by rw [length_cleanName, hten]), List.append_nil] at h
  have hattributes : fsFileGetAttributes part file (initHeader part file filename mem) = _ :=
    hcreated.attributes
  rw [catalogEntry, hname, hattributes, hsize]
  rfl

/-- A directory is a file with other attributes, and without references. -/
theorem catalogEntry_directoryHeader
    (hcatalog : catalogEntry part mem file = (NewEntry.file filename 30).entry) :
    catalogEntry part (directoryHeader part file mem) file = (NewEntry.directory filename).entry := by
  have hcount := getField_setter part file mem
    (show Setter.InRange (.referenceCount 0) from trivial)
  have hattributes := getField_setter part file (Setter.apply part file (.referenceCount 0) mem)
    (show Setter.InRange (.attributes (chars [' ', 'r', 'w', 'd'])) from le_rfl)
  have hfields : ∀ field ≠ .attributes, field ≠ .refCount →
      getField part file (directoryHeader part file mem) field = getField part file mem field := by
    intro field h₁ h₂
    exact (congrFun hattributes field).trans ((Function.update_of_ne h₁ ..).trans
      ((congrFun hcount field).trans (Function.update_of_ne h₂ ..)))
  have hname := congrFun (hfields .name (by decide) (by decide)) (cleanName [])
  have hsize := hfields .size (by decide) (by decide)
  have hattr : fsFileGetAttributes part file (directoryHeader part file mem) =
      chars [' ', 'r', 'w', 'd'] := by
    exact (congrFun hattributes .attributes).trans (Function.update_self ..)
  rw [catalogEntry, CatalogEntry.mk.injEq] at hcatalog
  rw [catalogEntry, hattr]
  exact congrArg₂ (CatalogEntry.mk · _ ·) (hname.trans hcatalog.1) (hsize.trans hcatalog.2.2)

/-- Bytes of a file that are neither markers nor its size may change. -/
theorem Contents.of_agreeOff (hp : part.Small) (hc : Contents part dir mem files blocks)
    (hl : files file = some size)
    (ha : AgreeOff part.blockAddress (contentBytes part file size) mem mem') :
    Contents part dir mem' files blocks := by
  obtain ⟨-, hlive⟩ := hc.file_eq hl
  have hdisj : Disjoint (directoryBytes part blocks) (contentBytes part file size) :=
    (hc.disjoint_directoryBytes hl).symm.mono_right contentBytes_subset
  exact ⟨hc.owned.of_agreeOff hp.toFormatted hlive ha,
    hc.directory.of_agreeOff hp ha hdisj fun b hb => withBlocks_of_mem hb, hc.head_eq, hc.apart,
    hc.entries, hc.nodup⟩

/-- What a creation of an entry does: the first run of free sectors is taken for it, and nothing else
of the directory and its files changes, nor does the header of the device. -/
structure Creates (part : Partition) (dir : DirectoryHandle) (mem : Memory) (files : Files)
    (blocks : List Block) (new : NewEntry) (file : FileHandle) (mem' : Memory) : Prop where
  fresh : withBlocks blocks files file = none
  firstFit : FirstFit part new.size mem file
  contents : Contents part dir mem' (Function.update files file (some new.size)) blocks
  keeps : Keeps part files mem mem'
  device : SameDevice part mem mem'
  entry_eq : catalogEntry part mem' file = new.entry

/-- A created file. -/
theorem Contents.createFile (hp : part.Small) (hc : Contents part dir mem files blocks)
    (hr : Room part size mem) (filename : List UInt8) :
    ∃ file mem', fsFileCreate part filename size mem = .ok (file, mem') ∧
      Creates part dir mem files blocks (.file filename size) file mem' := by
  obtain ⟨file, mem₁, hcreate, hfresh, hfit, hc', hk⟩ := hc.create hp hr filename
  obtain ⟨h, -, m, hcreate', -, -, -, ho, ha⟩ := hc.owned.create hp.toFormatted hr filename
  obtain ⟨rfl, rfl⟩ := Prod.mk.inj (Except.ok.inj (hcreate'.symm.trans hcreate))
  have hself : Function.update files h (some size) h = some size := Function.update_self ..
  have hlive := (hc'.file_eq hself).2
  have hle := (hc'.owned.run_le hp.toFormatted hlive).1
  rw [hp.sectorSize_eq] at hle
  refine ⟨h, _, hcreate, hfresh, hfit, hc', hk,
    sameDevice_of_agreeOff ha fun o ho' => hle.trans ho'.1, catalogEntry_initHeader ?_⟩
  exact (hc'.owned.marked h size hlive).size_eq

/-- A created directory. -/
theorem Contents.createDirectory (hp : part.Small) (hc : Contents part dir mem files blocks)
    (hr : Room part 30 mem) (filename : List UInt8) :
    ∃ file mem', fsDirectoryCreate part filename mem = .ok (file, mem') ∧
      Creates part dir mem files blocks (.directory filename) file mem' := by
  obtain ⟨file, mem₁, hcreate, h⟩ := hc.createFile hp hr filename
  have hself : Function.update files file (some 30) file = some (30 : UInt32) :=
    Function.update_self ..
  have hlive := (h.contents.file_eq hself).2
  have hhead := (h.contents.owned.fileAt hp.toFormatted hlive).header_le hp.toFormatted
  have hle := (h.contents.owned.run_le hp.toFormatted hlive).1
  rw [hp.sectorSize_eq] at hle
  have hset : AgreeOff part.blockAddress (contentBytes part file 30) mem₁
      (directoryHeader part file mem₁) :=
    (agreeOff_directoryHeader hhead part _).mono
      (linkFields_subset_headerFields.trans (headerFields_subset hp.toFormatted 30))
  have hc₂ := h.contents.of_agreeOff hp hself hset
  -- the header of the new directory lies in its own run
  have hkeeps : Keeps part files mem₁ (directoryHeader part file mem₁) := by
    refine hc₂.owned.keeps hp (hset.mono contentBytes_subset)
      (hc₂.owned.zero_notMem_run hp hlive) fun k s hl => ?_
    have hne : k ≠ file := by
      rintro rfl
      rw [(withBlocks_eq_none h.fresh).2] at hl
      cases hl
    have hl' : Function.update files file (some 30) k = some s := by
      rw [Function.update_of_ne hne, hl]
    exact ⟨(h.contents.file_eq hl').2,
      h.contents.owned.disjoint _ _ _ _ (h.contents.file_eq hl').2 hlive hne⟩
  exact ⟨file, _, fsDirectoryCreate_eq hcreate, h.fresh, h.firstFit, hc₂, h.keeps.trans hkeeps,
    h.device.trans (sameDevice_of_agreeOff hset fun o ho => hle.trans (contentBytes_subset ho).1),
    catalogEntry_directoryHeader h.entry_eq⟩

theorem Contents.createEntry (hp : part.Small) (hc : Contents part dir mem files blocks)
    (new : NewEntry) (hr : Room part new.size mem) :
    ∃ file mem', new.create part mem = .ok (file, mem') ∧
      Creates part dir mem files blocks new file mem' := by
  cases new with
  | file filename size => exact hc.createFile hp hr filename
  | directory filename => exact hc.createDirectory hp hr filename

end Create

/-! ## Sectors in use -/

section Below

variable {part : Partition} {mem : Memory} {live : Files} {n k : ℕ} {h : FileHandle} {size : UInt32}

/-- The sectors behind those in use are free. -/
theorem Below.freeRun (hb : Below part live n) (hp : part.Formatted) (ho : Owned part mem live)
    (hn : 0 < n) (hle : n + k ≤ part.sectorCount.toNat) : FreeRun part mem n k := by
  have hss := hp.le_sectorSize
  intro i hi
  refine ho.free (n + i) (by omega) (by omega) ?_
  rintro h size hl ⟨-, hlt⟩
  have hbelow := hb h size hl
  rw [Nat.add_mul] at hlt
  omega

theorem Below.room (hb : Below part live n) (hp : part.Formatted) (ho : Owned part mem live)
    (hn : 0 < n) (hle : n + runLength part size ≤ part.sectorCount.toNat) : Room part size mem :=
  ⟨n, hle, hb.freeRun hp ho hn hle⟩

/-- A file that is put into the first free run lies before the next sectors. -/
theorem Below.update (hb : Below part live n) (hp : part.Formatted) (ho : Owned part mem live)
    (hn : 0 < n) (hle : n + runLength part size ≤ part.sectorCount.toNat)
    (hfit : FirstFit part size mem h) :
    Below part (Function.update live h (some size)) (n + runLength part size) := by
  have hh := hfit n hle (hb.freeRun hp ho hn hle)
  intro k s hl
  rw [Nat.add_mul]
  by_cases hk : k = h
  · subst hk
    rw [Function.update_self, Option.some_inj] at hl
    rw [← hl]
    omega
  · rw [Function.update_of_ne hk] at hl
    exact (hb k s hl).trans (Nat.le_add_right _ _)

/-- Filled blocks are full with seven entries, and then with every seventh. -/
theorem Filled.full_iff {blocks : List Block} (h : Filled blocks) :
    Full blocks ↔ NeedsExtent (listing blocks).length := by
  obtain ⟨pre, last, rfl, hpre, hlast, hone⟩ := h
  have hlen : (listing (pre ++ [last])).length = 7 * pre.length + last.files.length := by
    rw [listing_append, List.length_append, length_listing_of_forall hpre, listing_cons, listing_nil,
      List.append_nil]
  rw [hlen, NeedsExtent]
  cases pre with
  | nil =>
    have hle : last.files.length ≤ 7 := hlast.elim (fun h => by omega) fun h => h.2.le
    simp only [List.nil_append, Full, List.length_nil, List.not_mem_nil, false_implies, implies_true,
      and_true]
    omega
  | cons first pre =>
    have hle : last.files.length ≤ 6 := hlast.resolve_right fun h => absurd h.1 (List.cons_ne_nil _ _)
    have hfirst : first.files.length = 7 := hpre first List.mem_cons_self
    have hfull : Full (first :: pre ++ [last]) ↔ 6 ≤ last.files.length := by
      refine ⟨fun h => h.2 last (by simp), fun h => ⟨hfirst.ge, fun e he => ?_⟩⟩
      rcases List.mem_append.mp he with he | he
      · rw [hpre e (List.mem_cons_of_mem _ he)]
        decide
      · rwa [List.mem_singleton.mp he]
    -- the second block is begun with an entry
    have hsecond : pre = [] → 0 < last.files.length := fun h =>
      List.length_pos_of_ne_nil (hone (by rw [h]; rfl))
    have hmany : pre = [] ∨ 1 ≤ pre.length := by
      cases pre with
      | nil => exact .inl rfl
      | cons b pre => exact .inr (Nat.le_add_left _ _)
    rw [hfull, List.length_cons]
    rcases hmany with rfl | hmany
    · have := hsecond rfl
      rw [List.length_nil]
      omega
    · omega

end Below

/-! ## Additions -/

section Add

variable {part : Partition} {dir : DirectoryHandle} {fs : FileSystem} {files : Files}
  {blocks : List Block} {entries : List CatalogEntry} {n : ℕ}

theorem Catalog.length_entries {mem : Memory} (hc : Catalog part dir mem files blocks entries) :
    entries.length = (listing blocks).length := by
  rw [← hc.entries_eq, List.length_map]

/-- A file that is added changes the blocks of the directory. -/
theorem Contents.sameDevice_add {fs' : FileSystem} {file : FileHandle} {junk : ℕ → UInt8}
    (hp : part.Small) (hc : Contents part dir fs.memory files blocks)
    (hslot : ∃ i, fs.fileList i = 0) (hroom : Full blocks → Room part 30 fs.memory)
    (hlast : LastHasRoom blocks)
    (hadd : fsDirectoryAddFile part dir file junk fs = .ok (1, fs')) :
    SameDevice part fs.memory fs'.memory := by
  obtain ⟨u, new, heq, -, -, ho, hd, ha⟩ :=
    hc.directory.addFile hp hc.owned hc.ne_nil hslot hroom hlast file junk
  rw [hc.headD_eq, hadd, Except.ok.injEq, Prod.mk.injEq] at heq
  obtain ⟨-, rfl⟩ := heq
  refine sameDevice_of_agreeOff ha ?_
  rintro o ⟨b, hb, hmem⟩
  have hle := (ho.run_le hp.toFormatted (hd.live_eq b hb)).1
  rw [hp.sectorSize_eq] at hle
  exact hle.trans hmem.1

/-- **An addition** with enough sectors behind those in use is catalogued behind the other entries. -/
theorem Catalog.addEntry (hp : part.Small) (hc : Catalog part dir fs.memory files blocks entries)
    (hslot : ∃ i, fs.fileList i = 0) (hb : Below part (withBlocks blocks files) n) (hn : 0 < n)
    (addition : Addition)
    (hle : n + (runLength part addition.new.size + if NeedsExtent entries.length then 2 else 0) ≤
      part.sectorCount.toNat) :
    ∃ fs' files' blocks', Fs.addEntry part dir addition fs = .ok fs' ∧ fs'.fileList = fs.fileList ∧
      Catalog part dir fs'.memory files' blocks' (entries ++ [addition.new.entry]) ∧
      Below part (withBlocks blocks' files')
        (n + (runLength part addition.new.size + if NeedsExtent entries.length then 2 else 0)) := by
  have hlen : runLength part addition.new.size ≤
      runLength part addition.new.size + if NeedsExtent entries.length then 2 else 0 :=
    Nat.le_add_right _ _
  obtain ⟨file, mem, hcreate, h⟩ := hc.contents.createEntry hp addition.new
    (hb.room hp.toFormatted hc.contents.owned hn (by omega))
  obtain ⟨hnot, hfile⟩ := withBlocks_eq_none h.fresh
  have hself : Function.update files file (some addition.new.size) file = some addition.new.size :=
    Function.update_self ..
  have hold : ∀ k s, files k = some s → Function.update files file (some addition.new.size) k = some s :=
    fun k s hl => (old_of_none hfile k s hl).2
  have hfresh : file ∉ listing blocks := fun hmem => hc.contents.entries file hmem hfile
  have hb₁ : Below part (withBlocks blocks (Function.update files file (some addition.new.size)))
      (n + runLength part addition.new.size) := by
    rw [withBlocks_update hnot]
    exact hb.update hp.toFormatted hc.contents.owned hn (by omega) h.firstFit
  have hfull := hc.filled.full_iff
  rw [← hc.length_entries] at hfull
  have hthirty : runLength part 30 = 2 := by
    rw [runLength, hp.sectorSize_eq]
    rfl
  have hroom : Full blocks → Room part 30 mem := fun hf => by
    rw [if_pos (hfull.mp hf)] at hle
    exact hb₁.room hp.toFormatted h.contents.owned (by omega) (by omega)
  -- the directory takes the file, with a new extent where its blocks are full
  have hc₁ : Contents part dir (FileSystem.mk mem fs.fileList fs.fileSize).memory
      (Function.update files file (some addition.new.size)) blocks := h.contents
  obtain ⟨fs', ext, hadd, hlist, hfit, hc₂, hk⟩ := hc₁.add hp hslot
    (by rw [hself]; exact Option.some_ne_none _) hfresh hroom hc.filled.lastHasRoom addition.junk
  have hdevice := h.device.trans (hc₁.sameDevice_add hp hslot hroom hc.filled.lastHasRoom hadd)
  obtain ⟨hfilled, hlisting⟩ := hc.filled.addTo ext file
  refine ⟨fs', _, addTo ext file blocks, ?_, hlist, ⟨hc₂, hfilled, ?_, hdevice.opened hc.opened,
    (hdevice.getWord rfl (by decide)).trans hc.root_eq⟩, ?_⟩
  · rw [Fs.addEntry, hcreate, ok_bind]
    simp only [hadd, ok_bind]
    rfl
  · rw [hlisting, List.map_append, ← hc.entries_eq]
    refine congrArg₂ (· ++ ·) (List.map_congr_left fun k hmem => ?_) ?_
    · obtain ⟨s, hl⟩ := Option.ne_none_iff_exists'.mp (hc.contents.entries k hmem)
      exact (hk.catalogEntry_eq hp.toFormatted (hold k s hl)).trans
        (h.keeps.catalogEntry_eq hp.toFormatted hl)
    · rw [List.map_singleton, hk.catalogEntry_eq hp.toFormatted hself, h.entry_eq]
  · rw [← withExtent_withBlocks ext file hc.contents.ne_nil, withExtent, ← Nat.add_assoc]
    split
    · next hf =>
      rw [if_pos (hfull.mp hf)] at hle ⊢
      rw [← hthirty] at hle ⊢
      exact hb₁.update hp.toFormatted h.contents.owned (by omega) (by omega) (hfit hf)
    · next hf =>
      rw [if_neg (mt hfull.mpr hf), Nat.add_zero]
      exact hb₁

/-- **Additions** for which there are enough sectors are catalogued in their order. -/
theorem Catalog.of_additions (hp : part.Small)
    (hc : Catalog part dir fs.memory files blocks entries) (hslot : ∃ i, fs.fileList i = 0)
    (hb : Below part (withBlocks blocks files) n) (hn : 0 < n) (additions : List Addition)
    (hle : n + sectorsFor part entries.length (additions.map Addition.new) ≤ part.sectorCount.toNat) :
    ∃ fs' files' blocks', Run.exec (Fs.addEntry part dir) additions fs = .ok fs' ∧
      fs'.fileList = fs.fileList ∧ Catalog part dir fs'.memory files' blocks'
        (entries ++ additions.map fun addition => addition.new.entry) := by
  induction additions generalizing fs files blocks entries n with
  | nil => exact ⟨fs, files, blocks, rfl, rfl, by rwa [List.map_nil, List.append_nil]⟩
  | cons addition additions ih =>
    rw [List.map_cons, sectorsFor, ← Nat.add_assoc] at hle
    obtain ⟨fs₁, files₁, blocks₁, heq, hlist, hc₁, hb₁⟩ :=
      hc.addEntry hp hslot hb hn addition ((Nat.le_add_right _ _).trans hle)
    obtain ⟨fs', files', blocks', hrun, hlist', hc'⟩ := ih hc₁ (hlist ▸ hslot) hb₁ (by omega)
      (by rwa [List.length_append, List.length_singleton])
    refine ⟨fs', files', blocks', ?_, hlist'.trans hlist, ?_⟩
    · rw [Run.exec_cons_of_ok heq, hrun]
    · rwa [List.append_assoc] at hc'

end Add

/-! ## The root directory of a device just formatted -/

section Format

variable {part : Partition} {dir : DirectoryHandle} {mem mem' : Memory} {files : Files}
  {blocks : List Block}

/-- Fields of the device header may change. -/
theorem Contents.of_agreeOff_device (hp : part.Small) (hc : Contents part dir mem files blocks)
    (ha : AgreeOff part.blockAddress (Set.Ico 16 24) mem mem') :
    Contents part dir mem' files blocks := by
  refine ⟨hc.owned.of_agreeOff_device hp.toFormatted (ha.mono fun o ho => ?_),
    hc.directory.of_agreeOff hp ha (Set.disjoint_left.mpr ?_) fun b hb => withBlocks_of_mem hb,
    hc.head_eq, hc.apart, hc.entries, hc.nodup⟩
  · exact ⟨(by decide : 0 < 16).trans_le ho.1, ho.2.trans (by decide)⟩
  · rintro o ⟨b, hb, hmem⟩ ho
    have hle := (hc.owned.run_le hp.toFormatted (withBlocks_of_mem hb)).1
    rw [hp.sectorSize_eq] at hle
    have h₁ := hmem.1
    have h₂ := ho.2
    omega

/-- **A format** leaves an empty root directory in the second and the third sector, whatever the
memory held. -/
theorem catalog_of_format (p : Partition) (beginning ending sectorSize : UInt32) (mem : Memory)
    (hpart : formatted p beginning ending sectorSize = part) (hp : part.Small)
    (hthree : 3 ≤ part.sectorCount.toNat) :
    ∃ mem', fsDeviceFormat p beginning ending sectorSize mem = .ok (part, mem') ∧
      Catalog part part.sectorSize mem' (fun _ => none) [⟨part.sectorSize, []⟩] [] ∧
      Below part (withBlocks [⟨part.sectorSize, []⟩] fun _ => none) 3 := by
  have hss := hp.sectorSize_eq
  have hzero : (0 : UInt32).toNat = 0 := rfl
  have h0 : (0 : UInt32).toNat + 32 ≤ 2 ^ 32 := by decide
  have hthirty : runLength part 30 = 2 := by
    rw [runLength, hss]
    rfl
  have ho₀ : Owned part (formatHeader part mem) fun _ => none := owned_formatHeader hp.toFormatted
  have hroom : Room part 30 (formatHeader part mem) :=
    ⟨1, by omega, fun k hk => ho₀.free _ (by omega) (by omega) (by simp)⟩
  obtain ⟨dir, m, hcreate, -, hc, -⟩ :=
    Contents.of_create hp ho₀ hroom (chars ['r', 'o', 'o', 't'])
  obtain ⟨m₁, hcreate₁, -, ha₁, -⟩ := fsDirectoryCreate_formatHeader hp.toFormatted hthree mem
  obtain ⟨rfl, rfl⟩ := Prod.mk.inj (Except.ok.inj (hcreate₁.symm.trans hcreate))
  -- the format goes on with the last fields of the device header
  have ha₂ := agreeOff_deviceFields part part.sectorSize m₁
  have hsect : getWord part 0 deviceOffsetSectSz (setWord part 0 deviceOffsetSectSz part.sectorSize
      (setWord part 0 deviceOffsetRoot part.sectorSize m₁)) = part.sectorSize :=
    getWord_setWord h0 (by decide)
  have hformat : fsDeviceFormat p beginning ending sectorSize mem =
      .ok (part, setWord part 0 deviceOffsetSectSz part.sectorSize
        (setWord part 0 deviceOffsetRoot part.sectorSize m₁)) := by
    have hne : sectorSize ≠ 0 := by
      rintro rfl
      rw [← hpart] at hss
      exact absurd hss.symm (Nat.succ_ne_zero 31)
    rw [fsDeviceFormat, if_neg hne]
    simp only [hpart, hcreate]
    rfl
  generalize setWord part 0 deviceOffsetSectSz part.sectorSize
    (setWord part 0 deviceOffsetRoot part.sectorSize m₁) = mem' at ha₂ hsect hformat
  refine ⟨mem', hformat, ⟨hc.of_agreeOff_device hp ha₂, filled_singleton _, rfl, ?_, hsect⟩, ?_⟩
  · -- the first sixteen bytes stay from the loop over the sectors on
    have ha : AgreeOff part.blockAddress {o | 16 ≤ o} (formatHeader part mem) mem' := by
      refine (ha₁.mono fun o ho => ?_).trans (ha₂.mono fun o ho => ho.1)
      have hle := ho.1
      rw [hss] at hle
      exact (by decide : 16 ≤ 32).trans hle
    have hstay : ∀ o < 16, view part.blockAddress mem' o =
        view part.blockAddress (formatHeader part mem) o :=
      fun o ho => ha o (by omega) (not_le.mpr ho)
    obtain ⟨hb₀, hb₁, hb₂, hcapacity⟩ := deviceHeader_formatHeader part mem
    have hlarge : part.blockSize ≠ 0 := by
      have hmul := hp.mul_le hthree
      intro h
      rw [h] at hmul
      omega
    refine fsDeviceOpen_eq hp.toFormatted hlarge ((hstay 0 (by decide)).trans hb₀)
      ((hstay 1 (by decide)).trans hb₁) ((hstay 2 (by decide)).trans hb₂) ?_ hsect
    refine (getWord_of_agreeOff ha h0 (by decide) ?_).trans hcapacity
    rintro o ⟨-, hlt⟩ (hle : 16 ≤ o)
    have hoff : deviceOffsetCapacity.toNat = 12 := rfl
    omega
  · intro h size hl
    rw [withBlocks] at hl
    split at hl
    · next hh =>
      obtain rfl : h = part.sectorSize := by simpa using hh
      rw [← Option.some_inj.mp hl, hthirty, hss]
    · cases hl

end Format

/-! ## Names -/

section Names

variable {part : Partition} {dir : DirectoryHandle} {fs : FileSystem} {files : Files}
  {blocks : List Block} {entries : List CatalogEntry}

/-- **A name is found** if and only if it is that of an entry, cut and padded. -/
theorem Catalog.findByName (hp : part.Small)
    (hc : Catalog part dir fs.memory files blocks entries) (hslot : ∃ i, fs.fileList i = 0)
    (filename : List UInt8) (junk : ℕ → UInt8) :
    ∃ file fs', fsDirectoryFindByName part dir filename junk fs = .ok (file, fs') ∧
      fs.Restored fs' ∧ (file = 0 ↔ cleanName filename ∉ entries.map CatalogEntry.name) := by
  obtain ⟨fs', heq, hrestored⟩ := hc.contents.findByName hp hslot filename junk
  refine ⟨_, fs', heq, hrestored, ?_⟩
  have hne : ∀ h ∈ listing blocks, h ≠ 0 := by
    rintro h hmem rfl
    obtain ⟨size, hl⟩ := Option.ne_none_iff_exists'.mp (hc.contents.entries 0 hmem)
    have hle := (hc.contents.owned.run_le hp.toFormatted (hc.contents.file_eq hl).2).1
    rw [hp.sectorSize_eq] at hle
    exact absurd hle (by decide)
  have hnames : entries.map CatalogEntry.name =
      (listing blocks).map fun h => fsFileGetName part h (cleanName []) fs.memory := by
    rw [← hc.entries_eq, List.map_map]
    rfl
  rw [hnames, List.mem_map]
  rcases hfind : (listing blocks).find? (HasName part fs.memory (cleanName filename)) with _ | h
  · refine iff_of_true rfl ?_
    rintro ⟨h, hmem, hname⟩
    exact List.find?_eq_none.mp hfind h hmem ((hasName_iff part fs.memory filename h).mpr hname)
  · have hmem := List.mem_of_find?_eq_some hfind
    refine iff_of_false (hne h hmem) (not_not.mpr ⟨h, hmem, ?_⟩)
    exact (hasName_iff part fs.memory filename h).mp (List.find?_some hfind)

end Names

end MicroKernel.Fs
