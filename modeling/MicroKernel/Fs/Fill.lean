import Mathlib.Data.Finset.Card
import Mathlib.Data.List.Find
import MicroKernel.Fs.Atomicity
import MicroKernel.Fs.Names

/-!
# Filling a directory

Files created one after the other, each added to a fresh directory. Its blocks are filled in order,
and every file is found by its name.

## Main definitions

* `NewFile`, `Filling`, `fillStep`: a file to create, and the step that creates and adds it
* `HasSpace`: there are sectors for the file, and for a new extent where the directory needs one
* `FillInv`: the invariant of a run

## Main results

* `fillInv_of_run`: every run with space keeps the invariant
* `Owned.room`, `FillInv.legal`: a partition with enough sectors has space
* `findByName_of_created`: every file is found by its name, and another name finds none
-/

namespace MicroKernel.Fs

open Store

/-! ## Full blocks -/

section Full

variable {part : Partition} {mem : Memory} {pre : List Block} {b : Block} {limit : ℕ}

/-- The last of a chain of extents without room. -/
theorem Chain.fullChainEnd_eq (hp : part.Small) (h : Chain part mem (pre ++ [b]))
    (hall : ∀ e ∈ pre ++ [b], 6 ≤ e.files.length) (hlimit : pre.length < limit) :
    fullChainEnd part mem limit (((pre ++ [b]).map Block.handle).headD 0) = some b.handle := by
  induction pre generalizing limit with
  | nil =>
    obtain ⟨limit, rfl⟩ : ∃ l, limit = l + 1 := ⟨limit - 1, by omega⟩
    have hb := hall b (by simp)
    show fullChainEnd part mem (limit + 1) b.handle = _
    rw [fullChainEnd, if_pos ((h.full_iff hp (k := 2) (by decide)).mpr
      (by show 8 ≤ b.files.length + 2; omega)), if_pos (h.next_last [])]
  | cons e pre ih =>
    obtain ⟨limit, rfl⟩ : ∃ l, limit = l + 1 := ⟨limit - 1, by omega⟩
    have he := hall e (by simp)
    have htail : Chain part mem (pre ++ [b]) := h.tail [e]
    rw [List.length_cons] at hlimit
    have hnext : fsFileGetNextAddress part e.handle mem =
      ((pre ++ [b]).map Block.handle).headD 0 := h.next_eq []
    show fullChainEnd part mem (limit + 1) e.handle = _
    rw [fullChainEnd, if_pos ((h.full_iff hp (k := 2) (by decide)).mpr
      (by show 8 ≤ e.files.length + 2; omega)), hnext, if_neg (htail.headD_ne hp (by simp))]
    exact ih htail (fun e he => hall e (List.mem_cons_of_mem _ he)) (by omega)

/-- **The block behind which full blocks get a new extent** is their last. -/
theorem Chain.lastFullBlock_eq (hp : part.Small) (h : Chain part mem (pre ++ [b]))
    (hfull : Full (pre ++ [b])) (hlimit : (pre ++ [b]).length ≤ walkLimit) :
    lastFullBlock part (((pre ++ [b]).map Block.handle).headD 0) mem = some b.handle := by
  cases pre with
  | nil =>
    have hb := hfull.1
    show lastFullBlock part b.handle mem = _
    rw [lastFullBlock, if_pos ((h.full_iff hp (k := 1) (by decide)).mpr
      (by show 8 ≤ b.files.length + 1; omega)), if_pos (h.next_last [])]
  | cons first pre =>
    have hfirst := hfull.1
    have htail : Chain part mem (pre ++ [b]) := h.tail [first]
    have hnext : fsFileGetNextAddress part first.handle mem =
      ((pre ++ [b]).map Block.handle).headD 0 := h.next_eq []
    rw [List.length_append, List.length_cons, List.length_singleton] at hlimit
    show lastFullBlock part first.handle mem = _
    rw [lastFullBlock, if_pos ((h.full_iff hp (k := 1) (by decide)).mpr
      (by show 8 ≤ first.files.length + 1; omega)), hnext, if_neg (htail.headD_ne hp (by simp))]
    exact htail.fullChainEnd_eq hp hfull.2 (by omega)

/-- A directory whose blocks are full needs a new extent. -/
theorem Contents.lastFullBlock_ne {dir : DirectoryHandle} {files : Files} {blocks : List Block}
    (hp : part.Small) (hc : Contents part dir mem files blocks) (hfull : Full blocks) :
    lastFullBlock part dir mem ≠ none := by
  have hlen := hc.length_blocks_le hp
  have hhead := hc.headD_eq
  have hchain := hc.directory.toChain
  obtain ⟨pre, b, rfl⟩ : ∃ pre b, blocks = pre ++ [b] := by
    rcases List.eq_nil_or_concat blocks with rfl | ⟨pre, b, rfl⟩
    · exact absurd hfull id
    · exact ⟨pre, b, List.concat_eq_append⟩
  rw [← hhead, hchain.lastFullBlock_eq hp hfull (hlen.trans (by decide))]
  exact Option.some_ne_none _

end Full

/-! ## Room for another file -/

/-- **A partition with four sectors for each file** of 30 bytes has room for another: each file meets
at most two of the pairs of sectors that a new one could take. -/
theorem Owned.room {part : Partition} {mem : Memory} {live : Files} (hp : part.Small)
    (ho : Owned part mem live) (handles : List FileHandle)
    (hlive : ∀ h size, live h = some size → size = 30 ∧ h ∈ handles)
    (hlen : 4 * handles.length + 3 ≤ part.sectorCount.toNat) : Room part 30 mem := by
  -- sectors 2j+1 and 2j+2 make up pair j
  let pairs := handles.flatMap fun h => [(h.toNat / 32 - 1) / 2, h.toNat / 32 / 2]
  have hpairs : pairs.length = 2 * handles.length := by
    simp [pairs, Nat.mul_comm]
  have hcard : pairs.toFinset.card < (Finset.range (2 * handles.length + 1)).card := by
    rw [Finset.card_range]
    have := pairs.toFinset_card_le
    omega
  obtain ⟨j, hj, hnot⟩ := Finset.exists_mem_notMem_of_card_lt_card hcard
  rw [Finset.mem_range] at hj
  rw [List.mem_toFinset] at hnot
  refine ⟨2 * j + 1, by rw [hp.runLength_eq]; omega, fun k hk => ?_⟩
  rw [hp.runLength_eq] at hk
  refine ho.free _ (by omega) (by omega) fun h size hl hmem => hnot ?_
  obtain ⟨rfl, hh⟩ := hlive h size hl
  obtain ⟨l, hlt, heq⟩ := ho.exists_of_mem_run hp.toFormatted hl hmem
  rw [hp.runLength_eq] at hlt
  rw [hp.sectorSize_eq] at heq
  refine List.mem_flatMap.mpr ⟨h, hh, ?_⟩
  rw [List.mem_pair]
  omega

/-- A partition with four sectors for each block and each file of 30 bytes has room for another. -/
theorem Contents.room {part : Partition} {dir : DirectoryHandle} {mem : Memory} {files : Files}
    {blocks : List Block} (hp : part.Small) (hc : Contents part dir mem files blocks)
    {handles : List FileHandle} (hfiles : ∀ h size, files h = some size → size = 30 ∧ h ∈ handles)
    (hlen : 4 * (blocks.length + handles.length) + 3 ≤ part.sectorCount.toNat) :
    Room part 30 mem := by
  refine hc.owned.room hp (blocks.map Block.handle ++ handles) (fun h size hl => ?_)
    (by rwa [List.length_append, List.length_map])
  rw [withBlocks] at hl
  rw [List.mem_append]
  split at hl
  · next hmem => exact ⟨(Option.some_inj.mp hl).symm, Or.inl hmem⟩
  · exact (hfiles h size hl).imp_right Or.inr

/-! ## Runs -/

/-- A file to create, and what the stack holds when it is added. -/
structure NewFile where
  filename : List UInt8
  size : UInt32
  junk : ℕ → UInt8

/-- A file system, and the files created in it, with the names they were created with. -/
structure Filling where
  fs : FileSystem
  created : List (List UInt8 × FileHandle)

/-- Create a file and add it to the directory. -/
def fillStep (part : Partition) (dir : DirectoryHandle) (new : NewFile) (s : Filling) :
    Except Fault Filling := do
  let (file, mem) ← fsFileCreate part new.filename new.size s.fs.memory
  let (_, fs) ← fsDirectoryAddFile part dir file new.junk { s.fs with memory := mem }
  return { fs, created := s.created ++ [(new.filename, file)] }

/-- There is space for the file, and then for a new extent, if the directory needs one. -/
def HasSpace (part : Partition) (dir : DirectoryHandle) (new : NewFile) (s : Filling) : Prop :=
  Room part new.size s.fs.memory ∧
    ∀ file mem, fsFileCreate part new.filename new.size s.fs.memory = .ok (file, mem) →
      lastFullBlock part dir mem ≠ none → Room part 30 mem

instance (part : Partition) (dir : DirectoryHandle) (new : NewFile) (s : Filling) :
    Decidable (HasSpace part dir new s) :=
  match h : fsFileCreate part new.filename new.size s.fs.memory with
  | .ok (_, mem) => decidable_of_iff (Room part new.size s.fs.memory ∧
      (lastFullBlock part dir mem ≠ none → Room part 30 mem)) (by
        simp only [HasSpace, h, Except.ok.injEq, Prod.mk.injEq]
        exact and_congr_right fun _ => ⟨fun hr _ _ heq => heq.2 ▸ hr, fun hr => hr _ _ ⟨rfl, rfl⟩⟩)
  | .error _ => decidable_of_iff (Room part new.size s.fs.memory) (by simp [HasSpace, h])

/-- The invariant of a run that started in a memory with files: the directory lists what was
created, in order, under its names, and the files of before are kept. -/
structure FillInv (part : Partition) (dir : DirectoryHandle) (fs₀ : FileSystem) (base : Files)
    (s : Filling) (files : Files) (blocks : List Block) : Prop where
  contents : Contents part dir s.fs.memory files blocks
  filled : Filled blocks
  listing_eq : listing blocks = s.created.map Prod.snd
  named : ∀ p ∈ s.created, Named part s.fs.memory p.2 p.1
  base_eq : ∀ h, h ∉ s.created.map Prod.snd → files h = base h
  base_none : ∀ h ∈ s.created.map Prod.snd, base h = none
  keeps : Keeps part base fs₀.memory s.fs.memory
  fileList_eq : s.fs.fileList = fs₀.fileList

section Fill

variable {part : Partition} {dir : DirectoryHandle} {fs₀ : FileSystem} {base files : Files}
  {s : Filling} {blocks : List Block}

theorem FillInv.base_le (hi : FillInv part dir fs₀ base s files blocks) {h : FileHandle}
    {size : UInt32} (hb : base h = some size) : files h = some size := by
  rw [hi.base_eq h, hb]
  intro hmem
  rw [hi.base_none h hmem] at hb
  cases hb

/-- **One step** of a run with space. -/
theorem FillInv.step (hp : part.Small) (hi : FillInv part dir fs₀ base s files blocks)
    (hslot : ∃ i, fs₀.fileList i = 0) (new : NewFile) (hs : HasSpace part dir new s) :
    ∃ t file blocks', fillStep part dir new s = .ok t ∧
      t.created = s.created ++ [(new.filename, file)] ∧
        FillInv part dir fs₀ base t (Function.update files file (some new.size)) blocks' := by
  obtain ⟨file, mem₁, hcreate, hnone, -, hc₁, hk₁⟩ := hi.contents.create hp hs.1 new.filename
  obtain ⟨hnot, hfile⟩ := withBlocks_eq_none hnone
  have hself : Function.update files file (some new.size) file = some new.size :=
    Function.update_self ..
  have hfresh : file ∉ listing blocks := fun hmem => hi.contents.entries file hmem hfile
  have hc₁ : Contents part dir
    (FileSystem.mk (initHeader part file new.filename mem₁) s.fs.fileList s.fs.fileSize).memory
      (Function.update files file (some new.size)) blocks := hc₁
  -- filled blocks leave room in the last of them
  obtain ⟨fs', ext, hadd, hlist, -, hc', hk'⟩ := hc₁.add hp
    (hi.fileList_eq ▸ hslot) (by rw [hself]; exact Option.some_ne_none _) hfresh
    (fun hfull => hs.2 _ _ hcreate (hc₁.lastFullBlock_ne hp hfull)) hi.filled.lastHasRoom new.junk
  obtain ⟨hfilled, hlisting⟩ := hi.filled.addTo ext file
  have hold : ∀ h size, files h = some size →
      Function.update files file (some new.size) h = some size := by
    intro h size hl
    have hne : h ≠ file := by
      rintro rfl
      rw [hfile] at hl
      cases hl
    rw [Function.update_of_ne hne, hl]
  have hkeep : Keeps part files s.fs.memory fs'.memory := hk₁.trans (hk'.mono hold)
  refine ⟨⟨fs', s.created ++ [(new.filename, file)]⟩, file, _, ?_, rfl, hc', hfilled, ?_, ?_, ?_, ?_,
    hi.keeps.trans (hkeep.mono fun h size => hi.base_le), hlist.trans hi.fileList_eq⟩
  · rw [fillStep, hcreate, ok_bind]
    simp only [hadd, ok_bind]
    rfl
  · rw [hlisting, hi.listing_eq, List.map_append]
    rfl
  · -- the names of before are kept, and the new file has its own
    intro p hmem
    rcases List.mem_append.mp hmem with hmem | hmem
    · have hentry : p.2 ∈ listing blocks := by
        rw [hi.listing_eq]
        exact List.mem_map_of_mem hmem
      obtain ⟨size, hl⟩ := Option.ne_none_iff_exists'.mp (hi.contents.entries _ hentry)
      exact (hi.named p hmem).of_keeps hp hl hkeep
    · rw [List.mem_singleton.mp hmem]
      have hh := (hc₁.owned.fileAt hp.toFormatted (hc₁.file_eq hself).2).header_le hp.toFormatted
      exact (named_initHeader hh new.filename mem₁).of_keeps hp hself hk'
  · intro h hmem
    rw [List.map_append, List.mem_append, not_or] at hmem
    have hne : h ≠ file := fun heq => hmem.2 (by simp [heq])
    rw [Function.update_of_ne hne]
    exact hi.base_eq h hmem.1
  · -- a creation takes no handle that was in use
    intro h hmem
    rw [List.map_append, List.mem_append] at hmem
    rcases hmem with hmem | hmem
    · exact hi.base_none h hmem
    · obtain rfl : h = file := by simpa using hmem
      by_contra hb
      obtain ⟨size, hb⟩ := Option.ne_none_iff_exists'.mp hb
      rw [hi.base_le hb] at hfile
      cases hfile

/-- **Every run with space** keeps the invariant. -/
theorem fillInv_of_run (hp : part.Small) (hi : FillInv part dir fs₀ base s files blocks)
    (hslot : ∃ i, fs₀.fileList i = 0) {news : List NewFile}
    (hl : Run.Legal (fillStep part dir) (HasSpace part dir) news s) :
    ∃ t, Run.exec (fillStep part dir) news s = .ok t ∧
      ∃ files' blocks', FillInv part dir fs₀ base t files' blocks' := by
  refine Run.exec_legal (fun new s hinv hs => ?_) ⟨files, blocks, hi⟩ hl
  obtain ⟨files, blocks, hi⟩ := hinv
  obtain ⟨t, file, blocks', ht, -, hi'⟩ := hi.step hp hslot new hs
  exact ⟨t, ht, _, blocks', hi'⟩

/-- **Files of 30 bytes have space** in a partition without others that has eight sectors for each. -/
theorem FillInv.legal (hp : part.Small) (hi : FillInv part dir fs₀ base s files blocks)
    (hslot : ∃ i, fs₀.fileList i = 0)
    (hfiles : ∀ h size, files h = some size → size = 30 ∧ h ∈ s.created.map Prod.snd)
    {news : List NewFile} (hsize : ∀ new ∈ news, new.size = 30)
    (hlen : 8 * (s.created.length + news.length) + 3 ≤ part.sectorCount.toNat) :
    Run.Legal (fillStep part dir) (HasSpace part dir) news s := by
  induction news generalizing s files blocks with
  | nil => trivial
  | cons new news ih =>
    have hblocks : blocks.length ≤ s.created.length + 1 := by
      have := hi.filled.length_le
      rwa [hi.listing_eq, List.length_map] at this
    rw [List.length_cons] at hlen
    have hnew : new.size = 30 := hsize new List.mem_cons_self
    have hr : Room part new.size s.fs.memory :=
      hnew ▸ hi.contents.room hp hfiles (by rw [List.length_map]; omega)
    have hupdate : ∀ file h size, Function.update files file (some new.size) h = some size →
        size = 30 ∧ h ∈ s.created.map Prod.snd ++ [file] := by
      intro file h size hl
      rw [Function.update_apply] at hl
      split at hl
      · next heq => exact ⟨(Option.some_inj.mp hl).symm.trans hnew, by simp [heq]⟩
      · exact (hfiles h size hl).imp_right fun hmem => List.mem_append_left _ hmem
    have hspace : HasSpace part dir new s := by
      refine ⟨hr, fun file mem heq _ => ?_⟩
      obtain ⟨file', mem₁, hcreate, -, -, hc, -⟩ := hi.contents.create hp hr new.filename
      obtain ⟨rfl, rfl⟩ := Prod.mk.inj (Except.ok.inj (hcreate.symm.trans heq))
      refine hc.room hp (hupdate _) ?_
      rw [List.length_append, List.length_map, List.length_singleton]
      omega
    refine ⟨hspace, fun t ht => ?_⟩
    obtain ⟨u, file, blocks', hu, hcreated, hi'⟩ := hi.step hp hslot new hspace
    obtain rfl : t = u := Except.ok.inj (ht.symm.trans hu)
    refine ih hi' (fun h size hl => ?_) (fun new hmem => hsize new (List.mem_cons_of_mem _ hmem)) ?_
    · rw [hcreated, List.map_append]
      exact hupdate file h size hl
    · rw [hcreated, List.length_append, List.length_singleton]
      omega

/-- A step creates its file behind the others. -/
theorem created_fillStep {new : NewFile} {t : Filling} (h : fillStep part dir new s = .ok t) :
    t.created.map Prod.fst = s.created.map Prod.fst ++ [new.filename] := by
  rw [fillStep] at h
  obtain ⟨p, -, h⟩ := bind_eq_ok h
  obtain ⟨q, -, h⟩ := bind_eq_ok h
  cases h
  simp

/-- A run creates its files in order. -/
theorem created_of_run {news : List NewFile} {t : Filling}
    (h : Run.exec (fillStep part dir) news s = .ok t) :
    t.created.map Prod.fst = s.created.map Prod.fst ++ news.map NewFile.filename := by
  induction news generalizing s with
  | nil =>
    cases h
    simp
  | cons new news ih =>
    obtain ⟨u, hu, h⟩ := bind_eq_ok h
    rw [ih h, created_fillStep hu]
    simp

/-- A fresh directory. -/
theorem FillInv.of_create (hp : part.Small) {fs : FileSystem} (ho : Owned part fs.memory base)
    (hr : Room part 30 fs.memory) (filename : List UInt8) :
    ∃ dir mem, fsDirectoryCreate part filename fs.memory = .ok (dir, mem) ∧
      FirstFit part 30 fs.memory dir ∧
      FillInv part dir fs base ⟨⟨mem, fs.fileList, fs.fileSize⟩, []⟩ base [⟨dir, []⟩] := by
  obtain ⟨dir, mem, hcreate, hfit, hc, hk⟩ := Contents.of_create hp ho hr filename
  exact ⟨dir, mem, hcreate, hfit, hc, filled_singleton dir, rfl, by simp, fun _ _ => rfl, by simp, hk,
    rfl⟩

/-! ## Names -/

/-- The names a file created is found by are those that are cut and padded to its own. -/
theorem FillInv.hasName (hp : part.Small) (hi : FillInv part dir fs₀ base s files blocks)
    {p : List UInt8 × FileHandle} (hmem : p ∈ s.created) (name : List UInt8) :
    HasName part s.fs.memory (cleanName name) p.2 = decide (cleanName p.1 = cleanName name) := by
  have hentry : p.2 ∈ listing blocks := by
    rw [hi.listing_eq]
    exact List.mem_map_of_mem hmem
  obtain ⟨size, hl⟩ := Option.ne_none_iff_exists'.mp (hi.contents.entries _ hentry)
  have hh := (hi.contents.owned.fileAt hp.toFormatted
    (hi.contents.file_eq hl).2).header_le hp.toFormatted
  exact (hi.named p hmem).hasName hh name

/-- The names an entry is found by are those of the file created in its turn. -/
theorem FillInv.hasName_getD (hp : part.Small) (hi : FillInv part dir fs₀ base s files blocks)
    (name : List UInt8) {i : ℕ} (hlt : i < s.created.length) :
    HasName part s.fs.memory (cleanName name) ((listing blocks).getD i 0) =
      decide (cleanName ((s.created.map Prod.fst).getD i []) = cleanName name) := by
  have hentry : (listing blocks).getD i 0 = s.created[i].2 := by
    simp [hi.listing_eq, hlt]
  have hname : (s.created.map Prod.fst).getD i [] = s.created[i].1 := by
    simp [hlt]
  rw [hentry, hname]
  exact hi.hasName hp (List.getElem_mem hlt) name

/-- The search for a name is one over the names of the files created. -/
theorem FillInv.find?_eq (hp : part.Small) (hi : FillInv part dir fs₀ base s files blocks)
    (name : List UInt8) :
    (listing blocks).find? (HasName part s.fs.memory (cleanName name)) =
      (s.created.find? fun p => cleanName p.1 = cleanName name).map Prod.snd := by
  rw [hi.listing_eq, List.find?_map]
  exact congrArg (Option.map Prod.snd) (List.find?_congr fun p hmem => hi.hasName hp hmem name)

/-- **A name finds its file**, where no two names are cut and padded to the same, and others find
none. -/
theorem FillInv.findByName (hp : part.Small) (hi : FillInv part dir fs₀ base s files blocks)
    (hslot : ∃ i, fs₀.fileList i = 0) (hd : (s.created.map fun p => cleanName p.1).Nodup) :
    (∀ p ∈ s.created, ∀ junk, ∃ fs', fsDirectoryFindByName part dir p.1 junk s.fs = .ok (p.2, fs') ∧
        fs'.fileList = fs₀.fileList) ∧
      ∀ name, cleanName name ∉ s.created.map (fun p => cleanName p.1) → ∀ junk, ∃ fs',
        fsDirectoryFindByName part dir name junk s.fs = .ok (0, fs') ∧
          fs'.fileList = fs₀.fileList := by
  have hslot' : ∃ i, s.fs.fileList i = 0 := hi.fileList_eq ▸ hslot
  constructor
  · intro p hmem junk
    obtain ⟨fs', heq, hrest⟩ := hi.contents.findByName hp hslot' p.1 junk
    obtain ⟨q, hq⟩ : ∃ q, (s.created.find? fun q => cleanName q.1 = cleanName p.1) = some q :=
      Option.isSome_iff_exists.mp (List.find?_isSome.mpr ⟨p, hmem, by simp⟩)
    have hqp : q = p := List.inj_on_of_nodup_map hd (List.mem_of_find?_eq_some hq) hmem
      (by simpa using List.find?_some hq)
    rw [hi.find?_eq hp, hq, hqp] at heq
    exact ⟨fs', heq, hrest.fileList_eq.trans hi.fileList_eq⟩
  · intro name hnot junk
    obtain ⟨fs', heq, hrest⟩ := hi.contents.findByName hp hslot' name junk
    have hnone : (s.created.find? fun q => cleanName q.1 = cleanName name) = none := by
      rw [List.find?_eq_none]
      intro q hq hname
      exact hnot (List.mem_map.mpr ⟨q, hq, by simpa using hname⟩)
    rw [hi.find?_eq hp, hnone] at heq
    exact ⟨fs', heq, hrest.fileList_eq.trans hi.fileList_eq⟩

/-- **Files created in a fresh directory** are found by their names, whatever their number, where
there is space for them and no two names are cut and padded to the same; another name finds none,
and the slots are left as they were. -/
theorem findByName_of_created (hp : part.Small) {fs : FileSystem} (ho : Owned part fs.memory base)
    (hslot : ∃ i, fs.fileList i = 0) (hr : Room part 30 fs.memory) (dirname : List UInt8) :
    ∃ dir mem, fsDirectoryCreate part dirname fs.memory = .ok (dir, mem) ∧
      ∀ news : List NewFile, (news.map fun new => cleanName new.filename).Nodup →
        Run.Legal (fillStep part dir) (HasSpace part dir) news
          ⟨⟨mem, fs.fileList, fs.fileSize⟩, []⟩ →
        ∃ s, Run.exec (fillStep part dir) news ⟨⟨mem, fs.fileList, fs.fileSize⟩, []⟩ = .ok s ∧
          s.created.map Prod.fst = news.map NewFile.filename ∧ s.fs.fileList = fs.fileList ∧
          (∀ p ∈ s.created, ∀ junk, ∃ fs',
            fsDirectoryFindByName part dir p.1 junk s.fs = .ok (p.2, fs') ∧
              fs'.fileList = fs.fileList) ∧
          ∀ name, cleanName name ∉ news.map (fun new => cleanName new.filename) → ∀ junk, ∃ fs',
            fsDirectoryFindByName part dir name junk s.fs = .ok (0, fs') ∧
              fs'.fileList = fs.fileList := by
  obtain ⟨dir, mem, hcreate, -, hi₀⟩ := FillInv.of_create hp ho hr dirname
  refine ⟨dir, mem, hcreate, fun news hd hl => ?_⟩
  obtain ⟨s, hs, files, blocks, hi⟩ := fillInv_of_run hp hi₀ hslot hl
  have hcreated : s.created.map Prod.fst = news.map NewFile.filename := created_of_run hs
  have hclean : s.created.map (fun p => cleanName p.1) = news.map fun new => cleanName new.filename := by
    have h := congrArg (List.map cleanName) hcreated
    simpa [List.map_map, Function.comp_def] using h
  obtain ⟨hfound, hother⟩ := hi.findByName hp hslot (hclean ▸ hd)
  exact ⟨s, hs, hcreated, hi.fileList_eq, hfound, fun name hname => hother name (hclean ▸ hname)⟩

end Fill

/-! ## A device of 128 sectors -/

/-- A partition of 128 sectors. -/
def manySectors : Partition := formatted ⟨0, 0, 0, 0⟩ 0 4096 32

/-- Its file system, with every sector but the first free and every slot closed. -/
def manySectorsFs : FileSystem where
  memory := fun address => if address = 0 then 0x13 else sectorFree
  fileList := fun _ => 0
  fileSize := fun _ => 0

theorem small_manySectors : manySectors.Small := ⟨⟨by decide, rfl⟩, by decide, by decide⟩

theorem sectorCount_manySectors : manySectors.sectorCount.toNat = 128 := by decide

theorem owned_manySectors : Owned manySectors manySectorsFs.memory fun _ => none := by
  have hfree : ∀ i < 128, 0 < i → sectorMarker manySectors manySectorsFs.memory i = sectorFree := by
    decide +kernel
  refine ⟨by decide, by simp, by simp, by simp, fun i hpos hi _ => hfree i ?_ hpos⟩
  rwa [sectorCount_manySectors] at hi

/-- Eight files, one more than a block of a directory holds. -/
def eightFiles : List NewFile :=
  (chars ['a', 'b', 'c', 'd', 'e', 'f', 'g', 'h']).map fun c => ⟨[c], 30, fun _ => 0⟩

/-- There is space for them in a directory of the device. -/
theorem legal_eightFiles {dir : DirectoryHandle} {mem : Memory}
    (h : fsDirectoryCreate manySectors (chars ['d']) manySectorsFs.memory = .ok (dir, mem)) :
    Run.Legal (fillStep manySectors dir) (HasSpace manySectors dir) eightFiles
      ⟨⟨mem, manySectorsFs.fileList, manySectorsFs.fileSize⟩, []⟩ := by
  obtain ⟨dir', mem', hcreate, -, hi⟩ := FillInv.of_create small_manySectors owned_manySectors
    (by decide +kernel) (chars ['d'])
  obtain ⟨rfl, rfl⟩ := Prod.mk.inj (Except.ok.inj (hcreate.symm.trans h))
  exact hi.legal small_manySectors ⟨0, rfl⟩ (by simp) (by decide)
    (by rw [sectorCount_manySectors]; exact (by decide : 8 * (0 + 8) + 3 ≤ 128))

/-- `findByName_of_created` for files that take an extent of their directory, and for another name. -/
theorem findByName_of_created_manySectors :
    ∃ dir mem, fsDirectoryCreate manySectors (chars ['d']) manySectorsFs.memory = .ok (dir, mem) ∧
      ∃ s, Run.exec (fillStep manySectors dir) eightFiles
          ⟨⟨mem, manySectorsFs.fileList, manySectorsFs.fileSize⟩, []⟩ = .ok s ∧
        s.created.map Prod.fst = eightFiles.map NewFile.filename ∧
        (∀ p ∈ s.created, ∀ junk, ∃ fs',
          fsDirectoryFindByName manySectors dir p.1 junk s.fs = .ok (p.2, fs') ∧
            fs'.fileList = manySectorsFs.fileList) ∧
        ∀ junk, ∃ fs',
          fsDirectoryFindByName manySectors dir (chars ['a', 'b']) junk s.fs = .ok (0, fs') ∧
            fs'.fileList = manySectorsFs.fileList := by
  obtain ⟨dir, mem, hcreate, h⟩ := findByName_of_created small_manySectors
    owned_manySectors ⟨0, rfl⟩ (by decide +kernel) (chars ['d'])
  obtain ⟨s, hs, hcreated, -, hfound, hother⟩ := h eightFiles (by decide)
    (legal_eightFiles hcreate)
  exact ⟨dir, mem, hcreate, s, hs, hcreated, hfound, hother _ (by decide)⟩

end MicroKernel.Fs
