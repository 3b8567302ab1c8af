import MicroKernel.Fs.Blocks
import MicroKernel.Lib.Linked

/-!
# Walks over the blocks of a directory

A listing whose blocks lie in the memory and are linked there. The walks of
`kernel/fs/basefs/fsDirectory.c` over the next addresses compute what the listing says, and leave the
memory and which slots are open.

## Main definitions

* `Walk`: the blocks can be read, one behind the other
* `Chain`: the blocks lie in the memory, linked

## Main results

* `Walk.getTotalSizeFrom`, `Walk.findByIndexFrom`, `Walk.findByNameFrom`: the walks that look
* `Chain.findExtent_room`, `Chain.findExtent_full`: the walk that looks for room
* `Chain.targetBlock_room`, `Chain.targetBlock_first`, `Chain.targetBlock_last`: where an added file
  goes
-/

namespace MicroKernel.Fs

open Store

/-- The memory and the open files, and the sizes of the slots but for closed ones that are now 0. -/
structure FileSystem.Restored (fs fs' : FileSystem) : Prop where
  memory_eq : fs'.memory = fs.memory
  fileList_eq : fs'.fileList = fs.fileList
  fileSize_eq : ∀ i, fs'.fileSize i = fs.fileSize i ∨ fs.fileList i = 0 ∧ fs'.fileSize i = 0

/-- A closed slot was opened and closed again. -/
theorem FileSystem.restored_setSlot {fs : FileSystem} {i : Fin maxOpenFiles}
    (h : fs.fileList i = 0) : fs.Restored (fs.setSlot i 0 0) := by
  refine ⟨rfl, FileSystem.fileList_setSlot_zero h 0, fun j => ?_⟩
  by_cases hj : j = i
  · subst hj
    exact Or.inr ⟨h, Function.update_self ..⟩
  · exact Or.inl (Function.update_of_ne hj ..)

theorem FileSystem.Restored.trans {fs fs' fs'' : FileSystem} (h : fs.Restored fs')
    (h' : fs'.Restored fs'') : fs.Restored fs'' := by
  refine ⟨h'.memory_eq.trans h.memory_eq, h'.fileList_eq.trans h.fileList_eq, fun i => ?_⟩
  rcases h'.fileSize_eq i with heq | ⟨h0, heq⟩
  · rw [heq]
    exact h.fileSize_eq i
  · rw [h.fileList_eq] at h0
    exact Or.inr ⟨h0, heq⟩

/-- The blocks can be read in the memory, one behind the other. -/
structure Walk (part : Partition) (mem : Memory) (blocks : List Block) : Prop where
  forward : (blocks.map Block.handle ++ [0]).IsChain fun a b => fsFileGetNextAddress part a mem = b
  handle_ne : ∀ b ∈ blocks, b.handle ≠ 0
  readable : ∀ b ∈ blocks, b.Readable part mem

/-- The blocks lie in the memory, linked both ways. -/
structure Chain (part : Partition) (mem : Memory) (blocks : List Block) : Prop where
  linked : Linked (fsFileGetNextAddress part · mem) (fsFileGetParentAddress part · mem) 0
    (blocks.map Block.handle)
  stored : ∀ b ∈ blocks, b.Stored part mem

section Chain

variable {part : Partition} {mem : Memory} {fs : FileSystem} {blocks pre rest : List Block}
  {b c : Block} {limit : ℕ}

theorem Chain.tail (pre : List Block) (h : Chain part mem (pre ++ rest)) : Chain part mem rest := by
  refine ⟨?_, fun b hb => h.stored b (List.mem_append_right pre hb)⟩
  have hl := h.linked
  rw [List.map_append] at hl
  exact hl.tail

/-- What follows a block: the next one, or nothing. -/
theorem Chain.next_eq (pre : List Block) (h : Chain part mem (pre ++ b :: rest)) :
    fsFileGetNextAddress part b.handle mem = (rest.map Block.handle).headD 0 := by
  have hl := h.linked
  rw [List.map_append] at hl
  exact hl.next_eq

theorem Chain.next_last (pre : List Block) (h : Chain part mem (pre ++ [b])) :
    fsFileGetNextAddress part b.handle mem = 0 := h.next_eq pre

theorem Chain.parent_cons (pre : List Block) (h : Chain part mem (pre ++ b :: c :: rest)) :
    fsFileGetParentAddress part c.handle mem = b.handle := by
  have hl := h.linked
  rw [List.map_append] at hl
  exact hl.prev_eq

theorem Chain.walk (hp : part.Small) (h : Chain part mem blocks) : Walk part mem blocks :=
  ⟨h.linked.forward, fun b hb => (h.stored b hb).fileAt.handle_ne hp,
    fun b hb => (h.stored b hb).readable hp⟩

theorem Walk.tail (h : Walk part mem (b :: rest)) : Walk part mem rest :=
  ⟨h.forward.tail, fun c hc => h.handle_ne c (List.mem_cons_of_mem b hc),
    fun c hc => h.readable c (List.mem_cons_of_mem b hc)⟩

/-- What follows a block: the next one, or nothing. -/
theorem Walk.next_eq (h : Walk part mem (b :: rest)) :
    fsFileGetNextAddress part b.handle mem = (rest.map Block.handle).headD 0 := by
  have hf := h.forward
  cases rest with
  | nil => exact (List.isChain_cons_cons.mp hf).1
  | cons c rest => exact (List.isChain_cons_cons.mp hf).1

theorem Walk.count_toNat (h : Walk part mem (b :: rest)) :
    (fsDirectoryGetReferenceCount part b.handle mem).toNat = b.files.length := by
  have hb := h.readable b List.mem_cons_self
  have hlen := hb.length_le
  rw [hb.count, UInt32.toNat_ofNat']
  omega

/-- The search for an index goes on behind a block whose entries do not reach it. -/
theorem findByIndexFrom_behind {h : DirectoryHandle} {buffer buffer' : List UInt8} {index counter
    address size : UInt32} {i : Fin maxOpenFiles} (limit : ℕ)
    (hread : readBlock part h buffer fs = .ok ((i : ℤ), buffer', fs.setSlot i address size))
    (hclose : fsFileClose (i : ℤ) (fs.setSlot i address size) = .ok (1, fs.setSlot i 0 0))
    (hge : ¬ index - counter < fsDirectoryGetReferenceCount part h fs.memory) :
    findByIndexFrom part index (limit + 1) h counter buffer fs =
      if fsFileGetNextAddress part h fs.memory = 0 then .ok (0, fs.setSlot i 0 0)
      else findByIndexFrom part index limit (fsFileGetNextAddress part h fs.memory)
        (counter + fsDirectoryGetReferenceCount part h fs.memory) buffer' (fs.setSlot i 0 0) := by
  rw [findByIndexFrom, hread, ok_bind]
  simp only [hge, if_false, ok_bind, hclose]
  rfl

section Walks

variable (hp : part.Small)

include hp

theorem Chain.handle_ne (h : Chain part mem (b :: rest)) : b.handle ≠ 0 :=
  (h.stored b List.mem_cons_self).fileAt.handle_ne hp

omit hp in
/-- **The total size** is the length of the listing, as a word. -/
theorem Walk.getTotalSizeFrom (h : Walk part mem (b :: rest)) (hlimit : rest.length < limit)
    (total : UInt32) : Fs.getTotalSizeFrom part mem limit b.handle total =
      .ok (total + UInt32.ofNat (listing (b :: rest)).length) := by
  induction rest generalizing b limit total with
  | nil =>
    obtain ⟨limit, rfl⟩ : ∃ l, limit = l + 1 := ⟨limit - 1, by omega⟩
    rw [Fs.getTotalSizeFrom, h.next_eq, (h.readable b List.mem_cons_self).count]
    simp
  | cons c rest ih =>
    obtain ⟨limit, rfl⟩ : ∃ l, limit = l + 1 := ⟨limit - 1, by omega⟩
    have hne : (((c :: rest).map Block.handle).headD 0) ≠ 0 := h.tail.handle_ne c List.mem_cons_self
    rw [Fs.getTotalSizeFrom, h.next_eq, (h.readable b List.mem_cons_self).count]
    simp only [hne, if_false]
    rw [List.length_cons] at hlimit
    rw [List.map_cons, List.headD_cons, ih h.tail (by omega), UInt32.add_assoc, ← UInt32.ofNat_add,
      listing_cons b, List.length_append]

/-- Reading a block of the chain and closing it. -/
theorem Walk.readBlock (h : Walk part fs.memory (b :: rest)) (hslot : ∃ i, fs.fileList i = 0)
    {buffer : List UInt8} (hlen : buffer.length = 64) :
    ∃ (i : Fin maxOpenFiles) (buffer' : List UInt8), fs.fileList i = 0 ∧
      Fs.readBlock part b.handle buffer fs =
        .ok ((i : ℤ), buffer', fs.setSlot i (part.blockAddress + b.handle) 30) ∧
      buffer'.length = 64 ∧ HoldsWords (fun n => buffer'.getD n 0) b.files ∧
      fsFileClose (i : ℤ) (fs.setSlot i (part.blockAddress + b.handle) 30) =
        .ok (1, fs.setSlot i 0 0) := by
  have hb := h.readable b List.mem_cons_self
  obtain ⟨i, h0, heq⟩ := hb.readBlock hslot hlen
  exact ⟨i, _, h0, heq, by simp [hlen], hb.holds_fileBytes hp _,
    fsFileClose_setSlot fs i hb.address_ne 30⟩

/-- **The file at an index** is that of the listing, or 0 behind its end. -/
theorem Walk.findByIndexFrom (h : Walk part fs.memory (b :: rest)) (hlimit : rest.length < limit)
    (hslot : ∃ i, fs.fileList i = 0) {buffer : List UInt8} (hlen : buffer.length = 64)
    {index counter : UInt32} (hle : counter ≤ index)
    (hlt : counter.toNat + (listing (b :: rest)).length < 2 ^ 32) :
    ∃ fs', Fs.findByIndexFrom part index limit b.handle counter buffer fs =
        .ok ((listing (b :: rest)).getD (index.toNat - counter.toNat) 0, fs') ∧
      fs.Restored fs' := by
  -- induction on the passes left: the walk is as long as the chain, so they suffice
  induction limit generalizing b rest counter buffer fs with
  | zero => exact absurd hlimit (Nat.not_lt_zero _)
  | succ limit ih =>
    have hd : (index - counter).toNat = index.toNat - counter.toNat := UInt32.toNat_sub_of_le _ _ hle
    have hb := h.readable b List.mem_cons_self
    have hcap := hb.length_le
    obtain ⟨count, hcount⟩ : ∃ n, fsDirectoryGetReferenceCount part b.handle fs.memory = n := ⟨_, rfl⟩
    have hlength : count.toNat = b.files.length := hcount ▸ h.count_toNat
    obtain ⟨i, buffer', h0, hread, hlen', hholds, hclose⟩ := h.readBlock hp hslot hlen
    have hclosed := FileSystem.restored_setSlot h0
    rw [← hd, listing_cons]
    rw [listing_cons, List.length_append] at hlt
    by_cases hin : index - counter < count
    · -- the entry is in this block
      have hlt' : (index - counter).toNat < b.files.length := by
        rw [UInt32.lt_iff_toNat_lt, hlength] at hin
        exact hin
      have hload := loadEntry_of_holds hholds (by omega) (by omega) hlt'
      rw [UInt32.ofNat_toNat] at hload
      refine ⟨fs.setSlot i 0 0, ?_, hclosed⟩
      rw [Fs.findByIndexFrom, hread, ok_bind]
      simp only [hcount, hin, if_true, hload, ok_bind, hclose]
      rw [List.getD_eq_getElem?_getD, List.getElem?_append_left hlt', List.getElem?_eq_getElem hlt']
      rfl
    · -- it is in the blocks behind, if there are any
      have hge : b.files.length ≤ (index - counter).toNat := by
        rw [UInt32.lt_iff_toNat_lt, hlength] at hin
        exact Nat.not_lt.mp hin
      have hnext : (b.files ++ listing rest).getD (index - counter).toNat 0 =
          (listing rest).getD ((index - counter).toNat - b.files.length) 0 := by
        rw [List.getD_eq_getElem?_getD, List.getElem?_append_right hge, List.getD_eq_getElem?_getD]
      rw [hnext, findByIndexFrom_behind limit hread hclose (by rwa [hcount]), hcount]
      cases rest with
      | nil =>
        rw [h.next_eq]
        exact ⟨fs.setSlot i 0 0, rfl, hclosed⟩
      | cons c rest =>
        have htail : Walk part (fs.setSlot i 0 0).memory (c :: rest) := h.tail
        have hle' := UInt32.le_iff_toNat_le.mp hle
        have hsum : (counter + count).toNat = counter.toNat + b.files.length := by
          rw [UInt32.toNat_add, hlength]
          omega
        rw [List.length_cons] at hlimit
        obtain ⟨fs', heq, hrest⟩ := ih htail (by omega) ⟨i, by rw [hclosed.fileList_eq, h0]⟩
          hlen' (show counter + count ≤ index by rw [UInt32.le_iff_toNat_le]; omega) (by omega)
        rw [h.next_eq]
        refine ⟨fs', (if_neg (htail.handle_ne c List.mem_cons_self)).trans (heq.trans ?_),
          hclosed.trans hrest⟩
        rw [hsum, hd, Nat.sub_sub]

omit hp in
/-- **The search for an index** goes on behind blocks whose entries do not reach it, with the end of
the buffer as it was. -/
theorem findByIndexFrom_skip {h : DirectoryHandle}
    (hforward : (pre.map Block.handle ++ [h]).IsChain fun a b =>
      fsFileGetNextAddress part a fs.memory = b) (hne : ∀ b ∈ pre, b.handle ≠ 0) (hh : h ≠ 0)
    (hreadable : ∀ b ∈ pre, b.Readable part fs.memory) (hslot : ∃ i, fs.fileList i = 0)
    {buffer : List UInt8} (hlen : buffer.length = 64) {index counter : UInt32}
    (hle : counter.toNat + (listing pre).length ≤ index.toNat) :
    ∃ fs' buffer', findByIndexFrom part index (limit + pre.length)
        ((pre.map Block.handle ++ [h]).headD 0) counter buffer fs =
          findByIndexFrom part index limit h (counter + UInt32.ofNat (listing pre).length) buffer' fs' ∧
      fs.Restored fs' ∧ buffer'.length = 64 ∧ buffer'.drop 29 = buffer.drop 29 := by
  induction pre generalizing buffer counter fs with
  | nil =>
    refine ⟨fs, buffer, ?_, ⟨rfl, rfl, fun _ => Or.inl rfl⟩, hlen, rfl⟩
    show findByIndexFrom part index limit h counter buffer fs =
      findByIndexFrom part index limit h (counter + 0) buffer fs
    rw [UInt32.add_zero]
  | cons b pre ih =>
    have hb := hreadable b List.mem_cons_self
    have hcap := hb.length_le
    rw [listing_cons, List.length_append] at hle ⊢
    obtain ⟨i, h0, hread⟩ := hb.readBlock hslot hlen
    have hclosed := FileSystem.restored_setSlot h0
    have hlt := index.toNat_lt
    -- the entries of the block do not reach the index
    have hge : ¬ index - counter < fsDirectoryGetReferenceCount part b.handle fs.memory := by
      rw [hb.count, UInt32.lt_iff_toNat_lt, UInt32.toNat_ofNat',
        UInt32.toNat_sub_of_le _ _ (UInt32.le_iff_toNat_le.mpr (by omega))]
      omega
    have hnext : fsFileGetNextAddress part b.handle fs.memory = (pre.map Block.handle ++ [h]).headD 0 ∧
        (pre.map Block.handle ++ [h]).headD 0 ≠ 0 := by
      cases pre with
      | nil => exact ⟨(List.isChain_cons_cons.mp hforward).1, hh⟩
      | cons c pre => exact ⟨(List.isChain_cons_cons.mp hforward).1, hne c (by simp)⟩
    have hforward' : (pre.map Block.handle ++ [h]).IsChain fun a b =>
      fsFileGetNextAddress part a (fs.setSlot i 0 0).memory = b := hforward.tail
    have hle' : (counter + UInt32.ofNat b.files.length).toNat + (listing pre).length ≤
        index.toNat := by
      rw [UInt32.toNat_add, UInt32.toNat_ofNat']
      omega
    have hlen₁ : (fileBytes part (part.blockAddress + b.handle) 29 fs.memory ++
        buffer.drop 29).length = 64 := by simp [hlen]
    obtain ⟨fs', buffer', heq, hrest, hlen', hdrop⟩ := ih hforward'
      (fun c hc => hne c (List.mem_cons_of_mem b hc))
      (fun c hc => hreadable c (List.mem_cons_of_mem b hc))
      ⟨i, by rw [hclosed.fileList_eq, h0]⟩ hlen₁ hle'
    refine ⟨fs', buffer', ?_, hclosed.trans hrest, hlen', hdrop.trans ?_⟩
    · show findByIndexFrom part index (limit + pre.length + 1) b.handle counter buffer fs = _
      rw [findByIndexFrom_behind _ hread (fsFileClose_setSlot fs i hb.address_ne 30) hge, hnext.1,
        if_neg hnext.2, hb.count, heq, UInt32.add_assoc, ← UInt32.ofNat_add]
    · rw [List.drop_append]
      simp

/-- **The file of a name** is the first of the listing that has it, or 0. -/
theorem Walk.findByNameFrom (h : Walk part fs.memory (b :: rest)) (hlimit : rest.length < limit)
    (hslot : ∃ i, fs.fileList i = 0) {buffer : List UInt8} (hlen : buffer.length = 64)
    (sourceFilename : List UInt8) :
    ∃ fs', Fs.findByNameFrom part sourceFilename limit b.handle buffer fs =
        .ok (((listing (b :: rest)).find? (HasName part fs.memory sourceFilename)).getD 0, fs') ∧
      fs.Restored fs' := by
  induction limit generalizing b rest buffer fs with
  | zero => exact absurd hlimit (Nat.not_lt_zero _)
  | succ limit ih =>
    have hcap := (h.readable b List.mem_cons_self).length_le
    obtain ⟨i, buffer', h0, hread, hlen', hholds, hclose⟩ := h.readBlock hp hslot hlen
    have hclosed := FileSystem.restored_setSlot h0
    have hfind := findNameIn_eq part fs.memory sourceFilename hholds (by omega) (by omega)
    rw [listing_cons, List.find?_append]
    have hstep : Fs.findByNameFrom part sourceFilename (limit + 1) b.handle buffer fs =
        match b.files.find? (HasName part fs.memory sourceFilename) with
        | some file => .ok (file, fs.setSlot i 0 0)
        | none =>
          if fsFileGetNextAddress part b.handle fs.memory = 0 then .ok (0, fs.setSlot i 0 0)
          else Fs.findByNameFrom part sourceFilename limit
            (fsFileGetNextAddress part b.handle fs.memory) buffer' (fs.setSlot i 0 0) := by
      rw [Fs.findByNameFrom, hread, ok_bind]
      simp only [h.count_toNat, FileSystem.setSlot_memory, hfind, ok_bind, hclose]
      rfl
    rw [hstep]
    cases b.files.find? (HasName part fs.memory sourceFilename) with
    | some file => exact ⟨fs.setSlot i 0 0, rfl, hclosed⟩
    | none =>
      -- no file of this block has the name: it is searched behind, if there are more blocks
      rw [Option.none_or]
      cases rest with
      | nil =>
        rw [h.next_eq]
        exact ⟨fs.setSlot i 0 0, rfl, hclosed⟩
      | cons c rest =>
        have htail : Walk part (fs.setSlot i 0 0).memory (c :: rest) := h.tail
        rw [List.length_cons] at hlimit
        obtain ⟨fs', heq, hrest⟩ :=
          ih htail (by omega) ⟨i, by rw [hclosed.fileList_eq, h0]⟩ hlen'
        rw [h.next_eq]
        exact ⟨fs', (if_neg (htail.handle_ne c List.mem_cons_self)).trans heq,
          hclosed.trans hrest⟩

/-- A block without room for another file, and one less in an extent. -/
theorem Chain.full_iff (h : Chain part mem (b :: rest)) {k : UInt32} (hk : k.toNat ≤ 2) :
    (fsDirectoryGetReferenceCount part b.handle mem + k) * 4 ≥ part.sectorSize ↔
      8 ≤ b.files.length + k.toNat := by
  have hlen := (h.stored b List.mem_cons_self).length_le
  have h4 : (4 : UInt32).toNat = 4 := rfl
  rw [ge_iff_le, UInt32.le_iff_toNat_le, hp.sectorSize_eq, UInt32.toNat_mul, UInt32.toNat_add,
    (h.walk hp).count_toNat, h4]
  omega

/-- The handle of the first block of a chain. -/
theorem Chain.headD_ne (h : Chain part mem blocks) (hne : blocks ≠ []) :
    (blocks.map Block.handle).headD 0 ≠ 0 := by
  obtain ⟨b, rest, rfl⟩ := List.exists_cons_of_ne_nil hne
  exact h.handle_ne hp

/-- The walk over the extents goes on behind one without room. -/
theorem Chain.findExtent_cons (h : Chain part mem (b :: rest)) (hb : 6 ≤ b.files.length)
    (hne : rest ≠ []) : findExtent part (limit + 1) b.handle mem =
      findExtent part limit ((rest.map Block.handle).headD 0) mem := by
  have hnext : fsFileGetNextAddress part b.handle mem = (rest.map Block.handle).headD 0 :=
    h.next_eq []
  have hrest := (h.tail [b]).headD_ne hp hne
  rw [findExtent, if_neg (h.handle_ne hp),
    if_pos ((h.full_iff hp (k := 2) (by decide)).mpr (by show 8 ≤ b.files.length + 2; omega)), hnext,
    if_neg hrest]

/-- **The walk over the extents** stops at the first with room. -/
theorem Chain.findExtent_room (h : Chain part mem (pre ++ b :: rest))
    (hpre : ∀ e ∈ pre, 6 ≤ e.files.length) (hb : b.files.length < 6)
    (hlimit : pre.length < limit) :
    findExtent part limit (((pre ++ b :: rest).map Block.handle).headD 0) mem =
      .ok (b.handle, mem) := by
  induction pre generalizing limit with
  | nil =>
    obtain ⟨limit, rfl⟩ : ∃ l, limit = l + 1 := ⟨limit - 1, by omega⟩
    show findExtent part (limit + 1) b.handle mem = _
    rw [findExtent, if_neg (h.handle_ne hp), if_neg]
    rw [h.full_iff hp (by decide)]
    show ¬ 8 ≤ b.files.length + 2
    omega
  | cons e pre ih =>
    obtain ⟨limit, rfl⟩ : ∃ l, limit = l + 1 := ⟨limit - 1, by omega⟩
    rw [List.forall_mem_cons] at hpre
    rw [List.length_cons] at hlimit
    show findExtent part (limit + 1) e.handle mem = _
    rw [h.findExtent_cons hp hpre.1 (by simp)]
    exact ih (h.tail [e]) hpre.2 (by omega)

/-- **The walk over full extents** links a new one behind the last. -/
theorem Chain.findExtent_full (h : Chain part mem (pre ++ [b]))
    (hpre : ∀ e ∈ pre, 6 ≤ e.files.length) (hb : 6 ≤ b.files.length)
    (hlimit : pre.length < limit) {new : DirectoryHandle} {mem' : Memory}
    (hcreate : fsDirectoryExtentCreate part b.handle 0 mem = .ok (new, mem')) :
    findExtent part limit (((pre ++ [b]).map Block.handle).headD 0) mem =
      .ok (b.handle, fsFileSetNextAddress part b.handle new mem') := by
  induction pre generalizing limit with
  | nil =>
    obtain ⟨limit, rfl⟩ : ∃ l, limit = l + 1 := ⟨limit - 1, by omega⟩
    show findExtent part (limit + 1) b.handle mem = _
    rw [findExtent, if_neg (h.handle_ne hp),
      if_pos ((h.full_iff hp (k := 2) (by decide)).mpr (by show 8 ≤ b.files.length + 2; omega)),
      if_pos (h.next_last []), hcreate]
    rfl
  | cons e pre ih =>
    obtain ⟨limit, rfl⟩ : ∃ l, limit = l + 1 := ⟨limit - 1, by omega⟩
    rw [List.forall_mem_cons] at hpre
    rw [List.length_cons] at hlimit
    show findExtent part (limit + 1) e.handle mem = _
    rw [h.findExtent_cons hp hpre.1 (by simp)]
    exact ih (h.tail [e]) hpre.2 (by omega)

/-- The target of an added file, when a block has room: that block. -/
theorem Chain.targetBlock_room (h : Chain part mem (pre ++ b :: rest))
    (hb : pre = [] ∧ b.files.length < 7 ∨ Full pre ∧ b.files.length < 6)
    (hlimit : (pre ++ b :: rest).length ≤ walkLimit) :
    targetBlock part (((pre ++ b :: rest).map Block.handle).headD 0) mem = .ok (b.handle, mem) := by
  rcases hb with ⟨rfl, hb⟩ | ⟨hpre, hb⟩
  · show targetBlock part b.handle mem = _
    rw [targetBlock, if_neg]
    · rfl
    · rw [h.full_iff hp (by decide)]
      show ¬ 8 ≤ b.files.length + 1
      omega
  · -- the first block is full, and the walk over the extents stops at this one
    cases pre with
    | nil => exact hpre.elim
    | cons first pre =>
      have hextents : Chain part mem (pre ++ b :: rest) := h.tail [first]
      have hnext : fsFileGetNextAddress part first.handle mem =
          ((pre ++ b :: rest).map Block.handle).headD 0 := h.next_eq []
      show targetBlock part first.handle mem = _
      rw [targetBlock, if_pos ((h.full_iff hp (k := 1) (by decide)).mpr
        (by show 8 ≤ first.files.length + 1; have := hpre.1; omega)), hnext]
      refine (if_neg (hextents.headD_ne hp (by simp))).trans ?_
      refine hextents.findExtent_room hp hpre.2 hb ?_
      rw [List.length_append, List.length_cons] at hlimit
      omega

/-- The target of an added file, when the only block is full: a new extent. -/
theorem Chain.targetBlock_first (h : Chain part mem [b]) (hb : 7 ≤ b.files.length)
    {new : DirectoryHandle} {mem' : Memory}
    (hcreate : fsDirectoryExtentCreate part b.handle 0 mem = .ok (new, mem')) :
    targetBlock part b.handle mem = .ok (new, fsFileSetNextAddress part b.handle new mem') := by
  rw [targetBlock, if_pos ((h.full_iff hp (k := 1) (by decide)).mpr
    (by show 8 ≤ b.files.length + 1; omega)), h.next_last []]
  simp only [if_true, hcreate, ok_bind]
  rfl

/-- The target of an added file, when the extents are full: the last, with a new one behind it. -/
theorem Chain.targetBlock_last (h : Chain part mem (pre ++ [b])) (hpre : Full pre)
    (hb : 6 ≤ b.files.length) (hlimit : (pre ++ [b]).length ≤ walkLimit) {new : DirectoryHandle}
    {mem' : Memory} (hcreate : fsDirectoryExtentCreate part b.handle 0 mem = .ok (new, mem')) :
    targetBlock part (((pre ++ [b]).map Block.handle).headD 0) mem =
      .ok (b.handle, fsFileSetNextAddress part b.handle new mem') := by
  -- full blocks are more than the last, which is therefore an extent
  cases pre with
  | nil => exact hpre.elim
  | cons first pre =>
    have hextents : Chain part mem (pre ++ [b]) := h.tail [first]
    have hnext : fsFileGetNextAddress part first.handle mem =
        ((pre ++ [b]).map Block.handle).headD 0 := h.next_eq []
    show targetBlock part first.handle mem = _
    rw [targetBlock, if_pos ((h.full_iff hp (k := 1) (by decide)).mpr
      (by show 8 ≤ first.files.length + 1; have := hpre.1; omega)), hnext]
    refine (if_neg (hextents.headD_ne hp (by simp))).trans ?_
    refine hextents.findExtent_full hp hpre.2 hb ?_ hcreate
    rw [List.length_append, List.length_cons] at hlimit
    omega

end Walks

end Chain

end MicroKernel.Fs
