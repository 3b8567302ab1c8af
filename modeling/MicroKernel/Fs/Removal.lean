import MicroKernel.Fs.Update

/-!
# Removals from a directory

Removing a file of a directory deletes it, takes its entry out of the block that holds it, and
bypasses and deletes that block when it was an extent that is now empty.

## Main definitions

* `withoutFile`: the files that are left

## Main results

* `Directory.removeEntry`: the entry is taken out
* `Directory.unlinkExtent`: an extent is bypassed and deleted
* `Directory.removeFile`: removing a file
-/

namespace MicroKernel.Fs

open Store

/-! ## The walk to the block -/

section Walk

variable {part : Partition} {fs : FileSystem} {pre rest : List Block} {b : Block} {file : FileHandle}
  {limit : ℕ}

variable (limit) in
/-- The walk goes on behind a block that does not hold the file. -/
theorem Chain.removeFileFrom_cons (hp : part.Small) (h : Chain part fs.memory (b :: rest))
    (hne : rest ≠ []) (hslot : ∃ i, fs.fileList i = 0) (hfile : file ∉ b.files)
    {buffer : List UInt8} (hlen : buffer.length = 64) (extentCount : UInt8) :
    ∃ buffer' fs', fs'.memory = fs.memory ∧ fs'.fileList = fs.fileList ∧ buffer'.length = 64 ∧
      removeFileFrom part file (limit + 1) b.handle extentCount buffer fs =
        removeFileFrom part file limit ((rest.map Block.handle).headD 0) (extentCount + 1) buffer'
          fs' := by
  have hcap := (h.stored b List.mem_cons_self).length_le
  obtain ⟨i, buffer', h0, hread, hlen', hholds, hclose⟩ := (h.walk hp).readBlock hp hslot hlen
  have hfind := findEntryIn_eq file hholds (by omega) (by omega)
  have hnext : fsFileGetNextAddress part b.handle fs.memory = (rest.map Block.handle).headD 0 :=
    h.next_eq []
  have hrest := (h.tail [b]).headD_ne hp hne
  rw [if_neg hfile] at hfind
  refine ⟨buffer', fs.setSlot i 0 0, rfl, FileSystem.fileList_setSlot_zero h0 0, hlen', ?_⟩
  rw [removeFileFrom, hread, ok_bind]
  simp only [(h.walk hp).count_toNat, hfind, ok_bind, hclose, FileSystem.setSlot_memory, hnext, hrest,
    if_false]

/-- **The walk** reaches the first block that holds the file, and has counted those before it. -/
theorem Chain.removeFileFrom_append (hp : part.Small)
    (h : Chain part fs.memory (pre ++ b :: rest)) (hpre : ∀ e ∈ pre, file ∉ e.files)
    (hlimit : pre.length < limit) (hslot : ∃ i, fs.fileList i = 0)
    {buffer : List UInt8} (hlen : buffer.length = 64) (extentCount : UInt8) :
    ∃ limit' buffer' fs', fs'.memory = fs.memory ∧ fs'.fileList = fs.fileList ∧
      buffer'.length = 64 ∧
      removeFileFrom part file limit (((pre ++ b :: rest).map Block.handle).headD 0) extentCount
          buffer fs =
        removeFileFrom part file (limit' + 1) b.handle (extentCount + UInt8.ofNat pre.length)
          buffer' fs' := by
  -- induction on the blocks before: each is read, closed and counted
  induction pre generalizing limit extentCount buffer fs with
  | nil =>
    obtain ⟨limit, rfl⟩ : ∃ l, limit = l + 1 := ⟨limit - 1, by omega⟩
    exact ⟨limit, buffer, fs, rfl, rfl, hlen, congrArg
      (removeFileFrom part file (limit + 1) b.handle · buffer fs) (UInt8.add_zero _).symm⟩
  | cons e pre ih =>
    obtain ⟨limit, rfl⟩ : ∃ l, limit = l + 1 := ⟨limit - 1, by omega⟩
    rw [List.forall_mem_cons] at hpre
    have hlimit : pre.length < limit := by
      rw [List.length_cons] at hlimit
      omega
    obtain ⟨buffer₁, fs₁, hmem₁, hlist₁, hlen₁, heq₁⟩ :=
      h.removeFileFrom_cons limit hp (by simp) hslot hpre.1 hlen extentCount
    have htail : Chain part fs₁.memory (pre ++ b :: rest) := hmem₁ ▸ h.tail [e]
    obtain ⟨limit', buffer', fs', hmem', hlist', hlen', heq'⟩ :=
      ih htail hpre.2 hlimit (hlist₁ ▸ hslot) hlen₁ (extentCount + 1)
    refine ⟨limit', buffer', fs', hmem'.trans hmem₁, hlist'.trans hlist₁, hlen', ?_⟩
    show removeFileFrom part file (limit + 1) e.handle extentCount buffer fs = _
    refine heq₁.trans (heq'.trans ?_)
    rw [List.length_cons, UInt8.add_assoc, show (1 : UInt8) = UInt8.ofNat 1 from rfl,
      ← UInt8.ofNat_add, Nat.add_comm 1]

end Walk

/-! ## The entry -/

section Entry

variable {part : Partition} {mem mem' : Memory} {live : Files} {fs : FileSystem}
  {blocks pre post : List Block} {a b : Block} {h file : FileHandle} {size : UInt32} {S : Set ℕ}

/-- The data of a block is read the same when bytes of other runs change. -/
theorem FileAt.fileBytes_of_agreeOff (hp : part.Small) (hf : FileAt part mem h 30)
    (ha : AgreeOff part.blockAddress S mem mem') (hS : Disjoint (runBytes part h 30) S) :
    fileBytes part (part.blockAddress + h) 29 mem' = fileBytes part (part.blockAddress + h) 29 mem := by
  have h30 : (30 : UInt32).toNat = 30 := rfl
  have hle := hf.handle_le hp
  refine List.map_congr_left fun k hk => ?_
  rw [List.mem_range] at hk
  have hread : ∀ m : Memory, m (part.blockAddress + h + positionOffset part k) =
      view part.blockAddress m (h.toNat + dataOffset part k) := fun m =>
    read_eq_view (by rw [hp.sectorSize_eq]; decide) hf.run_le (by omega)
  rw [hread mem', hread mem, hp.dataOffset_eq (by omega)]
  exact ha _ (by omega) (Set.disjoint_left.mp hS (hp.mem_runBytes.mpr ⟨by omega, by omega⟩))

/-- **The entry of a file** is taken out of its block, and the file deleted. What is left is whether
the block is to be bypassed. -/
theorem Directory.removeEntry (hp : part.Small) (ho : Owned part fs.memory live)
    (hd : Directory part fs.memory live (pre ++ b :: post)) (hslot : ∃ i, fs.fileList i = 0)
    (hfile : file ∈ b.files) (hl : live file = some size)
    (hne : ∀ c ∈ pre ++ b :: post, c.handle ≠ file) {buffer : List UInt8}
    (hlen : buffer.length = 64) (extentCount : UInt8) (limit : ℕ) :
    ∃ fs', fs'.fileList = fs.fileList ∧ Owned part fs'.memory (Function.update live file none) ∧
      Directory part fs'.memory (Function.update live file none) (pre ++ b.remove file :: post) ∧
      AgreeOff part.blockAddress
        (runBytes part file size ∪ directoryBytes part (pre ++ b :: post)) fs.memory fs'.memory ∧
      removeFileFrom part file (limit + 1) b.handle extentCount buffer fs =
        if b.files.length ≤ 1 ∧ 0 < extentCount then
          (Fs.unlinkExtent part b.handle fs'.memory).bind fun mem =>
            .ok (1, { fs' with memory := mem })
        else .ok (1, fs') := by
  have hmem : b ∈ pre ++ b :: post := by simp
  have hb := hd.stored b hmem
  have hcap := hb.length_le
  have hcount : (UInt32.ofNat b.files.length).toNat = b.files.length := by
    rw [UInt32.toNat_ofNat']
    omega
  -- the block is read, and the entry found
  obtain ⟨i, h0, hread⟩ := (hb.readable hp).readBlock hslot hlen
  have hfind := findEntryIn_eq file ((hb.readable hp).holds_fileBytes hp (buffer.drop 29))
    (by simp [hlen]; omega) (by simp [hlen])
  rw [if_pos hfile] at hfind
  -- the file is deleted
  obtain ⟨mem₁, hdelete, ho₁, ha₁⟩ := ho.delete hp.toFormatted hl
  have hdisj : ∀ c ∈ pre ++ b :: post, Disjoint (runBytes part c.handle 30) (runBytes part file size) :=
    fun c hc => ho.disjoint _ _ _ _ (hd.live_eq c hc) hl (hne c hc)
  have hd₁ : Directory part mem₁ (Function.update live file none) (pre ++ b :: post) := by
    refine hd.of_agreeOff hp ha₁ (Set.disjoint_left.mpr ?_) fun c hc =>
      (Function.update_of_ne (hne c hc) ..).trans (hd.live_eq c hc)
    rintro o ⟨c, hc, ho⟩
    exact Set.disjoint_left.mp (hdisj c hc) ho
  have hb₁ := hd₁.stored b hmem
  -- the buffer is written back, without the entry
  obtain ⟨buffer', hreplace, hlen', hb', ha'⟩ :=
    hb₁.remove hp hfile (buffer.drop 29) (by simp [hlen])
  rw [hb.fileAt.fileBytes_of_agreeOff hp ha₁ (hdisj b hmem)] at hreplace
  obtain ⟨mem₂, hmem₂⟩ : ∃ mem₂, fsDirectorySetReferenceCount part b.handle
    (UInt32.ofNat b.files.length - 1)
      (transfer part (part.blockAddress + b.handle) buffer' 29 mem₁) = mem₂ := ⟨_, rfl⟩
  rw [hmem₂] at hb' ha'
  have haddress : (FileSystem.mk mem₁ (fs.setSlot i (part.blockAddress + b.handle) 30).fileList
      (fs.setSlot i (part.blockAddress + b.handle) 30).fileSize).fileList i =
        part.blockAddress + b.handle := Function.update_self ..
  have hbuffer : movedBytes (part.blockAddress + b.handle) 30 ≤ buffer'.length := by
    rw [movedBytes_block hb.address_ne]
    exact hlen'
  obtain ⟨r, hwrite⟩ := fsFileWrite_natCast part haddress (Function.update_self ..) hbuffer
  rw [movedBytes_block hb.address_ne] at hwrite
  have hclose : fsFileClose (i : ℤ) ⟨mem₂, (fs.setSlot i (part.blockAddress + b.handle) 30).fileList,
      (fs.setSlot i (part.blockAddress + b.handle) 30).fileSize⟩ =
        .ok (1, FileSystem.setSlot ⟨mem₂, fs.fileList, fs.fileSize⟩ i 0 0) :=
    fsFileClose_setSlot ⟨mem₂, fs.fileList, fs.fileSize⟩ i hb.address_ne 30
  refine ⟨FileSystem.setSlot ⟨mem₂, fs.fileList, fs.fileSize⟩ i 0 0,
    (FileSystem.fileList_setSlot_zero h0 0 :
      (FileSystem.setSlot ⟨mem₂, fs.fileList, fs.fileSize⟩ i 0 0).fileList = fs.fileList),
    ho₁.of_agreeOff hp.toFormatted (hd₁.live_eq b hmem) (ha'.mono (entryBytes_subset hp)),
    hd₁.rewrite hp ho₁ ha' hb' rfl, (ha₁.mono Set.subset_union_left).trans (ha'.mono ?_), ?_⟩
  · exact fun o ho => Or.inr ⟨b, hmem, contentBytes_subset (entryBytes_subset hp ho)⟩
  · have hone : UInt32.ofNat b.files.length ≤ 1 ↔ b.files.length ≤ 1 := by
      rw [UInt32.le_iff_toNat_le, hcount]
      rfl
    rw [removeFileFrom, hread, ok_bind]
    simp only [FileSystem.setSlot_memory, hb.count, hcount, hb.fileAt.marked.size_eq, hfind,
      ok_bind, hdelete, hreplace, hwrite, hmem₂, hclose, hone, gt_iff_lt]
    rfl

end Entry

/-! ## The extent -/

section Unlink

variable {part : Partition} {mem : Memory} {live : Files} {pre post : List Block} {a b : Block}

/-- The first element behind a list without repetition, or what stands for none. -/
theorem headD_notMem {A : Type*} {l r : List A} {d : A} (h : (l ++ r).Nodup) (hd : d ∉ l) :
    r.headD d ∉ l ++ r.tail := by
  cases r with
  | nil => simpa using hd
  | cons c r => exact (List.nodup_cons.mp (List.nodup_middle.mp h)).1

/-- What is behind an extent: none, or a block. -/
theorem Directory.next_cases (hd : Directory part mem live (pre ++ a :: b :: post))
    {next : DirectoryHandle} (hnext : (post.map Block.handle).headD 0 = next) :
    next = 0 ∨ live next = some 30 := by
  rw [← hnext]
  cases post with
  | nil => exact Or.inl rfl
  | cons c post => exact Or.inr (hd.live_eq c (by simp))

/-- The links around an extent lie in the block before it, and the block behind it or the device
header. -/
theorem Directory.agreeOff_bypass (hp : part.Small) (ho : Owned part mem live)
    (hd : Directory part mem live (pre ++ a :: b :: post)) {next : DirectoryHandle}
    (hnext : (post.map Block.handle).headD 0 = next) :
    AgreeOff part.blockAddress (directoryBytes part (pre ++ a :: b :: post) ∪ {o | 0 < o ∧ o < 32})
      mem (fsFileSetParentAddress part next a.handle
        (fsFileSetNextAddress part a.handle next mem)) := by
  have hoffNext : fileOffsetNext.toNat = 28 := rfl
  have hoffParent : fileOffsetParent.toNat = 24 := rfl
  have ha : live a.handle = some 30 := hd.live_eq a (by simp)
  have h₁ : AgreeOff part.blockAddress (field a.handle fileOffsetNext 4) mem
      (fsFileSetNextAddress part a.handle next mem) :=
    agreeOff_setWord (ho.header_le hp (Or.inr ha)) (by omega)
  have h₂ : AgreeOff part.blockAddress (field next fileOffsetParent 4)
      (fsFileSetNextAddress part a.handle next mem) (fsFileSetParentAddress part next a.handle
        (fsFileSetNextAddress part a.handle next mem)) :=
    agreeOff_setWord (ho.header_le hp (hd.next_cases hnext)) (by omega)
  have hfield : ∀ {c offset}, c ∈ pre ++ a :: b :: post → 24 ≤ UInt32.toNat offset →
      UInt32.toNat offset ≤ 28 → field c.handle offset 4 ⊆
        directoryBytes part (pre ++ a :: b :: post) ∪ {o | 0 < o ∧ o < 32} :=
    fun {c _} hc h₁ h₂ o ho => Or.inl ⟨c, hc, contentBytes_subset (link_subset hp h₁ h₂ ho)⟩
  refine (h₁.mono (hfield (by simp) (by omega) (by omega))).trans (h₂.mono ?_)
  rw [← hnext]
  cases post with
  | nil => exact fun o ho => Or.inr (field_device_subset (by omega) (by omega) ho)
  | cons c post => exact hfield (c := c) (by simp) (by omega) (by omega)

/-- **An extent bypassed**: the directory is without it. -/
theorem Directory.bypass (hp : part.Small) (ho : Owned part mem live)
    (hd : Directory part mem live (pre ++ a :: b :: post)) {next : DirectoryHandle}
    (hnext : (post.map Block.handle).headD 0 = next) :
    Owned part (fsFileSetParentAddress part next a.handle
        (fsFileSetNextAddress part a.handle next mem)) live ∧
      Directory part (fsFileSetParentAddress part next a.handle
        (fsFileSetNextAddress part a.handle next mem)) live (pre ++ a :: post) ∧
      AgreeOff part.blockAddress (directoryBytes part (pre ++ a :: b :: post) ∪ {o | 0 < o ∧ o < 32})
        mem (fsFileSetParentAddress part next a.handle
          (fsFileSetNextAddress part a.handle next mem)) := by
  have hoffNext : fileOffsetNext.toNat = 28 := rfl
  have hoffParent : fileOffsetParent.toNat = 24 := rfl
  have ha : live a.handle = some 30 := hd.live_eq a (by simp)
  have hsub : pre ++ a :: post ⊆ pre ++ a :: b :: post := by
    intro c hc
    simp only [List.mem_append, List.mem_cons] at hc ⊢
    tauto
  have hlive : ∀ {h}, h ∈ (pre ++ a :: post).map Block.handle → live h = some 30 := by
    intro h hh
    obtain ⟨c, hc, rfl⟩ := List.mem_map.mp hh
    exact hd.live_eq c (hsub hc)
  -- what the links are set in: the block before, and the block behind or the device header
  have ht := hd.next_cases hnext
  have ho₁ : Owned part (fsFileSetNextAddress part a.handle next mem) live :=
    ho.setLink hp (Or.inr ha) (by omega) (by omega)
  have hnodup : ((pre ++ a :: post).map Block.handle).Nodup :=
    hd.nodup.sublist (List.Sublist.map _ (List.Sublist.append_left
      (List.Sublist.cons_cons a (List.sublist_cons_self b post)) pre))
  have hlinks : ∀ {h offset'}, live h = some 30 → offset'.toNat = 24 ∨ offset'.toNat = 28 →
      (h ≠ a.handle ∨ offset'.toNat = 24) → (h ≠ next ∨ offset'.toNat = 28) →
        getWord part h offset' (fsFileSetParentAddress part next a.handle
          (fsFileSetNextAddress part a.handle next mem)) = getWord part h offset' mem := by
    intro h offset' hl hoff h₁ h₂
    refine (ho₁.getWord_setLink hp ht (by omega) (by omega) hl hoff (h₂.imp_right ?_)).trans
      (ho.getWord_setLink hp (Or.inr ha) (by omega) (by omega) hl hoff (h₁.imp_right ?_))
    all_goals omega
  refine ⟨ho₁.setLink hp ht (by omega) (by omega), ⟨⟨?_, fun c hc => ?_⟩, hnodup,
    fun c hc => hd.live_eq c (hsub hc)⟩, hd.agreeOff_bypass hp ho hnext⟩
  · have hl := hd.linked
    simp only [List.map_append, List.map_cons] at hl hnodup hlive ⊢
    have hsplit : pre.map Block.handle ++ a.handle :: post.map Block.handle =
        (pre.map Block.handle ++ [a.handle]) ++ post.map Block.handle := by simp
    rw [hsplit] at hlive
    have hzero : (0 : DirectoryHandle) ∉ pre.map Block.handle ++ [a.handle] := fun h0 =>
      (ho.fileAt hp.toFormatted (hlive (List.mem_append_left _ h0))).handle_ne hp rfl
    have hnot := headD_notMem (hsplit ▸ hnodup) hzero
    rw [hnext] at hnot
    refine hl.unlink (fun h hh => ?_) (fun h hh => ?_) ?_ fun h hh => ?_
    · refine hlinks (hlive ?_) (Or.inr rfl) (Or.inl ?_) (Or.inr rfl)
      · exact (List.mem_append.mp hh).elim
          (fun hh => List.mem_append_left _ (List.mem_append_left _ hh)) (List.mem_append_right _)
      · exact ne_of_mem_of_not_mem hh (List.nodup_cons.mp (List.nodup_middle.mp hnodup)).1
    · have hh' : h ∈ (pre.map Block.handle ++ [a.handle]) ++ (post.map Block.handle).tail :=
        (List.mem_append.mp hh).elim (fun hh => List.mem_append_left _ (List.mem_of_mem_tail hh))
          (List.mem_append_right _)
      refine hlinks (hlive ?_) (Or.inl rfl) (Or.inr rfl) (Or.inl (ne_of_mem_of_not_mem hh' hnot))
      exact (List.mem_append.mp hh').elim (List.mem_append_left _)
        fun hh => List.mem_append_right _ (List.mem_of_mem_tail hh)
    · -- the link forward was set first, and not by the other
      have hset : getWord part a.handle fileOffsetNext
          (fsFileSetNextAddress part a.handle next mem) = next :=
        getWord_setWord (ho.header_le hp (Or.inr ha)) (by omega)
      refine ((ho₁.getWord_setLink hp ht (by omega) (by omega) ha (Or.inr rfl)
        (Or.inr (by omega))).trans hset).trans ?_
      have hb : Chain part mem ((pre ++ [a]) ++ b :: post) := by
        rw [← List.append_cons]
        exact hd.toChain
      rw [← hnext]
      exact (hb.next_eq _).symm
    · have hh' : h = next := by
        rw [← hnext, List.headD_eq_head?_getD, Option.mem_def.mp hh, Option.getD_some]
      rw [hh']
      exact getWord_setWord (ho₁.header_le hp ht) (by omega)
  · exact ho₁.stored_setLink hp ht (by omega) (by omega) (hd.live_eq c (hsub hc))
      (ho.stored_setLink hp (Or.inr ha) (by omega) (by omega) (hd.live_eq c (hsub hc))
        (hd.stored c (hsub hc)))

/-- **An extent bypassed and deleted.** -/
theorem Directory.unlinkExtent (hp : part.Small) (ho : Owned part mem live)
    (hd : Directory part mem live (pre ++ a :: b :: post)) :
    ∃ mem', Fs.unlinkExtent part b.handle mem = .ok mem' ∧
      Owned part mem' (Function.update live b.handle none) ∧
      Directory part mem' (Function.update live b.handle none) (pre ++ a :: post) ∧
      AgreeOff part.blockAddress (directoryBytes part (pre ++ a :: b :: post) ∪ {o | 0 < o ∧ o < 32})
        mem mem' := by
  have hmem : b ∈ pre ++ a :: b :: post := by simp
  have hnext : fsFileGetNextAddress part b.handle mem = (post.map Block.handle).headD 0 := by
    refine Chain.next_eq (pre ++ [a]) ?_
    rw [← List.append_cons]
    exact hd.toChain
  obtain ⟨ho₂, hd₂, ha₂⟩ := hd.bypass hp ho hnext.symm
  obtain ⟨mem', hdelete, ho', ha'⟩ := ho₂.delete hp.toFormatted (hd.live_eq b hmem)
  have hne : ∀ c ∈ pre ++ a :: post, c.handle ≠ b.handle := by
    have hnodup : (((pre ++ [a]) ++ b :: post).map Block.handle).Nodup := by
      rw [← List.append_cons]
      exact hd.nodup
    rw [List.map_append, List.map_cons, List.nodup_middle, List.nodup_cons, ← List.map_append,
      ← List.append_cons] at hnodup
    intro c hc heq
    exact hnodup.1 (heq ▸ List.mem_map_of_mem hc)
  refine ⟨mem', ?_, ho', hd₂.of_agreeOff hp ha' ?_ fun c hc =>
    (Function.update_of_ne (hne c hc) ..).trans (hd₂.live_eq c hc), ha₂.trans (ha'.mono ?_)⟩
  · rw [Fs.unlinkExtent]
    simp only [hd.toChain.parent_cons, hdelete, ok_bind]
    rfl
  · rw [Set.disjoint_left]
    rintro o ⟨c, hc, ho⟩
    exact Set.disjoint_left.mp (ho₂.disjoint _ _ _ _ (hd₂.live_eq c hc) (hd.live_eq b hmem)
      (hne c hc)) ho
  · exact fun o ho => Or.inl ⟨b, hmem, ho⟩

end Unlink

/-! ## Removing a file -/

/-- The files without one, and without the blocks that went with it. -/
def withoutFile (blocks blocks' : List Block) (file : FileHandle) (live : Files) : Files :=
  fun h => if h = file ∨ h ∈ blocks.map Block.handle ∧ h ∉ blocks'.map Block.handle then none
    else live h

section RemoveFile

variable {part : Partition} {live : Files} {fs : FileSystem} {blocks blocks' : List Block}
  {file : FileHandle} {size : UInt32}

theorem withoutFile_of_handles (h : blocks'.map Block.handle = blocks.map Block.handle) :
    withoutFile blocks blocks' file live = Function.update live file none := by
  funext k
  rw [withoutFile, h, Function.update_apply]
  simp only [and_not_self, or_false]

theorem withoutFile_of_bypass {pre post : List Block} {b : Block}
    (h : ((pre ++ b :: post).map Block.handle).Nodup) :
    withoutFile (pre ++ b :: post) (pre ++ post) file live =
      Function.update (Function.update live file none) b.handle none := by
  funext k
  rw [List.map_append, List.map_cons, List.nodup_middle, List.nodup_cons] at h
  rw [withoutFile, Function.update_apply, Function.update_apply]
  simp only [List.map_append, List.map_cons, List.mem_append, List.mem_cons] at h ⊢
  grind

/-- **Removing a file** of a directory does to the blocks what it does to the listing, and deletes
the file and the block that is bypassed. -/
theorem Directory.removeFile (hp : part.Small) (ho : Owned part fs.memory live)
    (hd : Directory part fs.memory live blocks) (hslot : ∃ i, fs.fileList i = 0)
    (hfile : file ∈ listing blocks) (hl : live file = some size)
    (hne : ∀ c ∈ blocks, c.handle ≠ file) (junk : ℕ → UInt8) :
    ∃ fs', fsDirectoryRemoveFile part ((blocks.map Block.handle).headD 0) file junk fs =
        .ok (1, fs') ∧ fs'.fileList = fs.fileList ∧
      Owned part fs'.memory (withoutFile blocks (removeFrom file 0 blocks) file live) ∧
      Directory part fs'.memory (withoutFile blocks (removeFrom file 0 blocks) file live)
        (removeFrom file 0 blocks) ∧
      AgreeOff part.blockAddress
        (runBytes part file size ∪ (directoryBytes part blocks ∪ {o | 0 < o ∧ o < 32})) fs.memory
        fs'.memory := by
  obtain ⟨pre, b, post, rfl, hb, hpre, hremove⟩ := removeFrom_cases 0 hfile
  have hlimit : pre.length < walkLimit := by
    have hlength := (hd.length_le hp ho).trans (by decide : _ ≤ walkLimit)
    rw [List.length_append, List.length_cons] at hlength
    omega
  -- the walk to the block, and what is done to it
  obtain ⟨limit, buffer, fs₁, hmem₁, hlist₁, hlen₁, heq₁⟩ :=
    hd.toChain.removeFileFrom_append hp hpre hlimit hslot (length_localBuffer junk 64) 0
  rw [← hmem₁] at ho hd
  obtain ⟨fs₂, hlist₂, ho₂, hd₂, ha₂, heq₂⟩ := hd.removeEntry hp ho (hlist₁ ▸ hslot) hb hl hne hlen₁
    (0 + UInt8.ofNat pre.length) limit
  rw [hmem₁] at ha₂
  have hrun := heq₁.trans heq₂
  rw [hremove]
  by_cases hlast : b.files.length ≤ 1 ∧ 0 < 0 + UInt8.ofNat pre.length
  · -- the block is an extent that is now empty
    obtain ⟨pre, a, rfl⟩ : ∃ p a, pre = p ++ [a] := by
      rcases List.eq_nil_or_concat pre with rfl | ⟨p, a, rfl⟩
      · exact absurd hlast.2 (by decide)
      · exact ⟨p, a, List.concat_eq_append⟩
    have hd₂' : Directory part fs₂.memory (Function.update live file none)
        (pre ++ a :: b.remove file :: post) := by
      rw [List.append_cons]
      exact hd₂
    obtain ⟨mem', hunlink, ho', hd', ha'⟩ := hd₂'.unlinkExtent hp ho₂
    have hunlink : Fs.unlinkExtent part b.handle fs₂.memory = .ok mem' := hunlink
    rw [if_pos hlast, hunlink] at hrun
    rw [if_pos hlast, withoutFile_of_bypass hd.nodup]
    refine ⟨_, hrun, hlist₂.trans hlist₁, ho', ?_, (ha₂.mono ?_).trans (ha'.mono ?_)⟩
    · rw [← List.append_cons]
      exact hd'
    · exact Set.union_subset_union_right _ Set.subset_union_left
    · refine (Set.union_subset_union_left _ (directoryBytes_subset ?_)).trans
        Set.subset_union_right
      rw [← List.append_cons]
      simp [Block.remove]
  · -- the block stays, as it holds others, or as the byte that counts those before it is 0
    rw [if_neg hlast] at hrun
    rw [if_neg hlast, withoutFile_of_handles (by simp [Block.remove])]
    exact ⟨fs₂, hrun, hlist₂.trans hlist₁, ho₂, hd₂,
      ha₂.mono (Set.union_subset_union_right _ Set.subset_union_left)⟩

end RemoveFile

end MicroKernel.Fs
