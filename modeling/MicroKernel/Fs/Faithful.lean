import MicroKernel.Fs.DirectoryRun

/-!
# A directory as a multiset

A directory holds what was added and not removed, as long as every added file finds an entry left:
when all blocks are full, the last extent takes one more file, also where it holds seven already.

## Main definitions

* `EntryLeft`: full blocks have an entry left in the last of them
* `Faithful`: the directory holds the entries, each once

## Main results

* `SessionListed.step`: one operation
* `faithful_of_run`: every run with an entry left is faithful
* `SessionListed.not_faithful`: without one, the next state is not
* `exists_not_faithful`: a run that leads to such a state
-/

namespace MicroKernel.Fs

open Store

/-- When all blocks of the directory are full and the last of them is an extent, it holds fewer than
seven files. -/
def EntryLeft (part : Partition) (dir : DirectoryHandle) : DirectoryOp → DirectorySession → Prop
  | .add _ _, s => ∀ block ∈ lastFullBlock part dir s.fs.memory,
    block = dir ∨ fsDirectoryGetReferenceCount part block s.fs.memory < 7
  | _, _ => True

instance (part : Partition) (dir : DirectoryHandle) :
    ∀ op s, Decidable (EntryLeft part dir op s)
  -- not the instance that tries all handles
  | .add _ _, _ => Option.decidableForallMem _
  | .create _ _, _ => .isTrue trivial
  | .remove _ _, _ => .isTrue trivial

/-- The total size is the number of the entries, and the indices below it find each of them once. -/
def Faithful (part : Partition) (dir : DirectoryHandle) (s : DirectorySession) : Prop :=
  (∃ total, fsDirectoryGetTotalSize part dir s.fs.memory = .ok total ∧
    total.toNat = s.entries.length) ∧
  ∃ found : List FileHandle, found.Perm s.entries ∧
    ∀ (index : UInt32) (junk : ℕ → UInt8), index.toNat < s.entries.length →
      ∃ fs', fsDirectoryFindByIndex part dir index junk s.fs = .ok (found.getD index.toNat 0, fs') ∧
        s.fs.Restored fs'

section Session

variable {part : Partition} {dir : DirectoryHandle} {s : DirectorySession} {blocks : List Block}
  {op : DirectoryOp}

/-- An entry left, in terms of the blocks. -/
theorem Contents.lastHasRoom {mem : Memory} {files : Files} (hp : part.Small)
    (hc : Contents part dir mem files blocks)
    (hleft : ∀ block ∈ lastFullBlock part dir mem,
      block = dir ∨ fsDirectoryGetReferenceCount part block mem < 7) : LastHasRoom blocks := by
  intro hfull e he
  have hlen := hc.length_blocks_le hp
  have hhead := hc.headD_eq
  obtain ⟨pre, b, rfl⟩ : ∃ pre b, blocks = pre ++ [b] := by
    rcases List.eq_nil_or_concat blocks with rfl | ⟨pre, b, rfl⟩
    · exact absurd hfull id
    · exact ⟨pre, b, List.concat_eq_append⟩
  have hblock := hc.directory.toChain.lastFullBlock_eq hp hfull (hlen.trans (by decide))
  rw [hhead] at hblock
  cases pre with
  | nil => exact absurd he (by simp)
  | cons first pre =>
    obtain rfl : b = e := by simpa using he
    -- the last block is not the first
    have hne : b.handle ≠ dir := by
      have hnodup := hc.directory.nodup
      rw [List.cons_append, List.map_cons, List.nodup_cons] at hnodup
      have hfirst : first.handle = dir := hhead
      rw [← hfirst]
      intro heq
      exact hnodup.1 (heq ▸ List.mem_map_of_mem (List.mem_append_right pre List.mem_cons_self))
    have hcount := (hleft b.handle hblock).resolve_left hne
    have hseven : (7 : UInt32).toNat = 7 := rfl
    rw [UInt32.lt_iff_toNat_lt, hseven] at hcount
    have htail : Walk part mem [b] := (hc.directory.toChain.tail (first :: pre)).walk hp
    rwa [htail.count_toNat] at hcount

/-- The walk over full extents ends at the last of them. -/
theorem Chain.of_fullChainEnd {mem : Memory} {limit : ℕ} {block : DirectoryHandle} (hp : part.Small)
    (h : Chain part mem blocks) (hne : blocks ≠ [])
    (hend : fullChainEnd part mem limit ((blocks.map Block.handle).headD 0) = some block) :
    (∀ e ∈ blocks, 6 ≤ e.files.length) ∧ ∃ pre b, blocks = pre ++ [b] ∧ b.handle = block := by
  induction blocks generalizing limit with
  | nil => exact absurd rfl hne
  | cons b rest ih =>
    cases limit with
    | zero => cases hend
    | succ limit =>
      have hend : fullChainEnd part mem (limit + 1) b.handle = some block := hend
      have hnext := h.next_eq []
      rw [fullChainEnd, hnext] at hend
      split at hend
      · next hfull =>
        have hb : 6 ≤ b.files.length := by
          have hb := (h.full_iff hp (k := 2) (by decide)).mp hfull
          have htwo : (2 : UInt32).toNat = 2 := rfl
          omega
        have htail : Chain part mem rest := h.tail [b]
        cases rest with
        | nil =>
          rw [if_pos (by rfl), Option.some_inj] at hend
          exact ⟨by simpa using hb, [], b, rfl, hend⟩
        | cons c rest =>
          rw [if_neg (htail.headD_ne hp (List.cons_ne_nil c rest))] at hend
          obtain ⟨hall, pre, last, heq, hlast⟩ := ih htail (List.cons_ne_nil c rest) hend
          exact ⟨List.forall_mem_cons.mpr ⟨hb, hall⟩, b :: pre, last, by rw [heq]; rfl, hlast⟩
      · cases hend

/-- The blocks, in terms of an entry left. -/
theorem Contents.entryLeft {mem : Memory} {files : Files} (hp : part.Small)
    (hc : Contents part dir mem files blocks) (hlast : LastHasRoom blocks)
    {block : DirectoryHandle} (hblock : lastFullBlock part dir mem = some block) :
    block = dir ∨ fsDirectoryGetReferenceCount part block mem < 7 := by
  have hchain := hc.directory.toChain
  obtain ⟨first, rest, rfl⟩ := List.exists_cons_of_ne_nil hc.ne_nil
  obtain rfl : first.handle = dir := Option.some_inj.mp hc.head_eq
  have hnext := hchain.next_eq []
  rw [lastFullBlock, hnext] at hblock
  split at hblock
  · next hfull =>
    have htail : Chain part mem rest := hchain.tail [first]
    cases rest with
    | nil =>
      rw [if_pos (by rfl), Option.some_inj] at hblock
      exact Or.inl hblock.symm
    | cons c rest =>
      rw [if_neg (htail.headD_ne hp (List.cons_ne_nil c rest))] at hblock
      obtain ⟨hall, pre, b, heq, rfl⟩ := htail.of_fullChainEnd hp (List.cons_ne_nil c rest) hblock
      have hfirst := (hchain.full_iff hp (k := 1) (by decide)).mp hfull
      have hone : (1 : UInt32).toNat = 1 := rfl
      have hroom : b.files.length < 7 := hlast ⟨by omega, hall⟩ b (by
        rw [List.tail_cons, heq, List.getLast?_concat]
        rfl)
      have hlastBlock : Walk part mem [b] := by
        rw [heq] at htail
        exact (htail.tail pre).walk hp
      refine Or.inr (UInt32.lt_iff_toNat_lt.mpr ?_)
      rwa [hlastBlock.count_toNat]
  · cases hblock

/-- **A directory that lists its entries** is faithful. -/
theorem SessionListed.faithful (hp : part.Small) (hs : SessionListed part dir s blocks) :
    Faithful part dir s := by
  have hlen := hs.listing_perm.length_eq
  have hlt := hs.contents.length_listing_lt hp
  refine ⟨⟨_, hs.contents.totalSize hp, ?_⟩, listing blocks, hs.listing_perm, fun index junk _ => ?_⟩
  · rw [UInt32.toNat_ofNat_of_lt' hlt, hlen]
  · exact hs.contents.findByIndex hp hs.slot index junk

/-- **One operation** with space, and with an entry left. -/
theorem SessionListed.step (hp : part.Small) (hs : SessionListed part dir s blocks)
    (hallowed : DirectoryAllowed part dir op s) (hleft : EntryLeft part dir op s) :
    ∃ t blocks', directoryStep part dir op s = .ok t ∧ SessionListed part dir t blocks' := by
  cases op with
  | create filename size =>
    obtain ⟨-, t, ht, -, -, -, -, hs'⟩ := hs.create hp hallowed filename
    exact ⟨t, _, ht, hs'⟩
  | add file junk =>
    obtain ⟨hlive, hnew, hroom⟩ := hallowed
    obtain ⟨t, _, ht, -, -, -, hs'⟩ :=
      hs.add hp hlive hnew hroom (hs.contents.lastHasRoom hp hleft) junk
    exact ⟨t, _, ht, hs'⟩
  | remove file junk =>
    obtain ⟨t, ht, -, -, -, hs'⟩ := hs.remove hp hallowed junk
    exact ⟨t, _, ht, hs'⟩

/-- **Every run** in which each added file finds an entry left is faithful: a directory just created
beside any files, with space for what is created, and a slot for the blocks that are read. -/
theorem faithful_of_run (hp : part.Small) {fs : FileSystem} {base : Files}
    (ho : Owned part fs.memory base) (hslot : ∃ i, fs.fileList i = 0)
    (hr : Room part 30 fs.memory) (dirname : List UInt8) :
    ∃ dir mem, fsDirectoryCreate part dirname fs.memory = .ok (dir, mem) ∧
      ∀ ops, Run.Legal (directoryStep part dir)
          (fun op s => DirectoryAllowed part dir op s ∧ EntryLeft part dir op s) ops
          ⟨⟨mem, fs.fileList, fs.fileSize⟩, base, []⟩ →
        ∃ s, Run.exec (directoryStep part dir) ops ⟨⟨mem, fs.fileList, fs.fileSize⟩, base, []⟩ =
          .ok s ∧ Faithful part dir s := by
  obtain ⟨dir, mem, hcreate, -, hc, -⟩ := Contents.of_create hp ho hr dirname
  refine ⟨dir, mem, hcreate, fun ops hl => ?_⟩
  have hstart : SessionListed part dir ⟨⟨mem, fs.fileList, fs.fileSize⟩, base, []⟩ [⟨dir, []⟩] :=
    ⟨hc, List.Perm.refl _, hslot⟩
  obtain ⟨s, hs, blocks, hinv⟩ := Run.exec_legal
    (I := fun s => ∃ blocks, SessionListed part dir s blocks) (fun op s hs hl => by
      obtain ⟨blocks, hs⟩ := hs
      obtain ⟨t, blocks', ht, hinv⟩ := hs.step hp hl.1 hl.2
      exact ⟨t, ht, blocks', hinv⟩) ⟨_, hstart⟩ hl
  exact ⟨s, hs, hinv.faithful hp⟩

/-- **A run that removes no file** finds an entry left for each. -/
theorem Grown.legal_entryLeft {mem₀ : Memory} {base : Files} (hp : part.Small)
    (hg : Grown part dir mem₀ base s blocks) {ops : List DirectoryOp}
    (hl : Run.Legal (directoryStep part dir)
      (fun op s => DirectoryAllowed part dir op s ∧ op.Grows) ops s) :
    Run.Legal (directoryStep part dir)
      (fun op s => DirectoryAllowed part dir op s ∧ EntryLeft part dir op s) ops s := by
  refine hl.mono_of_invariant (I := fun s => ∃ blocks, Grown part dir mem₀ base s blocks)
    ?_ ?_ ⟨blocks, hg⟩
  · rintro op s t ⟨blocks, hg⟩ ⟨hallowed, hgrows⟩ ht
    obtain ⟨u, blocks', hu, hg'⟩ := hg.step hp hallowed hgrows
    obtain rfl : t = u := Except.ok.inj (ht.symm.trans hu)
    exact ⟨blocks', hg'⟩
  · rintro op - s ⟨blocks, hg⟩ ⟨hallowed, -⟩
    refine ⟨hallowed, ?_⟩
    cases op with
    | add file junk =>
      exact fun block hblock => hg.contents.entryLeft hp hg.filled.lastHasRoom hblock
    | create filename size => trivial
    | remove file junk => trivial

/-- `faithful_of_run` for eight files, the last of them in an extent: the first is removed, and another
is added. -/
theorem faithful_of_run_eightFiles :
    ∃ dir mem, fsDirectoryCreate manySectors (chars ['d']) manySectorsFs.memory = .ok (dir, mem) ∧
      ∃ (first : FileHandle) (created : List FileHandle) (file : FileHandle) (s : DirectorySession),
        created.length = 7 ∧
        Run.exec (directoryStep manySectors dir)
          (fillOps (first :: created) ++
            [.remove first fun _ => 0, .create [] 30, .add file fun _ => 0])
          ⟨⟨mem, manySectorsFs.fileList, manySectorsFs.fileSize⟩, fun _ => none, []⟩ = .ok s ∧
        Faithful manySectors dir s := by
  have hp := small_manySectors
  have hcount := sectorCount_manySectors
  obtain ⟨dir, mem, hcreate, h⟩ := faithful_of_run hp owned_manySectors ⟨0, rfl⟩
    (by decide +kernel) (chars ['d'])
  obtain ⟨dir', mem', hcreate', hstart⟩ := Grown.of_create hp owned_manySectors ⟨0, rfl⟩
    (by decide +kernel) (chars ['d'])
  obtain ⟨rfl, rfl⟩ := Prod.mk.inj (Except.ok.inj (hcreate'.symm.trans hcreate))
  obtain ⟨created, t, blocks, hlen, hl, ht, hte, htf, hg⟩ :=
    hstart.exists_filling hp (fun _ => rfl) rfl 8 (by rw [hcount]; decide)
  obtain ⟨first, created, rfl⟩ := List.exists_cons_of_length_eq_add_one hlen
  have hleft := hstart.legal_entryLeft hp hl
  -- a block of seven files, and one that holds the last
  have hlisting := hg.listing_eq
  rw [hte, List.reverse_reverse] at hlisting
  obtain ⟨pre, b, rfl, hpre, hseven, hb⟩ := hg.filled.of_length_eq (n := 1) (by rw [hlisting, hlen])
  obtain ⟨a, rfl⟩ := List.length_eq_one_iff.mp hpre
  have ha : a.files.length = 7 := hseven a (List.mem_singleton_self a)
  have hfirst : first ∈ a.files := by
    obtain ⟨f, rest, hfiles⟩ := List.exists_cons_of_length_eq_add_one ha
    have h : listing [a, b] = first :: created := hlisting
    rw [listing_cons, hfiles] at h
    rw [hfiles, (List.cons.inj h).1]
    exact List.mem_cons_self
  -- the first file is removed ..
  have hmem : first ∈ t.entries := by
    rw [hte]
    simp
  obtain ⟨u, hu, huf, hue, -, hsu⟩ := hg.toSessionListed.remove hp hmem fun _ => 0
  have hremove : removeFrom first 0 ([a] ++ [b]) = [a.remove first, b] := by
    show removeFrom first 0 [a, b] = _
    rw [removeFrom, if_pos hfirst, if_neg (by omega)]
  rw [hremove] at hsu
  have hufiles : ∀ h size, u.files h = some size → size = 30 ∧ h ∈ t.entries := by
    intro h size hl
    rw [huf, Function.update_apply] at hl
    split at hl
    · cases hl
    · exact htf h size hl
  have hentries : t.entries.length = 8 := by rw [hte, List.length_reverse, hlen]
  have hru : Room manySectors 30 u.fs.memory := hsu.contents.room hp hufiles (by
    simp only [List.length_cons, List.length_nil, hentries, hcount]
    decide)
  -- .. another is created ..
  obtain ⟨file, v, hv, hnone, hvf, hve, -, hsv⟩ := hsu.create hp hru []
  have hnew : file ∉ v.entries := by
    rw [hve]
    exact fun hmem => hsu.contents.entries file (hsu.mem_listing.mpr hmem) hnone
  have hvfiles : ∀ h size, v.files h = some size → size = 30 ∧ h ∈ file :: t.entries := by
    intro h size hl
    rw [hvf, Function.update_apply] at hl
    split at hl
    · next heq => exact ⟨(Option.some_inj.mp hl).symm, heq ▸ List.mem_cons_self⟩
    · exact (hufiles h size hl).imp_right (List.mem_cons_of_mem file)
  have hrv : Room manySectors 30 v.fs.memory := hsv.contents.room hp hvfiles (by
    simp only [List.length_cons, List.length_nil, hentries, hcount]
    decide)
  -- .. and added
  have hadd : DirectoryAllowed manySectors dir' (.add file fun _ => 0) v :=
    ⟨by rw [hvf, Function.update_self]; exact Option.some_ne_none _, hnew, fun _ => hrv⟩
  have hlast : LastHasRoom [a.remove first, b] := by
    rintro - e he
    obtain rfl : b = e := by simpa using he
    omega
  obtain ⟨s, hs, hfaithful⟩ := h
    (fillOps (first :: created) ++ [.remove first fun _ => 0, .create [] 30, .add file fun _ => 0]) (by
      refine hleft.append ht ⟨⟨hmem, trivial⟩, fun u' hu' => ?_⟩
      obtain rfl : u = u' := Except.ok.inj (hu.symm.trans hu')
      refine ⟨⟨hru, trivial⟩, fun v' hv' => ?_⟩
      obtain rfl : v = v' := Except.ok.inj (hv.symm.trans hv')
      exact ⟨⟨hadd, fun block hblock => hsv.contents.entryLeft hp hlast hblock⟩, fun _ _ => trivial⟩)
  exact ⟨dir', mem', hcreate, first, created, file, s, Nat.succ_inj.mp hlen, hs, hfaithful⟩

end Session

/-! ## An eighth entry -/

section Eighth

variable {part : Partition} {dir : DirectoryHandle} {s : DirectorySession} {fs : FileSystem}
  {pre : List Block} {b : Block} {h : DirectoryHandle} {file : FileHandle}

/-- **An eighth entry** is read from the buffer, behind the bytes that a transfer of its block moves:
its last byte is what the stack held. -/
theorem findByIndex_eighth (hp : part.Small) (hforward : (pre.map Block.handle ++ [h]).IsChain
      fun a b => fsFileGetNextAddress part a fs.memory = b) (hne : ∀ b ∈ pre, b.handle ≠ 0)
    (hreadable : ∀ b ∈ pre, b.Readable part fs.memory) (hf : FileAt part fs.memory h 30)
    (haddress : part.blockAddress + h ≠ 0)
    (hcount : fsDirectoryGetReferenceCount part h fs.memory = 8) (hslot : ∃ i, fs.fileList i = 0)
    (hlt : (listing pre).length + 7 < 2 ^ 32) (hlimit : pre.length < walkLimit)
    (junk : ℕ → UInt8) :
    ∃ w fs', fsDirectoryFindByIndex part ((pre.map Block.handle ++ [h]).headD 0)
        (UInt32.ofNat ((listing pre).length + 7)) junk fs = .ok (w, fs') ∧
      wordByte w 3 = junk 31 := by
  obtain ⟨limit, hwalk⟩ : ∃ limit, walkLimit = limit + 1 + pre.length :=
    ⟨walkLimit - 1 - pre.length, by omega⟩
  have hindex : (UInt32.ofNat ((listing pre).length + 7)).toNat = (listing pre).length + 7 := by
    rw [UInt32.toNat_ofNat', Nat.mod_eq_of_lt hlt]
  have hzero : (0 : UInt32).toNat = 0 := rfl
  obtain ⟨fs', buffer, heq, hrest, hlen, hdrop⟩ := findByIndexFrom_skip hforward hne
    (hf.handle_ne hp) hreadable hslot (length_localBuffer junk 64)
    (show (0 : UInt32).toNat + (listing pre).length ≤
      (UInt32.ofNat ((listing pre).length + 7)).toNat by omega)
  have hheader := hf.marked.header
  rw [view_toNat] at hheader
  have hlive : fs'.memory (part.blockAddress + h) ≠ sectorFree := by
    rw [hrest.memory_eq, hheader]
    decide
  have hsize : fsFileGetSize part h fs'.memory = 30 := by
    rw [hrest.memory_eq]
    exact hf.marked.size_eq
  obtain ⟨i, -, hread⟩ := readBlock_eq haddress hlive hsize (hrest.fileList_eq ▸ hslot) hlen
  have hclose := fsFileClose_setSlot fs' i haddress 30
  -- the blocks in front are passed over, and the index left is 7
  have hentry : UInt32.ofNat ((listing pre).length + 7) - (0 + UInt32.ofNat (listing pre).length) =
      UInt32.ofNat 7 := by
    rw [UInt32.zero_add, UInt32.ofNat_add, UInt32.add_comm, UInt32.add_sub_cancel]
  obtain ⟨w, hload, hw⟩ : ∃ w, loadEntry (fileBytes part (part.blockAddress + h) 29 fs'.memory ++
      buffer.drop 29) (UInt32.ofNat 7) = .ok w ∧ wordByte w 3 = junk 31 := by
    -- bytes 28 to 31 of the buffer, of which the transfer of 29 leaves the last three
    refine ⟨_, loadEntry_eq (by simp [hlen]) (by simp [hlen]), ?_⟩
    rw [wordByte_wordOf _ (by decide), hdrop]
    simp [localBuffer]
  refine ⟨w, fs'.setSlot i 0 0, ?_, hw⟩
  have hlt8 : UInt32.ofNat 7 < 8 := by decide
  rw [fsDirectoryFindByIndex, hwalk, heq, findByIndexFrom, hread, ok_bind]
  simp only [hentry, hrest.memory_eq, hcount, hlt8, if_true]
  rw [← hrest.memory_eq, hload, ok_bind, hclose]
  rfl

/-- **A file added to full blocks**, the last of them an extent that holds seven files, is not found
again: what an index finds depends on what the stack held. -/
theorem SessionListed.not_faithful (hp : part.Small) (hs : SessionListed part dir s (pre ++ [b]))
    {junk : ℕ → UInt8} (hallowed : DirectoryAllowed part dir (.add file junk) s)
    (hfull : Full (pre ++ [b])) (hpre : pre ≠ []) (hb : b.files.length = 7) :
    ∃ t, directoryStep part dir (.add file junk) s = .ok t ∧ ¬ Faithful part dir t := by
  have hc := hs.contents
  have hd := hc.directory
  have hlen := hc.length_blocks_le hp
  have hcap := hc.length_listing_lt hp
  have hwalk : 2 ^ 27 ≤ walkLimit := by decide
  have hprefull : Full pre := by
    obtain ⟨first, pre, rfl⟩ := List.exists_cons_of_ne_nil hpre
    exact ⟨hfull.1, fun e he => hfull.2 e (List.mem_append_left _ he)⟩
  -- the last block takes the file, and has a new extent linked behind
  have hr := hallowed.2.2 (hc.lastFullBlock_ne hp hfull)
  obtain ⟨new, mem₁, hcreate, hnone, ho₁, ha₁, hs₁, hparent, hnext⟩ :=
    hc.owned.createExtent hp hr b.handle
  obtain ⟨ho, hd', -⟩ := hd.linkExtent hp ho₁ (old_of_none hnone.1) (Function.update_self ..) ha₁ hs₁
    hparent hnext
  have htarget := hd.targetBlock_last hp hprefull (by omega) (hlen.trans hwalk) hcreate
  rw [hc.headD_eq] at htarget
  have hmem : b ∈ pre ++ [b, ⟨new, []⟩] := by simp
  have hstored : b.Stored part
    (FileSystem.mk (fsFileSetNextAddress part b.handle new mem₁) s.fs.fileList s.fs.fileSize).memory :=
    hd'.stored b hmem
  obtain ⟨fs', happend, hlist, ha, hcount, -⟩ := hstored.appendEntry hp hs.slot file junk
  have hadd : directoryStep part dir (.add file junk) s =
      .ok { s with fs := fs', entries := file :: s.entries } := by
    rw [directoryStep, fsDirectoryAddFile, htarget, ok_bind]
    simp only [happend, ok_bind]
    rfl
  refine ⟨_, hadd, ?_⟩
  rintro ⟨-, found, -, hfound⟩
  -- the walk to the last block
  have hlinked := hd'.linked_of_entryBytes hp ho hmem ha
  have hforward := hlinked.forward
  rw [List.map_append, List.map_cons, List.append_assoc, List.cons_append, List.append_cons] at hforward
  have hreadable : ∀ c ∈ pre, c.Readable part fs'.memory := by
    intro c hcm
    have hcb : c.handle ≠ b.handle := by
      have hnodup := hd.nodup
      rw [List.map_append, List.nodup_append] at hnodup
      exact hnodup.2.2 _ (List.mem_map_of_mem hcm) _ (by simp)
    have hcm' : c ∈ pre ++ [b, ⟨new, []⟩] := List.mem_append_left _ hcm
    exact ((hd'.stored c hcm').of_agreeOff hp ha (ho.disjoint_entryBytes hp (hd'.live_eq b hmem)
      (hd'.live_eq c hcm') hcb)).readable hp
  have hlisting : (listing (pre ++ [b])).length = (listing pre).length + 7 := by
    rw [listing_append, List.length_append, listing_cons, listing_nil, List.append_nil, hb]
  have hentries : s.entries.length = (listing pre).length + 7 := by
    rw [← hs.listing_perm.length_eq, hlisting]
  have hhead : (pre.map Block.handle ++ [b.handle]).headD 0 = dir := by
    have h := hc.headD_eq
    rwa [List.map_append] at h
  rw [hb] at hcount
  have hbyte : ∀ junk : ℕ → UInt8,
      wordByte (found.getD ((listing pre).length + 7) 0) 3 = junk 31 := by
    intro junk
    obtain ⟨w, fs'', heq, hw⟩ := findByIndex_eighth hp hforward.left_of_append
      (fun c hcm => (hd.stored c (List.mem_append_left _ hcm)).fileAt.handle_ne hp) hreadable
      (hstored.fileAt.of_entryBytes hp ha) hstored.address_ne hcount (hlist ▸ hs.slot)
      (hlisting ▸ hcap) (by rw [List.length_append, List.length_singleton] at hlen; omega) junk
    have hindex : (UInt32.ofNat ((listing pre).length + 7)).toNat = (listing pre).length + 7 := by
      rw [UInt32.toNat_ofNat', Nat.mod_eq_of_lt (hlisting ▸ hcap)]
    obtain ⟨fs₁, heq₁, -⟩ := hfound (UInt32.ofNat ((listing pre).length + 7)) junk (by
      show _ < (file :: s.entries).length
      rw [hindex, List.length_cons, hentries]
      exact Nat.lt_succ_self _)
    rw [hhead] at heq
    have hsame := Except.ok.inj (heq.symm.trans heq₁)
    rw [hindex] at hsame
    rw [← hw, (Prod.mk.inj hsame).1]
  exact absurd ((hbyte fun _ => 0).symm.trans (hbyte fun _ => 1)) (by decide)

end Eighth

/-- Fifteen files are added, the last of them is removed, and another is added: it is the eighth of
the second block. -/
theorem exists_not_faithful :
    ∃ dir mem, fsDirectoryCreate manySectors (chars ['d']) manySectorsFs.memory = .ok (dir, mem) ∧
      ∃ (created : List FileHandle) (last file : FileHandle) (s : DirectorySession),
        created.length = 14 ∧
        Run.Legal (directoryStep manySectors dir) (DirectoryAllowed manySectors dir)
          (fillOps (created ++ [last]) ++
            [.create [] 30, .remove last fun _ => 0, .add file fun _ => 0])
          ⟨⟨mem, manySectorsFs.fileList, manySectorsFs.fileSize⟩, fun _ => none, []⟩ ∧
        Run.exec (directoryStep manySectors dir)
          (fillOps (created ++ [last]) ++
            [.create [] 30, .remove last fun _ => 0, .add file fun _ => 0])
          ⟨⟨mem, manySectorsFs.fileList, manySectorsFs.fileSize⟩, fun _ => none, []⟩ = .ok s ∧
        ¬ Faithful manySectors dir s := by
  have hp := small_manySectors
  have hcount := sectorCount_manySectors
  obtain ⟨dir, mem, hcreate, created, t, blocks, hlen, hl, ht, hte, htf, hg⟩ :=
    exists_filling_manySectors (Nat.le_refl 15)
  obtain ⟨created, last, rfl⟩ : ∃ pre last, created = pre ++ [last] := by
    rcases List.eq_nil_or_concat created with rfl | ⟨pre, last, rfl⟩
    · cases hlen
    · exact ⟨pre, last, List.concat_eq_append⟩
  rw [List.length_append, List.length_singleton] at hlen
  -- two blocks of seven files, and one that holds the last
  have hlisting := hg.listing_eq
  rw [hte, List.reverse_reverse] at hlisting
  obtain ⟨pre, b, hblocks, hpre, hseven, hb⟩ := hg.filled.of_length_eq (n := 2) (by
    rw [hlisting, List.length_append, List.length_singleton, hlen])
  obtain ⟨first, second, rfl⟩ := List.length_eq_two.mp hpre
  have hfirst : first.files.length = 7 := hseven first (by simp)
  have hsecond : second.files.length = 7 := hseven second (by simp)
  obtain rfl : blocks = [first, second, b] := hblocks
  obtain ⟨f, hf⟩ := List.length_eq_one_iff.mp hb
  rw [listing_cons, listing_cons, listing_cons, listing_nil, List.append_nil, hf,
    ← List.append_assoc] at hlisting
  obtain rfl : f = last := List.singleton_inj.mp (List.append_inj' hlisting rfl).2
  have hnodup : (listing [first, second] ++ [f]).Nodup := by simpa [hf] using hg.contents.nodup
  have hnotpre : f ∉ listing [first, second] := fun h =>
    (List.nodup_append.mp hnodup).2.2 f h f (List.mem_singleton_self f) rfl
  -- a new file
  have hentries : t.entries.length = 15 := by rw [hte]; simp [hlen]
  have hr : Room manySectors 30 t.fs.memory := hg.contents.room hp htf (by
    show 4 * (3 + t.entries.length) + 3 ≤ _
    omega)
  obtain ⟨file, u, hu, hnone, huf, hue, hgu⟩ := hg.create hp hr []
  have hfu : f ∈ u.entries := by
    rw [hue, hte]
    simp
  have hfile : file ∉ t.entries := fun hmem =>
    hg.contents.entries file (hg.mem_listing.mpr hmem) hnone
  have hne : file ≠ f := fun heq => hfile (hue ▸ heq ▸ hfu)
  -- the last extent is bypassed
  obtain ⟨v, hv, hvf, hve, -, hsv⟩ := hgu.toSessionListed.remove hp hfu fun _ => 0
  have hremove : removeFrom f 0 [first, second, b] = [first, second] := by
    rw [show [first, second, b] = [first, second] ++ [b] from rfl, removeFrom_append hnotpre,
      removeFrom, if_pos (by rw [hf]; simp), if_pos ⟨hb.le, show (0 : UInt8) < 0 + 2 by decide⟩]
    rfl
  rw [hremove] at hsv
  have hvfiles : ∀ h size, v.files h = some size → size = 30 ∧ h ∈ file :: t.entries := by
    intro h size hl
    rw [hvf, huf, Function.update_apply] at hl
    split at hl
    · cases hl
    · rw [Function.update_apply] at hl
      split at hl
      · next heq => exact ⟨(Option.some_inj.mp hl).symm, heq ▸ List.mem_cons_self⟩
      · exact (htf h size hl).imp_right (List.mem_cons_of_mem file)
  have hrv : Room manySectors 30 v.fs.memory := hsv.contents.room hp hvfiles (by
    show 4 * (2 + (t.entries.length + 1)) + 3 ≤ _
    omega)
  have hlive : v.files file ≠ none := by
    rw [hvf, huf, Function.update_of_ne hne, Function.update_self]
    exact Option.some_ne_none _
  have hnew : file ∉ v.entries := by
    rw [hve, hue]
    exact fun hmem => hfile (List.mem_of_mem_erase hmem)
  have hallowed : DirectoryAllowed manySectors dir (.add file fun _ => 0) v :=
    ⟨hlive, hnew, fun _ => hrv⟩
  have hfull : Full ([first] ++ [second]) := ⟨hfirst.ge, by simp [hsecond]⟩
  obtain ⟨s, hs, hnot⟩ := SessionListed.not_faithful hp hsv hallowed hfull (by simp) hsecond
  have hend : Run.exec (directoryStep manySectors dir)
      [.create [] 30, .remove f fun _ => 0, .add file fun _ => 0] t = .ok s := by
    rw [Run.exec_cons_of_ok hu, Run.exec_cons_of_ok hv, Run.exec_cons_of_ok hs]
    rfl
  refine ⟨dir, mem, hcreate, created, f, file, s, by omega,
    Run.Legal.append (hl.mono fun _ _ h => h.1) ht ⟨hr, fun u' hu' => ?_⟩,
    (Run.exec_append_of_ok ht).trans hend, hnot⟩
  obtain rfl : u = u' := Except.ok.inj (hu.symm.trans hu')
  refine ⟨hfu, fun v' hv' => ?_⟩
  obtain rfl : v = v' := Except.ok.inj (hv.symm.trans hv')
  exact ⟨hallowed, fun _ _ => trivial⟩

end MicroKernel.Fs
