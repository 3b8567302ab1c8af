import Mathlib.Data.List.GetD
import MicroKernel.Fs.Fill

/-!
# Lookups in a directory

The three walks that look into a directory, on any chain of live blocks, whatever made it: they see
the same entries.

## Main definitions

* `LiveChain`: a finite chain of live blocks
* `blockAt`: a block, as the memory has it

## Main results

* `LiveChain.walk`: a finite chain of live blocks can be walked
* `walks_agree`: the walks see the same entries
* `Contents.liveChain`: the directories of the functions are such chains
-/

namespace MicroKernel.Fs

open Store

/-- A finite chain of live blocks of the partition, of 30 bytes and at most seven entries each. -/
structure LiveChain (part : Partition) (mem : Memory) (chain : List DirectoryHandle) : Prop where
  forward : (chain ++ [0]).IsChain fun a b => fsFileGetNextAddress part a mem = b
  sector : ∀ h ∈ chain, ∃ i, 0 < i ∧ i + 2 ≤ part.sectorCount.toNat ∧
    h.toNat = i * part.sectorSize.toNat
  live : ∀ h ∈ chain, mem (part.blockAddress + h) ≠ sectorFree
  size_eq : ∀ h ∈ chain, fsFileGetSize part h mem = 30
  count_le : ∀ h ∈ chain, fsDirectoryGetReferenceCount part h mem ≤ 7

/-- The block at a handle, with the entries the memory has there. -/
def blockAt (part : Partition) (mem : Memory) (h : DirectoryHandle) : Block where
  handle := h
  files := (List.range (fsDirectoryGetReferenceCount part h mem).toNat).map fun i =>
    wordOf fun k => view part.blockAddress mem (h.toNat + 33 + (4 * i + k))

section LiveChain

variable {part : Partition} {mem : Memory} {fs : FileSystem} {chain : List DirectoryHandle}
  {h dir : DirectoryHandle}

theorem LiveChain.handle_le (hp : part.Small) (hc : LiveChain part mem chain) (hh : h ∈ chain) :
    32 ≤ h.toNat ∧ h.toNat % 32 = 0 ∧ h.toNat + 64 ≤ part.blockSize.toNat := by
  obtain ⟨i, hpos, hle, hi⟩ := hc.sector h hh
  have hmul := hp.mul_le hle
  rw [hp.sectorSize_eq] at hmul hi
  omega

/-- The blocks of a live chain are those the memory has. -/
theorem LiveChain.readable (hp : part.Small) (hc : LiveChain part mem chain) (hh : h ∈ chain) :
    (blockAt part mem h).Readable part mem := by
  obtain ⟨h₁, -, h₂⟩ := hc.handle_le hp hh
  have hle := hp.le_addresses
  have hlt := part.blockSize.toNat_lt
  have hseven : (7 : UInt32).toNat = 7 := rfl
  have hcount := UInt32.le_iff_toNat_le.mp (hc.count_le h hh)
  refine ⟨show h.toNat + 64 ≤ 2 ^ 32 by omega, fun h0 => ?_, hc.live h hh, hc.size_eq h hh, ?_, ?_,
    fun i hi k hk => ?_⟩
  · have h0 : (part.blockAddress + h).toNat = 0 := congrArg UInt32.toNat h0
    rw [UInt32.toNat_add] at h0
    omega
  · simp only [blockAt, List.length_map, List.length_range]
    omega
  · simp only [blockAt, List.length_map, List.length_range, UInt32.ofNat_toNat]
  · simp only [blockAt, List.getElem_map, List.getElem_range]
    exact (wordByte_wordOf (fun k => view part.blockAddress mem (h.toNat + 33 + (4 * i + k))) hk).symm

/-- **A finite chain of live blocks** can be walked. -/
theorem LiveChain.walk (hp : part.Small) (hc : LiveChain part mem chain) :
    Walk part mem (chain.map (blockAt part mem)) := by
  have hhandles : (chain.map (blockAt part mem)).map Block.handle = chain := by
    rw [List.map_map]
    exact List.map_id chain
  refine ⟨by rw [hhandles]; exact hc.forward, fun b hb => ?_, fun b hb => ?_⟩
  all_goals obtain ⟨h, hh, rfl⟩ := List.mem_map.mp hb
  · intro h0
    have h₁ := (hc.handle_le hp hh).1
    have h0 : h.toNat = 0 := congrArg UInt32.toNat h0
    omega
  · exact hc.readable hp hh

/-- It has fewer blocks than the partition has sectors. -/
theorem LiveChain.length_le (hp : part.Small) (hc : LiveChain part mem chain) :
    chain.length ≤ 2 ^ 27 := by
  have hzero : (0 : DirectoryHandle) ∉ chain := fun h0 =>
    absurd (hc.handle_le hp h0).1 (by decide)
  have hnodup : (chain.map fun h => h.toNat / 32).Nodup := by
    refine List.Nodup.map_on (fun h hh k hk heq => ?_) (Linked.nodup_of_forward hc.forward hzero)
    have h₁ := (hc.handle_le hp hh).2.1
    have h₂ := (hc.handle_le hp hk).2.1
    exact UInt32.toNat_inj.mp (by omega)
  have hsub : (chain.map fun h => h.toNat / 32) ⊆ List.range (2 ^ 27) := by
    intro i hi
    obtain ⟨h, -, rfl⟩ := List.mem_map.mp hi
    have := h.toNat_lt
    exact List.mem_range.mpr (by omega)
  have hle := (List.Nodup.subperm hnodup hsub).length_le
  rwa [List.length_map, List.length_range] at hle

theorem LiveChain.length_listing_le (hp : part.Small) (hc : LiveChain part mem chain) :
    (listing (chain.map (blockAt part mem))).length ≤ 7 * chain.length := by
  have hcap : ∀ b ∈ chain.map (blockAt part mem), b.files.length ≤ 7 := fun b hb =>
    ((hc.walk hp).readable b hb).length_le
  have hle := length_listing_le_of_forall hcap
  rwa [List.length_map] at hle

/-- The first entry with a property, at its index. -/
theorem find?_getD_cases {A : Type*} (l : List A) (p : A → Bool) (d : A) :
    (∃ i < l.length, p (l.getD i d) ∧ (∀ j < i, ¬ p (l.getD j d)) ∧
        (l.find? p).getD d = l.getD i d) ∨
      (∀ i < l.length, ¬ p (l.getD i d)) ∧ (l.find? p).getD d = d := by
  have hget : ∀ {i} (hi : i < l.length), l.getD i d = l[i] := fun hi =>
    (List.getElem_eq_getD d).symm
  rcases hfind : l.find? p with _ | a
  · refine Or.inr ⟨fun i hi => ?_, rfl⟩
    rw [hget hi]
    exact List.find?_eq_none.mp hfind _ (List.getElem_mem hi)
  · obtain ⟨ha, i, hi, rfl, hmin⟩ := List.find?_eq_some_iff_getElem.mp hfind
    refine Or.inl ⟨i, hi, by rwa [hget hi], fun j hj => ?_, (hget hi).symm⟩
    rw [hget (hj.trans hi)]
    simpa using hmin j hj

/-- **The three walks agree** on every finite chain of live blocks: there is an entry at every index,
0 from the total size on, and the search for a name finds the first whose name, read into a blank
buffer, is the name cut and padded. They leave the memory and the open files. -/
theorem walks_agree (hp : part.Small) (hc : LiveChain part fs.memory (dir :: chain))
    (hslot : ∃ i, fs.fileList i = 0) :
    ∃ (total : UInt32) (entry : UInt32 → FileHandle),
      fsDirectoryGetTotalSize part dir fs.memory = .ok total ∧
      (∀ index junk, ∃ fs', fsDirectoryFindByIndex part dir index junk fs = .ok (entry index, fs') ∧
        fs.Restored fs') ∧
      (∀ index, total ≤ index → entry index = 0) ∧
      ∀ name junk, ∃ file fs', fsDirectoryFindByName part dir name junk fs = .ok (file, fs') ∧
        fs.Restored fs' ∧
        ((∃ i < total, fsFileGetName part (entry i) (cleanName []) fs.memory = cleanName name ∧
            (∀ j < i, fsFileGetName part (entry j) (cleanName []) fs.memory ≠ cleanName name) ∧
            file = entry i) ∨
          (∀ i < total, fsFileGetName part (entry i) (cleanName []) fs.memory ≠ cleanName name) ∧
            file = 0) := by
  have hlen := hc.length_le hp
  have hlist := hc.length_listing_le hp
  have hwalk := hc.walk hp
  rw [List.map_cons] at hlist hwalk
  rw [List.length_cons] at hlen hlist
  have hlimit : (chain.map (blockAt part fs.memory)).length < walkLimit := by
    rw [List.length_map, walkLimit]
    omega
  obtain ⟨l, hl⟩ : ∃ l, listing (blockAt part fs.memory dir :: chain.map (blockAt part fs.memory)) = l :=
    ⟨_, rfl⟩
  rw [hl] at hlist
  -- the listing is shorter than the counters of 32 bits, so that they do not wrap
  have hindex : ∀ i ≤ l.length, (UInt32.ofNat i).toNat = i := fun i hi => by
    rw [UInt32.toNat_ofNat']
    omega
  refine ⟨UInt32.ofNat l.length, fun index => l.getD index.toNat 0, ?_, fun index junk => ?_,
    fun index hle => ?_, fun name junk => ?_⟩
  · have h := hwalk.getTotalSizeFrom hlimit 0
    rwa [hl, UInt32.zero_add] at h
  · have h := hwalk.findByIndexFrom hp hlimit hslot (length_localBuffer junk 64)
      (UInt32.zero_le : 0 ≤ index) (by rw [hl, UInt32.toNat_zero]; omega)
    rwa [hl] at h
  · rw [UInt32.le_iff_toNat_le, hindex _ le_rfl] at hle
    exact List.getD_eq_default l 0 hle
  · -- the first entry of the name, or none
    obtain ⟨fs', heq, hrest⟩ :=
      hwalk.findByNameFrom hp hlimit hslot (length_localBuffer junk 64) (cleanName name)
    rw [hl] at heq
    refine ⟨_, fs', heq, hrest, ?_⟩
    have hcases := find?_getD_cases l (HasName part fs.memory (cleanName name)) 0
    simp only [hasName_iff] at hcases
    rcases hcases with ⟨i, hi, hname, hmin, hfile⟩ | ⟨hnone, hfile⟩
    · refine Or.inl ⟨UInt32.ofNat i, ?_, ?_, fun j hj => hmin j.toNat ?_, ?_⟩
      · rwa [UInt32.lt_iff_toNat_lt, hindex i hi.le, hindex _ le_rfl]
      · simp only [hindex i hi.le]
        exact hname
      · rwa [UInt32.lt_iff_toNat_lt, hindex i hi.le] at hj
      · simp only [hindex i hi.le]
        exact hfile
    · refine Or.inr ⟨fun i hi => hnone i.toNat ?_, hfile⟩
      rwa [UInt32.lt_iff_toNat_lt, hindex _ le_rfl] at hi

/-- **A directory that is kept by the functions** is a finite chain of live blocks. -/
theorem Contents.liveChain {files : Files} {blocks : List Block} (hp : part.Small)
    (hc : Contents part dir mem files blocks) : ∃ chain, LiveChain part mem (dir :: chain) := by
  have hwalk := hc.directory.toChain.walk hp
  have hlive : LiveChain part mem (blocks.map Block.handle) := by
    refine ⟨hwalk.forward, ?_, ?_, ?_, ?_⟩
    all_goals
      intro h hh
      obtain ⟨b, hb, rfl⟩ := List.mem_map.mp hh
    · have haligned := hc.owned.aligned _ _ (hc.directory.live_eq b hb)
      rwa [hp.runLength_eq] at haligned
    · exact (hwalk.readable b hb).live
    · exact (hwalk.readable b hb).size_eq
    · have hle := (hwalk.readable b hb).length_le
      rw [(hwalk.readable b hb).count, UInt32.le_iff_toNat_le, UInt32.toNat_ofNat']
      exact (Nat.mod_le _ _).trans hle
  obtain ⟨first, rest, rfl⟩ := List.exists_cons_of_ne_nil hc.ne_nil
  obtain rfl : first.handle = dir := Option.some_inj.mp hc.head_eq
  exact ⟨rest.map Block.handle, hlive⟩

end LiveChain

/-- `walks_agree` for the directory of eight files, which takes an extent: the last of the names finds
the last entry, and another finds none. -/
theorem walks_agree_eightFiles :
    ∃ dir mem, fsDirectoryCreate manySectors (chars ['d']) manySectorsFs.memory = .ok (dir, mem) ∧
      ∃ s, Run.exec (fillStep manySectors dir) eightFiles
          ⟨⟨mem, manySectorsFs.fileList, manySectorsFs.fileSize⟩, []⟩ = .ok s ∧
        ∃ (total : UInt32) (entry : UInt32 → FileHandle),
          fsDirectoryGetTotalSize manySectors dir s.fs.memory = .ok total ∧ total = 8 ∧
          (∀ index junk, ∃ fs', fsDirectoryFindByIndex manySectors dir index junk s.fs =
            .ok (entry index, fs') ∧ s.fs.Restored fs') ∧
          (∀ index, total ≤ index → entry index = 0) ∧
          (∀ junk, ∃ fs', fsDirectoryFindByName manySectors dir (chars ['h']) junk s.fs =
            .ok (entry 7, fs') ∧ s.fs.Restored fs') ∧
          ∀ junk, ∃ fs', fsDirectoryFindByName manySectors dir (chars ['i']) junk s.fs =
            .ok (0, fs') ∧ s.fs.Restored fs' := by
  obtain ⟨dir, mem, hcreate, -, hi⟩ := FillInv.of_create small_manySectors owned_manySectors
    (by decide +kernel) (chars ['d'])
  obtain ⟨s, hs, files, blocks, hi⟩ :=
    fillInv_of_run small_manySectors hi ⟨0, rfl⟩ (legal_eightFiles hcreate)
  have hslot : ∃ i, s.fs.fileList i = 0 := hi.fileList_eq ▸ ⟨0, rfl⟩
  have hcreated : s.created.map Prod.fst = eightFiles.map NewFile.filename := created_of_run hs
  have hlength : s.created.length = 8 := by
    rw [← List.length_map (f := Prod.fst), hcreated]
    rfl
  obtain ⟨chain, hlive⟩ := hi.contents.liveChain small_manySectors
  obtain ⟨total, entry, htotal, hindex, hnone, hfind⟩ := walks_agree small_manySectors hlive hslot
  have hentries : (listing blocks).length = 8 := by rw [hi.listing_eq, List.length_map, hlength]
  obtain rfl : total = 8 := by
    have h := htotal.symm.trans (hi.contents.totalSize small_manySectors)
    rw [hentries] at h
    exact Except.ok.inj h
  -- the entries are the files created, under their names
  have hname : ∀ (name : List UInt8) (i : UInt32), i < 8 →
      (fsFileGetName manySectors (entry i) (cleanName []) s.fs.memory = cleanName name ↔
        cleanName ((eightFiles.map NewFile.filename).getD i.toNat []) = cleanName name) := by
    intro name i hi8
    have hlt : i.toNat < s.created.length := hlength ▸ hi8
    obtain ⟨fs', heq, -⟩ := hindex i fun _ => 0
    obtain ⟨fs'', heq', -⟩ := hi.contents.findByIndex small_manySectors hslot i fun _ => 0
    have hentry : entry i = (listing blocks).getD i.toNat 0 :=
      (Prod.mk.inj (Except.ok.inj (heq.symm.trans heq'))).1
    rw [hentry, ← hasName_iff, hi.hasName_getD small_manySectors name hlt, hcreated,
      decide_eq_true_iff]
  have hlast : ∀ i < 8, cleanName ((eightFiles.map NewFile.filename).getD i []) =
      cleanName (chars ['h']) → i = 7 := by decide
  have hother : ∀ i < 8, cleanName ((eightFiles.map NewFile.filename).getD i []) ≠
      cleanName (chars ['i']) := by decide
  refine ⟨dir, mem, hcreate, s, hs, 8, entry, htotal, rfl, hindex, hnone, fun junk => ?_, fun junk => ?_⟩
  · obtain ⟨file, fs', heq, hrest, ⟨i, hi8, hi', -, rfl⟩ | ⟨hno, -⟩⟩ := hfind (chars ['h']) junk
    · have h7 := hlast i.toNat hi8 ((hname _ i hi8).mp hi')
      rw [show i = 7 from UInt32.toNat_inj.mp h7] at heq
      exact ⟨fs', heq, hrest⟩
    · exact absurd ((hname _ 7 (by decide)).mpr rfl) (hno 7 (by decide))
  · obtain ⟨file, fs', heq, hrest, ⟨i, hi8, hi', -⟩ | ⟨-, rfl⟩⟩ := hfind (chars ['i']) junk
    · exact absurd ((hname _ i hi8).mp hi') (hother i.toNat hi8)
    · exact ⟨fs', heq, hrest⟩

end MicroKernel.Fs
