import Mathlib.Data.List.Nodup
import Mathlib.Data.List.Perm.Subperm
import MicroKernel.Fs.ReadWrite
import MicroKernel.Lib.Linked

/-!
# The capacity of a block

A block has 30 bytes of data, of which a transfer moves 29, and a lookup reads them into a buffer of
64 bytes. `fsDirectoryAddFile` takes a block to be full by the sector size instead, with one entry
less in an extent, and places one more entry in the last extent when all of them are full.

## Main definitions

* `LinkedBlocks`: the blocks of a directory, live and linked to the end
* `hasRoom`: the full test of the source
* `EntryFits`: the entry behind the last of a block fits in the bytes stored and read
* `AtMostSix`: the block with room, or else the last extent, has six entries at most

## Main results

* `entryFits_iff`: the new entry fits if and only if there were six at most
-/

namespace MicroKernel.Fs

open Store

/-- The blocks of a directory: live files of 30 bytes each, linked by their next addresses. -/
structure LinkedBlocks (part : Partition) (mem : Memory) (live : Files) (dir : DirectoryHandle)
    (extents : List DirectoryHandle) : Prop where
  owned : Owned part mem live
  live_eq : ∀ h ∈ dir :: extents, live h = some 30
  forward : ((dir :: extents) ++ [0]).IsChain fun a b => fsFileGetNextAddress part a mem = b

/-- The full test, with `k` 1 for the first block and 2 for an extent. -/
def hasRoom (part : Partition) (mem : Memory) (k : UInt32) (h : DirectoryHandle) : Bool :=
  (fsDirectoryGetReferenceCount part h mem + k) * 4 < part.sectorSize

/-- The four bytes of the entry behind the last of a block are among those a transfer of the block
moves, and in the buffer of a lookup. -/
def EntryFits (part : Partition) (mem : Memory) (h : DirectoryHandle) : Prop :=
  ∀ k < 4, 4 * (fsDirectoryGetReferenceCount part h mem).toNat + k <
      (fsFileGetSize part h mem - 1).toNat ∧
    4 * (fsDirectoryGetReferenceCount part h mem).toNat + k < 64

/-- The first block if it has room, or else the first extent with room, or else the last extent, has
six entries at most. -/
def AtMostSix (part : Partition) (mem : Memory) (dir : DirectoryHandle)
    (extents : List DirectoryHandle) : Prop :=
  if hasRoom part mem 1 dir then fsDirectoryGetReferenceCount part dir mem ≤ 6
  else ∀ h ∈ (extents.find? (hasRoom part mem 2)).or extents.getLast?,
    fsDirectoryGetReferenceCount part h mem ≤ 6

section Capacity

variable {part : Partition} {mem mem' : Memory} {live : Files} {h c dir : DirectoryHandle}
  {extents : List DirectoryHandle} {w : UInt32} {limit : ℕ}

theorem entryFits_of_size (hsize : fsFileGetSize part h mem = 30) :
    EntryFits part mem h ↔ fsDirectoryGetReferenceCount part h mem ≤ 6 := by
  have hsix : (6 : UInt32).toNat = 6 := rfl
  have hmoved : ((30 : UInt32) - 1).toNat = 29 := rfl
  rw [EntryFits, hsize, hmoved, UInt32.le_iff_toNat_le, hsix]
  constructor
  · intro hfits
    have := (hfits 3 (by decide)).1
    omega
  · intro hle k hk
    omega

theorem not_hasRoom_iff {k : UInt32} : hasRoom part mem k h = false ↔
    (fsDirectoryGetReferenceCount part h mem + k) * 4 ≥ part.sectorSize := by
  rw [hasRoom, decide_eq_false_iff_not, UInt32.not_lt]

theorem LinkedBlocks.ne_zero (hp : part.Formatted) (hc : LinkedBlocks part mem live dir extents)
    (hh : h ∈ dir :: extents) : h ≠ 0 := by
  have hle := (hc.owned.run_le hp (hc.live_eq h hh)).1
  have hss := hp.le_sectorSize
  rintro rfl
  exact absurd hle (by show ¬ part.sectorSize.toNat ≤ 0; omega)

/-- There are fewer blocks than handles. -/
theorem LinkedBlocks.length_lt (hp : part.Formatted)
    (hc : LinkedBlocks part mem live dir extents) : extents.length < walkLimit := by
  have hnodup := Linked.nodup_of_forward hc.forward fun h0 => hc.ne_zero hp h0 rfl
  have hsub : (dir :: extents).map UInt32.toNat ⊆ List.range (2 ^ 32) := by
    intro n hn
    obtain ⟨h, -, rfl⟩ := List.mem_map.mp hn
    exact List.mem_range.mpr h.toNat_lt
  have hle := (List.Nodup.subperm (List.Nodup.map (fun _ _ => UInt32.toNat_inj.mp) hnodup) hsub).length_le
  rw [List.length_map, List.length_range, List.length_cons] at hle
  exact hle

/-! ## The walk over the extents -/

/-- **The walk over the extents** stops at the first with room, or makes a new one behind the
last. -/
theorem findExtent_eq (hchain : (extents ++ [0]).IsChain fun a b => fsFileGetNextAddress part a mem = b)
    (hzero : 0 ∉ extents) (hne : extents ≠ []) (hlimit : extents.length ≤ limit) :
    findExtent part limit (extents.headD 0) mem =
      match extents.find? (hasRoom part mem 2) with
      | some h => .ok (h, mem)
      | none => do
        let (new, mem) ← fsDirectoryExtentCreate part (extents.getLastD 0) 0 mem
        return (extents.getLastD 0, fsFileSetNextAddress part (extents.getLastD 0) new mem) := by
  -- induction on the extents: each pass of the walk leaves one behind
  induction extents generalizing limit with
  | nil => exact absurd rfl hne
  | cons h rest ih =>
    obtain ⟨limit, rfl⟩ : ∃ l, limit = l + 1 := by
      rw [List.length_cons] at hlimit
      exact ⟨limit - 1, by omega⟩
    rw [List.mem_cons, not_or] at hzero
    have hnext : fsFileGetNextAddress part h mem = (rest ++ [0]).headD 0 := by
      cases rest with
      | nil => exact (List.isChain_cons_cons.mp hchain).1
      | cons a rest => exact (List.isChain_cons_cons.mp hchain).1
    rw [List.headD_cons, findExtent, if_neg (Ne.symm hzero.1)]
    cases hroom : hasRoom part mem 2 h with
    | true =>
      -- the walk stops here
      have hnot : ¬ (fsDirectoryGetReferenceCount part h mem + 2) * 4 ≥ part.sectorSize := by
        rw [← not_hasRoom_iff, hroom]
        decide
      rw [if_neg hnot, List.find?_cons_of_pos hroom]
    | false =>
      rw [if_pos (not_hasRoom_iff.mp hroom), List.find?_cons_of_neg (by rw [hroom]; decide), hnext]
      cases rest with
      | nil => rfl
      | cons a rest =>
        have ha : (a :: rest ++ [0]).headD 0 ≠ 0 := fun h0 => hzero.2 (h0 ▸ List.mem_cons_self)
        rw [if_neg ha]
        exact ih (List.isChain_cons_cons.mp hchain).2 hzero.2 (List.cons_ne_nil _ _)
          (Nat.le_of_succ_le_succ hlimit)

/-! ## The blocks after a new extent -/

/-- The blocks are files of a later memory too, with the same reference counts. -/
structure CountsKept (part : Partition) (mem : Memory) (live : Files) (mem' : Memory)
    (live' : Files) : Prop where
  owned : Owned part mem' live'
  live_eq : ∀ h, live h = some 30 → live' h = some 30
  count_eq : ∀ h, live h = some 30 →
    fsDirectoryGetReferenceCount part h mem' = fsDirectoryGetReferenceCount part h mem

theorem CountsKept.trans {mem'' : Memory} {live' live'' : Files}
    (h₁ : CountsKept part mem live mem' live') (h₂ : CountsKept part mem' live' mem'' live'') :
    CountsKept part mem live mem'' live'' :=
  ⟨h₂.owned, fun h hl => h₂.live_eq h (h₁.live_eq h hl),
    fun h hl => (h₂.count_eq h (h₁.live_eq h hl)).trans (h₁.count_eq h hl)⟩

/-- The reference count of a file stays when bytes off its run change. -/
theorem count_of_disjoint (hp : part.Formatted) (ho : Owned part mem live) (hl : live h = some 30)
    {S : Set ℕ} (ha : AgreeOff part.blockAddress S mem mem')
    (hS : Disjoint (runBytes part h 30) S) :
    fsDirectoryGetReferenceCount part h mem' = fsDirectoryGetReferenceCount part h mem := by
  have hcount : fileOffsetRefCount.toNat = 19 := rfl
  have hrun := header_le hp (ho.run_le_pow hp hl)
  refine getWord_of_agreeOff ha ((ho.fileAt hp hl).header_le hp) (by decide) ?_
  rintro o ⟨h₁, h₂⟩
  exact Set.disjoint_left.mp hS ⟨by omega, by omega⟩

/-- A next address that is set leaves the reference counts. -/
theorem Owned.setNextAddress (hp : part.Formatted) (ho : Owned part mem live)
    (hl : live h = some 30) (w : UInt32) :
    CountsKept part mem live (fsFileSetNextAddress part h w mem) live := by
  have hh := (ho.fileAt hp hl).header_le hp
  have hcontent : AgreeOff part.blockAddress (contentBytes part h 30) mem
      (fsFileSetNextAddress part h w mem) :=
    (agreeOff_fsFileSetNextAddress hh).mono
      (linkFields_subset_headerFields.trans (headerFields_subset hp 30))
  refine ⟨ho.of_agreeOff hp hl hcontent, fun _ hc => hc, fun c hc => ?_⟩
  by_cases hch : c = h
  · subst hch
    exact getWord_setWord_of_ne hh (by decide) (by decide) (by decide)
  · exact count_of_disjoint hp ho hc hcontent
      ((ho.disjoint c 30 h 30 hc hl hch).mono_right contentBytes_subset)

/-- **A new extent** is empty, unless there is no room for it. -/
theorem Owned.extentCreate (hp : part.Formatted) (ho : Owned part mem live)
    (hr : Room part 30 mem ∨ fsAllocate part 30 mem = .ok (0, mem)) (parentPtr : UInt32) :
    ∃ new mem' live', fsDirectoryExtentCreate part parentPtr 0 mem = .ok (new, mem') ∧
      CountsKept part mem live mem' live' ∧
      (new ≠ 0 → live' new = some 30 ∧ fsDirectoryGetReferenceCount part new mem' = 0) := by
  have hss := hp.le_sectorSize
  rcases hr with hr | hfail
  · obtain ⟨new, -, m, hcreate, -, hnone, -, ho₁, ha₁⟩ :=
      ho.create hp hr (chars ['E', 'X', 'T', 'E', 'N', 'T'])
    have hnew : Function.update live new (some 30) new = some 30 := Function.update_self ..
    have hhead := (ho₁.fileAt hp hnew).header_le hp
    have ha₂ : AgreeOff part.blockAddress (contentBytes part new 30) m
        (extentHeader part new parentPtr 0 m) :=
      (agreeOff_extentHeader hhead part parentPtr 0 m).mono
        (linkFields_subset_headerFields.trans (headerFields_subset hp 30))
    have ho₂ := ho₁.of_agreeOff hp hnew ha₂
    have hold : ∀ c, live c = some 30 → c ≠ new ∧ Function.update live new (some 30) c = some 30 := by
      intro c hc
      have hne : c ≠ new := by
        rintro rfl
        rw [hnone] at hc
        cases hc
      exact ⟨hne, (Function.update_of_ne hne ..).trans hc⟩
    refine ⟨new, _, _, fsDirectoryExtentCreate_eq hcreate parentPtr 0,
      ⟨ho₂, fun c hc => (hold c hc).2, fun c hc => ?_⟩, fun _ => ⟨hnew, ?_⟩⟩
    · exact count_of_disjoint hp ho hc (ha₁.trans (ha₂.mono contentBytes_subset))
        (ho₂.disjoint c 30 new 30 (hold c hc).2 hnew (hold c hc).1)
    · exact congrArg Links.count (links_extentHeader hhead parentPtr 0 m)
  · have h0 : (0 : UInt32).toNat + 32 ≤ 2 ^ 32 := by decide
    have hzero : (0 : UInt32).toNat = 0 := rfl
    -- the fields of an extent that is not there are written to the device header
    have ha : AgreeOff part.blockAddress {o | 0 < o ∧ o < 32} mem
        (extentHeader part 0 parentPtr 0 mem) := by
      refine (agreeOff_extentHeader h0 part parentPtr 0 mem).mono fun o ho => ?_
      obtain ⟨h₁, h₂, -⟩ := linkFields_subset_headerFields ho
      exact ⟨by omega, by omega⟩
    refine ⟨0, _, live, fsDirectoryExtentCreate_eq (fsFileCreate_eq_zero hfail) parentPtr 0,
      ⟨ho.of_agreeOff_device hp ha, fun _ hc => hc, fun c hc => ?_⟩, fun h => absurd rfl h⟩
    refine count_of_disjoint hp ho hc ha (Set.disjoint_left.mpr ?_)
    rintro o ⟨h₁, -⟩ ⟨-, h₂⟩
    have := (ho.run_le hp hc).1
    omega

/-! ## The block of a new entry -/

/-- **The entry fits in the block it goes to**, if that is not the device header, if and only if the
block had six entries at most: any partition with sectors of 32 bytes or more, and any directory on
it, where a new extent, if one is needed, is created in the partition or not at all. -/
theorem entryFits_iff (hp : part.Formatted) (hc : LinkedBlocks part mem live dir extents)
    (hr : hasRoom part mem 1 dir = false → extents.find? (hasRoom part mem 2) = none →
      Room part 30 mem ∨ fsAllocate part 30 mem = .ok (0, mem)) :
    ∃ block mem', targetBlock part dir mem = .ok (block, mem') ∧
      (block ≠ 0 → (EntryFits part mem' block ↔ AtMostSix part mem dir extents)) := by
  have hdir : live dir = some 30 := hc.live_eq dir List.mem_cons_self
  have hsize : ∀ {m : Memory} {l : Files} {h}, Owned part m l → l h = some 30 →
      fsFileGetSize part h m = 30 := fun ho hl => (ho.marked _ _ hl).size_eq
  rw [targetBlock, AtMostSix]
  cases hroom : hasRoom part mem 1 dir with
  | true =>
    have hnot : ¬ (fsDirectoryGetReferenceCount part dir mem + 1) * 4 ≥ part.sectorSize := by
      rw [← not_hasRoom_iff, hroom]
      decide
    -- the first block has room for a seventh entry
    rw [if_neg hnot]
    exact ⟨dir, mem, rfl, fun _ => entryFits_of_size (hsize hc.owned hdir)⟩
  | false =>
    rw [if_pos (not_hasRoom_iff.mp hroom)]
    cases extents with
    | nil =>
      -- it is full and alone: the file goes to a new extent, whose count is 0
      have hnext : fsFileGetNextAddress part dir mem = 0 := (List.isChain_cons_cons.mp hc.forward).1
      obtain ⟨new, mem₁, live', hcreate, hkept, hnew⟩ := hc.owned.extentCreate hp (hr hroom rfl) dir
      have hset := hkept.owned.setNextAddress hp (hkept.live_eq dir hdir) new
      refine ⟨new, fsFileSetNextAddress part dir new mem₁, ?_, fun hne => ?_⟩
      · rw [hnext, if_pos rfl, hcreate]
        rfl
      · obtain ⟨hl, h0⟩ := hnew hne
        rw [entryFits_of_size (hsize hset.owned hl), hset.count_eq new hl, h0]
        exact iff_of_true (by decide) (by simp)
    | cons a rest =>
      have hnext : fsFileGetNextAddress part dir mem = a := (List.isChain_cons_cons.mp hc.forward).1
      have ha : a ≠ 0 := hc.ne_zero hp (List.mem_cons_of_mem _ List.mem_cons_self)
      have hzero : (0 : UInt32) ∉ a :: rest := fun h0 =>
        hc.ne_zero hp (List.mem_cons_of_mem _ h0) rfl
      have hwalk := findExtent_eq (List.isChain_cons_cons.mp hc.forward).2 hzero
        (List.cons_ne_nil a rest) (hc.length_lt hp).le
      rw [hnext, if_neg ha]
      rw [List.headD_cons] at hwalk
      rw [hwalk]
      cases hfind : (a :: rest).find? (hasRoom part mem 2) with
      | some h =>
        -- the walk stops at an extent with room
        have hl := hc.live_eq h (List.mem_cons_of_mem _ (List.mem_of_find?_eq_some hfind))
        refine ⟨h, mem, rfl, fun _ => ?_⟩
        rw [entryFits_of_size (hsize hc.owned hl)]
        simp
      | none =>
        -- all are full: the last takes the file, whatever it holds
        obtain ⟨last, hlast⟩ : ∃ last, (a :: rest).getLast? = some last :=
          ⟨_, List.getLast?_eq_some_getLast (List.cons_ne_nil a rest)⟩
        have hl := hc.live_eq last (List.mem_cons_of_mem _ (List.mem_of_getLast? hlast))
        have hlastD : (a :: rest).getLastD 0 = last := by
          rw [List.getLastD_eq_getLast?, hlast, Option.getD_some]
        obtain ⟨new, mem₁, live', hcreate, hkept, -⟩ := hc.owned.extentCreate hp (hr hroom hfind) last
        have hset := hkept.trans (hkept.owned.setNextAddress hp (hkept.live_eq last hl) new)
        refine ⟨last, fsFileSetNextAddress part last new mem₁, ?_, fun _ => ?_⟩
        · rw [hlastD]
          show (fsDirectoryExtentCreate part last 0 mem >>= _) = _
          rw [hcreate]
          rfl
        · rw [entryFits_of_size (hsize hset.owned (hset.live_eq last hl)), hset.count_eq last hl,
            hlast]
          simp

/-- The memory of the device of three sectors, with six entries in its root directory. -/
def sixEntries : Memory := fsDirectorySetReferenceCount threeSectors 32 6 openRootFs.memory

/-- `entryFits_iff` for a seventh entry. -/
theorem entryFits_sixEntries : ∃ mem', targetBlock threeSectors 32 sixEntries = .ok (32, mem') ∧
    EntryFits threeSectors mem' 32 := by
  have hroot : formatFiles threeSectors openRootFs.memory 32 = some 30 := by decide +kernel
  have hh := (owned_threeSectors.fileAt formatted_threeSectors hroot).header_le formatted_threeSectors
  have howned : Owned threeSectors sixEntries (formatFiles threeSectors openRootFs.memory) :=
    owned_threeSectors.of_agreeOff formatted_threeSectors hroot
      ((agreeOff_fsDirectorySetReferenceCount hh).mono
        (linkFields_subset_headerFields.trans (headerFields_subset formatted_threeSectors 30)))
  have hlinked : LinkedBlocks threeSectors sixEntries
      (formatFiles threeSectors openRootFs.memory) 32 [] :=
    ⟨howned, by simpa using hroot, List.isChain_pair.mpr (by decide +kernel)⟩
  obtain ⟨block, mem', htarget, hfits⟩ := entryFits_iff formatted_threeSectors hlinked fun h =>
    absurd h (by decide +kernel)
  have hblock : (targetBlock threeSectors 32 sixEntries).map Prod.fst = .ok 32 := by decide +kernel
  rw [htarget] at hblock
  obtain rfl : block = 32 := Except.ok.inj hblock
  have hsix : AtMostSix threeSectors sixEntries 32 [] := by
    rw [AtMostSix, if_pos (by decide +kernel)]
    decide +kernel
  exact ⟨mem', htarget, (hfits (by decide)).mpr hsix⟩

/-- The directory with a file added `n` times. -/
def addTimes (part : Partition) (dir : DirectoryHandle) (file : FileHandle) :
    ℕ → FileSystem → Except Fault FileSystem
  | 0, fs => .ok fs
  | n + 1, fs => do
    let (_, fs) ← fsDirectoryAddFile part dir file (fun _ => 0) fs
    addTimes part dir file n fs

/-- Not every entry fits: with sectors of 64 bytes the eighth entry of the root directory goes to
the bytes 28 to 31, of which 29 to 31 are not stored. -/
theorem not_entryFits : ¬ ∀ (n : ℕ) (part : Partition) (mem mem₁ mem₂ : Memory) (file : FileHandle)
    (fs : FileSystem) (block : DirectoryHandle),
    fsDeviceFormat ⟨0, 0, 0, 0⟩ 0 320 64 (fun _ => 0) = .ok (part, mem) →
      fsFileCreate part (chars ['a']) 30 mem = .ok (file, mem₁) →
        addTimes part 64 file n ⟨mem₁, fun _ => 0, fun _ => 0⟩ = .ok fs →
          targetBlock part 64 fs.memory = .ok (block, mem₂) → EntryFits part mem₂ block := by
  intro h
  have hrun : (fsDeviceFormat ⟨0, 0, 0, 0⟩ 0 320 64 (fun _ => 0) >>= fun p =>
      fsFileCreate p.1 (chars ['a']) 30 p.2 >>= fun f =>
      addTimes p.1 64 f.1 7 ⟨f.2, fun _ => 0, fun _ => 0⟩ >>= fun fs =>
      targetBlock p.1 64 fs.memory >>= fun b =>
      .ok (fsDirectoryGetReferenceCount p.1 b.1 b.2, fsFileGetSize p.1 b.1 b.2)) =
        .ok (7, 30) := by
    decide +kernel
  obtain ⟨⟨part, mem⟩, hformat, hrun⟩ := bind_eq_ok hrun
  obtain ⟨⟨file, mem₁⟩, hcreate, hrun⟩ := bind_eq_ok hrun
  obtain ⟨fs, hadd, hrun⟩ := bind_eq_ok hrun
  obtain ⟨⟨block, mem₂⟩, htarget, hrun⟩ := bind_eq_ok hrun
  obtain ⟨hcount, hsize⟩ := Prod.mk.inj (Except.ok.inj hrun)
  have hfits := h 7 part mem mem₁ mem₂ file fs block hformat hcreate hadd htarget
  rw [entryFits_of_size hsize, hcount] at hfits
  exact absurd hfits (by decide)

end Capacity

end MicroKernel.Fs
