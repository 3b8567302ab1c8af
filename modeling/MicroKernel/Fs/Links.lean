import MicroKernel.Fs.Directory

/-!
# Link fields of a header

The attributes, the reference count, the parent and the next address of a header: the fields that
chain the blocks of a directory. They are written one by one and seen together.

## Main definitions

* `Links`, `links`: the link fields
* `extentHeader`: the link fields of a new extent

## Main results

* `eq_iff_links`: a change of link fields shows in them
* `links_extentHeader`, `agreeOff_extentHeader`: what a new extent holds, and leaves
-/

namespace MicroKernel.Fs

open Store

/-- The link fields of a header. -/
structure Links where
  attributes : List UInt8
  count : UInt32
  parent : UInt32
  next : UInt32
deriving DecidableEq

def links (part : Partition) (handle : FileHandle) (mem : Memory) : Links where
  attributes := fsFileGetAttributes part handle mem
  count := fsDirectoryGetReferenceCount part handle mem
  parent := fsFileGetParentAddress part handle mem
  next := fsFileGetNextAddress part handle mem

/-- The bytes of the link fields. -/
def linkFields (handle : FileHandle) : Set ℕ :=
  {o | o ∈ field handle fileOffsetAttributes 4 ∨ o ∈ field handle fileOffsetRefCount 4 ∨
    o ∈ field handle fileOffsetParent 4 ∨ o ∈ field handle fileOffsetNext 4}

/-- The fields a new extent sets behind its creation. -/
def extentHeader (part : Partition) (handle : FileHandle) (parentPtr nextPtr : UInt32)
    (mem : Memory) : Memory :=
  let mem := fsDirectorySetReferenceCount part handle 0 mem
  let mem := fsFileSetAttributes part handle (chars [' ', 'r', 'w', 'E']) mem
  let mem := fsFileSetNextAddress part handle nextPtr mem
  fsFileSetParentAddress part handle parentPtr mem

theorem fsDirectoryExtentCreate_eq {part : Partition} {mem mem' : Memory} {handle : FileHandle}
    (h : fsFileCreate part (chars ['E', 'X', 'T', 'E', 'N', 'T']) 30 mem = .ok (handle, mem'))
    (parentPtr nextPtr : UInt32) : fsDirectoryExtentCreate part parentPtr nextPtr mem =
      .ok (handle, extentHeader part handle parentPtr nextPtr mem') := by
  rw [fsDirectoryExtentCreate, h]
  rfl

/-- The fields a new directory sets behind its creation. -/
def directoryHeader (part : Partition) (handle : FileHandle) (mem : Memory) : Memory :=
  let mem := fsDirectorySetReferenceCount part handle 0 mem
  fsFileSetAttributes part handle (chars [' ', 'r', 'w', 'd']) mem

theorem fsDirectoryCreate_eq {part : Partition} {mem mem' : Memory} {handle : FileHandle}
    {filename : List UInt8} (h : fsFileCreate part filename 30 mem = .ok (handle, mem')) :
    fsDirectoryCreate part filename mem = .ok (handle, directoryHeader part handle mem') := by
  rw [fsDirectoryCreate, h]
  rfl

section Links

variable {part : Partition} {handle h' offset w : UInt32} {mem mem' : Memory} {S : Set ℕ}
  {attributes : List UInt8}

theorem linkFields_subset_headerFields : linkFields handle ⊆ headerFields handle := by
  rintro o (h | h | h | h)
  all_goals exact field_subset_headerFields (by decide) (by decide) h

theorem getWord_eq_iff (hh : handle.toNat + 32 ≤ 2 ^ 32) (ho : offset.toNat ≤ 28) :
    getWord part handle offset mem' = getWord part handle offset mem ↔
      ∀ o ∈ field handle offset 4, view part.blockAddress mem' o = view part.blockAddress mem o := by
  have hadd := toNat_handle_add offset hh (by omega)
  rw [getWord, getWord, readWord_eq_iff, hadd]
  exact ⟨fun h o ho => h o ho.1 ho.2, fun h o h₁ h₂ => h o ⟨h₁, h₂⟩⟩

/-- The attributes, seen from the partition. -/
theorem fsFileGetAttributes_eq_view (hh : handle.toNat + 32 ≤ 2 ^ 32) (mem : Memory) :
    fsFileGetAttributes part handle mem =
      (List.range 4).map fun i => view part.blockAddress mem (handle.toNat + 15 + i) := by
  have hadd := toNat_handle_add fileOffsetAttributes hh (by decide)
  refine List.map_congr_left fun i hi => ?_
  have hoff : (handle + fileOffsetAttributes + UInt32.ofNat i).toNat = handle.toNat + 15 + i := by
    rw [List.mem_range] at hi
    rw [UInt32.toNat_add, hadd, UInt32.toNat_ofNat']
    show (handle.toNat + 15 + i % 2 ^ 32) % 2 ^ 32 = _
    omega
  rw [← hoff, view_toNat, UInt32.add_assoc]

theorem fsFileGetAttributes_eq_iff (hh : handle.toNat + 32 ≤ 2 ^ 32) :
    fsFileGetAttributes part handle mem' = fsFileGetAttributes part handle mem ↔
      ∀ o ∈ field handle fileOffsetAttributes 4,
        view part.blockAddress mem' o = view part.blockAddress mem o := by
  have hoff : fileOffsetAttributes.toNat = 15 := rfl
  rw [fsFileGetAttributes_eq_view hh, fsFileGetAttributes_eq_view hh, List.map_inj_left]
  constructor
  · rintro h o ⟨h₁, h₂⟩
    have := h (o - (handle.toNat + 15)) (List.mem_range.mpr (by omega))
    rwa [Nat.add_sub_cancel' (by omega)] at this
  · intro h i hi
    rw [List.mem_range] at hi
    exact h _ ⟨by omega, by omega⟩

theorem fsFileGetAttributes_set (hh : handle.toNat + 32 ≤ 2 ^ 32) (ha : attributes.length = 4) :
    fsFileGetAttributes part handle (fsFileSetAttributes part handle attributes mem) =
      attributes := by
  have hadd := toNat_handle_add fileOffsetAttributes hh (by decide)
  have hoff : fileOffsetAttributes.toNat = 15 := rfl
  rw [fsFileGetAttributes_eq_view hh]
  refine List.ext_getElem (by simp [ha]) fun i hi hi' => ?_
  rw [List.getElem_map, List.getElem_range, fsFileSetAttributes,
    view_writeEach_range _ (by omega) (by omega), if_pos (by omega), hadd, hoff,
    Nat.add_sub_cancel_left]
  simp [hi']

theorem links_eq_iff (hh : handle.toNat + 32 ≤ 2 ^ 32) :
    links part handle mem' = links part handle mem ↔
      ∀ o ∈ linkFields handle, view part.blockAddress mem' o = view part.blockAddress mem o := by
  rw [links, links, Links.mk.injEq, fsFileGetAttributes_eq_iff hh, fsDirectoryGetReferenceCount,
    fsFileGetParentAddress, fsFileGetNextAddress, getWord_eq_iff hh (by decide),
    getWord_eq_iff hh (by decide), getWord_eq_iff hh (by decide)]
  simp only [linkFields, Set.mem_ofPred_eq, or_imp, forall_and]

/-- **A change of link fields** shows in them. -/
theorem eq_iff_links (hh : handle.toNat + 32 ≤ 2 ^ 32)
    (ha : AgreeOff part.blockAddress (linkFields handle) mem mem') :
    mem' = mem ↔ links part handle mem' = links part handle mem := by
  rw [links_eq_iff hh]
  refine ⟨fun h _ _ => by rw [h], fun h => view_ext part.blockAddress fun o ho => ?_⟩
  by_cases hmem : o ∈ linkFields handle
  · exact h o hmem
  · exact ha o ho hmem

/-- The link fields stay when other bytes change. -/
theorem links_of_agreeOff (hh : handle.toNat + 32 ≤ 2 ^ 32)
    (ha : AgreeOff part.blockAddress S mem mem') (hS : Disjoint (linkFields handle) S) :
    links part handle mem' = links part handle mem := by
  refine (links_eq_iff hh).mpr fun o ho => ha o ?_ (Set.disjoint_left.mp hS ho)
  have := linkFields_subset_headerFields ho
  exact this.2.1.trans_le hh

/-- A word stays when another field of its header changes. -/
theorem getWord_setWord_of_ne {offset' : UInt32} (hh : handle.toNat + 32 ≤ 2 ^ 32)
    (ho : offset.toNat ≤ 28) (ho' : offset'.toNat ≤ 28)
    (hne : offset.toNat + 4 ≤ offset'.toNat ∨ offset'.toNat + 4 ≤ offset.toNat) :
    getWord part handle offset (setWord part handle offset' w mem) =
      getWord part handle offset mem := by
  refine getWord_of_agreeOff (agreeOff_setWord hh ho') hh ho ?_
  rintro o ⟨h₁, h₂⟩ ⟨h₃, h₄⟩
  omega

theorem fsFileGetAttributes_setWord (hh : handle.toNat + 32 ≤ 2 ^ 32)
    (ho : 19 ≤ offset.toNat) (ho' : offset.toNat ≤ 28) :
    fsFileGetAttributes part handle (setWord part handle offset w mem) =
      fsFileGetAttributes part handle mem := by
  have hoff : fileOffsetAttributes.toNat = 15 := rfl
  refine (fsFileGetAttributes_eq_iff hh).mpr fun o ⟨h₁, h₂⟩ => agreeOff_setWord hh ho' o (by omega) ?_
  rintro ⟨h₃, -⟩
  omega

theorem getWord_fsFileSetAttributes (hh : handle.toNat + 32 ≤ 2 ^ 32)
    (ho : offset.toNat ≤ 28) (hne : 19 ≤ offset.toNat ∨ offset.toNat ≤ 11) :
    getWord part handle offset (fsFileSetAttributes part handle attributes mem) =
      getWord part handle offset mem := by
  have hoff : fileOffsetAttributes.toNat = 15 := rfl
  refine getWord_of_agreeOff (agreeOff_fsFileSetAttributes hh) hh ho ?_
  rintro o ⟨h₁, h₂⟩ ⟨h₃, h₄⟩
  omega

section Setters

variable (hh : handle.toNat + 32 ≤ 2 ^ 32)

include hh

theorem links_fsFileSetAttributes (ha : attributes.length = 4) :
    links part handle (fsFileSetAttributes part handle attributes mem) =
      { links part handle mem with attributes } := by
  simp only [links, fsDirectoryGetReferenceCount, fsFileGetParentAddress, fsFileGetNextAddress,
    fsFileGetAttributes_set hh ha]
  rw [getWord_fsFileSetAttributes hh (by decide) (by decide),
    getWord_fsFileSetAttributes hh (by decide) (by decide),
    getWord_fsFileSetAttributes hh (by decide) (by decide)]

theorem links_fsDirectorySetReferenceCount :
    links part handle (fsDirectorySetReferenceCount part handle w mem) =
      { links part handle mem with count := w } := by
  simp only [links, fsDirectoryGetReferenceCount, fsFileGetParentAddress, fsFileGetNextAddress,
    fsDirectorySetReferenceCount]
  rw [fsFileGetAttributes_setWord hh (by decide) (by decide), getWord_setWord hh (by decide),
    getWord_setWord_of_ne hh (by decide) (by decide) (by decide),
    getWord_setWord_of_ne hh (by decide) (by decide) (by decide)]

theorem links_fsFileSetParentAddress :
    links part handle (fsFileSetParentAddress part handle w mem) =
      { links part handle mem with parent := w } := by
  simp only [links, fsDirectoryGetReferenceCount, fsFileGetParentAddress, fsFileGetNextAddress,
    fsFileSetParentAddress]
  rw [fsFileGetAttributes_setWord hh (by decide) (by decide), getWord_setWord hh (by decide),
    getWord_setWord_of_ne hh (by decide) (by decide) (by decide),
    getWord_setWord_of_ne hh (by decide) (by decide) (by decide)]

theorem links_fsFileSetNextAddress :
    links part handle (fsFileSetNextAddress part handle w mem) =
      { links part handle mem with next := w } := by
  simp only [links, fsDirectoryGetReferenceCount, fsFileGetParentAddress, fsFileGetNextAddress,
    fsFileSetNextAddress]
  rw [fsFileGetAttributes_setWord hh (by decide) (by decide), getWord_setWord hh (by decide),
    getWord_setWord_of_ne hh (by decide) (by decide) (by decide),
    getWord_setWord_of_ne hh (by decide) (by decide) (by decide)]

theorem agreeOff_fsDirectorySetReferenceCount :
    AgreeOff part.blockAddress (linkFields handle) mem
      (fsDirectorySetReferenceCount part handle w mem) :=
  AgreeOff.mono (agreeOff_setWord hh (by decide)) fun _ ho => Or.inr (Or.inl ho)

theorem agreeOff_fsFileSetParentAddress :
    AgreeOff part.blockAddress (linkFields handle) mem
      (fsFileSetParentAddress part handle w mem) :=
  AgreeOff.mono (agreeOff_setWord hh (by decide)) fun _ ho => Or.inr (Or.inr (Or.inl ho))

theorem agreeOff_fsFileSetNextAddress :
    AgreeOff part.blockAddress (linkFields handle) mem
      (fsFileSetNextAddress part handle w mem) :=
  AgreeOff.mono (agreeOff_setWord hh (by decide)) fun _ ho => Or.inr (Or.inr (Or.inr ho))

theorem agreeOff_fsFileSetAttributes_links :
    AgreeOff part.blockAddress (linkFields handle) mem
      (fsFileSetAttributes part handle attributes mem) :=
  (agreeOff_fsFileSetAttributes hh).mono fun _ ho => Or.inl ho

/-- A new extent writes its link fields only. -/
theorem agreeOff_extentHeader (part : Partition) (parentPtr nextPtr : UInt32) (mem : Memory) :
    AgreeOff part.blockAddress (linkFields handle) mem
      (extentHeader part handle parentPtr nextPtr mem) :=
  (agreeOff_fsDirectorySetReferenceCount hh).trans ((agreeOff_fsFileSetAttributes_links hh).trans
    ((agreeOff_fsFileSetNextAddress hh).trans (agreeOff_fsFileSetParentAddress hh)))

/-- A new directory writes its link fields only. -/
theorem agreeOff_directoryHeader (part : Partition) (mem : Memory) :
    AgreeOff part.blockAddress (linkFields handle) mem (directoryHeader part handle mem) :=
  (agreeOff_fsDirectorySetReferenceCount hh).trans (agreeOff_fsFileSetAttributes_links hh)

/-- A next address that is there already. -/
theorem fsFileSetNextAddress_self (h : fsFileGetNextAddress part handle mem = w) :
    fsFileSetNextAddress part handle w mem = mem := by
  rw [eq_iff_links hh (agreeOff_fsFileSetNextAddress hh), links_fsFileSetNextAddress hh, ← h]
  rfl

/-- **The link fields of a new extent.** -/
theorem links_extentHeader (parentPtr nextPtr : UInt32) (mem : Memory) :
    links part handle (extentHeader part handle parentPtr nextPtr mem) =
      { attributes := chars [' ', 'r', 'w', 'E'], count := 0, parent := parentPtr
        next := nextPtr } := by
  rw [extentHeader, links_fsFileSetParentAddress hh, links_fsFileSetNextAddress hh,
    links_fsFileSetAttributes hh rfl, links_fsDirectorySetReferenceCount hh]

variable (part) in
/-- **The link fields of a new directory.** -/
theorem links_directoryHeader (mem : Memory) :
    links part handle (directoryHeader part handle mem) =
      { links part handle mem with attributes := chars [' ', 'r', 'w', 'd'], count := 0 } := by
  rw [directoryHeader, links_fsFileSetAttributes hh rfl, links_fsDirectorySetReferenceCount hh]

end Setters

end Links

end MicroKernel.Fs
