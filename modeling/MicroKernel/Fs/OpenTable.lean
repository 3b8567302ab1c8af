import MicroKernel.Fs.ReadWrite

/-!
# The open table

`fsFileOpen` and `fsFileClose` as the allocator of the slots of the open table. The search for a
closed slot goes on behind a table with all slots open, and the range check of `fsFileClose` admits
an index behind the table.

## Main definitions

* `TableOp`, `OpenFiles`, `tableStep`: opening and closing, with a record of the open files
* `TableAllowed`: a slot is closed when a file is opened, and no index behind the table is closed
* `ProperStep`: an operation keeps to the table, and to one slot of it
* `SlotTable`: every open file has a slot of its own

## Main results

* `slotTable_of_allowed`: in runs of allowed operations every step is proper, and no two open files
  share an index
-/

namespace MicroKernel.Fs

open Store

inductive TableOp where
  | openFile (handle : FileHandle)
  | close (index : File)

/-- The file system, and the files that are open with the indices returned for them. -/
structure OpenFiles where
  fs : FileSystem
  opened : List (File × FileHandle)

def tableStep (part : Partition) : TableOp → OpenFiles → Except Fault OpenFiles
  | .openFile handle, s => do
    let (index, fs) ← fsFileOpen part handle s.fs
    return ⟨fs, if index = -1 then s.opened else (index, handle) :: s.opened⟩
  | .close index, s => do
    let (_, fs) ← fsFileClose index s.fs
    return ⟨fs, s.opened.filter fun p => p.1 ≠ index⟩

/-- Files are live. -/
def TableOp.Live (live : Files) : TableOp → Prop
  | .openFile handle => live handle ≠ none
  | .close _ => True

/-- A file is opened with a slot closed, at an address that is not that of a closed slot; the index
behind the table is not closed. -/
def TableAllowed (part : Partition) (live : Files) : TableOp → OpenFiles → Prop
  | .openFile handle, s =>
    live handle ≠ none ∧ part.blockAddress + handle ≠ 0 ∧ ∃ i, s.fs.fileList i = 0
  | .close index, _ => index ≠ 16

instance (part : Partition) (live : Files) (op : TableOp) (s : OpenFiles) :
    Decidable (TableAllowed part live op s) :=
  match op with
  | .openFile _ => inferInstanceAs (Decidable (_ ∧ _ ∧ _))
  | .close _ => inferInstanceAs (Decidable (_ ≠ _))

/-- An opened file takes a closed slot, and a close changes the slot of its index only; with all
slots open nothing is opened. -/
def ProperStep (part : Partition) (fs : FileSystem) : TableOp → Prop
  | .openFile handle =>
    (∃ i : Fin maxOpenFiles, fs.fileList i = 0 ∧ fsFileOpen part handle fs = .ok ((i : ℤ),
        fs.setSlot i (part.blockAddress + handle) (fsFileGetSize part handle fs.memory))) ∨
      (∀ i, fs.fileList i ≠ 0) ∧ fsFileOpen part handle fs = .ok (-1, fs)
  | .close index => ∃ b fs', fsFileClose index fs = .ok (b, fs') ∧
      ∀ i : Fin maxOpenFiles, (i : ℤ) ≠ index →
        fs'.fileList i = fs.fileList i ∧ fs'.fileSize i = fs.fileSize i

/-- Every open file has a slot of its own, which holds its address. -/
structure SlotTable (part : Partition) (s : OpenFiles) : Prop where
  nodup : (s.opened.map Prod.fst).Nodup
  address : ∀ p ∈ s.opened, ∃ i : Fin maxOpenFiles, p.1 = i ∧ s.fs.fileList i ≠ 0 ∧
    s.fs.fileList i = part.blockAddress + p.2

section OpenTable

variable {part : Partition} {fs₀ : FileSystem} {live : Files} {s : OpenFiles} {handle : FileHandle}

/-- The memory the table is about, and the table. -/
structure TableInv (part : Partition) (fs₀ : FileSystem) (s : OpenFiles) : Prop
    extends SlotTable part s where
  memory_eq : s.fs.memory = fs₀.memory

/-- Opening a live file takes a closed slot. -/
theorem fsFileOpen_live (ho : Owned part fs₀.memory live) (hi : TableInv part fs₀ s)
    (hl : live handle ≠ none) (hslot : ∃ i, s.fs.fileList i = 0) :
    ∃ i : Fin maxOpenFiles, s.fs.fileList i = 0 ∧ fsFileOpen part handle s.fs = .ok ((i : ℤ),
      s.fs.setSlot i (part.blockAddress + handle) (fsFileGetSize part handle s.fs.memory)) := by
  obtain ⟨size, hl⟩ := Option.ne_none_iff_exists'.mp hl
  have hheader := (ho.marked handle size hl).header
  rw [view_toNat, ← hi.memory_eq] at hheader
  obtain ⟨i, -, h0, heq⟩ := fsFileOpen_eq_ok hslot (by rw [hheader]; decide)
  exact ⟨i, h0, heq⟩

/-- An opened file is recorded with a slot of its own. -/
theorem TableInv.openFile (hi : TableInv part fs₀ s) {i : Fin maxOpenFiles}
    (h0 : s.fs.fileList i = 0) (hne : part.blockAddress + handle ≠ 0) (size : UInt32) :
    TableInv part fs₀ ⟨s.fs.setSlot i (part.blockAddress + handle) size,
      ((i : ℤ), handle) :: s.opened⟩ := by
  -- the slots of the files open before are not the closed one
  have hother : ∀ p ∈ s.opened, ∀ j : Fin maxOpenFiles, p.1 = j → j ≠ i := by
    rintro p hp j hj rfl
    obtain ⟨k, hk, hopen, -⟩ := hi.address p hp
    obtain rfl : k = j := Fin.ext (Int.natCast_inj.mp (hk.symm.trans hj))
    exact hopen h0
  refine ⟨⟨?_, ?_⟩, hi.memory_eq⟩
  · rw [List.map_cons, List.nodup_cons]
    refine ⟨fun hmem => ?_, hi.nodup⟩
    obtain ⟨p, hp, hp₁⟩ := List.mem_map.mp hmem
    exact hother p hp i hp₁ rfl
  · rintro p (_ | ⟨_, hp⟩)
    · refine ⟨i, rfl, ?_, Function.update_self ..⟩
      rw [FileSystem.setSlot_fileList, Function.update_self]
      exact hne
    · obtain ⟨j, hj, hopen, haddr⟩ := hi.address p hp
      have hji := hother p hp j hj
      rw [← Function.update_of_ne hji (part.blockAddress + handle) s.fs.fileList] at hopen haddr
      exact ⟨j, hj, hopen, haddr⟩

/-- Closing an index takes its file out of the record. -/
theorem TableInv.close (hi : TableInv part fs₀ s) (i : Fin maxOpenFiles) :
    TableInv part fs₀ ⟨s.fs.setSlot i 0 0, s.opened.filter fun p => p.1 ≠ i⟩ := by
  refine ⟨⟨hi.nodup.sublist (List.filter_sublist.map _), fun p hp => ?_⟩, hi.memory_eq⟩
  obtain ⟨hp, hne⟩ := List.mem_filter.mp hp
  obtain ⟨j, hj, hopen, haddr⟩ := hi.address p hp
  have hji : j ≠ i := by
    rintro rfl
    exact absurd hj (of_decide_eq_true hne)
  rw [← Function.update_of_ne hji 0 s.fs.fileList] at hopen haddr
  exact ⟨j, hj, hopen, haddr⟩

/-- An index that no open file has is not in the record. -/
theorem TableInv.filter_eq (hi : TableInv part fs₀ s) {index : File}
    (h : ∀ i : Fin maxOpenFiles, index = i → s.fs.fileList i = 0) :
    (s.opened.filter fun p => p.1 ≠ index) = s.opened := by
  rw [List.filter_eq_self]
  intro p hp
  obtain ⟨j, hj, hopen, -⟩ := hi.address p hp
  exact decide_eq_true fun heq => hopen (h j (heq.symm.trans hj))

/-- **An allowed operation** is proper and keeps the invariant. -/
theorem TableInv.step (ho : Owned part fs₀.memory live) (op : TableOp) (s : OpenFiles)
    (hi : TableInv part fs₀ s) (ha : TableAllowed part live op s) :
    ProperStep part s.fs op ∧ ∃ t, tableStep part op s = .ok t ∧ TableInv part fs₀ t := by
  cases op with
  | openFile handle =>
    obtain ⟨hl, hne, hslot⟩ := ha
    obtain ⟨i, h0, heq⟩ := fsFileOpen_live ho hi hl hslot
    refine ⟨Or.inl ⟨i, h0, heq⟩, _, ?_, hi.openFile h0 hne (fsFileGetSize part handle s.fs.memory)⟩
    have hindex : (i : ℤ) ≠ -1 := by omega
    simp only [tableStep, heq, ok_bind]
    rw [if_neg hindex]
    rfl
  | close index =>
    rcases slotOf_eq_ok ha with hnone | ⟨i, -, rfl⟩
    · have heq : fsFileClose index s.fs = .ok (0, s.fs) := by
        rw [fsFileClose, hnone]
        rfl
      refine ⟨⟨0, s.fs, heq, fun i _ => ⟨rfl, rfl⟩⟩, s, ?_, hi⟩
      rw [tableStep, heq, ok_bind, hi.filter_eq]
      · rfl
      · rintro i rfl
        rw [slotOf_natCast] at hnone
        cases hnone
    · obtain ⟨b, heq⟩ := fsFileClose_natCast i s.fs
      refine ⟨⟨b, _, heq, fun j hj => ?_⟩, _, by rw [tableStep, heq, ok_bind]; rfl, ?_⟩
      · have hji : j ≠ i := fun h => hj (by rw [h])
        split
        · exact ⟨rfl, rfl⟩
        · exact ⟨Function.update_of_ne hji .., Function.update_of_ne hji ..⟩
      · -- closing a closed slot closes nothing
        by_cases h0 : s.fs.fileList i = 0
        · rw [if_pos h0, hi.filter_eq]
          · exact hi
          · intro j hj
            rwa [← Fin.ext (Int.natCast_inj.mp hj)]
        · rw [if_neg h0]
          exact hi.close i

/-- **Runs of allowed operations** on live files, from any table: no operation fails, no two files
opened share an index, and every allowed operation is proper in the state reached. -/
theorem slotTable_of_allowed (ho : Owned part fs₀.memory live) {ops : List TableOp}
    (hl : Run.Legal (tableStep part) (TableAllowed part live) ops ⟨fs₀, []⟩) :
    ∃ s, Run.exec (tableStep part) ops ⟨fs₀, []⟩ = .ok s ∧ SlotTable part s ∧
      ∀ op, TableAllowed part live op s → ProperStep part s.fs op := by
  have hi₀ : TableInv part fs₀ ⟨fs₀, []⟩ :=
    ⟨⟨List.nodup_nil, fun p hp => absurd hp List.not_mem_nil⟩, rfl⟩
  obtain ⟨s, hs, hi⟩ := Run.exec_legal (fun op s hi ha => (hi.step ho op s ha).2) hi₀ hl
  exact ⟨s, hs, hi.toSlotTable, fun op ha => (hi.step ho op s ha).1⟩

end OpenTable

/-! ## The root directory of a device of three sectors -/

/-- `slotTable_of_allowed` for a file opened twice and closed once. -/
theorem slotTable_of_allowed_threeSectors :
    ∃ s, Run.exec (tableStep threeSectors) [.openFile 32, .openFile 32, .close 0]
        ⟨threeSectorsFs, []⟩ = .ok s ∧ SlotTable threeSectors s := by
  have hl : Run.Legal (tableStep threeSectors)
      (TableAllowed threeSectors (formatFiles threeSectors threeSectorsFs.memory))
      [.openFile 32, .openFile 32, .close 0] ⟨threeSectorsFs, []⟩ := by
    decide +kernel
  have ho : Owned threeSectors threeSectorsFs.memory
      (formatFiles threeSectors threeSectorsFs.memory) := owned_threeSectors
  obtain ⟨s, hs, ht, -⟩ := slotTable_of_allowed ho hl
  exact ⟨s, hs, ht⟩

/-- Not every run keeps to the table: the seventeenth file that is opened looks behind it. -/
theorem not_slotTable : ¬ ∀ ops : List TableOp,
    (∀ op ∈ ops, op.Live (formatFiles threeSectors threeSectorsFs.memory)) →
      ∃ s, Run.exec (tableStep threeSectors) ops ⟨threeSectorsFs, []⟩ = .ok s ∧
        SlotTable threeSectors s ∧
          ∀ op, op.Live (formatFiles threeSectors threeSectorsFs.memory) →
            ProperStep threeSectors s.fs op := by
  intro h
  have hlive : formatFiles threeSectors threeSectorsFs.memory 32 ≠ none := by decide +kernel
  obtain ⟨s, hs, -⟩ := h (List.replicate 17 (.openFile 32)) fun op hop =>
    List.eq_of_mem_replicate hop ▸ hlive
  have hfault : (Run.exec (tableStep threeSectors) (List.replicate 17 (.openFile 32))
      ⟨threeSectorsFs, []⟩).map (fun _ => ()) = .error .outOfBounds := by decide +kernel
  rw [hs] at hfault
  cases hfault

end MicroKernel.Fs
