import MicroKernel.Fs.Containment

/-!
# Isolation of files

The open table holds the address and the size a file had when it was opened, and a deletion does
not consult it. A slot whose file was deleted stays open, and a write through it goes to the
sectors the file had, whoever owns them now. As long as no write goes through such a slot, a write
changes bytes of the file its slot was opened on only.

## Main definitions

* `Shared`, `sharedStep`: a file system with the history of its files and its slots
* `Shared.Fresh`: the file a slot was opened on is still there
* `IsolatedWrite`, `IsolatedRuns`: a write changes data of the file it was opened on only

## Main results

* `isolatedRuns_of_fresh`: runs whose writes go through fresh slots are isolated
-/

namespace MicroKernel.Fs

open Store

/-- A session with the number of each file in the order of creation, the number of the file each
slot was opened on, and how many files were created. -/
structure Shared extends Session where
  number : FileHandle → ℕ
  openedOn : Fin maxOpenFiles → ℕ
  created : ℕ

/-- A device just formatted: its root directory is file 0, and every slot is closed. -/
def Shared.start (part : Partition) (mem : Memory) : Shared where
  toSession := .start mem (formatFiles part mem)
  number := fun _ => 0
  openedOn := fun _ => 0
  created := 1

/-- The effect of an operation. -/
def sharedStep (part : Partition) : FileOp → Shared → Except Fault Shared
  | .create filename size, s => do
    let (handle, memory) ← fsFileCreate part filename size s.fs.memory
    if handle = 0 then return { s with fs := { s.fs with memory } }
    else return { s with
      fs := { s.fs with memory }
      live := Function.update s.live handle (some size)
      number := Function.update s.number handle s.created
      created := s.created + 1 }
  | .openFile handle, s => do
    let (index, fs) ← fsFileOpen part handle s.fs
    return { s with
      fs
      openedOn := fun i => if index = (i : ℤ) then s.number handle else s.openedOn i }
  | op, s => do
    let session ← fileStep part op s.toSession
    return { s with toSession := session }

/-- The file a slot was opened on is not deleted. -/
def Shared.Fresh (s : Shared) (i : Fin maxOpenFiles) : Prop :=
  ∃ h, s.live h ≠ none ∧ s.number h = s.openedOn i

/-- The operations of any users: files are deleted, open or not, a handle that is opened is that of
a file or free, at most 16 files are open, an index is in the open table or refused, the buffer of a
write holds the bytes, and an allocation stays in the partition. -/
def SharedAllowed (part : Partition) : FileOp → Shared → Prop
  | .create _ size, s => Stays part size s.fs.memory
  | .delete handle, s => s.live handle ≠ none
  | .openFile handle, s =>
    (s.live handle ≠ none ∨ s.fs.memory (part.blockAddress + handle) = sectorFree) ∧
      ∃ i, s.fs.fileList i = 0
  | .write index buffer size, _ => index ≠ 16 ∧ size.toNat ≤ buffer.length
  | .close index, _ => index ≠ 16
  | .set handle _, s => s.live handle ≠ none

instance (part : Partition) : ∀ op s, Decidable (SharedAllowed part op s)
  | .create _ size, s => inferInstanceAs (Decidable (Stays part size s.fs.memory))
  | .delete _, _ | .set _ _, _ => inferInstanceAs (Decidable (_ ≠ _))
  | .openFile _, _ => inferInstanceAs (Decidable ((_ ∨ _) ∧ ∃ _, _))
  | .write _ _ _, _ => inferInstanceAs (Decidable (_ ∧ _))
  | .close index, _ => inferInstanceAs (Decidable (index ≠ 16))

/-- The operations of any users, but that a write does not go through an open slot whose file was
deleted. -/
def SharedFresh (part : Partition) : FileOp → Shared → Prop
  | .write index buffer size, s => SharedAllowed part (.write index buffer size) s ∧
    ∀ i : Fin maxOpenFiles, index = (i : ℤ) → s.fs.fileList i ≠ 0 → s.Fresh i
  | op, s => SharedAllowed part op s

/-- A write changes nothing, or data bytes of the file its slot was opened on, and no byte of
another file. -/
def IsolatedWrite (part : Partition) (index : File) (s t : Shared) : Prop :=
  t.fs.memory = s.fs.memory ∨
    ∃ (i : Fin maxOpenFiles) (h : FileHandle) (size : UInt32), index = (i : ℤ) ∧
      s.fs.fileList i ≠ 0 ∧ s.live h = some size ∧ s.number h = s.openedOn i ∧
      AgreeOff part.blockAddress (dataBytes part h size) s.fs.memory t.fs.memory ∧
      ∀ h' size', s.live h' = some size' → h' ≠ h → ∀ o ∈ runBytes part h' size',
        view part.blockAddress t.fs.memory o = view part.blockAddress s.fs.memory o

/-- In every run of allowed operations, no operation fails and every write is isolated. -/
def IsolatedRuns (part : Partition) (allowed : FileOp → Shared → Prop) (s₀ : Shared) : Prop :=
  ∀ ops, Run.Legal (sharedStep part) allowed ops s₀ →
    ∃ s, Run.exec (sharedStep part) ops s₀ = .ok s ∧
      ∀ index buffer size, allowed (.write index buffer size) s →
        ∃ t, sharedStep part (.write index buffer size) s = .ok t ∧ IsolatedWrite part index s t

/-- The files have their own numbers, and an open slot whose file is still there holds its address
and its size. -/
structure SharedInv (part : Partition) (s : Shared) : Prop where
  owned : Owned part s.fs.memory s.live
  number_lt : ∀ h, s.live h ≠ none → s.number h < s.created
  number_inj : ∀ h h', s.live h ≠ none → s.live h' ≠ none → s.number h = s.number h' → h = h'
  openedOn_lt : ∀ i, s.fs.fileList i ≠ 0 → s.openedOn i < s.created
  opened : ∀ i h size, s.fs.fileList i ≠ 0 → s.live h = some size → s.number h = s.openedOn i →
    s.fs.fileList i = part.blockAddress + h ∧ s.fs.fileSize i = size

section Isolation

variable {part : Partition} {s t : Shared} {h : FileHandle} {size : UInt32} {mem : Memory}

/-- Writes to the content of a file keep the invariant. -/
theorem SharedInv.of_agreeOff (hp : part.Formatted) (hs : SharedInv part s)
    (hl : s.live h = some size)
    (ha : AgreeOff part.blockAddress (contentBytes part h size) s.fs.memory mem) :
    SharedInv part { s with fs := { s.fs with memory := mem } } :=
  ⟨hs.owned.of_agreeOff hp hl ha, hs.number_lt, hs.number_inj, hs.openedOn_lt, hs.opened⟩

theorem sharedInv_create (hp : part.Formatted) (hs : SharedInv part s) (filename : List UInt8)
    (ha : SharedAllowed part (.create filename size) s) :
    ∃ t, sharedStep part (.create filename size) s = .ok t ∧ SharedInv part t := by
  have ha : Stays part size s.fs.memory := ha
  rcases ha.room_or hp with hr | hfail
  · -- the new file takes the next number, and the others keep theirs
    obtain ⟨h, -, mem, heq, hne, hnone, -, ho, -⟩ := hs.owned.create hp hr filename
    have hcases : ∀ {h'}, Function.update s.live h (some size) h' ≠ none →
        h' = h ∨ h' ≠ h ∧ s.live h' ≠ none := by
      intro h' hl
      by_cases hh : h' = h
      · exact Or.inl hh
      · exact Or.inr ⟨hh, by rwa [Function.update_of_ne hh] at hl⟩
    have hold : ∀ {h'}, h' ≠ h →
        Function.update s.number h s.created h' = s.number h' := fun hh =>
      Function.update_of_ne hh ..
    have hnew : Function.update s.number h s.created h = s.created := Function.update_self ..
    refine ⟨{ s with
      fs := { s.fs with memory := mem }
      live := Function.update s.live h (some size)
      number := Function.update s.number h s.created
      created := s.created + 1 }, ?_, ho, fun h' hl => ?_, fun h₁ h₂ hl₁ hl₂ heq => ?_,
      fun i hi => Nat.lt_succ_of_lt (hs.openedOn_lt i hi), fun i h' size' hi hl heq => ?_⟩
    · simp only [sharedStep, heq]
      exact if_neg hne
    · show Function.update s.number h s.created h' < s.created + 1
      rcases hcases hl with rfl | ⟨hh, hl⟩
      · rw [hnew]
        exact Nat.lt_succ_self _
      · rw [hold hh]
        exact Nat.lt_succ_of_lt (hs.number_lt h' hl)
    · have heq : Function.update s.number h s.created h₁ =
        Function.update s.number h s.created h₂ := heq
      rcases hcases hl₁ with rfl | ⟨hh₁, hold₁⟩ <;> rcases hcases hl₂ with rfl | ⟨hh₂, hold₂⟩
      · rfl
      · -- numbers of before are smaller than that of the new file
        rw [hnew, hold hh₂] at heq
        exact absurd heq (hs.number_lt h₂ hold₂).ne'
      · rw [hnew, hold hh₁] at heq
        exact absurd heq (hs.number_lt h₁ hold₁).ne
      · rw [hold hh₁, hold hh₂] at heq
        exact hs.number_inj h₁ h₂ hold₁ hold₂ heq
    · have heq : Function.update s.number h s.created h' = s.openedOn i := heq
      have hl : Function.update s.live h (some size) h' = some size' := hl
      rcases hcases (Option.ne_none_iff_exists'.mpr ⟨size', hl⟩) with rfl | ⟨hh, -⟩
      · rw [hnew] at heq
        exact absurd heq (hs.openedOn_lt i hi).ne'
      · rw [hold hh] at heq
        exact hs.opened i h' size' hi (by rwa [Function.update_of_ne hh] at hl) heq
  · -- a creation that finds no room leaves the state
    refine ⟨s, ?_, hs⟩
    simp only [sharedStep, fsFileCreate_eq_zero hfail]
    rfl

theorem sharedInv_delete (hp : part.Formatted) (hs : SharedInv part s)
    (ha : SharedAllowed part (.delete h) s) :
    ∃ t, sharedStep part (.delete h) s = .ok t ∧ SharedInv part t := by
  obtain ⟨size, hl⟩ := Option.ne_none_iff_exists'.mp ha
  obtain ⟨mem, heq, ho, -⟩ := hs.owned.delete hp hl
  -- a handle that is still live is another one, with its old size
  have hlive : ∀ {h'}, Function.update s.live h none h' ≠ none →
      Function.update s.live h none h' = s.live h' := by
    intro h' hne
    rw [Function.update_of_ne]
    rintro rfl
    exact hne (Function.update_self ..)
  refine ⟨{ s with
    fs := { s.fs with memory := mem }
    live := Function.update s.live h none }, ?_, ho,
    fun h' hl' => hs.number_lt h' (hlive hl' ▸ hl'),
    fun h₁ h₂ hl₁ hl₂ => hs.number_inj h₁ h₂ (hlive hl₁ ▸ hl₁) (hlive hl₂ ▸ hl₂),
    hs.openedOn_lt, fun i h' size' hi hl' => hs.opened i h' size' hi ?_⟩
  · simp only [sharedStep, fileStep, heq]
    rfl
  · rw [← hlive]
    · exact hl'
    · exact Option.ne_none_iff_exists'.mpr ⟨size', hl'⟩

theorem sharedInv_openFile (hs : SharedInv part s) (ha : SharedAllowed part (.openFile h) s) :
    ∃ t, sharedStep part (.openFile h) s = .ok t ∧ SharedInv part t := by
  obtain ⟨hl, hslot⟩ := ha
  by_cases hfree : s.fs.memory (part.blockAddress + h) = sectorFree
  · -- a handle whose first byte is free opens nothing
    obtain ⟨i, hi, -⟩ := freeSlot_eq_ok hslot
    refine ⟨s, ?_, hs⟩
    have heq : fsFileOpen part h s.fs = .ok (-1, s.fs) := by
      rw [fsFileOpen, hi]
      exact if_pos hfree
    have hne : ∀ i : Fin maxOpenFiles, (-1 : File) ≠ (i : ℤ) := fun i hi => by
      have := Int.natCast_nonneg i.val
      rw [← hi] at this
      exact absurd this (by decide)
    simp only [sharedStep, heq]
    show Except.ok { s with openedOn := fun i => if (-1 : File) = (i : ℤ) then _ else _ } = _
    simp only [hne, if_false]
  · -- a live file goes to the first closed slot
    obtain ⟨size, hl⟩ := Option.ne_none_iff_exists'.mp (hl.resolve_right hfree)
    obtain ⟨i, -, -, heq⟩ := fsFileOpen_eq_ok hslot hfree
    rw [(hs.owned.marked h size hl).size_eq] at heq
    have hidx : ∀ j : Fin maxOpenFiles, ((i : ℕ) : ℤ) = ((j : ℕ) : ℤ) ↔ j = i := fun j => by
      rw [Int.natCast_inj, eq_comm, Fin.val_inj]
    refine ⟨{ s with
      fs := s.fs.setSlot i (part.blockAddress + h) size
      openedOn := Function.update s.openedOn i (s.number h) }, ?_, hs.owned, hs.number_lt,
      hs.number_inj, fun j hj => ?_, fun j h' size' hj hl' heq' => ?_⟩
    · simp only [sharedStep, heq]
      show Except.ok _ = Except.ok _
      congr 2
      funext j
      exact (if_congr (hidx j) rfl rfl).trans (Function.update_apply ..).symm
    · show Function.update s.openedOn i (s.number h) j < s.created
      by_cases hij : j = i
      · subst hij
        rw [Function.update_self]
        exact hs.number_lt h (Option.ne_none_iff_exists'.mpr ⟨size, hl⟩)
      · rw [Function.update_of_ne hij]
        exact hs.openedOn_lt j (by simpa [hij] using hj)
    · have heq' : s.number h' = Function.update s.openedOn i (s.number h) j := heq'
      have hl' : s.live h' = some size' := hl'
      by_cases hij : j = i
      · -- the slot just taken: the numbers tell the file
        subst hij
        rw [Function.update_self] at heq'
        obtain rfl := hs.number_inj h' h (Option.ne_none_iff_exists'.mpr ⟨size', hl'⟩)
          (Option.ne_none_iff_exists'.mpr ⟨size, hl⟩) heq'
        rw [hl, Option.some_inj] at hl'
        subst hl'
        exact ⟨Function.update_self .., Function.update_self ..⟩
      · -- the other slots stand for the files they stood for
        rw [Function.update_of_ne hij] at heq'
        obtain ⟨haddr, hsize⟩ := hs.opened j h' size' (by simpa [hij] using hj) hl' heq'
        exact ⟨(Function.update_of_ne hij ..).trans haddr,
          (Function.update_of_ne hij ..).trans hsize⟩

theorem sharedInv_close (hs : SharedInv part s) {index : File} (ha : index ≠ 16) :
    ∃ t, sharedStep part (.close index) s = .ok t ∧ SharedInv part t := by
  rcases fsFileClose_eq_ok s.fs ha with heq | ⟨i, -, -, heq⟩
  · exact ⟨s, by simp only [sharedStep, fileStep, heq]; rfl, hs⟩
  · have hopen : ∀ {j}, (s.fs.setSlot i 0 0).fileList j ≠ 0 → j ≠ i ∧ s.fs.fileList j ≠ 0 := by
      intro j hj
      by_cases hij : j = i
      · subst hij
        exact absurd (Function.update_self ..) hj
      · exact ⟨hij, by simpa [hij] using hj⟩
    refine ⟨{ s with fs := s.fs.setSlot i 0 0 }, ?_, hs.owned, hs.number_lt, hs.number_inj,
      fun j hj => hs.openedOn_lt j (hopen hj).2, fun j h' size' hj hl' heq' => ?_⟩
    · simp only [sharedStep, fileStep, heq]
      rfl
    · obtain ⟨hij, hj⟩ := hopen hj
      obtain ⟨haddr, hsize⟩ := hs.opened j h' size' hj hl' heq'
      exact ⟨(Function.update_of_ne hij ..).trans haddr,
        (Function.update_of_ne hij ..).trans hsize⟩

/-- **A write through a fresh slot** is isolated and keeps the invariant. -/
theorem isolatedWrite (hp : part.Formatted) (hs : SharedInv part s) {index : File}
    {buffer : List UInt8} (ha : SharedFresh part (.write index buffer size) s) :
    ∃ t, sharedStep part (.write index buffer size) s = .ok t ∧ SharedInv part t ∧
      IsolatedWrite part index s t := by
  obtain ⟨⟨hindex, hbuffer⟩, hfresh⟩ := ha
  rcases fsFileWrite_eq_ok part s.fs hindex hbuffer with heq | ⟨i, hi, hopen, hacc, heq⟩
  · exact ⟨s, by simp only [sharedStep, fileStep, heq]; rfl, hs, Or.inl rfl⟩
  · obtain ⟨h, hl, hnum⟩ := hfresh i hi hopen
    obtain ⟨size', hl⟩ := Option.ne_none_iff_exists'.mp hl
    obtain ⟨haddr, hsize⟩ := hs.opened i h size' hopen hl hnum
    have hss : 2 ≤ part.sectorSize.toNat := (by decide : 2 ≤ 32).trans hp.le_sectorSize
    have hrun := hs.owned.run_le_pow hp hl
    rw [hsize] at hacc
    have htr := agreeOff_transfer hss hrun s.fs.memory buffer (lt_of_accepted hacc).1
    rw [← haddr] at htr
    refine ⟨_, by simp only [sharedStep, fileStep, heq]; rfl,
      hs.of_agreeOff hp hl (htr.mono (dataBytes_subset hp)),
      Or.inr ⟨i, h, size', hi, hopen, hl, hnum, htr, fun h' size'' hl' hne o ho => ?_⟩⟩
    have hrun' := hs.owned.run_le_pow hp hl'
    refine htr o (ho.2.trans_le hrun') fun hmem => ?_
    exact Set.disjoint_left.mp (hs.owned.disjoint h' size'' h size' hl' hl hne) ho
      (contentBytes_subset (dataBytes_subset hp hmem))

/-- An allowed operation does not fail and keeps the invariant. -/
theorem sharedInv_sharedStep (hp : part.Formatted) (op : FileOp) (s : Shared)
    (hs : SharedInv part s) (ha : SharedFresh part op s) :
    ∃ t, sharedStep part op s = .ok t ∧ SharedInv part t := by
  cases op with
  | create filename size => exact sharedInv_create hp hs filename ha
  | delete handle => exact sharedInv_delete hp hs ha
  | openFile handle => exact sharedInv_openFile hs ha
  | write index buffer size =>
    obtain ⟨t, heq, ht, -⟩ := isolatedWrite hp hs ha
    exact ⟨t, heq, ht⟩
  | close index => exact sharedInv_close hs ha
  | set handle setter =>
    obtain ⟨size, hl⟩ := Option.ne_none_iff_exists'.mp ha
    have hrun := hs.owned.run_le_pow hp hl
    have hhead := header_le hp hrun
    exact ⟨_, rfl, hs.of_agreeOff hp hl
      ((agreeOff_setter (by omega) setter).mono (headerFields_subset hp _))⟩

theorem sharedInv_start (ho : Owned part mem (formatFiles part mem)) :
    SharedInv part (.start part mem) := by
  refine ⟨ho, fun _ _ => Nat.one_pos, fun h h' hl hl' _ => ?_, fun i hi => absurd rfl hi,
    fun i _ _ hi => absurd rfl hi⟩
  have hroot : ∀ {h}, formatFiles part mem h ≠ none → h = getWord part 0 deviceOffsetRoot mem :=
    fun {h} hne => by
      by_contra hh
      exact hne (if_neg fun hand => hh hand.1)
  rw [hroot hl, hroot hl']

/-- **Runs whose writes go through fresh slots** are isolated, on every formatted device: a write
changes data bytes of the file its index was opened on and no byte of another file. -/
theorem isolatedRuns_of_fresh {p : Partition} {beginning ending sectorSize : UInt32}
    (hss : 32 ≤ sectorSize.toNat) (hpart : formatted p beginning ending sectorSize = part)
    (hs : Stays part 30 (formatHeader part mem)) :
    ∃ mem', fsDeviceFormat p beginning ending sectorSize mem = .ok (part, mem') ∧
      IsolatedRuns part (SharedFresh part) (.start part mem') := by
  have hp : part.Formatted := by
    subst hpart
    exact ⟨hss, rfl⟩
  obtain ⟨mem', heq, ho, -⟩ := owned_format hp (hs.room_or hp) hpart
  refine ⟨mem', heq, fun ops hl => ?_⟩
  obtain ⟨s, hexec, hinv⟩ := Run.exec_legal (sharedInv_sharedStep hp) (sharedInv_start ho) hl
  refine ⟨s, hexec, fun index buffer size ha => ?_⟩
  obtain ⟨t, heq, -, ht⟩ := isolatedWrite hp hinv ha
  exact ⟨t, heq, ht⟩

end Isolation

/-- One user opens a file, which another deletes and replaces. -/
def staleOps : List FileOp :=
  [.create (chars ['a']) 30, .openFile 96, .delete 96, .create (chars ['b']) 30]

/-- `isolatedRuns_of_fresh` for a device of five sectors: beside a slot of a deleted file, the file that
replaced it is opened and written to. -/
theorem isolatedRuns_fiveSectors :
    ∃ mem', fsDeviceFormat ⟨0, 0, 0, 0⟩ 0 160 32 (fun _ => 0) = .ok (fiveSectors, mem') ∧
      ∃ s t, Run.exec (sharedStep fiveSectors) (staleOps ++ [.openFile 96])
          (.start fiveSectors mem') = .ok s ∧
        sharedStep fiveSectors (.write 1 [1, 0] 2) s = .ok t ∧
        s.fs.memory 129 = 0 ∧ t.fs.memory 129 = 1 ∧ IsolatedWrite fiveSectors 1 s t := by
  obtain ⟨mem', hformat, hruns⟩ := isolatedRuns_of_fresh (by decide)
    (show formatted ⟨0, 0, 0, 0⟩ 0 160 32 = fiveSectors from rfl)
    (show Stays fiveSectors 30 (formatHeader fiveSectors fun _ => 0) by decide +kernel)
  obtain rfl : mem' = fiveSectorsMemory := by rw [fiveSectorsMemory, hformat]
  have hallowed : Run.Legal (sharedStep fiveSectors) (SharedAllowed fiveSectors)
      (staleOps ++ [.openFile 96]) (.start fiveSectors fiveSectorsMemory) := by decide +kernel
  -- none of the operations is a write
  have hlegal : Run.Legal (sharedStep fiveSectors) (SharedFresh fiveSectors)
      (staleOps ++ [.openFile 96]) (.start fiveSectors fiveSectorsMemory) := by
    refine hallowed.mono_mem ?_
    simp only [staleOps, List.cons_append, List.nil_append, List.forall_mem_cons]
    exact ⟨fun _ h => h, fun _ h => h, fun _ h => h, fun _ h => h, fun _ h => h, by simp⟩
  obtain ⟨s, hs, hwrite⟩ := hruns _ hlegal
  have hend : (Run.exec (sharedStep fiveSectors) (staleOps ++ [.openFile 96])
      (.start fiveSectors fiveSectorsMemory)).map (fun s =>
        (s.live 96, s.number 96, s.openedOn 1, s.fs.memory 129)) = .ok (some 30, 2, 2, 0) := by
    decide +kernel
  have hnext : (Run.exec (sharedStep fiveSectors) (staleOps ++ [.openFile 96])
      (.start fiveSectors fiveSectorsMemory) >>= sharedStep fiveSectors (.write 1 [1, 0] 2)).map
        (fun t => t.fs.memory 129) = .ok 1 := by decide +kernel
  rw [hs] at hend hnext
  obtain ⟨hlive, hnumber, hopened, hbefore⟩ : s.live 96 = some 30 ∧ s.number 96 = 2 ∧
      s.openedOn 1 = 2 ∧ s.fs.memory 129 = 0 := by
    simpa [Except.map] using hend
  obtain ⟨t, ht, hisolated⟩ := hwrite 1 [1, 0] 2 ⟨⟨(by decide : (1 : File) ≠ 16), by decide⟩, by
    intro i hi _
    obtain rfl : i = 1 := Fin.ext (Int.natCast_inj.mp hi.symm)
    exact ⟨96, by rw [hlive]; exact Option.some_ne_none _, hnumber.trans hopened.symm⟩⟩
  rw [show (Except.ok s >>= sharedStep fiveSectors (.write 1 [1, 0] 2)) = .ok t from ht] at hnext
  exact ⟨fiveSectorsMemory, hformat, s, t, hs, ht, hbefore, Except.ok.inj hnext, hisolated⟩

/-- Not all runs are isolated: a write through the slot of the deleted file changes the file that
replaced it. -/
theorem not_isolatedRuns : ¬ ∀ mem : Memory,
    ∃ mem', fsDeviceFormat ⟨0, 0, 0, 0⟩ 0 160 32 mem = .ok (fiveSectors, mem') ∧
      IsolatedRuns fiveSectors (SharedAllowed fiveSectors) (.start fiveSectors mem') := by
  intro h
  obtain ⟨mem', hformat, hruns⟩ := h fun _ => 0
  obtain rfl : mem' = fiveSectorsMemory := by rw [fiveSectorsMemory, hformat]
  obtain ⟨s, hexec, hwrite⟩ := hruns staleOps (by decide +kernel)
  obtain ⟨t, hstep, hisolated⟩ := hwrite 0 [1, 0] 2 ⟨(by decide : (0 : File) ≠ 16), by decide⟩
  -- the file at handle 96 is file 2, and slot 0 was opened on file 1
  have hs : (Run.exec (sharedStep fiveSectors) staleOps (.start fiveSectors fiveSectorsMemory)).map
      (fun s => (s.live 96, s.number 96, s.openedOn 0, s.fs.memory 129)) =
        .ok (some 30, 2, 1, 0) := by decide +kernel
  have ht : (Run.exec (sharedStep fiveSectors) staleOps (.start fiveSectors fiveSectorsMemory) >>=
      sharedStep fiveSectors (.write 0 [1, 0] 2)).map (fun t => t.fs.memory 129) = .ok 1 := by
    decide +kernel
  rw [hexec] at hs ht
  rw [show (Except.ok s >>= sharedStep fiveSectors (.write 0 [1, 0] 2)) = .ok t from hstep] at ht
  obtain ⟨hlive, hnumber, hopened, hbefore⟩ : s.live 96 = some 30 ∧ s.number 96 = 2 ∧
      s.openedOn 0 = 1 ∧ s.fs.memory 129 = 0 := by
    simpa [Except.map] using hs
  have hafter : t.fs.memory 129 = 1 := by simpa [Except.map] using ht
  rcases hisolated with hsame | ⟨i, h, size, hi, -, hl, hnum, -, hothers⟩
  · rw [hsame, hbefore] at hafter
    exact absurd hafter (by decide)
  · have hne : h ≠ 96 := by
      rintro rfl
      obtain rfl : i = 0 := Fin.ext (Int.natCast_inj.mp hi.symm)
      rw [hnumber, hopened] at hnum
      exact absurd hnum (by decide)
    have heq : t.fs.memory 129 = s.fs.memory 129 :=
      hothers 96 30 hlive hne.symm 129 ⟨by decide, by decide⟩
    rw [hafter, hbefore] at heq
    exact absurd heq (by decide)

end MicroKernel.Fs
