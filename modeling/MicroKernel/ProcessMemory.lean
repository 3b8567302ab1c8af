import MicroKernel.Scheduler
import Mathlib.Data.List.Pairwise

/-!
# The memory ranges of the processes

`FindNextAvailableMemoryRange` of `kernel/scheduler.c` walks once over the process table and returns
the end of an entry before the first that begins behind it. The table is in the order in which its
tasks were created, and not in that of their addresses, so the range may belong to a task further
down the table.

## Main definitions

* `findNextAvailableMemoryRange`: the walk
* `ProcessBlocks`: the ranges of a process table are disjoint blocks
* `RangeFree`: a block overlaps no range and lies in the memory
* `Leading`, `GapFree`: the table begins with the first blocks, and the block behind them is free

## Main results

* `findNextAvailableMemoryRange_eq`: the walk stops behind the leading blocks
* `rangeFree_iff`: when the range found is free
-/

namespace MicroKernel

/-- `MEMORY_START` -/
def memoryStart : UInt32 := 0x4000

/-- `MEMORY_END` -/
def memoryEnd : UInt32 := 0xFFFF

/-- `MEMORY_BLOCK_SIZE` -/
def memoryBlockSize : UInt32 := 0x0400

variable {F : Type*}

/-- The walk from an entry on. -/
def findNextFrom (currentAddress : UInt32) : List (ProcessDescription F) → UInt32
  | proc :: table =>
    -- Found an available range
    if currentAddress < proc.heapBegin then currentAddress else findNextFrom proc.heapEnd table
  | [] =>
    -- Check if there's space at the end of the memory
    if currentAddress + memoryBlockSize ≤ memoryEnd then currentAddress else 0

def findNextAvailableMemoryRange (table : List (ProcessDescription F)) : UInt32 :=
  findNextFrom memoryStart table

/-! ## Blocks -/

/-- Where a block of the memory starts. -/
def blockStart (i : ℕ) : ℕ := memoryStart.toNat + i * memoryBlockSize.toNat

/-- The ranges of the processes are blocks, aligned from the start of the memory and disjoint. -/
structure ProcessBlocks (table : List (ProcessDescription F)) : Prop where
  aligned : ∀ proc ∈ table, ∃ i, proc.heapBegin.toNat = blockStart i
  size : ∀ proc ∈ table, proc.heapEnd.toNat = proc.heapBegin.toNat + memoryBlockSize.toNat
  disjoint : table.Pairwise fun proc proc' => proc.heapEnd.toNat ≤ proc'.heapBegin.toNat ∨
    proc'.heapEnd.toNat ≤ proc.heapBegin.toNat

/-- The block at `r` overlaps no range and lies in the memory. -/
structure RangeFree (table : List (ProcessDescription F)) (r : UInt32) : Prop where
  disjoint : ∀ proc ∈ table, r.toNat + memoryBlockSize.toNat ≤ proc.heapBegin.toNat ∨
    proc.heapEnd.toNat ≤ r.toNat
  inMemory : r.toNat + memoryBlockSize.toNat ≤ memoryEnd.toNat

/-- The table begins with the first `i` blocks of the memory, in order. -/
def Leading (table : List (ProcessDescription F)) (i : ℕ) : Prop :=
  ∀ j < i, ∃ proc, table[j]? = some proc ∧ proc.heapBegin.toNat = blockStart j

/-- The block behind the leading ones is free, and lies in the memory when the table goes on. -/
structure GapFree (table : List (ProcessDescription F)) : Prop where
  free : ∀ i, Leading table i → ¬ Leading table (i + 1) →
    ∀ proc ∈ table, proc.heapBegin.toNat ≠ blockStart i
  inMemory : ∀ i, Leading table i → ¬ Leading table (i + 1) →
    blockStart (i + 1) ≤ memoryEnd.toNat ∨ i = table.length ∧ blockStart (i + 1) < 2 ^ 32

theorem blockStart_succ (i : ℕ) : blockStart (i + 1) = blockStart i + memoryBlockSize.toNat := by
  rw [blockStart, blockStart, Nat.succ_mul, Nat.add_assoc]

theorem blockStart_eq (i : ℕ) : blockStart i = 16384 + i * 1024 := rfl

section Walk

variable {table lead rest : List (ProcessDescription F)} {proc : ProcessDescription F} {i j : ℕ}
  {r : UInt32}

theorem Leading.succ (h : Leading table i) (hp : table[i]? = some proc)
    (hb : proc.heapBegin.toNat = blockStart i) : Leading table (i + 1) := by
  intro j hj
  obtain hlt | rfl := Nat.lt_succ_iff_lt_or_eq.mp hj
  · exact h j hlt
  · exact ⟨proc, hp, hb⟩

/-- How many blocks lead is determined. -/
theorem Leading.unique (h : Leading table i) (hi : ¬ Leading table (i + 1)) (h' : Leading table j)
    (hj : ¬ Leading table (j + 1)) : i = j := by
  obtain hlt | heq | hlt := Nat.lt_trichotomy i j
  · exact absurd (fun k hk => h' k (by omega)) hi
  · exact heq
  · exact absurd (fun k hk => h k (by omega)) hj

theorem Leading.le_length (h : Leading table i) : i ≤ table.length := by
  by_contra hlt
  obtain ⟨proc, hp, -⟩ := h table.length (by omega)
  rw [List.getElem?_eq_none le_rfl] at hp
  cases hp

/-- Two entries do not begin at the same address. -/
theorem ProcessBlocks.ne_of_lt (h : ProcessBlocks table) {proc' : ProcessDescription F}
    (hi : table[i]? = some proc) (hj : table[j]? = some proc') (hij : i < j) :
    proc.heapBegin.toNat ≠ proc'.heapBegin.toNat := by
  have hsize := h.size proc (List.mem_of_getElem? hi)
  have hsize' := h.size proc' (List.mem_of_getElem? hj)
  have hblock : memoryBlockSize.toNat = 1024 := rfl
  obtain ⟨hilt, rfl⟩ := List.getElem?_eq_some_iff.mp hi
  obtain ⟨hjlt, rfl⟩ := List.getElem?_eq_some_iff.mp hj
  have := List.pairwise_iff_getElem.mp h.disjoint i j hilt hjlt hij
  omega

/-- The walk behind the leading blocks: it goes on over the next block, and stops at any other. -/
theorem findNextFrom_eq (h : ProcessBlocks (lead ++ rest))
    (hlead : Leading (lead ++ rest) lead.length)
    (hr : r.toNat = blockStart lead.length) : ∃ i, Leading (lead ++ rest) i ∧
      ¬ Leading (lead ++ rest) (i + 1) ∧ blockStart i < 2 ^ 32 ∧
      findNextFrom r rest = if i < (lead ++ rest).length ∨
        UInt32.ofNat (blockStart i) + memoryBlockSize ≤ memoryEnd then UInt32.ofNat (blockStart i)
        else 0 := by
  have hcur : r = UInt32.ofNat (blockStart lead.length) := by rw [← hr, UInt32.ofNat_toNat]
  have hlt : blockStart lead.length < 2 ^ 32 := hr ▸ r.toNat_lt
  induction rest generalizing lead r with
  | nil =>
    refine ⟨lead.length, hlead, fun h' => ?_, hlt, ?_⟩
    · have := h'.le_length
      simp at this
    · rw [findNextFrom, hcur]
      simp
  | cons proc rest ih =>
    have hp : (lead ++ proc :: rest)[lead.length]? = some proc := by simp
    have hmem : proc ∈ lead ++ proc :: rest := by simp
    rw [findNextFrom]
    split_ifs with hgap
    · refine ⟨lead.length, hlead, fun h' => ?_, hlt, ?_⟩
      · obtain ⟨proc', hp', hb⟩ := h' lead.length (Nat.lt_succ_self _)
        cases hp.symm.trans hp'
        rw [UInt32.lt_iff_toNat_lt] at hgap
        omega
      · rw [if_pos (Or.inl (by simp)), hcur]
    · -- the entry begins no later: it is the next block, as the earlier ones are taken
      have hb : proc.heapBegin.toNat = blockStart lead.length := by
        obtain ⟨k, hk⟩ := h.aligned proc hmem
        rw [UInt32.lt_iff_toNat_lt, hr, hk, blockStart_eq, blockStart_eq] at hgap
        obtain heq | hklt : k = lead.length ∨ k < lead.length := by omega
        · rw [hk, heq]
        · obtain ⟨proc', hp', hb'⟩ := hlead k hklt
          exact absurd (hb'.trans hk.symm) (h.ne_of_lt hp' hp hklt)
      have hend : proc.heapEnd.toNat = blockStart (lead ++ [proc]).length := by
        rw [h.size proc hmem, hb, List.length_append, List.length_singleton, blockStart_succ]
      have happ : lead ++ proc :: rest = (lead ++ [proc]) ++ rest := by simp
      have hlead' := hlead.succ hp hb
      rw [happ] at h hlead' ⊢
      exact ih h (by simpa using hlead') hend (by rw [← hend, UInt32.ofNat_toNat])
        (hend ▸ proc.heapEnd.toNat_lt)

/-- **The walk** stops behind the leading blocks. -/
theorem findNextAvailableMemoryRange_eq (h : ProcessBlocks table) : ∃ i, Leading table i ∧
    ¬ Leading table (i + 1) ∧ blockStart i < 2 ^ 32 ∧
      findNextAvailableMemoryRange table = if i < table.length ∨
        UInt32.ofNat (blockStart i) + memoryBlockSize ≤ memoryEnd then UInt32.ofNat (blockStart i)
        else 0 := by
  have hstart : memoryStart.toNat = blockStart ([] : List (ProcessDescription F)).length := by
    rw [List.length_nil, blockStart, Nat.zero_mul, Nat.add_zero]
  exact @findNextFrom_eq F [] table memoryStart h (fun _ hj => absurd hj (Nat.not_lt_zero _)) hstart

/-- A block is free when it lies in the memory and no range begins with it. -/
theorem ProcessBlocks.rangeFree_blockStart_iff (h : ProcessBlocks table)
    (hlt : blockStart i < 2 ^ 32) : RangeFree table (UInt32.ofNat (blockStart i)) ↔
      (∀ proc ∈ table, proc.heapBegin.toNat ≠ blockStart i) ∧
        blockStart (i + 1) ≤ memoryEnd.toNat := by
  have hr : (UInt32.ofNat (blockStart i)).toNat = blockStart i := UInt32.toNat_ofNat_of_lt' hlt
  have hblock : memoryBlockSize.toNat = 1024 := rfl
  constructor
  · rintro ⟨hdisjoint, hmemory⟩
    rw [hr] at hdisjoint hmemory
    refine ⟨fun proc hp hb => ?_, by rwa [blockStart_succ]⟩
    have := hdisjoint proc hp
    rw [h.size proc hp] at this
    omega
  · rintro ⟨hfree, hmemory⟩
    refine ⟨fun proc hp => ?_, by rwa [hr, ← blockStart_succ]⟩
    have hne := hfree proc hp
    obtain ⟨k, hk⟩ := h.aligned proc hp
    rw [hk, blockStart_eq, blockStart_eq] at hne
    rw [h.size proc hp, hr, hk, blockStart_eq, blockStart_eq]
    omega

/-- Behind a table of leading blocks only, nothing begins. -/
theorem Leading.ne_of_mem (h : Leading table table.length) (hp : proc ∈ table) :
    proc.heapBegin.toNat ≠ blockStart table.length := by
  obtain ⟨j, hj, rfl⟩ := List.getElem_of_mem hp
  obtain ⟨proc, hproc, hb⟩ := h j hj
  rw [List.getElem?_eq_getElem hj] at hproc
  cases hproc
  rw [hb, blockStart_eq, blockStart_eq]
  omega

theorem blockStart_succ_le (h : blockStart i < 2 ^ 32) : blockStart (i + 1) ≤ 2 ^ 32 := by
  rw [blockStart_eq] at h ⊢
  omega

/-- The end of the memory is tested without a carry, unless the table fills all addresses. -/
theorem add_memoryBlockSize_le_iff (hlt : blockStart i < 2 ^ 32) :
    UInt32.ofNat (blockStart i) + memoryBlockSize ≤ memoryEnd ↔
      blockStart (i + 1) ≤ memoryEnd.toNat ∨ blockStart (i + 1) = 2 ^ 32 := by
  have hsize : memoryBlockSize.toNat = 1024 := rfl
  have hend : memoryEnd.toNat = 65535 := rfl
  rw [UInt32.le_iff_toNat_le, UInt32.toNat_add, UInt32.toNat_ofNat_of_lt' hlt, blockStart_succ,
    hsize, hend]
  rw [blockStart_eq] at hlt ⊢
  omega

end Walk

/-- **The range found** for a process, when there is one, overlaps no other and lies in the memory
exactly when the block behind the leading blocks of the table is free, and lies in the memory when
the table goes on: for every process table of disjoint blocks, in any order. -/
theorem rangeFree_iff (table : List (ProcessDescription F)) (h : ProcessBlocks table) :
    (findNextAvailableMemoryRange table ≠ 0 →
      RangeFree table (findNextAvailableMemoryRange table)) ↔ GapFree table := by
  obtain ⟨i, hlead, hnot, hlt, heq⟩ := findNextAvailableMemoryRange_eq h
  have hgap : GapFree table ↔ (∀ proc ∈ table, proc.heapBegin.toNat ≠ blockStart i) ∧
      (blockStart (i + 1) ≤ memoryEnd.toNat ∨ i = table.length ∧ blockStart (i + 1) < 2 ^ 32) := by
    refine ⟨fun g => ⟨g.free i hlead hnot, g.inMemory i hlead hnot⟩, ?_⟩
    rintro ⟨hfree, hmemory⟩
    constructor
    · intro j hj hj'
      rwa [hj.unique hj' hlead hnot]
    · intro j hj hj'
      rwa [hj.unique hj' hlead hnot]
  have hne : UInt32.ofNat (blockStart i) ≠ 0 := fun hzero => by
    have := congrArg UInt32.toNat hzero
    rw [UInt32.toNat_ofNat_of_lt' hlt, blockStart_eq, UInt32.toNat_zero] at this
    omega
  rw [heq, hgap]
  by_cases hi : i < table.length
  · -- the walk stopped in the table
    rw [if_pos (Or.inl hi), h.rangeFree_blockStart_iff hlt, or_iff_left (fun hlen => hi.ne hlen.1)]
    exact ⟨fun hr => hr hne, fun hr _ => hr⟩
  · obtain rfl : i = table.length := le_antisymm hlead.le_length (not_lt.mp hi)
    simp only [lt_irrefl, false_or, add_memoryBlockSize_le_iff hlt]
    have hfree : ∀ proc ∈ table, proc.heapBegin.toNat ≠ blockStart table.length :=
      fun _ => hlead.ne_of_mem
    have hcarry : memoryEnd.toNat < 2 ^ 32 := memoryEnd.toNat_lt
    by_cases hfit : blockStart (table.length + 1) ≤ memoryEnd.toNat
    · rw [if_pos (Or.inl hfit), h.rangeFree_blockStart_iff hlt]
      exact iff_of_true (fun _ => ⟨hfree, hfit⟩) ⟨hfree, Or.inl hfit⟩
    · by_cases hall : blockStart (table.length + 1) = 2 ^ 32
      · rw [if_pos (Or.inr hall), h.rangeFree_blockStart_iff hlt]
        refine iff_of_false (fun hr => hfit (hr hne).2) fun hr => ?_
        have := hr.2
        omega
      · rw [if_neg (not_or.mpr ⟨hfit, hall⟩)]
        exact iff_of_true (fun h => absurd rfl h)
          ⟨hfree, Or.inr ⟨trivial, lt_of_le_of_ne (blockStart_succ_le hlt) hall⟩⟩

/-- A process with the block `i` of the memory. -/
def blockProcess (i : UInt32) : ProcessDescription Unit where
  type := 1
  privilege := taskPrivilegeKernel
  priority := 16
  counter := 17
  flags := 0
  heapBegin := memoryStart + i * memoryBlockSize
  heapEnd := memoryStart + i * memoryBlockSize + memoryBlockSize
  block := 0
  timeSlice := 0
  function := ()

/-- The table when the third of four tasks has left. -/
def gapTable : List (ProcessDescription Unit) := [blockProcess 0, blockProcess 1, blockProcess 3]

theorem processBlocks_gapTable : ProcessBlocks gapTable where
  aligned := by
    simp only [gapTable, List.forall_mem_cons, List.not_mem_nil, false_implies, implies_true, and_true]
    exact ⟨⟨0, by decide⟩, ⟨1, by decide⟩, ⟨3, by decide⟩⟩
  size := by
    simp only [gapTable, List.forall_mem_cons, List.not_mem_nil, false_implies, implies_true, and_true]
    exact ⟨by decide, by decide, by decide⟩
  disjoint := by
    simp only [gapTable, List.pairwise_cons, List.forall_mem_cons, List.not_mem_nil, false_implies,
      implies_true, List.Pairwise.nil, and_true]
    decide

theorem gapFree_gapTable : GapFree gapTable := by
  have htwo : Leading gapTable 2 := by
    intro j hj
    interval_cases j
    · exact ⟨blockProcess 0, rfl, by decide⟩
    · exact ⟨blockProcess 1, rfl, by decide⟩
  have hthree : ¬ Leading gapTable 3 := fun h => by
    obtain ⟨proc, hproc, hbegin⟩ := h 2 (by decide)
    obtain rfl : blockProcess 3 = proc := Option.some.inj hproc
    exact absurd hbegin (by decide)
  constructor
  · intro i hi hnot
    obtain rfl := hi.unique hnot htwo hthree
    decide
  · intro i hi hnot
    obtain rfl := hi.unique hnot htwo hthree
    exact Or.inl (by decide)

/-- `rangeFree_iff` for `gapTable`. -/
theorem rangeFree_gapTable : findNextAvailableMemoryRange gapTable = 0x4800 ∧
    RangeFree gapTable (findNextAvailableMemoryRange gapTable) :=
  ⟨by decide, (rangeFree_iff gapTable processBlocks_gapTable).mpr gapFree_gapTable (by decide)⟩

/-- The table when the first of two tasks has left, and a third one has got its range. -/
def reusedTable : List (ProcessDescription Unit) := [blockProcess 1, blockProcess 0]

theorem processBlocks_reusedTable : ProcessBlocks reusedTable where
  aligned := by
    simp only [reusedTable, List.forall_mem_cons, List.not_mem_nil, false_implies, implies_true,
      and_true]
    exact ⟨⟨1, by decide⟩, ⟨0, by decide⟩⟩
  size := by
    simp only [reusedTable, List.forall_mem_cons, List.not_mem_nil, false_implies, implies_true,
      and_true]
    exact ⟨by decide, by decide⟩
  disjoint := by
    simp only [reusedTable, List.pairwise_cons, List.mem_singleton, forall_eq, List.not_mem_nil,
      false_implies, implies_true, List.Pairwise.nil, and_true]
    decide

/-- The range found is not always free: that found for `reusedTable` belongs to its last task. -/
theorem not_rangeFree : ¬ ∀ table : List (ProcessDescription Unit), ProcessBlocks table →
    findNextAvailableMemoryRange table ≠ 0 →
      RangeFree table (findNextAvailableMemoryRange table) := by
  intro h
  have hfree := (h _ processBlocks_reusedTable (by decide)).disjoint (blockProcess 0)
    (List.mem_cons_of_mem _ List.mem_cons_self)
  exact absurd hfree (by decide)

end MicroKernel
