import Mathlib.Data.Fintype.BigOperators
import MicroKernel.Fs.Atomicity
import MicroKernel.Fs.Names
import MicroKernel.Lib.Linked

/-!
# Walks on any medium

The walks over the blocks of a directory follow the next addresses, sizes and reference counts of
the medium as they are. A chain of next addresses that meets a block twice has no end, and a size or
a reference count that is too large takes a walk out of its buffer of 64 bytes.

## Main definitions

* `Survives`: every walk ends and stays in its buffer
* `FiniteChain`: the next addresses come to an end
* `Bounded`: the data and the entries of a block fit in the buffer
* `SoundMedium`: the condition on the medium

## Main results

* `exists_missing`: a name that no handle has
* `survives_iff`: the walks survive exactly the sound media
-/

namespace MicroKernel.Fs

open Store

/-- Every walk over a directory ends without a fault. -/
structure Survives (part : Partition) (dir : DirectoryHandle) (fs : FileSystem) : Prop where
  totalSize : ∃ total, fsDirectoryGetTotalSize part dir fs.memory = .ok total
  findByIndex : ∀ index junk, ∃ r, fsDirectoryFindByIndex part dir index junk fs = .ok r
  findByName : ∀ filename junk, ∃ r, fsDirectoryFindByName part dir filename junk fs = .ok r
  removeFile : ∀ file junk, ∃ r, fsDirectoryRemoveFile part dir file junk fs = .ok r

/-- The next addresses from a block on come to an end. -/
structure FiniteChain (part : Partition) (mem : Memory) (dir : DirectoryHandle)
    (chain : List DirectoryHandle) : Prop where
  forward : ((dir :: chain) ++ [0]).IsChain fun a b => fsFileGetNextAddress part a mem = b
  zero_notMem : 0 ∉ chain

/-- The data of a block fits in a buffer of 64 bytes, and so do its entries. -/
structure Bounded (part : Partition) (mem : Memory) (h : DirectoryHandle) : Prop where
  data : mem (part.blockAddress + h) = sectorFree ∨
    movedBytes (part.blockAddress + h) (fsFileGetSize part h mem) ≤ 64
  entries : (fsDirectoryGetReferenceCount part h mem).toNat ≤ 16

/-- The blocks of the directory come to an end and fit in the buffer; with sectors of one byte, which
the release of a file divides by, there is no entry. -/
def SoundMedium (part : Partition) (mem : Memory) (dir : DirectoryHandle) : Prop :=
  ∃ chain, FiniteChain part mem dir chain ∧ (∀ h ∈ dir :: chain, Bounded part mem h) ∧
    (part.sectorSize ≠ 1 ∨ ∀ h ∈ dir :: chain, fsDirectoryGetReferenceCount part h mem = 0)

/-! ## Names -/

section Missing

/-- A name of ten letters. -/
def nameOf (f : Fin 10 → Fin 16) : List UInt8 := List.ofFn fun i => UInt8.ofNat (f i + 1)

theorem cleanName_nameOf (f : Fin 10 → Fin 16) : cleanName (nameOf f) = nameOf f := by
  have hne : ∀ c ∈ nameOf f, c ≠ 0 := by
    intro c hc
    obtain ⟨i, rfl⟩ := (List.mem_ofFn' _ _).mp hc
    intro h0
    have h0 : (UInt8.ofNat (f i + 1)).toNat = 0 := congrArg UInt8.toNat h0
    rw [UInt8.toNat_ofNat'] at h0
    have := (f i).isLt
    omega
  have hlen : (nameOf f).length = fileNameLength := List.length_ofFn
  rw [cleanName, List.takeWhile_eq_self_iff.mpr fun c hc => by simpa using hne c hc, ← hlen,
    List.take_length, List.rightpad, Nat.sub_self, List.replicate_zero, List.append_nil]

theorem nameOf_injective : Function.Injective nameOf := by
  intro f g h
  funext i
  have hi : UInt8.ofNat (f i + 1) = UInt8.ofNat (g i + 1) := congrFun (List.ofFn_injective h) i
  have hi := congrArg UInt8.toNat hi
  rw [UInt8.toNat_ofNat', UInt8.toNat_ofNat'] at hi
  have := (f i).isLt
  have := (g i).isLt
  exact Fin.ext (by omega)

/-- **A name that no handle has**: there are more names than handles. -/
theorem exists_missing (part : Partition) (mem : Memory) :
    ∃ name, ∀ file, HasName part mem (cleanName name) file = false := by
  by_contra hall
  push Not at hall
  have hfile : ∀ f, ∃ file, fsFileGetName part file (cleanName []) mem = nameOf f := by
    intro f
    obtain ⟨file, hfile⟩ := hall (nameOf f)
    rw [ne_eq, Bool.not_eq_false, hasName_iff, cleanName_nameOf] at hfile
    exact ⟨file, hfile⟩
  choose file hfile using hfile
  have hinj : Function.Injective fun f => (⟨(file f).toNat, (file f).toNat_lt⟩ : Fin (2 ^ 32)) := by
    intro f g h
    have heq : file f = file g := UInt32.toNat_inj.mp (Fin.mk.inj h)
    exact nameOf_injective (by rw [← hfile f, ← hfile g, heq])
  have hcard := Fintype.card_le_of_injective _ hinj
  rw [Fintype.card_fun, Fintype.card_fin, Fintype.card_fin, Fintype.card_fin] at hcard
  exact absurd hcard (by decide)

end Missing

/-! ## Entries of a buffer -/

section Entries

variable {buffer : List UInt8} {file : FileHandle} {n : ℕ}

/-- The first `n` words of a buffer. -/
def bufferEntries (buffer : List UInt8) (n : ℕ) : List FileHandle :=
  (List.range n).map fun i => wordOf fun k => buffer.getD (4 * i + k) 0

@[simp] theorem length_bufferEntries : (bufferEntries buffer n).length = n := by
  simp [bufferEntries]

theorem holdsWords_bufferEntries (buffer : List UInt8) (n : ℕ) :
    HoldsWords (fun n => buffer.getD n 0) (bufferEntries buffer n) := by
  intro i hi k hk
  simp only [bufferEntries, List.getElem_map, List.getElem_range]
  exact (wordByte_wordOf (fun k => buffer.getD (4 * i + k) 0) hk).symm

variable (hlen : buffer.length = 64) (hn : n ≤ 16)

include hlen hn

theorem findEntryIn_bufferEntries (file : FileHandle) : findEntryIn buffer file n 0 =
    .ok (if file ∈ bufferEntries buffer n then
      some (UInt32.ofNat ((bufferEntries buffer n).idxOf file)) else none) := by
  have h := findEntryIn_eq file (holdsWords_bufferEntries buffer n)
    (by rw [length_bufferEntries]; omega) (by omega)
  rwa [length_bufferEntries] at h

theorem findNameIn_bufferEntries (part : Partition) (mem : Memory) (name : List UInt8) :
    findNameIn part mem buffer name n 0 =
      .ok ((bufferEntries buffer n).find? (HasName part mem name)) := by
  have h := findNameIn_eq part mem name (holdsWords_bufferEntries buffer n)
    (by rw [length_bufferEntries]; omega) (by omega)
  rwa [length_bufferEntries] at h

omit hn in
/-- **A search among more entries** than fit in the buffer leaves it, when no entry is found. -/
theorem findNameIn_error {part : Partition} {mem : Memory} {name : List UInt8}
    (hmiss : ∀ file, HasName part mem name file = false) {left i : ℕ} (hi : i ≤ 16)
    (hleft : 16 < i + left) :
    findNameIn part mem buffer name left (UInt32.ofNat i) = .error .outOfBounds := by
  induction left generalizing i with
  | zero => omega
  | succ left ih =>
    rcases Nat.lt_or_ge i 16 with hlt | hge
    · rw [findNameIn, loadEntry_eq (by omega) (by omega), ok_bind]
      refine (if_neg ?_).trans ?_
      · exact Bool.eq_false_iff.mp (hmiss _)
      · rw [ofNat_succ]
        exact ih (by omega) (by omega)
    · obtain rfl : i = 16 := by omega
      have hload : loadEntry buffer (UInt32.ofNat 16) = .error .outOfBounds := by
        rw [loadEntry, loadByte, dif_neg (by rw [hlen]; decide)]
        rfl
      rw [findNameIn, hload]
      rfl

end Entries

/-! ## Reading a block -/

section Reading

variable {part : Partition} {fs fs' : FileSystem} {h : DirectoryHandle} {index : File}
  {buffer : List UInt8}

/-- A block that is open for reading: it was free and was not opened, or it has a slot that was
closed. -/
def Reading (part : Partition) (fs : FileSystem) (h : DirectoryHandle) (index : File)
    (fs' : FileSystem) : Prop :=
  index = -1 ∧ fs' = fs ∨ ∃ i : Fin maxOpenFiles, fs.fileList i = 0 ∧ index = i ∧
    fs' = fs.setSlot i (part.blockAddress + h) (fsFileGetSize part h fs.memory) ∧
    movedBytes (part.blockAddress + h) (fsFileGetSize part h fs.memory) ≤ 64

/-- **A block is read**, if its data fits in the buffer. -/
theorem readBlock_spec (hslot : ∃ i, fs.fileList i = 0) (hlen : buffer.length = 64) :
    ((fs.memory (part.blockAddress + h) = sectorFree ∨
        movedBytes (part.blockAddress + h) (fsFileGetSize part h fs.memory) ≤ 64) ∧
      ∃ index buffer' fs', readBlock part h buffer fs = .ok (index, buffer', fs') ∧
        buffer'.length = 64 ∧ fs'.memory = fs.memory ∧ Reading part fs h index fs') ∨
    (¬ (fs.memory (part.blockAddress + h) = sectorFree ∨
        movedBytes (part.blockAddress + h) (fsFileGetSize part h fs.memory) ≤ 64) ∧
      readBlock part h buffer fs = .error .outOfBounds) := by
  by_cases hfree : fs.memory (part.blockAddress + h) = sectorFree
  · -- nothing is opened, and the read of the index -1 leaves the buffer
    obtain ⟨i, hi, -⟩ := freeSlot_eq_ok hslot
    have hopen : fsFileOpen part h fs = .ok (-1, fs) := by
      rw [fsFileOpen, hi]
      exact if_pos hfree
    refine Or.inl ⟨Or.inl hfree, -1, buffer, fs, ?_, hlen, rfl, Or.inl ⟨rfl, rfl⟩⟩
    rw [readBlock, hopen]
    rfl
  · obtain ⟨i, -, h0, hopen⟩ := fsFileOpen_eq_ok hslot hfree
    obtain ⟨fs', hfs'⟩ : ∃ fs', fs.setSlot i (part.blockAddress + h)
      (fsFileGetSize part h fs.memory) = fs' := ⟨_, rfl⟩
    rw [hfs'] at hopen
    have hlist : fs'.fileList i = part.blockAddress + h := by
      rw [← hfs']
      exact Function.update_self ..
    have hsize : fs'.fileSize i = fsFileGetSize part h fs.memory := by
      rw [← hfs']
      exact Function.update_self ..
    have hmem : fs'.memory = fs.memory := by rw [← hfs', FileSystem.setSlot_memory]
    by_cases hle : movedBytes (part.blockAddress + h) (fsFileGetSize part h fs.memory) ≤ 64
    · obtain ⟨b, buffer', hread, hlen'⟩ : ∃ b buffer', fsFileRead part (i : ℤ) buffer
          (fsFileGetSize part h fs.memory) fs' = .ok (b, buffer') ∧ buffer'.length = 64 := by
        obtain ⟨b, hread⟩ := fsFileRead_natCast part hlist hsize (hle.trans_eq hlen.symm)
        refine ⟨b, _, hread, ?_⟩
        rw [List.length_append, length_fileBytes, List.length_drop]
        omega
      refine Or.inl ⟨Or.inr hle, _, buffer', fs', ?_, hlen', hmem,
        Or.inr ⟨i, h0, rfl, hfs'.symm, hle⟩⟩
      rw [readBlock, hopen, ok_bind]
      simp only [hmem, hread]
      rfl
    · have hread := fsFileRead_natCast_error part hlist hsize (hlen.trans_lt (not_le.mp hle))
      refine Or.inr ⟨not_or.mpr ⟨hfree, hle⟩, ?_⟩
      rw [readBlock, hopen, ok_bind]
      simp only [hmem, hread]
      rfl

/-- A block that was read is closed, whatever was written to the memory. -/
theorem Reading.close (hr : Reading part fs h index fs') (mem : Memory) :
    ∃ b fs'', fsFileClose index { fs' with memory := mem } = .ok (b, fs'') ∧
      fs''.memory = mem ∧ fs''.fileList = fs.fileList := by
  rcases hr with ⟨rfl, rfl⟩ | ⟨i, h0, rfl, rfl, -⟩
  · exact ⟨0, { fs' with memory := mem }, rfl, rfl, rfl⟩
  · obtain ⟨b, heq⟩ := fsFileClose_natCast i { fs.setSlot i (part.blockAddress + h)
      (fsFileGetSize part h fs.memory) with memory := mem }
    refine ⟨b, _, heq, ?_, ?_⟩
    · split <;> rfl
    · have hzero : ∀ f : Fin maxOpenFiles → UInt32, f i = 0 → ∀ a,
          Function.update (Function.update f i a) i 0 = f := by
        intro f hf a
        rw [Function.update_idem, ← hf, Function.update_eq_self]
      split
      · next hclosed =>
        rw [← hzero fs.fileList h0 (part.blockAddress + h)]
        exact (Function.update_eq_self_iff.mpr hclosed.symm).symm
      · exact hzero fs.fileList h0 _

/-- A buffer is written back to a block that was read. -/
theorem Reading.write (hr : Reading part fs h index fs') (hlen : buffer.length = 64)
    (mem : Memory) :
    ∃ b mem', fsFileWrite part index buffer (fsFileGetSize part h fs.memory)
      { fs' with memory := mem } = .ok (b, { fs' with memory := mem' }) := by
  rcases hr with ⟨rfl, rfl⟩ | ⟨i, -, rfl, rfl, hle⟩
  · exact ⟨0, mem, rfl⟩
  · have hlist : ({ fs.setSlot i (part.blockAddress + h) (fsFileGetSize part h fs.memory) with
        memory := mem } : FileSystem).fileList i = part.blockAddress + h := Function.update_self ..
    obtain ⟨b, heq⟩ := fsFileWrite_natCast part hlist (Function.update_self ..)
      (hle.trans_eq hlen.symm)
    exact ⟨b, _, heq⟩

end Reading

/-! ## Walks over a finite chain -/

section Walks

variable {part : Partition} {fs : FileSystem} {mem : Memory} {h a dir : DirectoryHandle}
  {chain rest : List DirectoryHandle} {buffer : List UInt8} {limit : ℕ}

theorem finiteChain_nil (h0 : fsFileGetNextAddress part h mem = 0) :
    FiniteChain part mem h [] := ⟨List.isChain_pair.mpr h0, List.not_mem_nil⟩

theorem FiniteChain.next_nil (hc : FiniteChain part mem h []) :
    fsFileGetNextAddress part h mem = 0 := (List.isChain_cons_cons.mp hc.forward).1

theorem FiniteChain.cons (hc : FiniteChain part mem a rest)
    (hnext : fsFileGetNextAddress part h mem = a) (hne : a ≠ 0) :
    FiniteChain part mem h (a :: rest) :=
  ⟨List.isChain_cons_cons.mpr ⟨hnext, hc.forward⟩,
    List.not_mem_cons_of_ne_of_not_mem hne.symm hc.zero_notMem⟩

theorem FiniteChain.next_cons (hc : FiniteChain part mem h (a :: rest)) :
    fsFileGetNextAddress part h mem = a ∧ a ≠ 0 ∧ FiniteChain part mem a rest :=
  ⟨(List.isChain_cons_cons.mp hc.forward).1, (List.ne_of_not_mem_cons hc.zero_notMem).symm,
    (List.isChain_cons_cons.mp hc.forward).2, List.not_mem_of_not_mem_cons hc.zero_notMem⟩

/-- A chain that comes to an end is shorter than the walks are long. -/
theorem FiniteChain.length_lt (hc : FiniteChain part mem dir chain) : chain.length < walkLimit := by
  have hnodup := Linked.nodup_of_forward hc.forward.tail hc.zero_notMem
  have hsub : (0 :: chain).map UInt32.toNat ⊆ List.range (2 ^ 32) := by
    intro n hn
    obtain ⟨h, -, rfl⟩ := List.mem_map.mp hn
    exact List.mem_range.mpr h.toNat_lt
  have hnodup₀ := List.nodup_cons.mpr ⟨hc.zero_notMem, hnodup⟩
  have hle := (List.Nodup.subperm (List.Nodup.map (fun _ _ => UInt32.toNat_inj.mp) hnodup₀)
    hsub).length_le
  rw [List.length_map, List.length_range, List.length_cons] at hle
  exact hle

theorem FiniteChain.getTotalSizeFrom_ok (hc : FiniteChain part mem h chain)
    (hlimit : chain.length < limit) (total : UInt32) :
    ∃ total', getTotalSizeFrom part mem limit h total = .ok total' := by
  induction chain generalizing h limit total with
  | nil =>
    obtain ⟨limit, rfl⟩ : ∃ l, limit = l + 1 := ⟨limit - 1, by omega⟩
    exact ⟨_, if_pos hc.next_nil⟩
  | cons a rest ih =>
    obtain ⟨limit, rfl⟩ : ∃ l, limit = l + 1 := ⟨limit - 1, by omega⟩
    obtain ⟨hnext, hne, htail⟩ := hc.next_cons
    obtain ⟨total', heq⟩ := ih htail (Nat.lt_of_succ_lt_succ hlimit)
      (total + fsDirectoryGetReferenceCount part h mem)
    refine ⟨total', ?_⟩
    rw [getTotalSizeFrom, hnext]
    exact (if_neg hne).trans heq

/-- A block that fits in the buffer is read. -/
theorem Bounded.readBlock (hb : Bounded part fs.memory h) (hslot : ∃ i, fs.fileList i = 0)
    (hlen : buffer.length = 64) :
    ∃ index buffer' fs', readBlock part h buffer fs = .ok (index, buffer', fs') ∧
      buffer'.length = 64 ∧ fs'.memory = fs.memory ∧ Reading part fs h index fs' :=
  ((readBlock_spec hslot hlen).resolve_right fun hno => hno.1 hb.data).2

/-- A block that was read is closed with the memory it has. -/
theorem Reading.close_self {fs' : FileSystem} {index : File} (hr : Reading part fs h index fs')
    (hmem : fs'.memory = fs.memory) :
    ∃ b fs'', fsFileClose index fs' = .ok (b, fs'') ∧ fs''.memory = fs.memory ∧
      fs''.fileList = fs.fileList := by
  obtain ⟨b, fs'', heq, hmem', hlist⟩ := hr.close fs'.memory
  exact ⟨b, fs'', heq, hmem'.trans hmem, hlist⟩

variable (limit) in
/-- A walk for an index finds it in the block or goes on behind it. -/
theorem Bounded.findByIndexFrom_cases (hb : Bounded part fs.memory h)
    (hslot : ∃ i, fs.fileList i = 0) (hlen : buffer.length = 64) (index counter : UInt32) :
    (∃ r, findByIndexFrom part index (limit + 1) h counter buffer fs = .ok r) ∨
      ∃ buffer' fs', buffer'.length = 64 ∧ fs'.memory = fs.memory ∧ fs'.fileList = fs.fileList ∧
        findByIndexFrom part index (limit + 1) h counter buffer fs =
          if fsFileGetNextAddress part h fs.memory = 0 then .ok (0, fs')
          else findByIndexFrom part index limit (fsFileGetNextAddress part h fs.memory)
            (counter + fsDirectoryGetReferenceCount part h fs.memory) buffer' fs' := by
  obtain ⟨fileIndex, buffer', fs', hread, hlen', hmem, hr⟩ := hb.readBlock hslot hlen
  obtain ⟨b, fs'', hclose, hmem'', hlist''⟩ := hr.close_self hmem
  by_cases hin : index - counter < fsDirectoryGetReferenceCount part h fs.memory
  · have hlt := UInt32.lt_iff_toNat_lt.mp hin
    have hentries := hb.entries
    obtain ⟨w, hload⟩ : ∃ w, loadEntry buffer' (index - counter) = .ok w := by
      have hentry : 4 * (index - counter).toNat + 4 ≤ buffer'.length := by omega
      have h := loadEntry_eq hentry (by omega)
      rw [UInt32.ofNat_toNat] at h
      exact ⟨_, h⟩
    refine Or.inl ⟨(w, fs''), ?_⟩
    rw [findByIndexFrom, hread, ok_bind]
    simp only [hin, if_true, hload, ok_bind, hclose]
    rfl
  · refine Or.inr ⟨buffer', fs'', hlen', hmem'', hlist'', ?_⟩
    rw [findByIndexFrom, hread, ok_bind]
    simp only [hin, if_false, ok_bind, hclose, hmem'']
    rfl

theorem FiniteChain.findByIndexFrom_ok (hc : FiniteChain part fs.memory h chain)
    (hb : ∀ c ∈ h :: chain, Bounded part fs.memory c) (hslot : ∃ i, fs.fileList i = 0)
    (hlen : buffer.length = 64) (hlimit : chain.length < limit) (index counter : UInt32) :
    ∃ r, findByIndexFrom part index limit h counter buffer fs = .ok r := by
  induction limit generalizing h chain counter buffer fs with
  | zero => omega
  | succ limit ih =>
    rcases (hb h List.mem_cons_self).findByIndexFrom_cases limit hslot hlen index counter
      with hok | ⟨buffer', fs', hlen', hmem, hlist, heq⟩
    · exact hok
    · cases chain with
      | nil => exact ⟨_, heq.trans (if_pos hc.next_nil)⟩
      | cons a rest =>
        obtain ⟨hnext, hne, htail⟩ := hc.next_cons
        rw [heq, hnext, if_neg hne]
        exact ih (hmem ▸ htail) (fun c hc => hmem ▸ hb c (List.mem_cons_of_mem _ hc))
          (hlist ▸ hslot) hlen' (Nat.lt_of_succ_lt_succ hlimit) _

variable (limit) in
/-- A walk for a name finds it in the block or goes on behind it. -/
theorem Bounded.findByNameFrom_eq (hb : Bounded part fs.memory h)
    (hslot : ∃ i, fs.fileList i = 0) (hlen : buffer.length = 64) (name : List UInt8) :
    ∃ buffer' fs', buffer'.length = 64 ∧ fs'.memory = fs.memory ∧ fs'.fileList = fs.fileList ∧
      findByNameFrom part name (limit + 1) h buffer fs =
        match (bufferEntries buffer' (fsDirectoryGetReferenceCount part h fs.memory).toNat).find?
          (HasName part fs.memory name) with
        | some file => .ok (file, fs')
        | none => if fsFileGetNextAddress part h fs.memory = 0 then .ok (0, fs')
          else findByNameFrom part name limit (fsFileGetNextAddress part h fs.memory) buffer' fs' := by
  obtain ⟨fileIndex, buffer', fs', hread, hlen', hmem, hr⟩ := hb.readBlock hslot hlen
  obtain ⟨b, fs'', hclose, hmem'', hlist''⟩ := hr.close_self hmem
  refine ⟨buffer', fs'', hlen', hmem'', hlist'', ?_⟩
  rw [findByNameFrom, hread, ok_bind]
  simp only [hmem, findNameIn_bufferEntries hlen' hb.entries, ok_bind]
  cases (bufferEntries buffer' (fsDirectoryGetReferenceCount part h fs.memory).toNat).find?
      (HasName part fs.memory name) with
  | some file =>
    simp only [hclose, ok_bind]
    rfl
  | none =>
    simp only [hclose, ok_bind, hmem'']
    rfl

theorem FiniteChain.findByNameFrom_ok (hc : FiniteChain part fs.memory h chain)
    (hb : ∀ c ∈ h :: chain, Bounded part fs.memory c) (hslot : ∃ i, fs.fileList i = 0)
    (hlen : buffer.length = 64) (hlimit : chain.length < limit) (name : List UInt8) :
    ∃ r, findByNameFrom part name limit h buffer fs = .ok r := by
  induction limit generalizing h chain buffer fs with
  | zero => omega
  | succ limit ih =>
    obtain ⟨buffer', fs', hlen', hmem, hlist, heq⟩ :=
      (hb h List.mem_cons_self).findByNameFrom_eq limit hslot hlen name
    rw [heq]
    split
    · exact ⟨_, rfl⟩
    · cases chain with
      | nil => exact ⟨_, if_pos hc.next_nil⟩
      | cons a rest =>
        obtain ⟨hnext, hne, htail⟩ := hc.next_cons
        rw [hnext, if_neg hne]
        exact ih (hmem ▸ htail) (fun c hc => hmem ▸ hb c (List.mem_cons_of_mem _ hc))
          (hlist ▸ hslot) hlen' (Nat.lt_of_succ_lt_succ hlimit)

/-- **A walk for a missing name** that ends without a fault shows that the medium is sound. -/
theorem exists_finiteChain (hslot : ∃ i, fs.fileList i = 0) (hlen : buffer.length = 64)
    {name : List UInt8} (hmiss : ∀ file, HasName part fs.memory name file = false)
    {r : UInt32 × FileSystem} (hok : findByNameFrom part name limit h buffer fs = .ok r) :
    ∃ chain, FiniteChain part fs.memory h chain ∧
      ∀ c ∈ h :: chain, Bounded part fs.memory c := by
  induction limit generalizing h buffer fs with
  | zero => cases hok
  | succ limit ih =>
    have hbounded : Bounded part fs.memory h := by
      rcases readBlock_spec hslot hlen with
        ⟨hdata, index, buffer', fs', hread, hlen', hmem, -⟩ | ⟨-, hread⟩
      · refine ⟨hdata, not_lt.mp fun hlt => ?_⟩
        have hfind := findNameIn_error hlen' hmiss (Nat.zero_le 16)
          (hlt.trans_eq (Nat.zero_add _).symm)
        rw [findByNameFrom, hread, ok_bind] at hok
        simp only [hmem] at hok
        rw [show (0 : UInt32) = UInt32.ofNat 0 from rfl, hfind] at hok
        cases hok
      · rw [findByNameFrom, hread] at hok
        cases hok
    obtain ⟨buffer', fs', hlen', hmem, hlist, heq⟩ :=
      hbounded.findByNameFrom_eq limit hslot hlen name
    rw [heq, List.find?_eq_none.mpr fun c _ => Bool.eq_false_iff.mp (hmiss c)] at hok
    by_cases hnext : fsFileGetNextAddress part h fs.memory = 0
    · exact ⟨[], finiteChain_nil hnext, fun c hc => List.mem_singleton.mp hc ▸ hbounded⟩
    · have hok : (if fsFileGetNextAddress part h fs.memory = 0 then _ else _) = _ := hok
      rw [if_neg hnext] at hok
      obtain ⟨chain, hc, hb⟩ := ih (hlist ▸ hslot) hlen' (hmem ▸ hmiss) hok
      rw [hmem] at hc hb
      exact ⟨_, hc.cons rfl hnext, List.forall_mem_cons.mpr ⟨hbounded, hb⟩⟩

/-- A release divides by the sector size less one. -/
theorem fsFileDelete_cases (part : Partition) (file : FileHandle) (mem : Memory) :
    (part.sectorSize ≠ 1 ∧ ∃ mem', fsFileDelete part file mem = .ok (file, mem')) ∨
      part.sectorSize = 1 ∧ fsFileDelete part file mem = .error .divisionByZero := by
  by_cases hss : part.sectorSize = 1
  · refine Or.inr ⟨hss, ?_⟩
    rw [fsFileDelete, fsFree, dataSectors, hss]
    rfl
  · have hne : ¬ part.sectorSize - 1 = 0 := fun h =>
      hss ((UInt32.sub_add_cancel part.sectorSize 1).symm.trans (by rw [h]; rfl))
    refine Or.inl ⟨hss, ?_⟩
    rw [fsFileDelete, fsFree, dataSectors, if_neg hne]
    exact ⟨_, rfl⟩

theorem unlinkExtent_ok (hss : part.sectorSize ≠ 1) (h : DirectoryHandle) (mem : Memory) :
    ∃ mem', unlinkExtent part h mem = .ok mem' := by
  obtain ⟨-, mem', hdelete⟩ := (fsFileDelete_cases part h (fsFileSetParentAddress part
    (fsFileGetNextAddress part h mem) (fsFileGetParentAddress part h mem)
    (fsFileSetNextAddress part (fsFileGetParentAddress part h mem)
      (fsFileGetNextAddress part h mem) mem))).resolve_right fun h => hss h.1
  refine ⟨mem', ?_⟩
  rw [unlinkExtent]
  simp only [hdelete]
  rfl

variable (limit) in
/-- **A removal from a block** that has the entry succeeds, or divides by zero; otherwise it goes on
behind the block. -/
theorem Bounded.removeFileFrom_cases (hb : Bounded part fs.memory h)
    (hslot : ∃ i, fs.fileList i = 0) (hlen : buffer.length = 64) (extentCount : UInt8) :
    ∃ buffer' fs', buffer'.length = 64 ∧ fs'.memory = fs.memory ∧ fs'.fileList = fs.fileList ∧
      ∀ file,
        (file ∈ bufferEntries buffer' (fsDirectoryGetReferenceCount part h fs.memory).toNat ∧
          ((part.sectorSize ≠ 1 ∧
              ∃ r, removeFileFrom part file (limit + 1) h extentCount buffer fs = .ok r) ∨
            part.sectorSize = 1 ∧
              removeFileFrom part file (limit + 1) h extentCount buffer fs = .error .divisionByZero)) ∨
        file ∉ bufferEntries buffer' (fsDirectoryGetReferenceCount part h fs.memory).toNat ∧
          removeFileFrom part file (limit + 1) h extentCount buffer fs =
            if fsFileGetNextAddress part h fs.memory = 0 then .ok (0, fs')
            else removeFileFrom part file limit (fsFileGetNextAddress part h fs.memory)
              (extentCount + 1) buffer' fs' := by
  obtain ⟨index, buffer', fs', hread, hlen', hmem, hr⟩ := hb.readBlock hslot hlen
  obtain ⟨b, fs'', hclose, hmem'', hlist''⟩ := hr.close_self hmem
  refine ⟨buffer', fs'', hlen', hmem'', hlist'', fun file => ?_⟩
  have hfind := findEntryIn_bufferEntries hlen' hb.entries file
  have hentries := hb.entries
  by_cases hfile : file ∈ bufferEntries buffer' (fsDirectoryGetReferenceCount part h fs.memory).toNat
  · refine Or.inl ⟨hfile, ?_⟩
    rw [if_pos hfile] at hfind
    rcases fsFileDelete_cases part file fs.memory with ⟨hss, mem₁, hdelete⟩ | ⟨hss, hdelete⟩
    · refine Or.inl ⟨hss, ?_⟩
      have hidx := List.idxOf_lt_length_of_mem hfile
      rw [length_bufferEntries] at hidx
      -- the last entry takes the place of the one removed
      obtain ⟨buffer₁, hreplace, hlen₁, -⟩ := replaceEntry_eq (Nat.le_sub_one_of_lt hidx)
        (by omega : 4 * ((fsDirectoryGetReferenceCount part h fs.memory).toNat - 1) + 4 ≤
          buffer'.length) (by omega)
      rw [← ofNat_sub_one (by omega), UInt32.ofNat_toNat] at hreplace
      obtain ⟨b₁, mem₂, hwrite⟩ := hr.write (hlen₁.trans hlen') mem₁
      obtain ⟨b₂, fs₃, hclose₃, -, -⟩ := hr.close (fsDirectorySetReferenceCount part h
        (fsDirectoryGetReferenceCount part h fs.memory - 1) mem₂)
      obtain ⟨mem₄, hunlink⟩ := unlinkExtent_ok hss h fs₃.memory
      by_cases hempty : fsDirectoryGetReferenceCount part h fs.memory ≤ 1 ∧ extentCount > 0
      · refine ⟨(1, { fs₃ with memory := mem₄ }), ?_⟩
        rw [removeFileFrom, hread, ok_bind]
        simp only [hmem, hfind, ok_bind, hdelete, hreplace, hwrite, hclose₃]
        rw [if_pos hempty, hunlink]
        rfl
      · refine ⟨(1, fs₃), ?_⟩
        rw [removeFileFrom, hread, ok_bind]
        simp only [hmem, hfind, ok_bind, hdelete, hreplace, hwrite, hclose₃]
        rw [if_neg hempty]
        rfl
    · refine Or.inr ⟨hss, ?_⟩
      rw [removeFileFrom, hread, ok_bind]
      simp only [hmem, hfind, ok_bind, hdelete]
      rfl
  · refine Or.inr ⟨hfile, ?_⟩
    rw [if_neg hfile] at hfind
    rw [removeFileFrom, hread, ok_bind]
    simp only [hmem, hfind, ok_bind, hclose, hmem'']
    rfl

theorem FiniteChain.removeFileFrom_ok (hc : FiniteChain part fs.memory h chain)
    (hb : ∀ c ∈ h :: chain, Bounded part fs.memory c) (hslot : ∃ i, fs.fileList i = 0)
    (hss : part.sectorSize ≠ 1 ∨ ∀ c ∈ h :: chain, fsDirectoryGetReferenceCount part c fs.memory = 0)
    (hlen : buffer.length = 64) (hlimit : chain.length < limit) (file : FileHandle)
    (extentCount : UInt8) :
    ∃ r, removeFileFrom part file limit h extentCount buffer fs = .ok r := by
  induction limit generalizing h chain extentCount buffer fs with
  | zero => omega
  | succ limit ih =>
    obtain ⟨buffer', fs', hlen', hmem, hlist, hcases⟩ :=
      (hb h List.mem_cons_self).removeFileFrom_cases limit hslot hlen extentCount
    rcases hcases file with ⟨hfile, hok⟩ | ⟨-, heq⟩
    · rcases hss with hss | hss
      · exact (hok.resolve_right fun h => hss h.1).2
      · rw [hss h List.mem_cons_self] at hfile
        cases hfile
    · cases chain with
      | nil => exact ⟨_, heq.trans (if_pos hc.next_nil)⟩
      | cons a rest =>
        obtain ⟨hnext, hne, htail⟩ := hc.next_cons
        rw [heq, hnext, if_neg hne]
        exact ih (hmem ▸ htail) (fun c hc => hmem ▸ hb c (List.mem_cons_of_mem _ hc))
          (hlist ▸ hslot) (hss.imp_right fun hss c hc => hmem ▸ hss c (List.mem_cons_of_mem _ hc))
          hlen' (Nat.lt_of_succ_lt_succ hlimit) _

/-- **With sectors of one byte** some file cannot be removed, if there is an entry. -/
theorem FiniteChain.removeFileFrom_error (hc : FiniteChain part fs.memory h chain)
    (hb : ∀ c ∈ h :: chain, Bounded part fs.memory c) (hslot : ∃ i, fs.fileList i = 0)
    (hss : part.sectorSize = 1)
    (hentry : ∃ c ∈ h :: chain, fsDirectoryGetReferenceCount part c fs.memory ≠ 0)
    (hlen : buffer.length = 64) (hlimit : chain.length < limit) (extentCount : UInt8) :
    ∃ file, removeFileFrom part file limit h extentCount buffer fs = .error .divisionByZero := by
  induction limit generalizing h chain extentCount buffer fs with
  | zero => omega
  | succ limit ih =>
    obtain ⟨buffer', fs', hlen', hmem, hlist, hcases⟩ :=
      (hb h List.mem_cons_self).removeFileFrom_cases limit hslot hlen extentCount
    -- a block without an entry is passed; the first with one has the file that is removed
    by_cases h0 : fsDirectoryGetReferenceCount part h fs.memory = 0
    · obtain ⟨c, hc', hne⟩ := hentry
      rcases List.mem_cons.mp hc' with rfl | hc'
      · exact absurd h0 hne
      · obtain ⟨a, rest, rfl⟩ := List.exists_cons_of_ne_nil (List.ne_nil_of_mem hc')
        obtain ⟨hnext, hne₀, htail⟩ := hc.next_cons
        obtain ⟨file, herror⟩ := ih (hmem ▸ htail)
          (fun c hc => hmem ▸ hb c (List.mem_cons_of_mem _ hc)) (hlist ▸ hslot)
          ⟨c, hc', hmem ▸ hne⟩ hlen' (Nat.lt_of_succ_lt_succ hlimit) (extentCount + 1)
        refine ⟨file, ?_⟩
        rcases hcases file with ⟨hfile, -⟩ | ⟨-, heq⟩
        · rw [h0] at hfile
          cases hfile
        · rw [heq, hnext, if_neg hne₀]
          exact herror
    · obtain ⟨file, hfile⟩ : ∃ file, file ∈
          bufferEntries buffer' (fsDirectoryGetReferenceCount part h fs.memory).toNat := by
        refine List.exists_mem_of_length_pos ?_
        rw [length_bufferEntries]
        exact Nat.pos_of_ne_zero fun h => h0 (UInt32.toNat_inj.mp h)
      exact ⟨file, (((hcases file).resolve_right fun h => h.1 hfile).2.resolve_left
        fun h => h.1 hss).2⟩

end Walks

/-! ## Sound media -/

section Sound

variable {fs : FileSystem}

/-- **The walks survive** exactly the sound media, whatever the medium holds, when a slot is
closed. -/
theorem survives_iff (part : Partition) (dir : DirectoryHandle) (hslot : ∃ i, fs.fileList i = 0) :
    Survives part dir fs ↔ SoundMedium part fs.memory dir := by
  have hlen : ∀ junk, (localBuffer junk 64).length = 64 := fun junk => length_localBuffer junk 64
  constructor
  · intro hs
    obtain ⟨name, hmiss⟩ := exists_missing part fs.memory
    obtain ⟨r, hok⟩ := hs.findByName name fun _ => 0
    obtain ⟨chain, hc, hb⟩ := exists_finiteChain hslot (hlen _) hmiss hok
    refine ⟨chain, hc, hb, ?_⟩
    by_contra hno
    rw [not_or, not_not] at hno
    obtain ⟨hss, hentry⟩ := hno
    push Not at hentry
    obtain ⟨file, herror⟩ := hc.removeFileFrom_error hb hslot hss hentry (hlen fun _ => 0)
      hc.length_lt 0
    obtain ⟨r, hok⟩ := hs.removeFile file fun _ => 0
    rw [fsDirectoryRemoveFile, herror] at hok
    cases hok
  · rintro ⟨chain, hc, hb, hss⟩
    exact ⟨hc.getTotalSizeFrom_ok hc.length_lt 0,
      fun index junk => hc.findByIndexFrom_ok hb hslot (hlen junk) hc.length_lt index 0,
      fun filename junk => hc.findByNameFrom_ok hb hslot (hlen junk) hc.length_lt _,
      fun file junk => hc.removeFileFrom_ok hb hslot hss (hlen junk) hc.length_lt file 0⟩

/-- The device of five sectors, with seven entries in its root directory and one in an extent. -/
def extendedFs : FileSystem where
  memory := fsDirectorySetReferenceCount fiveSectors 96 1
    (fsDirectorySetReferenceCount fiveSectors 32 7
      (match fsDirectoryExtentCreate fiveSectors 32 0 fiveSectorsMemory with
        | .ok (extent, mem) => fsFileSetNextAddress fiveSectors 32 extent mem
        | .error _ => fiveSectorsMemory))
  fileList := fun _ => 0
  fileSize := fun _ => 0

/-- `survives_iff` for a directory of two blocks. -/
theorem survives_extended : Survives fiveSectors 32 extendedFs := by
  have hchain : FiniteChain fiveSectors extendedFs.memory 32 [96] :=
    ⟨by decide +kernel, by decide⟩
  have hbounded : ∀ h ∈ [32, 96], Bounded fiveSectors extendedFs.memory h := by
    simp only [List.forall_mem_cons]
    exact ⟨⟨by decide +kernel, by decide +kernel⟩, ⟨by decide +kernel, by decide +kernel⟩, by simp⟩
  exact (survives_iff fiveSectors 32 ⟨0, rfl⟩).mpr ⟨[96], hchain, hbounded, .inl (by decide)⟩

/-- The device of three sectors with 100 as the size of its root directory. -/
def oversizedFs : FileSystem :=
  { threeSectorsFs with memory := Function.update threeSectorsFs.memory 43 100 }

/-- The walks do not survive every medium: a size of 100 takes them out of the buffer. -/
theorem not_survives : ¬ ∀ (address : UInt32) (fs : FileSystem) (dir : DirectoryHandle),
    (fsDeviceOpen address fs.memory).sectorSize ≠ 0 →
      dir.toNat < (fsDeviceOpen address fs.memory).blockSize.toNat → (∃ i, fs.fileList i = 0) →
        Survives (fsDeviceOpen address fs.memory) dir fs := by
  intro h
  have hs := h 0 oversizedFs 32 (by decide +kernel) (by decide +kernel) ⟨0, by decide⟩
  obtain ⟨r, hok⟩ := hs.findByIndex 0 fun _ => 0
  have hfault : (fsDirectoryFindByIndex (fsDeviceOpen 0 oversizedFs.memory) 32 0 (fun _ => 0)
      oversizedFs).map Prod.fst = .error .outOfBounds := by decide +kernel
  rw [hok] at hfault
  cases hfault

end Sound

end MicroKernel.Fs
