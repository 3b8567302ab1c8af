import MicroKernel.Fs.FileStore
import MicroKernel.Fs.ReadWrite

/-!
# The file system refines the file store

On a formatted device, the file system answers the requests of a program as the store of its files
does: the sectors of a file hold what the store has for it, an open slot holds its address and its
size, and each request keeps this. So a program that keeps to the requests of the store gets its
answers: what it reads is what was last written to the file, whatever happened to the other files.

## Main definitions

* `StoredAt`: the sectors of a file hold it
* `Stores`: a device and its open table hold a store

## Main results

* `simulates_answer`: the file system simulates the store
* `refines_fileStore`: every program that keeps to the store is served as the store says
-/

namespace MicroKernel.Fs

open Store

/-- The sectors of a handle hold a file. -/
structure StoredAt (part : Partition) (mem : Memory) (h : FileHandle) (f : StoredFile) : Prop where
  fields : getField part h mem = f.fields
  data : fileBytes part (part.blockAddress + h) (f.size.toNat + 1) mem = f.data

/-- What a slot of the open table holds. -/
def SlotHolds (part : Partition) (s : FileStore) (fs : FileSystem) (i : Fin maxOpenFiles) : Prop :=
  match s.slots i with
  | .closed => fs.fileList i = 0
  | .openOn h => fs.fileList i ≠ 0 ∧
    ∃ f, s.files h = some f ∧ fs.fileList i = part.blockAddress + h ∧ fs.fileSize i = f.size
  | .stale => fs.fileList i ≠ 0

/-- The device and the open table hold a store. -/
structure Stores (part : Partition) (s : FileStore) (fs : FileSystem) : Prop where
  owned : Owned part fs.memory s.live
  behind : NoFreeBehind part fs.memory
  stored : ∀ h f, s.files h = some f → StoredAt part fs.memory h f
  slots : ∀ i, SlotHolds part s fs i

section StoredAt

variable {part : Partition} {mem mem' : Memory} {h : FileHandle} {f : StoredFile} {S : Set ℕ}
  {size : UInt32} {n : ℕ}

/-- A byte behind a handle, seen from the partition. -/
theorem view_handle (base h : UInt32) (m : Memory) (o : ℕ) :
    view (base + h) m o = view base m (h.toNat + o) := by
  rw [view, view, UInt32.ofNat_add, UInt32.ofNat_toNat, UInt32.add_assoc]

/-- The bytes a transfer reads, seen from the partition. -/
theorem fileBytes_eq_view (hss : 2 ≤ part.sectorSize.toNat)
    (hrun : h.toNat + runLength part size * part.sectorSize.toNat ≤ 2 ^ 32)
    (hn : n ≤ size.toNat + 1) :
    fileBytes part (part.blockAddress + h) n mem =
      (List.range n).map fun k => view part.blockAddress mem (h.toNat + dataOffset part k) := by
  refine List.map_congr_left fun k hk => read_eq_view hss hrun ?_
  rw [List.mem_range] at hk
  omega

/-- Fewer bytes of a file are the first of them. -/
theorem take_fileBytes (part : Partition) (address : UInt32) (mem : Memory) {m : ℕ} (hm : m ≤ n) :
    (fileBytes part address n mem).take m = fileBytes part address m mem := by
  rw [fileBytes, ← List.map_take, List.take_range, Nat.min_eq_left hm, fileBytes]

/-- **A file stays** when bytes off its run change. -/
theorem StoredAt.of_disjoint (hs : StoredAt part mem h f) (hp : part.Formatted)
    (hrun : h.toNat + runLength part f.size * part.sectorSize.toNat ≤ 2 ^ 32)
    (ha : AgreeOff part.blockAddress S mem mem') (hd : Disjoint (runBytes part h f.size) S) :
    StoredAt part mem' h f := by
  have hss := hp.le_sectorSize
  have hhead := header_le hp hrun
  have hview : ∀ o ∈ runBytes part h f.size,
      view part.blockAddress mem' o = view part.blockAddress mem o := fun o ho =>
    ha o (ho.2.trans_le hrun) (Set.disjoint_left.mp hd ho)
  constructor
  · rw [← hs.fields]
    refine getField_congr fun o ho => ?_
    rw [view_handle, view_handle]
    exact hview _ ⟨Nat.le_add_right _ _, by omega⟩
  · rw [← hs.data, fileBytes_eq_view (by omega) hrun le_rfl,
      fileBytes_eq_view (by omega) hrun le_rfl]
    refine List.map_congr_left fun k hk => hview _ ?_
    have hk' : k ≤ f.size.toNat := Nat.lt_succ_iff.mp (List.mem_range.mp hk)
    exact contentBytes_subset (dataBytes_subset hp (dataOffset_mem (by omega) hk'))

/-- **A write** replaces the first bytes of the data. -/
theorem StoredAt.transfer (hs : StoredAt part mem h f) (hp : part.Formatted)
    (hrun : h.toNat + runLength part f.size * part.sectorSize.toNat ≤ 2 ^ 32)
    {buffer : List UInt8} (hn : n ≤ f.size.toNat + 1) (hb : n ≤ buffer.length) :
    StoredAt part (Fs.transfer part (part.blockAddress + h) buffer n mem) h (f.write buffer n) := by
  have hss := hp.le_sectorSize
  have hlen : 2 ≤ runLength part f.size := Nat.le_add_left _ _
  have hmul := Nat.mul_le_mul_right part.sectorSize.toNat hlen
  have hlt : ∀ k < n, k ≤ f.size.toNat := fun k hk => by omega
  constructor
  · -- the data lie behind the header sector
    refine Eq.trans ?_ hs.fields
    refine getField_congr fun o ho => ?_
    rw [view_handle, view_handle]
    refine agreeOff_transfer (by omega) hrun mem buffer hlt _ (by omega) fun hmem => ?_
    have := hmem.1
    omega
  · show fileBytes _ _ (f.size.toNat + 1) _ = buffer.take n ++ f.data.drop n
    have hdata := hs.data
    rw [fileBytes_eq_view (by omega) hrun le_rfl] at hdata
    rw [fileBytes_eq_view (by omega) hrun le_rfl, ← hdata]
    refine List.ext_getElem (by simp; omega) fun k hk _ => ?_
    rw [List.length_map, List.length_range] at hk
    rw [List.getElem_map, List.getElem_range,
      view_transfer (by omega) hrun hlt (Nat.lt_succ_iff.mp hk)]
    split
    · next hkn =>
      rw [List.getElem_append_left (by simp; omega), List.getElem_take,
        List.getD_eq_getElem?_getD, List.getElem?_eq_getElem (by omega), Option.getD_some]
    · next hkn =>
      rw [List.getElem_append_right (by simp; omega), List.getElem_drop, List.getElem_map,
        List.getElem_range]
      congr 3
      rw [List.length_take]
      omega

/-- A setter makes its field what it says, and the getters of the other fields return what they
did. -/
theorem getField_setter (part : Partition) (h : FileHandle) (mem : Memory) {setter : Setter}
    (hr : setter.InRange) :
    getField part h (setter.apply part h mem) = Function.update (getField part h mem) setter.field
      (setter.value (getField part h mem setter.field)) := by
  rw [getField_atHeader, getField_atHeader part h mem, setter.apply_atHeader]
  funext field
  rcases eq_or_ne field setter.field with rfl | hf
  · rw [Function.update_self]
    exact getField_apply_self setter hr
  · rw [Function.update_of_ne hf]
    refine getField_of_agreeOff (setter.agreeOff_field _ mem) fun o ⟨h₁, h₂⟩ ⟨h₃, h₄⟩ => ?_
    have hdisj := HeaderField.disjoint hf
    omega

/-- **A setter** updates its field. -/
theorem StoredAt.set (hs : StoredAt part mem h f) (hp : part.Formatted)
    (hrun : h.toNat + runLength part f.size * part.sectorSize.toNat ≤ 2 ^ 32) {setter : Setter}
    (hr : setter.InRange) :
    StoredAt part (setter.apply part h mem) h (f.set setter) := by
  have hss := hp.le_sectorSize
  have hhead := header_le hp hrun
  have hfields := getField_setter part h mem hr
  rw [hs.fields] at hfields
  refine ⟨hfields, ?_⟩
  rw [StoredFile.size_set]
  show _ = f.data
  rw [← hs.data, fileBytes_eq_view (by omega) hrun le_rfl, fileBytes_eq_view (by omega) hrun le_rfl]
  -- the data lie behind the header
  refine List.map_congr_left fun k hk => ?_
  have hmem : h.toNat + dataOffset part k ∈ dataBytes part h f.size :=
    dataOffset_mem (by omega) (Nat.lt_succ_iff.mp (List.mem_range.mp hk))
  refine agreeOff_setter (by omega) setter _ (hmem.2.1.trans_le hrun) ?_
  rintro ⟨-, hlt, -⟩
  have := hmem.1
  omega

/-- The flag byte is of no other field. -/
theorem getField_flagByte {byte : UInt8} {field : HeaderField} (hf : field ≠ .flag) :
    getField part h (Function.update mem (part.blockAddress + (h + fileOffsetFlag)) byte) field =
      getField part h mem field := by
  have hbyte : part.blockAddress + (h + fileOffsetFlag) =
      (part.atHeader h).blockAddress + (0 + fileOffsetFlag) := by
    rw [Partition.atHeader, UInt32.add_assoc, UInt32.zero_add]
  rw [getField_atHeader, getField_atHeader part h mem, hbyte]
  refine getField_of_agreeOff (agreeOff_setFlagByte (by decide)) fun o ho ho' => ?_
  have hdisj := HeaderField.disjoint hf
  have hoffset : HeaderField.flag.offset = fileOffsetFlag := rfl
  have hlength : HeaderField.flag.length = 1 := rfl
  have h₁ := ho.1
  have h₂ := ho.2
  have h₃ := ho'.1
  have h₄ := ho'.2
  rw [hoffset, hlength] at hdisj
  omega

/-- **The header of a new file**: what `fsFileCreate` sets behind the allocation. -/
theorem created_storedFile {filename : List UInt8}
    (hsize : fsFileGetSize part h (initHeader part h filename mem) = size) :
    (storedFile part (initHeader part h filename mem) h).Created filename size := by
  have hname := fun m => getField_setter part h m (show Setter.InRange (.name filename) from trivial)
  have hattributes := fun m => getField_setter part h m
    (show Setter.InRange (.attributes (chars [' ', 'r', 'w', ' '])) from le_rfl)
  have hnext := fun m => getField_setter part h m (show Setter.InRange (.nextAddress 0) from trivial)
  have hparent := fun m =>
    getField_setter part h m (show Setter.InRange (.parentAddress 0) from trivial)
  -- the loop over the flags, written last, leaves the other fields
  have hfields : ∀ field ≠ .flag, getField part h (initHeader part h filename mem) field =
      getField part h (Setter.apply part h (.parentAddress 0) (Setter.apply part h (.nextAddress 0)
        (Setter.apply part h (.attributes (chars [' ', 'r', 'w', ' ']))
          (Setter.apply part h (.name filename) mem)))) field := fun field hf =>
    getField_flagByte hf
  refine ⟨?_, hsize, ?_, ?_, ?_, ?_, ?_⟩
  · refine (hfields .name (by decide)).trans ?_
    rw [hparent, hnext, hattributes, hname]
    rfl
  · refine (hfields .attributes (by decide)).trans ?_
    rw [hparent, hnext, hattributes]
    rfl
  · funext index
    show fsFileGetFlag part h _ (Function.update _ _ _) = 0
    rw [fsFileGetFlag, Function.update_self]
    simp
  · refine (hfields .parent (by decide)).trans ?_
    rw [hparent]
    rfl
  · refine (hfields .next (by decide)).trans ?_
    rw [hparent, hnext]
    rfl
  · rw [← hsize]
    exact length_fileBytes ..

end StoredAt

/-! ## The store and the device -/

section Stores

variable {part : Partition} {s t : FileStore} {fs fs' : FileSystem} {h : FileHandle}
  {f f' : StoredFile} {i : Fin maxOpenFiles} {mem : Memory}

theorem live_eq (hf : s.files h = some f) : s.live h = some f.size := by
  rw [FileStore.live, hf, Option.map_some]

theorem live_put (s : FileStore) (h : FileHandle) (f : StoredFile) :
    (s.put h f).live = Function.update s.live h (some f.size) := by
  funext k
  simp only [FileStore.live, FileStore.put, Function.update_apply]
  split <;> rfl

theorem live_remove (s : FileStore) (h : FileHandle) :
    (s.remove h).live = Function.update s.live h none := by
  funext k
  simp only [FileStore.live, FileStore.remove, Function.update_apply]
  split <;> rfl

/-- A file of a partition that does not wrap around does not lie at address 0. -/
theorem Owned.address_ne_zero (hp : part.Formatted) (hw : part.NoWrap) {live : Files} {size : UInt32}
    (ho : Owned part mem live) (hl : live h = some size) : part.blockAddress + h ≠ 0 := by
  obtain ⟨h₁, h₂⟩ := ho.run_le hp hl
  have hss := hp.le_sectorSize
  have hlen := Nat.mul_le_mul_right part.sectorSize.toNat
    (show 2 ≤ runLength part size from Nat.le_add_left _ _)
  have hstride := Nat.mul_le_mul_left (part.blockSize.toNat - 1) (show 1 ≤ part.sectorSize.toNat by omega)
  rw [Partition.NoWrap] at hw
  intro h0
  have h0 : (part.blockAddress + h).toNat = 0 := congrArg UInt32.toNat h0
  rw [UInt32.toNat_add] at h0
  omega

theorem Stores.run_le (hs : Stores part s fs) (hp : part.Formatted) (hf : s.files h = some f) :
    h.toNat + runLength part f.size * part.sectorSize.toNat ≤ 2 ^ 32 :=
  hs.owned.run_le_pow hp (live_eq hf)

/-- A slot that stays keeps what it holds, when its file keeps its size. -/
theorem SlotHolds.of_eq (hs : SlotHolds part s fs i) (hslot : t.slots i = s.slots i)
    (hlist : fs'.fileList i = fs.fileList i) (hsize : fs'.fileSize i = fs.fileSize i)
    (hfiles : ∀ h f, s.slots i = .openOn h → s.files h = some f →
      ∃ f', t.files h = some f' ∧ f'.size = f.size) : SlotHolds part t fs' i := by
  rw [SlotHolds] at hs ⊢
  rw [hslot, hlist, hsize]
  cases hi : s.slots i with
  | closed => rwa [hi] at hs
  | stale => rwa [hi] at hs
  | openOn h =>
    rw [hi] at hs
    obtain ⟨hne, f, hf, haddr, hlen⟩ := hs
    obtain ⟨f', hf', heq⟩ := hfiles h f hi hf
    exact ⟨hne, f', hf', haddr, hlen.trans heq.symm⟩

/-- **A change of one file**: its sectors hold the changed file, and the others theirs. -/
theorem Stores.put (hs : Stores part s fs) (hp : part.Formatted) (hw : part.NoWrap)
    (hf : s.files h = some f) (hsize : f'.size = f.size)
    (ha : AgreeOff part.blockAddress (contentBytes part h f.size) fs.memory mem)
    (hst : StoredAt part mem h f') : Stores part (s.put h f') { fs with memory := mem } := by
  have hlive : (s.put h f').live = s.live := by
    rw [live_put, hsize, ← live_eq hf, Function.update_eq_self]
  refine ⟨hlive ▸ hs.owned.of_agreeOff hp (live_eq hf) ha,
    hs.behind.of_run hw hs.owned (live_eq hf) (ha.mono contentBytes_subset), fun h' g hg => ?_,
    fun i => (hs.slots i).of_eq rfl rfl rfl fun h' g _ hg => ?_⟩
  · have hg : Function.update s.files h (some f') h' = some g := hg
    by_cases heq : h' = h
    · subst heq
      rw [Function.update_self] at hg
      obtain rfl := Option.some_inj.mp hg
      exact hst
    · rw [Function.update_of_ne heq] at hg
      exact (hs.stored h' g hg).of_disjoint hp (hs.run_le hp hg) (ha.mono contentBytes_subset)
        (hs.owned.disjoint _ _ _ _ (live_eq hg) (live_eq hf) heq)
  · by_cases heq : h' = h
    · subst heq
      rw [hf] at hg
      obtain rfl := Option.some_inj.mp hg
      exact ⟨f', Function.update_self .., hsize⟩
    · exact ⟨g, (Function.update_of_ne heq ..).trans hg, rfl⟩

/-! ### Files -/

/-- The free sectors are the vacant ones. -/
theorem Stores.free_iff (hs : Stores part s fs) (hp : part.Formatted) {k : ℕ}
    (hk : k < part.sectorCount.toNat) :
    sectorMarker part fs.memory k = sectorFree ↔ s.Vacant part k := by
  constructor
  · intro hfree
    refine ⟨Nat.pos_of_ne_zero fun h0 => hs.owned.device (h0 ▸ hfree), hk, fun h f hf hmem => ?_⟩
    obtain ⟨j, hj, heq⟩ := hs.owned.exists_of_mem_run hp (live_eq hf) hmem
    refine hs.owned.marker_ne_free (live_eq hf) hj ?_
    rw [← heq]
    exact hfree
  · rintro ⟨hpos, -, hout⟩
    refine hs.owned.free k hpos hk fun h size hl => ?_
    obtain ⟨f, hf, rfl⟩ := Option.map_eq_some_iff.mp hl
    exact hout h f hf

theorem Stores.freeRuns_eq (hs : Stores part s fs) (hp : part.Formatted) (size : UInt32) :
    freeRuns part size fs.memory = s.vacantRuns part size := by
  have hlen : 2 ≤ runLength part size := Nat.le_add_left _ _
  ext k
  constructor
  · rintro ⟨hle, hfree⟩ j hj
    exact (hs.free_iff hp (by omega)).mp (hfree j hj)
  · intro hk
    have hlast := (hk (runLength part size - 1) (by omega)).2.1
    exact ⟨by omega, fun j hj => (hs.free_iff hp (by omega)).mpr (hk j hj)⟩

/-- **A creation** puts a file in the first vacant run, or finds none. -/
theorem Stores.create (hs : Stores part s fs) (hp : part.Formatted) (hw : part.NoWrap)
    (filename : List UInt8) (size : UInt32) :
    ∃ r fs' t, answer part (.create filename size) fs = .ok (r, fs') ∧
      Answers part (.create filename size) s r t ∧ Stores part t fs' := by
  have hruns := hs.freeRuns_eq hp size
  rcases room_or_fsAllocate_eq_zero size hp hs.owned.device hs.behind with hr | hfail
  · obtain ⟨h, mem₁, mem, heq, -, hnone, hmem, ho, ha⟩ := hs.owned.create hp hr filename
    obtain ⟨i, hpos, hle, hi⟩ := ho.aligned h size (Function.update_self ..)
    have hl : Function.update s.live h (some size) h = some size := Function.update_self ..
    have hfree : s.files h = none := Option.map_eq_none_iff.mp hnone
    have hcreated : (storedFile part mem h).Created filename size := by
      rw [hmem]
      exact created_storedFile (hmem ▸ (ho.marked h size hl).size_eq)
    -- the files that were there lie off the new run
    have hold : ∀ h' g, s.files h' = some g → h' ≠ h ∧
        Disjoint (runBytes part h' g.size) (runBytes part h size) := by
      intro h' g hg
      have hne : h' ≠ h := by
        rintro rfl
        rw [hfree] at hg
        cases hg
      exact ⟨hne, ho.disjoint h' g.size h size ((Function.update_of_ne hne ..).trans (live_eq hg)) hl
        hne⟩
    refine ⟨.handle h, { fs with memory := mem }, s.put h (storedFile part mem h), ?_,
      .created ⟨fun k hk => ⟨by omega, by omega, fun h' g hg hmem' => ?_⟩, fun j hj => ?_⟩ hi hcreated,
      ?_, hs.behind.of_run hw ho hl ha, fun h' g hg => ?_, fun j => (hs.slots j).of_eq rfl rfl rfl
        fun h' g _ hg => ⟨g, (Function.update_of_ne (hold h' g hg).1 ..).trans hg, rfl⟩⟩
    · simp only [answer, heq]
      rfl
    · refine Set.disjoint_left.mp (hold h' g hg).2 hmem' ⟨?_, ?_⟩
      · rw [hi]
        exact Nat.mul_le_mul_right _ (Nat.le_add_right ..)
      · rw [hi, ← Nat.add_mul]
        exact Nat.mul_lt_mul_of_pos_right (by omega) (by have := hp.le_sectorSize; omega)
    · rw [← hruns] at hj
      have hfirst := firstFit_of_fsFileCreate hp hs.owned.device heq j hj.1 hj.2
      rw [hi] at hfirst
      exact Nat.le_of_mul_le_mul_right hfirst (by have := hp.le_sectorSize; omega)
    · rw [live_put, hcreated.size_eq]
      exact ho
    · have hg : Function.update s.files h (some (storedFile part mem h)) h' = some g := hg
      rcases eq_or_ne h' h with rfl | hne
      · rw [Function.update_self] at hg
        obtain rfl := Option.some_inj.mp hg
        exact ⟨rfl, rfl⟩
      · rw [Function.update_of_ne hne] at hg
        exact (hs.stored h' g hg).of_disjoint hp (hs.run_le hp hg) ha (hold h' g hg).2
  · refine ⟨.handle 0, fs, s, ?_, .full ?_, hs⟩
    · simp only [answer, fsFileCreate_eq_zero hfail]
      rfl
    · rw [← hruns, Set.eq_empty_iff_forall_notMem]
      intro i hi
      obtain ⟨h, _, heq, hne, -⟩ := hs.owned.allocate hp ⟨i, hi⟩
      rw [hfail] at heq
      exact hne (Prod.mk.inj (Except.ok.inj heq)).1.symm

/-- **A deletion** removes a file. -/
theorem Stores.delete (hs : Stores part s fs) (hp : part.Formatted) (hw : part.NoWrap)
    (hf : s.files h = some f) :
    ∃ fs', answer part (.delete h) fs = .ok (.handle h, fs') ∧ Stores part (s.remove h) fs' := by
  obtain ⟨mem, heq, ho, ha⟩ := hs.owned.delete hp (live_eq hf)
  refine ⟨{ fs with memory := mem }, ?_, live_remove s h ▸ ho,
    hs.behind.of_run hw hs.owned (live_eq hf) ha, fun h' g hg => ?_, fun i => ?_⟩
  · simp only [answer, heq]
    rfl
  · have hg : Function.update s.files h none h' = some g := hg
    rcases eq_or_ne h' h with rfl | hne
    · rw [Function.update_self] at hg
      cases hg
    · rw [Function.update_of_ne hne] at hg
      exact (hs.stored h' g hg).of_disjoint hp (hs.run_le hp hg) ha
        (hs.owned.disjoint _ _ _ _ (live_eq hg) (live_eq hf) hne)
  · have hslot := hs.slots i
    by_cases hi : s.slots i = .openOn h
    · -- the slot stays open, on nothing
      rw [SlotHolds, hi] at hslot
      rw [SlotHolds, FileStore.remove]
      simp only [hi, if_true]
      exact hslot.1
    · refine hslot.of_eq (if_neg hi) rfl rfl fun h' g hi' hg => ⟨g, ?_, rfl⟩
      refine (Function.update_of_ne ?_ ..).trans hg
      rintro rfl
      exact hi hi'

/-! ### Slots -/

theorem Stores.closed_iff (hs : Stores part s fs) (i : Fin maxOpenFiles) :
    fs.fileList i = 0 ↔ s.slots i = .closed := by
  have hslot := hs.slots i
  rw [SlotHolds] at hslot
  cases hi : s.slots i with
  | closed =>
    rw [hi] at hslot
    exact iff_of_true hslot rfl
  | openOn h =>
    rw [hi] at hslot
    exact iff_of_false hslot.1 fun h => nomatch h
  | stale =>
    rw [hi] at hslot
    exact iff_of_false hslot fun h => nomatch h

/-- A slot that is set, in the store and in the open table. -/
theorem Stores.setSlot (hs : Stores part s fs) {slot : OpenSlot} {address size : UInt32}
    (hslot : SlotHolds part (s.setSlot i slot) (fs.setSlot i address size) i) :
    Stores part (s.setSlot i slot) (fs.setSlot i address size) := by
  refine ⟨hs.owned, hs.behind, hs.stored, fun j => ?_⟩
  rcases eq_or_ne j i with rfl | hne
  · exact hslot
  · exact (hs.slots j).of_eq (Function.update_of_ne hne ..) (Function.update_of_ne hne ..)
      (Function.update_of_ne hne ..) fun h' g _ hg => ⟨g, hg, rfl⟩

/-- The slot the loop finds is the first that is closed. -/
theorem Stores.isLeast_freeSlot (hs : Stores part s fs) (hi : freeSlot fs = .ok i) :
    IsLeast {i | s.slots i = .closed} i := by
  rw [freeSlot] at hi
  cases hfind : (List.finRange maxOpenFiles).find? fun i => fs.fileList i = 0 with
  | none =>
    rw [hfind] at hi
    cases hi
  | some j =>
    rw [hfind] at hi
    obtain rfl := Except.ok.inj hi
    obtain ⟨hj, as, bs, heq, hbefore⟩ := List.find?_eq_some_iff_append.mp hfind
    refine ⟨(hs.closed_iff j).mp (by simpa using hj), fun k (hk : s.slots k = .closed) => ?_⟩
    -- the slots in front of it are not closed, and the list is in order
    by_contra hlt
    have hsorted := List.pairwise_lt_finRange maxOpenFiles
    rw [heq, List.pairwise_append] at hsorted
    have hmem : k ∈ as ++ j :: bs := heq ▸ List.mem_finRange k
    rcases List.mem_append.mp hmem with hk' | hk'
    · have := hbefore k hk'
      rw [(hs.closed_iff k).mpr hk] at this
      simp at this
    · rcases List.mem_cons.mp hk' with rfl | hk'
      · exact hlt (Fin.le_refl k)
      · exact hlt (Fin.le_of_lt (List.rel_of_pairwise_cons hsorted.2.1 hk'))

/-- **Opening** takes the first closed slot, or finds no file. -/
theorem Stores.openFile (hs : Stores part s fs) (hp : part.Formatted) (hw : part.NoWrap)
    (hq : s.Asks part (.openFile h)) :
    ∃ r fs' t, answer part (.openFile h) fs = .ok (r, fs') ∧
      Answers part (.openFile h) s r t ∧ Stores part t fs' := by
  obtain ⟨hh, k, hk⟩ := hq
  have hslot : ∃ i, fs.fileList i = 0 := ⟨k, (hs.closed_iff k).mpr hk⟩
  cases hf : s.files h with
  | none =>
    -- the handle is that of a vacant sector
    obtain ⟨j, hj, hjh⟩ := hh.resolve_left fun hne => hne hf
    have hfree := (hs.free_iff hp hj.2.1).mpr hj
    rw [sectorMarker, ← hjh, view_toNat] at hfree
    obtain ⟨i, hi, -⟩ := freeSlot_eq_ok hslot
    refine ⟨.index (-1), fs, s, ?_, .absent hf, hs⟩
    simp only [answer, fsFileOpen, hi, ok_bind, if_pos hfree]
    rfl
  | some f =>
    have hm := hs.owned.marked h f.size (live_eq hf)
    have hheader := hm.header
    rw [view_toNat] at hheader
    have hused : fs.memory (part.blockAddress + h) ≠ sectorFree := by
      rw [hheader]
      decide
    obtain ⟨i, hi, -, heq⟩ := fsFileOpen_eq_ok hslot hused
    rw [hm.size_eq] at heq
    refine ⟨.index i, fs.setSlot i (part.blockAddress + h) f.size, s.setSlot i (.openOn h), ?_,
      .opened (fun hnone => by rw [hnone] at hf; cases hf) (hs.isLeast_freeSlot hi),
      hs.setSlot ?_⟩
    · simp only [answer, heq]
      rfl
    · rw [SlotHolds, FileStore.setSlot]
      simp only [Function.update_self, FileSystem.setSlot_fileList, FileSystem.setSlot_fileSize]
      exact ⟨hs.owned.address_ne_zero hp hw (live_eq hf), f, hf, trivial, rfl⟩

theorem natCast_ne_of_slotOf_none {index : File} (h : slotOf index = .ok none)
    (i : Fin maxOpenFiles) : index ≠ (i : ℤ) := by
  rintro rfl
  rw [slotOf_natCast] at h
  cases Except.ok.inj h

/-- **Closing** closes the slot of an index, if that is an open one. -/
theorem Stores.close (hs : Stores part s fs) {index : File} (hq : index ≠ 16) :
    ∃ r fs' t, answer part (.close index) fs = .ok (r, fs') ∧
      Answers part (.close index) s r t ∧ Stores part t fs' := by
  rcases slotOf_eq_ok hq with hnone | ⟨i, hi, rfl⟩
  · refine ⟨.moved 0, fs, s, ?_, .notOpen fun i hi => absurd hi (natCast_ne_of_slotOf_none hnone i),
      hs⟩
    simp only [answer, fsFileClose, hnone, ok_bind]
    rfl
  · by_cases h0 : fs.fileList i = 0
    · refine ⟨.moved 0, fs, s, ?_, .notOpen fun j hj => ?_, hs⟩
      · simp only [answer, fsFileClose, hi, ok_bind, if_pos h0]
        rfl
      · obtain rfl : i = j := Fin.ext (Int.natCast_inj.mp hj)
        exact (hs.closed_iff i).mp h0
    · refine ⟨.moved 1, fs.setSlot i 0 0, s.setSlot i .closed, ?_,
        .closed fun hi => h0 ((hs.closed_iff i).mpr hi), hs.setSlot ?_⟩
      · simp only [answer, fsFileClose, hi, ok_bind, if_neg h0]
        rfl
      · rw [SlotHolds, FileStore.setSlot]
        simp only [Function.update_self, FileSystem.setSlot_fileList]

/-! ### Transfers -/

/-- The index of a transfer is that of a slot a file is open in, or the transfer is refused. -/
theorem Stores.index_cases (hs : Stores part s fs) {index : File} (hindex : index ≠ 16)
    (hstale : ∀ i : Fin maxOpenFiles, index = (i : ℤ) → s.slots i ≠ .stale) :
    ((∀ n, transferSlot index n fs = .ok none) ∧
        ∀ i : Fin maxOpenFiles, index = (i : ℤ) → s.slots i = .closed) ∨
      ∃ (i : Fin maxOpenFiles) (h : FileHandle) (f : StoredFile), index = (i : ℤ) ∧
        s.slots i = .openOn h ∧ s.files h = some f ∧ OpenAt part fs i h f.size := by
  rcases slotOf_eq_ok hindex with hnone | ⟨i, hi, rfl⟩
  · refine Or.inl ⟨fun n => ?_, fun i hi => absurd hi (natCast_ne_of_slotOf_none hnone i)⟩
    rw [transferSlot, hnone]
    rfl
  · have hslot := hs.slots i
    rw [SlotHolds] at hslot
    cases hsi : s.slots i with
    | closed =>
      rw [hsi] at hslot
      refine Or.inl ⟨fun n => ?_, fun j hj => ?_⟩
      · rw [transferSlot, hi, ok_bind]
        exact if_pos hslot
      · obtain rfl : i = j := Fin.ext (Int.natCast_inj.mp hj)
        exact hsi
    | openOn h =>
      rw [hsi] at hslot
      obtain ⟨hne, f, hf, haddr, hsize⟩ := hslot
      exact Or.inr ⟨i, h, f, rfl, hsi, hf, haddr, hne, hsize⟩
    | stale => exact absurd hsi (hstale i rfl)

/-- The acceptance test of the code is that of the store. -/
theorem Stores.accepts_iff (hs : Stores part s fs) (hp : part.Formatted) (hf : s.files h = some f)
    (n : UInt32) : f.Accepts n ↔ ¬ n - 1 ≥ f.size + 2 := by
  have hsize := (hs.owned.fileAt hp (live_eq hf)).size_add_le hp
  have hss := hp.le_sectorSize
  rw [refused_iff n (by omega), not_or, StoredFile.Accepts, Nat.not_lt]

/-- **Writing** replaces the first bytes of the file. -/
theorem Stores.write (hs : Stores part s fs) (hp : part.Formatted) (hw : part.NoWrap) {index : File}
    {buffer : List UInt8} {n : UInt32} (hq : s.Asks part (.write index buffer n)) :
    ∃ r fs' t, answer part (.write index buffer n) fs = .ok (r, fs') ∧
      Answers part (.write index buffer n) s r t ∧ Stores part t fs' := by
  obtain ⟨hindex, hb, hstale⟩ := hq
  rcases hs.index_cases hindex hstale with ⟨hnone, hclosed⟩ | ⟨i, h, f, rfl, hsi, hf, hopen⟩
  · refine ⟨.moved 0, fs, s, ?_, .notWritten fun i hi => Or.inl (hclosed i hi), hs⟩
    simp only [answer, fsFileWrite, hnone, ok_bind]
    rfl
  · by_cases hn : f.Accepts n
    · have hn' := (hs.accepts_iff hp hf n).mp hn
      have hsub := toNat_sub_one hn.1
      have hss := hp.le_sectorSize
      have hle := hn.2
      have hwrite := hopen.write hn' (show (n - 1).toNat ≤ buffer.length by omega)
      rw [hsub] at hwrite
      refine ⟨.moved 1, _, s.put h (f.write buffer (n.toNat - 1)), ?_, .written hsi hf hn,
        hs.put hp hw hf rfl ?_ ((hs.stored h f hf).transfer hp (hs.run_le hp hf) (by omega) (by omega))⟩
      · simp only [answer, hwrite]
        rfl
      · exact (agreeOff_transfer (by omega) (hs.run_le hp hf) fs.memory buffer fun k hk => by
          omega).mono (dataBytes_subset hp)
    · refine ⟨.moved 0, fs, s, ?_, .notWritten fun j hj => Or.inr ⟨h, f, ?_, hf, hn⟩, hs⟩
      · have hrefused := (hopen.refused buffer [] (not_not.mp ((hs.accepts_iff hp hf n).not.mp hn))).1
        simp only [answer, hrefused]
        rfl
      · obtain rfl : i = j := Fin.ext (Int.natCast_inj.mp hj)
        exact hsi

/-- **Reading** gets the first bytes of the file. -/
theorem Stores.read (hs : Stores part s fs) (hp : part.Formatted) {index : File}
    {buffer : List UInt8} {n : UInt32} (hq : s.Asks part (.read index buffer n)) :
    ∃ r, answer part (.read index buffer n) fs = .ok (r, fs) ∧
      Answers part (.read index buffer n) s r s := by
  obtain ⟨hindex, hb, hstale⟩ := hq
  rcases hs.index_cases hindex hstale with ⟨hnone, hclosed⟩ | ⟨i, h, f, rfl, hsi, hf, hopen⟩
  · refine ⟨.bytes 0 buffer, ?_, .gotNothing fun i hi => Or.inl (hclosed i hi)⟩
    simp only [answer, fsFileRead, hnone, ok_bind]
    rfl
  · by_cases hn : f.Accepts n
    · have hn' := (hs.accepts_iff hp hf n).mp hn
      have hsub := toNat_sub_one hn.1
      have hle := hn.2
      have hread := hopen.read hn' (show (n - 1).toNat ≤ buffer.length by omega)
      rw [hsub, ← take_fileBytes part _ fs.memory (show n.toNat - 1 ≤ f.size.toNat + 1 by omega),
        (hs.stored h f hf).data] at hread
      refine ⟨_, ?_, .gotBytes hsi hf hn⟩
      simp only [answer, hread]
      rfl
    · refine ⟨.bytes 0 buffer, ?_, .gotNothing fun j hj => Or.inr ⟨h, f, ?_, hf, hn⟩⟩
      · have hrefused := (hopen.refused [] buffer (not_not.mp ((hs.accepts_iff hp hf n).not.mp hn))).2
        simp only [answer, hrefused]
        rfl
      · obtain rfl : i = j := Fin.ext (Int.natCast_inj.mp hj)
        exact hsi

/-! ## The refinement -/

/-- **The file system simulates the store**: a request a program may make does not fail, and is
answered as the store does. -/
theorem simulates_answer (hp : part.Formatted) (hw : part.NoWrap) :
    Service.Simulates (answer part) (Answers part) (FileStore.Asks part) (Stores part) := by
  intro q s fs hs hq
  cases q with
  | create filename size => exact hs.create hp hw filename size
  | delete h =>
    obtain ⟨f, hf⟩ := Option.ne_none_iff_exists'.mp hq
    obtain ⟨fs', heq, hs'⟩ := hs.delete hp hw hf
    exact ⟨_, fs', _, heq, .deleted, hs'⟩
  | openFile h => exact hs.openFile hp hw hq
  | close index => exact hs.close hq
  | write index buffer n => exact hs.write hp hw hq
  | read index buffer n =>
    obtain ⟨r, heq, hr⟩ := hs.read hp hq
    exact ⟨r, fs, s, heq, hr, hs⟩
  | set h setter =>
    obtain ⟨hlive, hrange⟩ := hq
    obtain ⟨f, hf⟩ := Option.ne_none_iff_exists'.mp hlive
    have hrun := hs.run_le hp hf
    have hhead := header_le hp hrun
    exact ⟨.nothing, _, s.put h (f.set setter), rfl, .set hf, hs.put hp hw hf (f.size_set setter)
      ((agreeOff_setter (by omega) setter).mono (headerFields_subset hp _))
      ((hs.stored h f hf).set hp hrun hrange)⟩
  | get h field =>
    obtain ⟨f, hf⟩ := Option.ne_none_iff_exists'.mp hq
    refine ⟨_, fs, s, ?_, .got hf, hs⟩
    rw [← (hs.stored h f hf).fields]
    rfl

/-- A device of files holds the store of them. -/
theorem stores_fileStoreOf {live : Files} (ho : Owned part mem live)
    (hn : NoFreeBehind part mem) :
    Stores part (fileStoreOf part mem live) (closedFileSystem mem) := by
  have hfile : ∀ {h f}, (fileStoreOf part mem live).files h = some f →
      live h = some f.size ∧ f = storedFile part mem h := by
    intro h f hf
    obtain ⟨size, hl, rfl⟩ := Option.map_eq_some_iff.mp hf
    exact ⟨hl.trans (congrArg some (ho.marked h size hl).size_eq.symm), rfl⟩
  have hlive : (fileStoreOf part mem live).live = live := by
    funext h
    cases hl : live h with
    | none => simp only [FileStore.live, fileStoreOf, hl, Option.map_none]
    | some size =>
      simp only [FileStore.live, fileStoreOf, hl, Option.map_some]
      exact congrArg some (ho.marked h size hl).size_eq
  refine ⟨hlive.symm ▸ ho, hn, fun h f hf => ?_, fun i => rfl⟩
  rw [(hfile hf).2]
  exact ⟨rfl, rfl⟩

/-- **A device just formatted** holds the store of its root directory. -/
theorem stores_format {p : Partition} {beginning ending sectorSize : UInt32}
    (hss : 32 ≤ sectorSize.toNat) (hpart : formatted p beginning ending sectorSize = part)
    (hw : part.NoWrap) (hn : NoFreeBehind part mem) :
    ∃ mem', fsDeviceFormat p beginning ending sectorSize mem = .ok (part, mem') ∧
      Stores part (fileStoreOf part mem' (formatFiles part mem')) (closedFileSystem mem') := by
  have hp : part.Formatted := by
    subst hpart
    exact ⟨hss, rfl⟩
  have hbehind := noFreeBehind_formatHeader hp hw hn
  obtain ⟨mem', heq, ho, ha⟩ := owned_format hp
    (room_or_fsAllocate_eq_zero 30 hp (owned_formatHeader hp).device hbehind) hpart
  refine ⟨mem', heq, stores_fileStoreOf ho
    (hbehind.of_agreeOff hw ha fun i hi hpos hmem => ?_)⟩
  have h₁ := Nat.mul_le_mul_right part.sectorSize.toNat hi
  have h₂ := Nat.mul_le_mul_right part.sectorSize.toNat (show 1 ≤ i from hpos)
  have := hp.le_sectorSize
  obtain ⟨-, h₃ | h₃⟩ := hmem <;> omega

/-- **Every program on a device just formatted** that keeps to the requests of the store is answered
as the store of its files answers: no request fails, a handle is that of the first vacant run, an
index that of the first closed slot, a getter returns what was set, and a read what was last written
to the file, through any requests for other files in between. -/
theorem refines_fileStore {p : Partition} {beginning ending sectorSize : UInt32}
    (hss : 32 ≤ sectorSize.toNat) (hpart : formatted p beginning ending sectorSize = part)
    (hw : part.NoWrap) (hn : NoFreeBehind part mem) :
    ∃ mem', fsDeviceFormat p beginning ending sectorSize mem = .ok (part, mem') ∧
      ∀ program, Service.KeepsTo (Answers part) (FileStore.Asks part) program
          (fileStoreOf part mem' (formatFiles part mem')) →
        ∀ n, ∃ answers fs t,
          Service.serve (answer part) program n [] (closedFileSystem mem') = .ok (answers, fs) ∧
          Service.Allows (Answers part) program (fileStoreOf part mem' (formatFiles part mem'))
            answers t ∧
          Stores part t fs := by
  have hp : part.Formatted := by
    subst hpart
    exact ⟨hss, rfl⟩
  obtain ⟨mem', heq, hstores⟩ := stores_format hss hpart hw hn
  exact ⟨mem', heq, fun program hk n => (simulates_answer hp hw).serve hk hstores n⟩

end Stores

/-! ## A program -/

/-- A program that creates a file, opens it, writes a buffer to it and reads it back. -/
def writeBack (filename buffer out : List UInt8) (size : UInt32) : Service.Client Request Answer
  | [] => some (.create filename size)
  | [.handle h] => if h = 0 then none else some (.openFile h)
  | [.index i, .handle _] => some (.write i buffer size)
  | [.moved _, .index i, .handle _] => some (.read i out size)
  | _ => none

section Program

variable {part : Partition} {s t : FileStore} {filename buffer out : List UInt8} {size : UInt32}
  {h : FileHandle} {index : File} {b : UInt8}

/-- The file is there, and every slot is closed. -/
theorem files_of_created (hs : ∀ i, s.slots i = .closed)
    (h₁ : Service.Allows (Answers part) (writeBack filename buffer out size) s [.handle h] t)
    (h0 : h ≠ 0) : t.files h ≠ none ∧ ∀ i, t.slots i = .closed := by
  obtain ⟨u, q, hu, hq, hstep⟩ := h₁.of_cons
  obtain rfl := Option.some.inj hq
  cases hu
  cases hstep with
  | created => exact ⟨by simp [FileStore.put], hs⟩
  | full => exact absurd rfl h0

/-- The index is that of the slot of the file. -/
theorem slots_of_opened (hs : ∀ i, s.slots i = .closed)
    (h₂ : Service.Allows (Answers part) (writeBack filename buffer out size) s
      [.index index, .handle h] t) :
    t.files h ≠ none ∧ ∃ i : Fin maxOpenFiles, index = (i : ℤ) ∧ t.slots i = .openOn h := by
  obtain ⟨u, q, h₁, hq, hstep⟩ := h₂.of_cons
  by_cases h0 : h = 0
  · rw [writeBack, if_pos h0] at hq
    cases hq
  · rw [writeBack, if_neg h0] at hq
    obtain rfl := Option.some.inj hq
    obtain ⟨hf, -⟩ := files_of_created hs h₁ h0
    cases hstep with
    | opened hh => exact ⟨hh, _, rfl, Function.update_self ..⟩
    | absent hnone => exact absurd hnone hf

/-- The program keeps to the requests of the store, where no file is open. -/
theorem keepsTo_writeBack (hs : ∀ i, s.slots i = .closed) (hb : size.toNat ≤ buffer.length)
    (hout : size.toNat ≤ out.length) :
    Service.KeepsTo (Answers part) (FileStore.Asks part) (writeBack filename buffer out size) s := by
  have hindex : ∀ i : Fin maxOpenFiles, ((i : ℕ) : ℤ) ≠ 16 := fun i hi => by
    have := i.isLt
    rw [show (16 : ℤ) = ((16 : ℕ) : ℤ) from rfl, Int.natCast_inj] at hi
    exact absurd (hi ▸ this) (by decide)
  -- the slot of the index is that of the file, before and after the write
  have hstale : ∀ {t : FileStore} {i : Fin maxOpenFiles} {h : FileHandle}, t.slots i = .openOn h →
      ∀ j : Fin maxOpenFiles, ((i : ℕ) : ℤ) = (j : ℤ) → t.slots j ≠ .stale := by
    intro t i h hi j hij
    rw [← Fin.ext (Int.natCast_inj.mp hij), hi]
    exact fun h => nomatch h
  intro answers t q hallows hq
  unfold writeBack at hq
  split at hq
  · obtain rfl := Option.some.inj hq
    trivial
  · next h =>
    split at hq
    · cases hq
    · next h0 =>
      obtain rfl := Option.some.inj hq
      obtain ⟨hf, hclosed⟩ := files_of_created hs hallows h0
      exact ⟨Or.inl hf, 0, hclosed 0⟩
  · next index h =>
    obtain rfl := Option.some.inj hq
    obtain ⟨-, i, rfl, hi⟩ := slots_of_opened hs hallows
    exact ⟨hindex i, hb, hstale hi⟩
  · next b index h =>
    obtain rfl := Option.some.inj hq
    obtain ⟨u, q, h₂, hq, hstep⟩ := hallows.of_cons
    obtain rfl := Option.some.inj hq
    have hslots : t.slots = u.slots := by cases hstep <;> rfl
    obtain ⟨-, i, rfl, hi⟩ := slots_of_opened hs h₂
    rw [← hslots] at hi
    exact ⟨hindex i, hout, hstale hi⟩
  · cases hq

/-- `refines_fileStore` for the device `kInit` formats and a program that writes three bytes. -/
theorem refines_fileStore_writeBack :
    ∃ mem', fsDeviceFormat ⟨0, 0, 0, 0⟩ 0 32768 32 (fun _ => 0) =
        .ok (formatted ⟨0, 0, 0, 0⟩ 0 32768 32, mem') ∧
      ∃ answers fs t,
        Service.serve (answer (formatted ⟨0, 0, 0, 0⟩ 0 32768 32))
            (writeBack (chars ['a']) [1, 2, 3] [0, 0, 0] 3) 4 [] (closedFileSystem mem') =
          .ok (answers, fs) ∧
        Service.Allows (Answers (formatted ⟨0, 0, 0, 0⟩ 0 32768 32))
          (writeBack (chars ['a']) [1, 2, 3] [0, 0, 0] 3)
          (fileStoreOf (formatted ⟨0, 0, 0, 0⟩ 0 32768 32) mem'
            (formatFiles (formatted ⟨0, 0, 0, 0⟩ 0 32768 32) mem')) answers t := by
  have hn : NoFreeBehind (formatted ⟨0, 0, 0, 0⟩ 0 32768 32) fun _ => 0 := by
    intro i _ _ _
    show (0 : UInt8) ≠ sectorFree
    decide
  obtain ⟨mem', heq, h⟩ := refines_fileStore (by decide) rfl
    (by decide : (formatted ⟨0, 0, 0, 0⟩ 0 32768 32).blockAddress.toNat + _ < _) hn
  obtain ⟨answers, fs, t, hserve, hallows, -⟩ := h
    (writeBack (chars ['a']) [1, 2, 3] [0, 0, 0] 3) (keepsTo_writeBack (fun _ => rfl) (by decide) (by decide)) 4
  exact ⟨mem', heq, answers, fs, t, hserve, hallows⟩

end Program

end MicroKernel.Fs
