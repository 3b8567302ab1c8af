import MicroKernel.Lib.Store
import MicroKernel.Lib.WriteBack

/-!
# The RetroAVR x4 bus

The cached bus accesses of `kernel/bus/RetroAVRx4/bus.c`, over a memory whose raw accesses are
those of a byte array. This board keeps no dirty bits: a flush writes back the whole cache. The
zeroed cache of power-on is therefore written over the first 32 bytes of the memory, and the bus
behaves as a byte array whose first 32 bytes are zero.

## Main definitions

* `Bus`: the cache, its bounds, and the memory on the bus
* `busFlushCache`, `busReadMemory`, `busWriteMemory`: the accesses of `bus.c`
* `clearedFirst`: a memory with its first 32 bytes zeroed
* `Transparent`: reads return the bytes written, and the memory changes only where it was written

## Main results

* `busDevice_simulates`: the bus answers as the byte array of its contents
* `memory_final`: the memory after accesses that leave address 0
* `transparent_iff`: when the bus is transparent from power-on
-/

namespace MicroKernel.RetroAvrX4

open WriteBack

/-- `CACHE_SIZE` -/
abbrev cacheSize : ℕ := 32

instance : NeZero cacheSize := ⟨by decide⟩

/-- The globals of `bus.c` and the memory behind the bus. The end bound is inclusive. -/
structure Bus where
  cache : Fin cacheSize → UInt8
  cacheBegin : UInt32
  cacheEnd : UInt32
  memory : UInt32 → UInt8
  end_lt : cacheEnd.toNat < cacheBegin.toNat + cacheSize

namespace Bus

variable {s : Bus} {address : UInt32}

/-- The address lies outside the cache bounds. -/
def Miss (s : Bus) (address : UInt32) : Prop := address < s.cacheBegin ∨ s.cacheEnd < address

instance (s : Bus) (address : UInt32) : Decidable (s.Miss address) := instDecidableOr

theorem not_miss_iff : ¬ s.Miss address ↔
    s.cacheBegin.toNat ≤ address.toNat ∧ address.toNat ≤ s.cacheEnd.toNat := by
  rw [Miss, UInt32.lt_iff_toNat_lt, UInt32.lt_iff_toNat_lt]
  omega

theorem offset_lt (h : ¬ s.Miss address) : (address - s.cacheBegin).toNat < cacheSize := by
  have hl := not_miss_iff.mp h
  have := s.end_lt
  rw [UInt32.toNat_sub_of_le _ _ hl.1]
  omega

end Bus

/-- The state at power-on: everything zero, over any memory. -/
def powerOn (memory : UInt32 → UInt8) : Bus where
  cache := fun _ => 0
  cacheBegin := 0
  cacheEnd := 0
  memory := memory
  end_lt := by decide

/-- The memory once the cache is flushed back to it. -/
def writeBack (s : Bus) : UInt32 → UInt8 :=
  Store.writeEach (fun i : Fin cacheSize => s.cacheBegin + UInt32.ofNat i) s.cache
    (List.finRange cacheSize) s.memory

def busFlushCache (s : Bus) (address : UInt32) : Bus where
  cache := fun i => writeBack s (address + UInt32.ofNat i)
  cacheBegin := address
  cacheEnd := address + UInt32.ofNat cacheSize - 1
  memory := writeBack s
  end_lt := by
    have h : address + UInt32.ofNat 32 - 1 = address + UInt32.ofNat 31 := by
      rw [UInt32.sub_eq_add_neg, UInt32.add_assoc]
      rfl
    rw [h, UInt32.toNat_add, UInt32.toNat_ofNat']
    show _ < address.toNat + 32
    omega

def busReadMemory (s : Bus) (address : UInt32) : UInt8 × Bus :=
  if h : s.Miss address then ((busFlushCache s address).cache 0, busFlushCache s address)
  else (s.cache ⟨(address - s.cacheBegin).toNat, Bus.offset_lt h⟩, s)

def busWriteMemory (s : Bus) (address : UInt32) (byte : UInt8) : Bus :=
  if h : s.Miss address then
    { busFlushCache s address with
      cache := Function.update (busFlushCache s address).cache 0 byte }
  else
    { s with
      cache := Function.update s.cache ⟨(address - s.cacheBegin).toNat, Bus.offset_lt h⟩ byte }

/-- The two accesses as a byte device. -/
def busDevice : ByteDevice Bus UInt32 UInt8 where
  read := busReadMemory
  write := busWriteMemory

/-! ## The write-back cache -/

namespace Bus

variable {s : Bus} {address : UInt32} {byte : UInt8}

/-- The 32 addresses the cache is written back to. -/
def Window (s : Bus) (a : UInt32) : Prop := (a - s.cacheBegin).toNat < cacheSize

instance (s : Bus) (a : UInt32) : Decidable (s.Window a) := inferInstanceAs (Decidable (_ < _))

/-- The write-back cache a state stands for: every address of the window is dirty. -/
def toCache (s : Bus) : Cache UInt32 UInt8 where
  window := {a | s.Window a}
  dirty := {a | s.Window a}
  held := fun a => if h : s.Window a then s.cache ⟨(a - s.cacheBegin).toNat, h⟩ else s.memory a
  memory := s.memory
  dirty_subset := le_rfl

/-- The bytes the bus stands for. -/
noncomputable def contents (s : Bus) : UInt32 → UInt8 := s.toCache.contents

/-- Store a byte in the cache at the offset of an address of the window. -/
def put (s : Bus) (address : UInt32) (byte : UInt8) (h : s.Window address) : Bus :=
  { s with cache := Function.update s.cache ⟨(address - s.cacheBegin).toNat, h⟩ byte }

theorem held_of_window (h : s.Window address) :
    s.toCache.held address = s.cache ⟨(address - s.cacheBegin).toNat, h⟩ := dif_pos h

theorem coherent (s : Bus) : s.toCache.Coherent := fun _ ha hd => absurd ha hd

theorem contents_of_window (h : s.Window address) :
    s.contents address = s.cache ⟨(address - s.cacheBegin).toNat, h⟩ :=
  (Cache.contents_of_mem (s := s.toCache) h).trans (held_of_window h)

theorem contents_of_not_window (h : ¬ s.Window address) : s.contents address = s.memory address :=
  Cache.contents_of_notMem (s := s.toCache) h

/-- Writing back the cache stores its contents. -/
theorem writeBack_eq (s : Bus) : writeBack s = s.contents := by
  funext a
  by_cases h : s.Window a
  · have ha : s.cacheBegin + UInt32.ofNat (a - s.cacheBegin).toNat = a := by
      rw [UInt32.ofNat_toNat, UInt32.add_comm, UInt32.sub_add_cancel]
    have hinj : ∀ i j : Fin cacheSize,
        s.cacheBegin + UInt32.ofNat i = s.cacheBegin + UInt32.ofNat j → i = j := by
      intro i j hij
      have hij' := congrArg UInt32.toNat ((UInt32.add_right_inj _).mp hij)
      have hi : (i : ℕ) < 32 := i.2
      have hj : (j : ℕ) < 32 := j.2
      rw [UInt32.toNat_ofNat', UInt32.toNat_ofNat'] at hij'
      exact Fin.ext (by omega)
    rw [contents_of_window h]
    conv_lhs => rw [← ha]
    exact Store.writeEach_apply (i := (⟨(a - s.cacheBegin).toNat, h⟩ : Fin cacheSize))
      (fun i _ j _ => hinj i j) (List.mem_finRange _)
  · rw [contents_of_not_window h]
    refine Store.writeEach_of_forall_ne fun i _ he => h ?_
    subst he
    show (s.cacheBegin + UInt32.ofNat i - s.cacheBegin).toNat < cacheSize
    rw [UInt32.add_comm, UInt32.add_sub_cancel, UInt32.toNat_ofNat']
    exact (Nat.mod_le _ _).trans_lt i.2

/-- Moving the window keeps the contents. -/
theorem contents_busFlushCache (s : Bus) (address : UInt32) :
    (busFlushCache s address).contents = s.contents := by
  rw [← writeBack_eq s]
  funext a
  by_cases h : (busFlushCache s address).Window a
  · rw [contents_of_window h]
    show writeBack s (address + UInt32.ofNat (a - address).toNat) = writeBack s a
    rw [UInt32.ofNat_toNat, UInt32.add_comm, UInt32.sub_add_cancel]
  · exact contents_of_not_window h

/-- Storing a byte at the offset of an address of the window writes it into the cache. -/
theorem toCache_put (h : s.Window address) (byte : UInt8) :
    (s.put address byte h).toCache = s.toCache.put address byte h := by
  refine Cache.ext rfl (Set.insert_eq_of_mem (s := {a | s.Window a}) h).symm ?_ rfl
  funext a
  show (if ha : s.Window a then Function.update s.cache ⟨_, h⟩ byte ⟨_, ha⟩ else s.memory a) =
    Function.update s.toCache.held address byte a
  by_cases he : a = address
  · subst he
    rw [dif_pos h, Function.update_self, Function.update_self]
  · rw [Function.update_of_ne he]
    refine dite_congr rfl (fun ha => Function.update_of_ne (fun hi => he ?_) _ _) fun _ => rfl
    exact (UInt32.sub_left_inj _).mp (UInt32.toNat_inj.mp (Fin.mk.inj hi))

theorem contents_put (h : s.Window address) (byte : UInt8) :
    (s.put address byte h).contents = Function.update s.contents address byte := by
  rw [contents, toCache_put]
  exact Cache.contents_put h

end Bus

/-! ## The bus answers as its contents -/

/-- The addresses the bus is used at: no window reaches past 24 bits. -/
def Addressable (address : UInt32) : Prop := address.toNat < 2 ^ 24 - 32

section Steps

variable {s : Bus} {address : UInt32} {byte : UInt8}

theorem window_of_not_miss (h : ¬ s.Miss address) : s.Window address := Bus.offset_lt h

theorem window_busFlushCache (s : Bus) (address : UInt32) :
    (busFlushCache s address).Window address := by
  show (address - address).toNat < cacheSize
  rw [UInt32.sub_self]
  decide

/-- A read or write of the bus is one of its cache, flushed first on a miss. -/
theorem busDevice_cases (s : Bus) (address : UInt32) (byte : UInt8) :
    ∃ t, ∃ h : t.Window address,
      (t = s ∧ ¬ s.Miss address ∨ t = busFlushCache s address ∧ s.Miss address) ∧
      busReadMemory s address = (t.cache ⟨(address - t.cacheBegin).toNat, h⟩, t) ∧
      busWriteMemory s address byte = t.put address byte h := by
  by_cases h : s.Miss address
  · have hf := window_busFlushCache s address
    have h0 : (⟨(address - (busFlushCache s address).cacheBegin).toNat, hf⟩ : Fin cacheSize) = 0 :=
      Fin.ext (congrArg UInt32.toNat (UInt32.sub_self (a := address)))
    refine ⟨_, hf, Or.inr ⟨rfl, h⟩, ?_, ?_⟩
    · rw [h0]
      exact dif_pos h
    · rw [Bus.put, h0]
      exact dif_pos h
  · exact ⟨s, window_of_not_miss h, Or.inl ⟨rfl, h⟩, dif_neg h, dif_neg h⟩

/-- **The bus answers as the byte array of its contents.** -/
theorem busDevice_simulates :
    busDevice.Simulates ByteDevice.byteArray (fun _ => True) fun s m => s.contents = m := by
  have key : ∀ {s t : Bus} {address : UInt32},
      t = s ∧ ¬ s.Miss address ∨ t = busFlushCache s address ∧ s.Miss address →
        t.contents = s.contents := by
    rintro s t address (⟨rfl, -⟩ | ⟨rfl, -⟩)
    · rfl
    · exact Bus.contents_busFlushCache s address
  constructor
  · rintro s _ address rfl -
    obtain ⟨t, h, ht, hr, -⟩ := busDevice_cases s address 0
    show (busReadMemory s address).1 = s.contents address
    rw [hr, ← key ht, Bus.contents_of_window h]
  · rintro s _ address rfl -
    obtain ⟨t, h, ht, hr, -⟩ := busDevice_cases s address 0
    show (busReadMemory s address).2.contents = s.contents
    rw [hr]
    exact key ht
  · rintro s _ address byte rfl -
    obtain ⟨t, h, ht, -, hw⟩ := busDevice_cases s address byte
    show (busWriteMemory s address byte).contents = Function.update s.contents address byte
    rw [hw, Bus.contents_put h, key ht]

end Steps

/-! ## From power-on -/

/-- A memory with its first 32 bytes zeroed. -/
def clearedFirst (memory : UInt32 → UInt8) : UInt32 → UInt8 :=
  fun a => if a.toNat < cacheSize then 0 else memory a

theorem contents_powerOn (memory : UInt32 → UInt8) :
    (powerOn memory).contents = clearedFirst memory := by
  funext a
  have hw : (powerOn memory).Window a ↔ a.toNat < cacheSize := by
    show (a - 0).toNat < cacheSize ↔ _
    rw [UInt32.sub_zero]
  by_cases h : a.toNat < cacheSize
  · rw [Bus.contents_of_window (hw.mpr h), clearedFirst, if_pos h]
    rfl
  · rw [Bus.contents_of_not_window (mt hw.mp h), clearedFirst, if_neg h]
    rfl

/-- From power-on the bus answers as the memory with its first 32 bytes zeroed. -/
theorem replies_powerOn (memory : UInt32 → UInt8) (ops : List (Access UInt32 UInt8)) :
    busDevice.replies (powerOn memory) ops =
      ByteDevice.byteArray.replies (clearedFirst memory) ops :=
  busDevice_simulates.replies_eq (contents_powerOn memory) fun _ _ => trivial

/-- Nothing was flushed: the bounds are those of power-on and the memory is the original one. -/
def Cold (memory : UInt32 → UInt8) (s : Bus) : Prop :=
  s.cacheBegin = 0 ∧ s.cacheEnd = 0 ∧ s.memory = memory

theorem Cold.miss_iff {memory : UInt32 → UInt8} {s : Bus} (hs : Cold memory s) (address : UInt32) :
    s.Miss address ↔ address ≠ 0 := by
  obtain ⟨hb, he, -⟩ := hs
  rw [← not_iff_not, Bus.not_miss_iff, hb, he, not_not, ← UInt32.toNat_inj]
  show 0 ≤ address.toNat ∧ address.toNat ≤ 0 ↔ address.toNat = 0
  omega

/-- Accesses at address 0 only flush nothing. -/
theorem cold_final {memory : UInt32 → UInt8} {ops : List (Access UInt32 UInt8)}
    (hops : ∀ x ∈ ops, x.address = 0) : Cold memory (busDevice.final (powerOn memory) ops) := by
  refine busDevice.final_induction ?_ ⟨rfl, rfl, rfl⟩
  intro s hs x hx
  have hm : ¬ s.Miss x.address := (hs.miss_iff _).not.mpr (not_not.mpr (hops x hx))
  cases x with
  | read address =>
    have hr : busReadMemory s address = _ := dif_neg hm
    show Cold memory (busReadMemory s address).2
    rw [hr]
    exact hs
  | write address byte =>
    have hw : busWriteMemory s address byte = _ := dif_neg hm
    show Cold memory (busWriteMemory s address byte)
    rw [hw]
    exact hs

/-- The memory after an access: the contents on a miss, else as before. -/
theorem memory_step (s : Bus) (x : Access UInt32 UInt8) :
    (busDevice.step s x).memory = if s.Miss x.address then s.contents else s.memory := by
  have key : ∀ {t : Bus} {address : UInt32},
      t = s ∧ ¬ s.Miss address ∨ t = busFlushCache s address ∧ s.Miss address →
        t.memory = if s.Miss address then s.contents else s.memory := by
    rintro t address (⟨rfl, h⟩ | ⟨rfl, h⟩)
    · rw [if_neg h]
    · rw [if_pos h]
      exact Bus.writeBack_eq s
  cases x with
  | read address =>
    obtain ⟨t, h, ht, hr, -⟩ := busDevice_cases s address 0
    show (busReadMemory s address).2.memory = _
    rw [hr]
    exact key ht
  | write address byte =>
    obtain ⟨t, h, ht, -, hw⟩ := busDevice_cases s address byte
    show (busWriteMemory s address byte).memory = _
    rw [hw]
    exact key (t := t) ht

/-- Once the memory holds the contents at `a`, it does as long as nothing writes at `a`. -/
theorem memory_final_of_settled {s : Bus} {a : UInt32} {b : UInt8}
    {ops : List (Access UInt32 UInt8)} (hw : ∀ x ∈ ops, ¬ x.WritesAt a)
    (hs : s.contents a = b ∧ s.memory a = b) : (busDevice.final s ops).memory a = b := by
  refine And.right (busDevice.final_induction (Q := fun s => s.contents a = b ∧ s.memory a = b)
    ?_ hs)
  rintro s ⟨hc, hm⟩ x hx
  constructor
  · rw [busDevice_simulates.step rfl trivial]
    exact (ByteDevice.byteArray_final_of_not_writesAt (List.forall_mem_singleton.mpr (hw x hx))).trans
      hc
  · rw [memory_step]
    split
    · exact hc
    · exact hm

/-- **The memory after accesses that leave address 0**, at an address they do not write: the first
32 bytes are zeroed. -/
theorem memory_final {memory : UInt32 → UInt8} {ops : List (Access UInt32 UInt8)}
    (hops : ∃ x ∈ ops, x.address ≠ 0) {a : UInt32} (hw : ∀ x ∈ ops, ¬ x.WritesAt a) :
    (busDevice.final (powerOn memory) ops).memory a = clearedFirst memory a := by
  obtain ⟨pre, x, post, rfl, hpre, hx⟩ : ∃ pre x post, ops = pre ++ x :: post ∧
      (∀ y ∈ pre, y.address = 0) ∧ x.address ≠ 0 := by
    clear hw
    induction ops with
    | nil => simp at hops
    | cons y ops ih =>
      by_cases hy : y.address = 0
      · obtain ⟨x, hx, hx0⟩ := hops
        have hx' : x ∈ ops := (List.mem_cons.mp hx).resolve_left fun he => hx0 (he ▸ hy)
        obtain ⟨pre, z, post, rfl, hpre, hz⟩ := ih ⟨x, hx', hx0⟩
        exact ⟨y :: pre, z, post, rfl, by simpa [hy] using hpre, hz⟩
      · exact ⟨[], y, ops, rfl, by simp, hy⟩
  have hc : (busDevice.final (powerOn memory) pre).contents a = clearedFirst memory a := by
    rw [busDevice_simulates.final (contents_powerOn memory) fun _ _ => trivial]
    exact ByteDevice.byteArray_final_of_not_writesAt fun y hy => hw y (by simp [hy])
  rw [busDevice.final_append, busDevice.final_cons]
  refine memory_final_of_settled (fun y hy => hw y (by simp [hy])) ⟨?_, ?_⟩
  · rw [busDevice_simulates.step rfl trivial]
    exact (ByteDevice.byteArray_final_of_not_writesAt
      (List.forall_mem_singleton.mpr (hw x (by simp)))).trans hc
  · rw [memory_step, if_pos (((cold_final hpre).miss_iff _).mpr hx), hc]

/-! ## Transparency -/

/-- From power-on over `memory`, the reads of `ops` return the bytes a byte array with the same
contents would, and no byte of the memory changes at an address `ops` does not write. -/
def Transparent (memory : UInt32 → UInt8) (ops : List (Access UInt32 UInt8)) : Prop :=
  busDevice.replies (powerOn memory) ops = ByteDevice.byteArray.replies memory ops ∧
    ∀ a, (∀ x ∈ ops, ¬ x.WritesAt a) →
      (busDevice.final (powerOn memory) ops).memory a = memory a

/-- The bus is not transparent: a byte of the memory at address 0 is not seen by the first read. -/
theorem not_transparent :
    ¬ ∀ (memory : UInt32 → UInt8) (ops : List (Access UInt32 UInt8)),
      (∀ x ∈ ops, Addressable x.address) → Transparent memory ops := by
  intro h
  have h₁ := (h (fun _ => 1) [.read 0] (by simp [Addressable])).1
  have h₂ : busDevice.replies (powerOn fun _ => 1) [.read 0] = [0] := by decide
  rw [h₂] at h₁
  exact absurd (List.cons.inj h₁).1 (by decide)

/-- **When the bus is transparent from power-on**: every non-zero byte among the first 32 of the
memory is written before it is read, and is written at all unless every access goes to address
0. -/
theorem transparent_iff (memory : UInt32 → UInt8) (ops : List (Access UInt32 UInt8)) :
    Transparent memory ops ↔
      ∀ a : UInt32, a.toNat < 32 → memory a ≠ 0 → ¬ Access.ReadsFirst a ops ∧
        ((∃ x ∈ ops, x.WritesAt a) ∨ ∀ x ∈ ops, x.address = 0) := by
  -- the first 32 bytes are read as cleared
  have hclear : ∀ a, clearedFirst memory a = memory a ↔ (a.toNat < 32 → memory a = 0) := by
    intro a
    rw [clearedFirst]
    split <;> simp_all [eq_comm]
  have hmem : (∀ a, (∀ x ∈ ops, ¬ x.WritesAt a) →
      (busDevice.final (powerOn memory) ops).memory a = memory a) ↔
        ∀ a : UInt32, a.toNat < 32 → memory a ≠ 0 →
          (∃ x ∈ ops, x.WritesAt a) ∨ ∀ x ∈ ops, x.address = 0 := by
    -- only address 0 is accessed: the cache is never flushed
    by_cases h0 : ∀ x ∈ ops, x.address = 0
    · refine ⟨fun _ _ _ _ => Or.inr h0, fun _ a _ => ?_⟩
      rw [(cold_final h0).2.2]
    · have hne : ∃ x ∈ ops, x.address ≠ 0 := by
        push Not at h0
        exact h0
      refine forall_congr' fun a => ⟨fun h ha hm => Or.inl ?_, fun h hw => ?_⟩
      · by_contra hw
        push Not at hw
        exact hm ((hclear a).mp ((memory_final hne hw).symm.trans (h hw)) ha)
      · rw [memory_final hne hw, hclear]
        intro ha
        by_contra hm
        obtain ⟨x, hx, hxa⟩ := (h ha hm).resolve_right h0
        exact hw x hx hxa
  rw [Transparent, replies_powerOn, ByteDevice.byteArray_replies_eq_iff, hmem]
  constructor
  · rintro ⟨hr, hw⟩ a ha hm
    exact ⟨fun hf => hm ((hclear a).mp (hr a hf) ha), hw a ha hm⟩
  · refine fun h => ⟨fun a hf => (hclear a).mpr fun ha => ?_, fun a ha hm => (h a ha hm).2⟩
    by_contra hm
    exact (h a ha hm).1 hf

end MicroKernel.RetroAvrX4
