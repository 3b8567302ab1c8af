import MicroKernel.Lib.Store
import MicroKernel.Lib.WriteBack

/-!
# The Retroboard REV2 bus

The cached bus accesses of `kernel/bus/Retroboard_REV2/bus.c`, over a memory whose raw accesses are
those of a byte array. The cache is a write-back cache with one dirty flag per byte, and it is
transparent from power-on.

## Main definitions

* `Bus`: the cache, its dirty bits and bounds, and the memory on the bus
* `busFlushCache`, `busReadMemory`, `busWriteMemory`: the accesses of `bus.c`
* `Bus.toCache`: the write-back cache a bus state stands for

## Main results

* `toCache_busFlushCache`, `toCache_put`: the bus refines the write-back cache
* `busDevice_simulates`: the bus answers as the byte array of its contents
* `busCache_transparent`: from power-on, reads return the bytes written, and the memory changes
  only where it was written
-/

namespace MicroKernel.RetroboardRev2

open WriteBack

/-- `CACHE_SIZE` -/
abbrev cacheSize : ℕ := 32

instance : NeZero cacheSize := ⟨by decide⟩

/-- The globals of `bus.c` and the memory behind the bus. The bounds span at most the cache. -/
structure Bus where
  cache : Fin cacheSize → UInt8
  dirtyBits : Fin cacheSize → UInt8
  cacheBegin : UInt32
  cacheEnd : UInt32
  memory : UInt32 → UInt8
  end_le : cacheEnd.toNat ≤ cacheBegin.toNat + cacheSize

namespace Bus

/-- The address lies between the cache bounds. -/
def Hit (s : Bus) (address : UInt32) : Prop := s.cacheBegin ≤ address ∧ address < s.cacheEnd

instance (s : Bus) (address : UInt32) : Decidable (s.Hit address) := instDecidableAnd

variable {s : Bus} {address : UInt32}

theorem hit_iff : s.Hit address ↔
    s.cacheBegin.toNat ≤ address.toNat ∧ address.toNat < s.cacheEnd.toNat := Iff.rfl

theorem Hit.toNat_sub (h : s.Hit address) :
    (address - s.cacheBegin).toNat = address.toNat - s.cacheBegin.toNat :=
  UInt32.toNat_sub_of_le _ _ h.1

theorem Hit.offset_lt (h : s.Hit address) : (address - s.cacheBegin).toNat < cacheSize := by
  have hl := hit_iff.mp h
  have := s.end_le
  rw [h.toNat_sub]
  omega

/-- The index into the cache of an address between the bounds. -/
def offset (s : Bus) (address : UInt32) (h : s.Hit address) : Fin cacheSize :=
  ⟨(address - s.cacheBegin).toNat, h.offset_lt⟩

/-- Store a byte in the cache and mark it as modified. -/
def put (s : Bus) (i : Fin cacheSize) (byte : UInt8) : Bus :=
  { s with
    cache := Function.update s.cache i byte
    dirtyBits := Function.update s.dirtyBits i 1 }

end Bus

/-- The state at power-on: everything zero, over any memory. -/
def powerOn (memory : UInt32 → UInt8) : Bus where
  cache := fun _ => 0
  dirtyBits := fun _ => 0
  cacheBegin := 0
  cacheEnd := 0
  memory := memory
  end_le := by decide

/-- The memory once the modified cache bytes are written back. -/
def writeBack (s : Bus) : UInt32 → UInt8 :=
  Store.writeEach (fun i : Fin cacheSize => s.cacheBegin + UInt32.ofNat i) s.cache
    ((List.finRange cacheSize).filter fun i => s.dirtyBits i ≠ 0) s.memory

def busFlushCache (s : Bus) (address : UInt32) : Bus where
  cache := fun i => writeBack s (address + UInt32.ofNat i)
  dirtyBits := fun _ => 0
  cacheBegin := address
  cacheEnd := address + UInt32.ofNat cacheSize
  memory := writeBack s
  end_le := by
    rw [UInt32.toNat_add]
    exact (Nat.mod_le _ _).trans (Nat.add_le_add_left (Nat.mod_le _ _) _)

def busReadMemory (s : Bus) (address : UInt32) : UInt8 × Bus :=
  if h : s.Hit address then (s.cache (s.offset address h), s)
  else ((busFlushCache s address).cache 0, busFlushCache s address)

def busWriteMemory (s : Bus) (address : UInt32) (byte : UInt8) : Bus :=
  if h : s.Hit address then s.put (s.offset address h) byte
  else (busFlushCache s address).put 0 byte

/-- The two accesses as a byte device. -/
def busDevice : ByteDevice Bus UInt32 UInt8 where
  read := busReadMemory
  write := busWriteMemory

/-! ## The write-back cache -/

namespace Bus

variable {s : Bus} {address : UInt32}

/-- The write-back cache a state stands for: the addresses between the bounds, dirty where the
dirty bit is set. -/
def toCache (s : Bus) : Cache UInt32 UInt8 where
  window := {a | s.Hit a}
  dirty := {a | ∃ h : s.Hit a, s.dirtyBits (s.offset a h) ≠ 0}
  held := fun a => if h : s.Hit a then s.cache (s.offset a h) else s.memory a
  memory := s.memory
  dirty_subset := fun _ h => h.1

theorem held_of_hit (h : s.Hit address) : s.toCache.held address = s.cache (s.offset address h) :=
  dif_pos h

/-- Every dirty bit belongs to an address between the bounds. -/
def DirtyInside (s : Bus) : Prop :=
  ∀ i : Fin cacheSize, s.dirtyBits i ≠ 0 → s.cacheBegin.toNat + i < s.cacheEnd.toNat

/-- The bytes the bus stands for. -/
noncomputable def contents (s : Bus) : UInt32 → UInt8 := s.toCache.contents

theorem toNat_cacheBegin_add (hs : s.DirtyInside) {i : Fin cacheSize} (hi : s.dirtyBits i ≠ 0) :
    (s.cacheBegin + UInt32.ofNat i).toNat = s.cacheBegin.toNat + i := by
  have := hs i hi
  have := s.cacheEnd.toNat_lt
  rw [UInt32.toNat_add, UInt32.toNat_ofNat']
  omega

/-- Writing back the modified bytes stores the dirty bytes of the cache. -/
theorem writeBack_eq (hs : s.DirtyInside) : writeBack s = s.toCache.stored := by
  funext a
  by_cases hd : a ∈ s.toCache.dirty
  · obtain ⟨h, hb⟩ := hd
    have ha : s.cacheBegin + UInt32.ofNat (s.offset a h) = a := by
      rw [offset, Fin.val_mk, UInt32.ofNat_toNat, UInt32.add_comm, UInt32.sub_add_cancel]
    rw [Cache.stored_of_mem (s := s.toCache) ⟨h, hb⟩]
    conv_lhs => rw [← ha]
    rw [writeBack, Store.writeEach_apply ?_ (by simpa using hb), held_of_hit h]
    intro i hi j hj hij
    have hi' := toNat_cacheBegin_add hs (i := i) (by simpa using hi)
    have hj' := toNat_cacheBegin_add hs (i := j) (by simpa using hj)
    have hij' : (s.cacheBegin + UInt32.ofNat i).toNat = (s.cacheBegin + UInt32.ofNat j).toNat :=
      congrArg UInt32.toNat hij
    exact Fin.ext (by omega)
  · rw [Cache.stored_of_notMem hd]
    refine Store.writeEach_of_forall_ne fun i hi he => hd ?_
    have hi : s.dirtyBits i ≠ 0 := by simpa using hi
    have hlt := hs i hi
    have hadd := toNat_cacheBegin_add hs hi
    subst he
    have hh : s.Hit (s.cacheBegin + UInt32.ofNat i) := hit_iff.mpr (by omega)
    have ho : s.offset _ hh = i := Fin.ext (by rw [offset, Fin.val_mk, hh.toNat_sub]; omega)
    exact ⟨hh, by rwa [ho]⟩

/-- Flushing the bus moves the window of the cache. -/
theorem toCache_busFlushCache (hs : s.DirtyInside) :
    (busFlushCache s address).toCache = s.toCache.flush {a | (busFlushCache s address).Hit a} := by
  refine Cache.ext rfl ?_ ?_ (writeBack_eq hs)
  · exact Set.eq_empty_iff_forall_notMem.mpr fun a h => h.2 rfl
  · funext a
    show (if h : (busFlushCache s address).Hit a then _ else writeBack s a) = s.toCache.stored a
    rw [← writeBack_eq hs]
    split
    · rename_i h
      show writeBack s (address + UInt32.ofNat (a - address).toNat) = writeBack s a
      rw [UInt32.ofNat_toNat, UInt32.add_comm, UInt32.sub_add_cancel]
    · rfl

/-- Storing a byte at the index of a held address writes it into the cache. -/
theorem toCache_put (h : s.Hit address) (byte : UInt8) :
    (s.put (s.offset address h) byte).toCache = s.toCache.put address byte h := by
  have key : ∀ a (ha : s.Hit a), s.offset a ha = s.offset address h ↔ a = address := by
    intro a ha
    rw [offset, offset, Fin.mk.injEq, UInt32.toNat_inj, UInt32.sub_left_inj]
  -- the dirty addresses, and the bytes held
  refine Cache.ext rfl ?_ ?_ rfl
  · refine Set.ext fun a => ⟨?_, ?_⟩
    · rintro ⟨ha, hb⟩
      by_cases he : a = address
      · exact Or.inl he
      · refine Or.inr ⟨ha, ?_⟩
        have : Function.update s.dirtyBits (s.offset address h) 1 (s.offset a ha) ≠ 0 := hb
        rwa [Function.update_of_ne (mt (key a ha).mp he)] at this
    · rintro (rfl | ⟨ha, hb⟩)
      · refine ⟨h, ?_⟩
        show Function.update s.dirtyBits (s.offset a h) 1 (s.offset a h) ≠ 0
        rw [Function.update_self]
        decide
      · refine ⟨ha, ?_⟩
        show Function.update s.dirtyBits (s.offset address h) 1 (s.offset a ha) ≠ 0
        rw [Function.update_apply]
        split
        · decide
        · exact hb
  · funext a
    show (if ha : s.Hit a then Function.update s.cache (s.offset address h) byte (s.offset a ha)
      else s.memory a) = Function.update s.toCache.held address byte a
    by_cases he : a = address
    · subst he
      rw [dif_pos h, Function.update_self, Function.update_self]
    · rw [Function.update_of_ne he]
      refine dite_congr rfl (fun ha => ?_) fun _ => rfl
      exact Function.update_of_ne (mt (key a ha).mp he) _ _

end Bus
/-! ## Transparency -/

/-- The dirty bits are inside the bounds and the clean bytes are those of the memory. -/
structure Coherent (s : Bus) : Prop where
  dirtyInside : s.DirtyInside
  coherent : s.toCache.Coherent

/-- The addresses the bus is used at: no window reaches past 24 bits. -/
def Addressable (address : UInt32) : Prop := address.toNat < 2 ^ 24 - 32

theorem coherent_powerOn (memory : UInt32 → UInt8) : Coherent (powerOn memory) where
  dirtyInside := fun _ h => absurd rfl h
  coherent := fun _ ha => absurd ha.2 (Nat.not_lt_zero _)

theorem contents_powerOn (memory : UInt32 → UInt8) : (powerOn memory).contents = memory :=
  funext fun _ => Cache.contents_of_notMem fun ha => absurd ha.2 (Nat.not_lt_zero _)

section Steps

variable {s : Bus} {address : UInt32} {byte : UInt8}

/-- After a flush the address asked for is the first of the window. -/
theorem hit_busFlushCache (ha : Addressable address) : (busFlushCache s address).Hit address := by
  have : address.toNat < 2 ^ 24 - 32 := ha
  refine Bus.hit_iff.mpr ⟨le_rfl, ?_⟩
  show address.toNat < (address + UInt32.ofNat 32).toNat
  rw [UInt32.toNat_add, UInt32.toNat_ofNat']
  omega

theorem offset_busFlushCache (h : (busFlushCache s address).Hit address) :
    (busFlushCache s address).offset address h = 0 := by
  refine Fin.ext ?_
  show (address - address).toNat = 0
  rw [UInt32.sub_self]
  rfl

theorem Coherent.busFlushCache (hs : Coherent s) : Coherent (busFlushCache s address) where
  dirtyInside := fun _ h => absurd rfl h
  coherent := by
    rw [Bus.toCache_busFlushCache hs.dirtyInside]
    exact Cache.coherent_flush

theorem Coherent.contents_busFlushCache (hs : Coherent s) :
    (RetroboardRev2.busFlushCache s address).contents = s.contents := by
  rw [Bus.contents, Bus.toCache_busFlushCache hs.dirtyInside]
  exact hs.coherent.contents_flush

theorem Coherent.put (hs : Coherent s) (h : s.Hit address) :
    Coherent (s.put (s.offset address h) byte) where
  dirtyInside := by
    intro i hi
    by_cases hio : i = s.offset address h
    · have hl := Bus.hit_iff.mp h
      subst hio
      show s.cacheBegin.toNat + (address - s.cacheBegin).toNat < s.cacheEnd.toNat
      rw [h.toNat_sub]
      omega
    · have : Function.update s.dirtyBits (s.offset address h) 1 i ≠ 0 := hi
      rw [Function.update_of_ne hio] at this
      exact hs.dirtyInside i this
  coherent := by
    rw [Bus.toCache_put]
    exact hs.coherent.put h

theorem contents_put (h : s.Hit address) :
    (s.put (s.offset address h) byte).contents = Function.update s.contents address byte := by
  rw [Bus.contents, Bus.toCache_put]
  exact Cache.contents_put h

/-- A held byte is the byte the bus stands for. -/
theorem contents_of_hit (h : s.Hit address) : s.contents address = s.cache (s.offset address h) :=
  (Cache.contents_of_mem (s := s.toCache) h).trans (Bus.held_of_hit h)

end Steps

/-- A read or write of the bus is one of its cache, flushed first on a miss. -/
theorem busDevice_cases (s : Bus) {address : UInt32} (ha : Addressable address) (byte : UInt8) :
    ∃ t, ∃ h : t.Hit address, (t = s ∨ t = busFlushCache s address) ∧
      busReadMemory s address = (t.cache (t.offset address h), t) ∧
      busWriteMemory s address byte = t.put (t.offset address h) byte := by
  by_cases h : s.Hit address
  · exact ⟨s, h, Or.inl rfl, dif_pos h, dif_pos h⟩
  · have hf := hit_busFlushCache (s := s) ha
    refine ⟨_, hf, Or.inr rfl, ?_, ?_⟩
    · rw [offset_busFlushCache hf]
      exact dif_neg h
    · rw [offset_busFlushCache hf]
      exact dif_neg h

/-- **The bus answers as the byte array of its contents.** -/
theorem busDevice_simulates :
    busDevice.Simulates ByteDevice.byteArray Addressable fun s m => Coherent s ∧ s.contents = m := by
  have key : ∀ {s t : Bus} {address : UInt32}, Coherent s →
      t = s ∨ t = busFlushCache s address → Coherent t ∧ t.contents = s.contents := by
    rintro s t address hs (rfl | rfl)
    · exact ⟨hs, rfl⟩
    · exact ⟨hs.busFlushCache, hs.contents_busFlushCache⟩
  constructor
  · rintro s _ address ⟨hs, rfl⟩ ha
    obtain ⟨t, h, ht, hr, -⟩ := busDevice_cases s ha 0
    show (busReadMemory s address).1 = s.contents address
    rw [hr, ← (key hs ht).2, contents_of_hit h]
  · rintro s _ address ⟨hs, rfl⟩ ha
    obtain ⟨t, h, ht, hr, -⟩ := busDevice_cases s ha 0
    show Coherent (busReadMemory s address).2 ∧ (busReadMemory s address).2.contents = s.contents
    rw [hr]
    exact key hs ht
  · rintro s _ address byte ⟨hs, rfl⟩ ha
    obtain ⟨t, h, ht, -, hw⟩ := busDevice_cases s ha byte
    show Coherent (busWriteMemory s address byte) ∧
      (busWriteMemory s address byte).contents = Function.update s.contents address byte
    rw [hw, ← (key hs ht).2]
    exact ⟨(key hs ht).1.put h, contents_put h⟩

/-- An access that does not write at `a` keeps it untouched in the memory. -/
theorem untouched_step {s : Bus} {a : UInt32} {b : UInt8} {x : Access UInt32 UInt8}
    (hs : Coherent s) (hu : s.toCache.Untouched a b) (hx : Addressable x.address)
    (hw : ¬ x.WritesAt a) : (busDevice.step s x).toCache.Untouched a b := by
  have key : ∀ {t : Bus} {address : UInt32}, t = s ∨ t = busFlushCache s address →
      t.toCache.Untouched a b := by
    rintro t address (rfl | rfl)
    · exact hu
    · rw [Bus.toCache_busFlushCache hs.dirtyInside]
      exact hu.flush
  cases x with
  | read address =>
    obtain ⟨t, h, ht, hr, -⟩ := busDevice_cases s (show Addressable address from hx) 0
    show (busReadMemory s address).2.toCache.Untouched a b
    rw [hr]
    exact key ht
  | write address byte =>
    obtain ⟨t, h, ht, -, hw'⟩ := busDevice_cases s (show Addressable address from hx) byte
    show (busWriteMemory s address byte).toCache.Untouched a b
    rw [hw', Bus.toCache_put]
    exact (key ht).put h hw

/-- **The cache is transparent**: from power-on over any memory, the reads of any accesses return
the bytes a byte array with the same contents would, and no byte of the memory changes at an
address no access wrote. -/
theorem busCache_transparent (memory : UInt32 → UInt8) (ops : List (Access UInt32 UInt8))
    (hops : ∀ x ∈ ops, Addressable x.address) :
    busDevice.replies (powerOn memory) ops = ByteDevice.byteArray.replies memory ops ∧
      ∀ a, (∀ x ∈ ops, ¬ x.WritesAt a) →
        (busDevice.final (powerOn memory) ops).memory a = memory a := by
  have h₀ : Coherent (powerOn memory) := coherent_powerOn memory
  refine ⟨busDevice_simulates.replies_eq ⟨h₀, contents_powerOn memory⟩ hops, fun a ha => ?_⟩
  have hu : Coherent (busDevice.final (powerOn memory) ops) ∧
      (busDevice.final (powerOn memory) ops).toCache.Untouched a (memory a) := by
    refine busDevice.final_induction (Q := fun s => Coherent s ∧ s.toCache.Untouched a (memory a))
      ?_ ⟨h₀, ?_, rfl⟩
    · rintro s ⟨hs, hu⟩ x hx
      exact ⟨(busDevice_simulates.step ⟨hs, rfl⟩ (hops x hx)).1,
        untouched_step hs hu (hops x hx) (ha x hx)⟩
    · exact fun hd => hd.2 rfl
  exact hu.2.2

/-- A byte written at address 70 is read back after the window moved away and back. -/
theorem busCache_transparent_example :
    busDevice.replies (powerOn fun a => a.toUInt8)
        [.write 70 9, .read 200, .read 50, .read 70, .read 71] = [200, 50, 9, 71] ∧
      (busDevice.final (powerOn fun a => a.toUInt8)
        [.write 70 9, .read 200, .read 50, .read 70, .read 71]).memory 71 = 71 := by
  have h := busCache_transparent (fun a => a.toUInt8)
    [.write 70 9, .read 200, .read 50, .read 70, .read 71] (by simp [Addressable])
  exact ⟨h.1, h.2 71 (by simp)⟩

end MicroKernel.RetroboardRev2
