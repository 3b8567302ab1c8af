import MicroKernel.Bus.RetroboardRev2
import MicroKernel.Lib.ByteProgram

/-!
# The contents of the Retroboard REV2 bus

Where a window of the cache reaches past the last address, its bounds hold no address, and every
access flushes the cache. The bus answers as a byte array there too: its contents are the memory with
the modified bytes written back, and between the bounds the cache holds just these.

## Main definitions

* `Bus.Current`: between the bounds, the cache holds the contents

## Main results

* `writeBack_busFlushCache`, `writeBack_put`: what the accesses do to the contents
* `busDevice_simulates_writeBack`: the bus answers as the byte array of its contents, at every address
* `memory_eq_writeBack`: the memory holds the contents off one window
-/

namespace MicroKernel.RetroboardRev2

open Store

section Contents

variable {s : Bus} {address a : UInt32} {byte : UInt8} {i : Fin cacheSize}

/-- The addresses of a window are different. -/
theorem add_ofNat_inj {b : UInt32} {j : Fin cacheSize}
    (h : b + UInt32.ofNat i = b + UInt32.ofNat j) : i = j := by
  have h := congrArg UInt32.toNat ((UInt32.add_right_inj b).mp h)
  rw [UInt32.toNat_ofNat', UInt32.toNat_ofNat'] at h
  have hi : i.val < 32 := i.isLt
  have hj : j.val < 32 := j.isLt
  exact Fin.ext (by omega)

/-- A modified byte is written back. -/
theorem writeBack_of_dirty (hi : s.dirtyBits i ≠ 0) :
    writeBack s (s.cacheBegin + UInt32.ofNat i) = s.cache i :=
  writeEach_apply (fun _ _ _ _ h => add_ofNat_inj h) (by simpa using hi)

/-- An address without a modified byte keeps its byte. -/
theorem writeBack_of_clean
    (h : ∀ i : Fin cacheSize, s.cacheBegin + UInt32.ofNat i = a → s.dirtyBits i = 0) :
    writeBack s a = s.memory a :=
  writeEach_of_forall_ne fun i hi he => by simp [h i he] at hi

/-- **The memory holds the contents** off the window of the cache. -/
theorem memory_eq_writeBack (h : ∀ i : Fin cacheSize, s.cacheBegin + UInt32.ofNat i ≠ a) :
    s.memory a = writeBack s a :=
  (writeBack_of_clean fun i hi => absurd hi (h i)).symm

theorem writeBack_powerOn (memory : UInt32 → UInt8) : writeBack (powerOn memory) = memory :=
  funext fun _ => writeBack_of_clean fun _ _ => rfl

/-- **A flush** keeps the contents. -/
theorem writeBack_busFlushCache : writeBack (busFlushCache s address) = writeBack s :=
  funext fun _ => writeBack_of_clean fun _ _ => rfl

/-- **A byte stored in the cache** is stored in the contents. -/
theorem writeBack_put : writeBack (s.put i byte) =
    Function.update (writeBack s) (s.cacheBegin + UInt32.ofNat i) byte := by
  funext a
  by_cases ha : a = s.cacheBegin + UInt32.ofNat i
  · subst ha
    have hi : (s.put i byte).dirtyBits i ≠ 0 := by simp [Bus.put]
    rw [Function.update_self]
    exact (writeBack_of_dirty hi).trans (Function.update_self ..)
  · rw [Function.update_of_ne ha]
    by_cases hd : ∃ j : Fin cacheSize, s.cacheBegin + UInt32.ofNat j = a ∧ s.dirtyBits j ≠ 0
    · obtain ⟨j, rfl, hj⟩ := hd
      have hji : j ≠ i := fun h => ha (h ▸ rfl)
      have hj' : (s.put i byte).dirtyBits j ≠ 0 := by simpa [Bus.put, hji] using hj
      rw [writeBack_of_dirty hj]
      exact (writeBack_of_dirty hj').trans (Function.update_of_ne hji ..)
    · push Not at hd
      have hclean : ∀ j : Fin cacheSize, s.cacheBegin + UInt32.ofNat j = a →
          (s.put i byte).dirtyBits j = 0 := by
        intro j hj
        have hji : j ≠ i := fun h => ha (h ▸ hj.symm)
        simpa [Bus.put, hji] using hd j hj
      rw [writeBack_of_clean hd]
      exact writeBack_of_clean hclean

/-- Between the bounds, the cache holds the contents. -/
def Bus.Current (s : Bus) : Prop := ∀ a (h : s.Hit a), s.cache (s.offset a h) = writeBack s a

theorem cacheBegin_add_offset (h : s.Hit a) :
    s.cacheBegin + UInt32.ofNat (s.offset a h) = a := by
  rw [Bus.offset, Fin.val_mk, UInt32.ofNat_toNat, UInt32.add_comm, UInt32.sub_add_cancel]

theorem current_powerOn (memory : UInt32 → UInt8) : (powerOn memory).Current :=
  fun _ h => absurd h.2 (Nat.not_lt_zero _)

theorem current_busFlushCache : (busFlushCache s address).Current := by
  intro a h
  rw [writeBack_busFlushCache]
  exact congrArg (writeBack s) (cacheBegin_add_offset h)

theorem Bus.Current.put (hs : s.Current) (i : Fin cacheSize) (byte : UInt8) :
    (s.put i byte).Current := by
  intro a h
  have ha := cacheBegin_add_offset (s := s) h
  show Function.update s.cache i byte (s.offset a h) = _
  rw [writeBack_put]
  by_cases hi : s.offset a h = i
  · rw [hi] at ha ⊢
    rw [← ha, Function.update_self, Function.update_self]
  · rw [Function.update_of_ne hi, Function.update_of_ne fun he => hi (add_ofNat_inj (ha.trans he))]
    exact hs a h

theorem zero_add_window : address + UInt32.ofNat ((0 : Fin cacheSize) : ℕ) = address :=
  UInt32.add_zero address

end Contents

/-- **The bus answers as the byte array of its contents**, at every address. -/
theorem busDevice_simulates_writeBack :
    busDevice.Simulates ByteDevice.byteArray (fun _ => True) fun s m =>
      s.Current ∧ writeBack s = m := by
  constructor
  · rintro s _ address ⟨hs, rfl⟩ -
    show (busReadMemory s address).1 = writeBack s address
    rw [busReadMemory]
    split
    · next h => exact hs address h
    · exact congrArg (writeBack s) zero_add_window
  · rintro s _ address ⟨hs, rfl⟩ -
    show (busReadMemory s address).2.Current ∧ writeBack (busReadMemory s address).2 = writeBack s
    rw [busReadMemory]
    split
    · exact ⟨hs, rfl⟩
    · exact ⟨current_busFlushCache, writeBack_busFlushCache⟩
  · rintro s _ address byte ⟨hs, rfl⟩ -
    show (busWriteMemory s address byte).Current ∧
      writeBack (busWriteMemory s address byte) = Function.update (writeBack s) address byte
    rw [busWriteMemory]
    split
    · next h =>
      refine ⟨hs.put _ _, ?_⟩
      rw [writeBack_put, cacheBegin_add_offset h]
    · refine ⟨current_busFlushCache.put _ _, ?_⟩
      rw [writeBack_put, writeBack_busFlushCache]
      exact congrArg (Function.update (writeBack s) · byte) zero_add_window

end MicroKernel.RetroboardRev2
