import MicroKernel.Network.Packet

/-!
# Scanning the receive window

`ntPacketReceive` looks for a start byte in the whole window, and for the stop byte 23 bytes further
on, also where that is behind the window. A packet in the window is found before any start byte that
is too late for one.

## Main definitions

* `IsFrame`: the start and the stop byte of a packet stand in the window
* `ScansInBounds`: receiving reads the window only, and reports packets in it only
* `lateIndices`: the indices that leave no room for a packet

## Main results

* `findPacket_in_time`, `findPacket_late`: what the scan finds, and when it leaves the window
* `scansInBounds_iff`: when receiving stays in the window
-/

namespace MicroKernel.Network

open Fs (Fault)

/-- A packet stands in the buffer at an index: all its bytes lie in the buffer, and it has a start
and a stop byte. -/
def IsFrame (buffer : List UInt8) (i : ℕ) : Prop :=
  i + packetEnd < buffer.length ∧ buffer.getD i 0 = packetStartByte ∧
    buffer.getD (i + packetEnd) 0 = packetStopByte

instance (buffer : List UInt8) (i : ℕ) : Decidable (IsFrame buffer i) := instDecidableAnd

/-- Receiving a packet reads inside of the window only, and returns 1 only when a packet stands in
it. -/
def ScansInBounds (packet : NetworkPacket) (clearOldPacket : UInt8) (nic : Nic) : Prop :=
  ∃ result packet' nic', ntPacketReceive packet clearOldPacket nic = .ok (result, packet', nic') ∧
    (result = 1 → ∃ i, IsFrame nic.window i)

section Scan

variable {buffer : List UInt8} {is js : List ℕ}

/-- The scan goes on behind indices at which it finds nothing. -/
theorem findPacket_append_of_none (h : findPacket buffer is = .ok none) :
    findPacket buffer (is ++ js) = findPacket buffer js := by
  induction is with
  | nil => rfl
  | cons i is ih =>
    rw [findPacket] at h
    rw [List.cons_append, findPacket]
    split_ifs at h ⊢ <;> first | cases h | exact ih h

theorem findPacket_append_of_some {i : ℕ} (h : findPacket buffer is = .ok (some i)) :
    findPacket buffer (is ++ js) = .ok (some i) := by
  induction is with
  | nil => cases h
  | cons j is ih =>
    rw [findPacket] at h
    rw [List.cons_append, findPacket]
    split_ifs at h ⊢ <;> first | exact h | exact ih h

/-- At indices that leave room for a packet, the scan finds one if there is one. -/
theorem findPacket_in_time (h : ∀ i ∈ is, i + packetEnd < buffer.length) :
    (findPacket buffer is = .ok none ∧ ∀ i ∈ is, ¬ IsFrame buffer i) ∨
      ∃ i, findPacket buffer is = .ok (some i) ∧ IsFrame buffer i := by
  induction is with
  | nil => exact Or.inl ⟨rfl, fun i hi => absurd hi List.not_mem_nil⟩
  | cons i is ih =>
    obtain ⟨hi, his⟩ := List.forall_mem_cons.mp h
    have hnone : ¬ IsFrame buffer i → (findPacket buffer is = .ok none ∧
        ∀ i ∈ is, ¬ IsFrame buffer i) → findPacket buffer is = .ok none ∧
        ∀ j ∈ i :: is, ¬ IsFrame buffer j :=
      fun hframe hrest => ⟨hrest.1, List.forall_mem_cons.mpr ⟨hframe, hrest.2⟩⟩
    rw [findPacket]
    split_ifs with hstart hstop
    · exact Or.inr ⟨i, rfl, hi, hstart, hstop⟩
    · exact (ih his).imp_left (hnone fun hframe => hstop hframe.2.2)
    · exact (ih his).imp_left (hnone fun hframe => hstart hframe.2.1)

/-- At indices too late for a packet, the scan leaves the buffer at a start byte. -/
theorem findPacket_late (h : ∀ i ∈ is, ¬ i + packetEnd < buffer.length) :
    findPacket buffer is = if ∀ i ∈ is, buffer.getD i 0 ≠ packetStartByte then .ok none
      else .error .outOfBounds := by
  induction is with
  | nil => rfl
  | cons i is ih =>
    obtain ⟨hi, his⟩ := List.forall_mem_cons.mp h
    rw [findPacket, if_neg hi, ih his]
    by_cases hstart : buffer.getD i 0 = packetStartByte
    · rw [if_pos hstart, if_neg fun hall => hall i List.mem_cons_self hstart]
    · simp only [List.forall_mem_cons, ne_eq, hstart, not_false_eq_true, true_and, if_false]

end Scan

/-- The indices that leave no room for a packet in the window. -/
def lateIndices : List ℕ := (List.range packetEnd).map (windowSize - packetEnd + ·)

section Receive

variable {packet : NetworkPacket} {clearOldPacket : UInt8} {nic : Nic}

theorem length_window (nic : Nic) : nic.window.length = windowSize := by
  rw [Nic.window, List.length_map, List.length_range]

theorem scansInBounds_of_some {i : ℕ} (hi : IsFrame nic.window i)
    (h : findPacket nic.window (List.range windowSize) = .ok (some i)) :
    ScansInBounds packet clearOldPacket nic := by
  refine ⟨1, packetAt nic.window i,
    if clearOldPacket = 1 then nic.clearOldPacket i else nic, ?_, fun _ => ⟨i, hi⟩⟩
  rw [ntPacketReceive, h]
  rfl

theorem scansInBounds_of_none (h : findPacket nic.window (List.range windowSize) = .ok none) :
    ScansInBounds packet clearOldPacket nic := by
  refine ⟨0, packet, nic, ?_, fun hzero => absurd hzero (by decide)⟩
  rw [ntPacketReceive, h]
  rfl

theorem not_scansInBounds_of_error
    (h : findPacket nic.window (List.range windowSize) = .error .outOfBounds) :
    ¬ ScansInBounds packet clearOldPacket nic := by
  rintro ⟨result, packet', nic', hreceive, -⟩
  rw [ntPacketReceive, h] at hreceive
  cases hreceive

end Receive

/-- **Receiving stays in the window** exactly when a packet stands in it, or no start byte stands
where it leaves no room for a packet: for every contents of the receive memory. -/
theorem scansInBounds_iff (packet : NetworkPacket) (clearOldPacket : UInt8) (nic : Nic) :
    ScansInBounds packet clearOldPacket nic ↔ (∃ i, IsFrame nic.window i) ∨
      ∀ i, windowSize ≤ i + packetEnd → i < windowSize → nic.window.getD i 0 ≠ packetStartByte := by
  -- the starts that leave room for a packet, and those that do not
  have hsplit : List.range windowSize = List.range (windowSize - packetEnd) ++ lateIndices := by
    show List.range (windowSize - packetEnd + packetEnd) = _
    exact List.range_add
  have hsize : windowSize = 80 := rfl
  have hend : packetEnd = 23 := rfl
  have hlate : (∀ i ∈ lateIndices, nic.window.getD i 0 ≠ packetStartByte) ↔
      ∀ i, windowSize ≤ i + packetEnd → i < windowSize →
        nic.window.getD i 0 ≠ packetStartByte := by
    simp only [lateIndices, List.forall_mem_map, List.mem_range]
    constructor
    · intro h i hle hlt
      have := h (i - (windowSize - packetEnd)) (by omega)
      rwa [show windowSize - packetEnd + (i - (windowSize - packetEnd)) = i by omega] at this
    · exact fun h j hj => h _ (by omega) (by omega)
  have htime : ∀ i ∈ List.range (windowSize - packetEnd), i + packetEnd < nic.window.length := by
    intro i hi
    rw [length_window]
    have := List.mem_range.mp hi
    omega
  rw [← hlate]
  obtain ⟨hnone, hframes⟩ | ⟨i, hsome, hi⟩ := findPacket_in_time htime
  · -- no packet is found in time: the scan comes to the late starts
    have hno : ¬ ∃ i, IsFrame nic.window i := by
      rintro ⟨i, hi⟩
      have hlt := hi.1
      rw [length_window] at hlt
      exact hframes i (List.mem_range.mpr (by omega)) hi
    have hleave : ∀ i ∈ lateIndices, ¬ i + packetEnd < nic.window.length := by
      intro i hi
      obtain ⟨j, hj, rfl⟩ := List.mem_map.mp hi
      rw [length_window]
      omega
    have hscan : findPacket nic.window (List.range windowSize) = _ :=
      (hsplit ▸ findPacket_append_of_none hnone).trans (findPacket_late hleave)
    rw [or_iff_right hno]
    by_cases hstart : ∀ i ∈ lateIndices, nic.window.getD i 0 ≠ packetStartByte
    · rw [if_pos hstart] at hscan
      exact iff_of_true (scansInBounds_of_none hscan) hstart
    · rw [if_neg hstart] at hscan
      exact iff_of_false (not_scansInBounds_of_error hscan) hstart
  · -- the scan ends at a packet
    have hscan : findPacket nic.window (List.range windowSize) = .ok (some i) :=
      hsplit ▸ findPacket_append_of_some hsome
    exact iff_of_true (scansInBounds_of_some hi hscan) (Or.inl ⟨i, hi⟩)

/-- A window with a start byte in its last place, and zeros before it. -/
def lateStart : Nic := .ofWindow (List.replicate 79 0 ++ [packetStartByte])

/-- Receiving does not always stay in the window: a start byte in its last place leads out. -/
theorem not_scansInBounds : ¬ ∀ (packet : NetworkPacket) (clearOldPacket : UInt8) (nic : Nic),
    ScansInBounds packet clearOldPacket nic := by
  intro h
  have herror : findPacket lateStart.window (List.range windowSize) = .error .outOfBounds := by
    decide +kernel
  exact not_scansInBounds_of_error herror (h startBytesPacket 1 lateStart)

end MicroKernel.Network
