import MicroKernel.Board
import Mathlib.Data.List.Dedup

/-!
# The keyboard

The scan codes of `drivers/keyboard/PS2/main.c`. The registers of the keyboard hold a pair of bytes,
from which `kbDecodeScanCode` makes a key. The tests for the two boards are the same but for the order
of the bits, in which the boards wire the data lines, and for the keys that only one of them knows.

## Main definitions

* `ScanCode`: what the two registers hold
* `kbDecodeScanCode`: the key of a scan code
* `keyEntries`: the scan codes that are decoded, with their keys
* `additionalKeys`: the keys that only the RetroAVR x4 decodes

## Main results

* `kbDecodeScanCode_eq_iff`: what is decoded
* `kbDecodeScanCode_reverse`: the two boards agree but for the additional keys
-/

namespace MicroKernel

/-- What the registers of the keyboard hold. -/
structure ScanCode where
  low : UInt8
  high : UInt8
deriving DecidableEq

/-- Tests of `kbDecodeScanCode` behind one another: the low bytes, the keys with their high bytes, and
whether 0 is returned for another high byte. -/
structure ScanGroup where
  low : List UInt8
  keys : List (UInt8 × UInt8)
  returns : Bool

/-- The tests of `kbDecodeScanCode` with `BOARD_RETRO_AVR_X4_REV1`. -/
def scanGroupsX4 : List ScanGroup :=
  [⟨[0x19, 0x99, 0x49, 0x89, 0x09, 0x59, 0xc9, 0x09, 0xd9],
      [(0x23, 0x11)], false⟩,
    ⟨[0x1a, 0x9a, 0x4a, 0x8a, 0x0a, 0x5a, 0xca, 0xda],
      [(0x6b, 0x11)], false⟩,
    ⟨[0xfb],
      [(0x59, 0x05), (0x69, ']'.toUInt8), (0x03, 0xf5), (0x41, 0xf6), (0x05, 0xf7), (0x81, 0xfc),
       (0x09, 'i'.toUInt8), (0x63, 's'.toUInt8), (0x11, 'd'.toUInt8), (0x53, 'f'.toUInt8),
       (0x33, 'h'.toUInt8), (0x71, 'j'.toUInt8), (0x4b, 'l'.toUInt8)], true⟩,
    ⟨[0xf9],
      [(0x23, 0x12), (0x9b, 0x01), (0x6b, 0x02), (0x3b, 0x04), (0xcb, '-'.toUInt8),
       (0xc1, '`'.toUInt8), (0xb9, 0x07), (0x49, '/'.toUInt8), (0x29, 0x27), (0x83, 0xf2),
       (0x43, 0xf8), (0x89, '9'.toUInt8), (0xf1, '8'.toUInt8), (0xb3, '6'.toUInt8),
       (0xd3, '5'.toUInt8), (0x91, '3'.toUInt8), (0xe3, '2'.toUInt8), (0xa1, '1'.toUInt8),
       (0x61, 'z'.toUInt8), (0x13, 'x'.toUInt8), (0x51, 'v'.toUInt8), (0x31, 'b'.toUInt8),
       (0x73, 'm'.toUInt8), (0x0b, 'k'.toUInt8)], true⟩,
    ⟨[0xfa],
      [(0x6b, 0x12), (0xb9, 0x03), (0x51, 0x20), (0x23, 0x09), (0xab, '='.toUInt8), (0x3b, 0x10),
       (0x0b, ','.toUInt8), (0x49, '.'.toUInt8), (0xe9, 0x5c), (0x83, 0xf1), (0x01, 0xf9),
       (0x43, 0xfa), (0x89, '0'.toUInt8), (0xf1, '7'.toUInt8), (0x91, '4'.toUInt8),
       (0x13, 'c'.toUInt8), (0x31, 'n'.toUInt8), (0xa1, 'q'.toUInt8), (0xe3, 'w'.toUInt8),
       (0xd3, 'r'.toUInt8), (0xb3, 'y'.toUInt8), (0xcb, 'p'.toUInt8)], true⟩,
    ⟨[0xf8],
      [(0xbb, 0x06), (0xa3, 0x08), (0xc9, ';'.toUInt8), (0xa9, '['.toUInt8), (0x81, 0xf3),
       (0xc3, 0xf4), (0xb7, 0xfb), (0x93, 'e'.toUInt8), (0xd1, 't'.toUInt8), (0xf3, 'u'.toUInt8),
       (0x8b, 'o'.toUInt8), (0xe1, 'a'.toUInt8), (0xb1, 'g'.toUInt8)], true⟩]

/-- The tests of `kbDecodeScanCode` with `BOARD_RETROBOARD_REV2`. -/
def scanGroupsRev2 : List ScanGroup :=
  [⟨[0x98, 0x99, 0x92, 0x91, 0x90, 0x9a, 0x9b],
      [(0xc4, 0x11)], false⟩,
    ⟨[0x58, 0x59, 0x52, 0x51, 0x50, 0x5a, 0x5b],
      [(0xd6, 0x11)], false⟩,
    ⟨[0xdf],
      [(0x9a, 0x05), (0x96, ']'.toUInt8), (0x90, 'i'.toUInt8), (0xc6, 's'.toUInt8),
       (0x88, 'd'.toUInt8), (0xca, 'f'.toUInt8), (0xcc, 'h'.toUInt8), (0x8e, 'j'.toUInt8),
       (0xd2, 'l'.toUInt8)], true⟩,
    ⟨[0x9f],
      [(0xc4, 0x12), (0xd9, 0x01), (0xd6, 0x02), (0xdc, 0x04), (0xd3, '-'.toUInt8),
       (0x83, '`'.toUInt8), (0x9d, 0x07), (0x92, '/'.toUInt8), (0x94, 0x27), (0x91, '9'.toUInt8),
       (0x8f, '8'.toUInt8), (0xcd, '6'.toUInt8), (0xcb, '5'.toUInt8), (0x89, '3'.toUInt8),
       (0xc7, '2'.toUInt8), (0x85, '1'.toUInt8), (0x86, 'z'.toUInt8), (0xc8, 'x'.toUInt8),
       (0x8a, 'v'.toUInt8), (0x8c, 'b'.toUInt8), (0xce, 'm'.toUInt8), (0xd0, 'k'.toUInt8)], true⟩,
    ⟨[0x5f],
      [(0xd6, 0x12), (0x9d, 0x03), (0x8a, 0x20), (0xc4, 0x09), (0xd5, '='.toUInt8), (0xdc, 0x10),
       (0xd0, ','.toUInt8), (0x92, '.'.toUInt8), (0x97, 0x5c), (0x91, '0'.toUInt8),
       (0x8f, '7'.toUInt8), (0x89, '4'.toUInt8), (0xc8, 'c'.toUInt8), (0x8c, 'n'.toUInt8),
       (0x85, 'q'.toUInt8), (0xc7, 'w'.toUInt8), (0xcb, 'r'.toUInt8), (0xcd, 'y'.toUInt8),
       (0xd3, 'p'.toUInt8)], true⟩,
    ⟨[0x1f],
      [(0xdd, 0x06), (0xc5, 0x08), (0x93, ';'.toUInt8), (0x95, '['.toUInt8), (0xc9, 'e'.toUInt8),
       (0x8b, 't'.toUInt8), (0xcf, 'u'.toUInt8), (0xd1, 'o'.toUInt8), (0x87, 'a'.toUInt8),
       (0x8d, 'g'.toUInt8)], true⟩]

def Board.scanGroups : Board → List ScanGroup
  | retroAvrX4Rev1 => scanGroupsX4
  | retroboardRev2 => scanGroupsRev2

/-- The tests, in their order. -/
def decodeGroups (code : ScanCode) : List ScanGroup → UInt8
  | [] => 0x00
  | group :: groups =>
    if code.low ∈ group.low then
      match group.keys.lookup code.high with
      | some key => key
      | none => if group.returns then 0x00 else decodeGroups code groups
    else decodeGroups code groups

def kbDecodeScanCode (board : Board) (code : ScanCode) : UInt8 :=
  decodeGroups code board.scanGroups

/-! ## What is decoded -/

/-- The scan codes of a group, with their keys. -/
def ScanGroup.entries (group : ScanGroup) : List (ScanCode × UInt8) :=
  group.low.flatMap fun low => group.keys.map fun key => (⟨low, key.1⟩, key.2)

/-- The scan codes that a board decodes, with their keys. -/
def keyEntries (board : Board) : List (ScanCode × UInt8) :=
  board.scanGroups.flatMap ScanGroup.entries

/-- A byte with its bits in the other order. -/
def reverseBits (byte : UInt8) : UInt8 := ⟨byte.toBitVec.reverse⟩

/-- A scan code as the other board wires it. -/
def ScanCode.reverse (code : ScanCode) : ScanCode := ⟨reverseBits code.low, reverseBits code.high⟩

/-- The keys that only the RetroAVR x4 decodes, with the scan codes as the Retroboard wires them: two
more scan codes of the shift keys, and the function keys. -/
def additionalKeys : List (ScanCode × UInt8) :=
  [(⟨0x93, 0xc4⟩, 0x11), (⟨0x53, 0xd6⟩, 0x11), (⟨0x5f, 0xc1⟩, 0xf1), (⟨0x9f, 0xc1⟩, 0xf2),
    (⟨0x1f, 0x81⟩, 0xf3), (⟨0x1f, 0xc3⟩, 0xf4), (⟨0xdf, 0xc0⟩, 0xf5), (⟨0xdf, 0x82⟩, 0xf6),
    (⟨0xdf, 0xa0⟩, 0xf7), (⟨0x9f, 0xc2⟩, 0xf8), (⟨0x5f, 0x80⟩, 0xf9), (⟨0x5f, 0xc2⟩, 0xfa),
    (⟨0x1f, 0xed⟩, 0xfb), (⟨0xdf, 0x81⟩, 0xfc)]

section Decode

variable {board : Board} {code : ScanCode} {key : UInt8} {group : ScanGroup} {groups : List ScanGroup}

theorem mem_entries :
    (code, key) ∈ group.entries ↔ code.low ∈ group.low ∧ (code.high, key) ∈ group.keys := by
  constructor
  · intro h
    obtain ⟨low, hlow, h⟩ := List.mem_flatMap.mp h
    obtain ⟨⟨high, key'⟩, hkey, heq⟩ := List.mem_map.mp h
    obtain ⟨rfl, rfl⟩ := Prod.ext_iff.mp heq
    exact ⟨hlow, hkey⟩
  · rintro ⟨hlow, hkey⟩
    exact List.mem_flatMap.mpr ⟨code.low, hlow, List.mem_map.mpr ⟨(code.high, key), hkey, rfl⟩⟩

/-- What is looked up is an entry, and an entry is looked up where no two have the same key. -/
theorem lookup_eq_some_iff {α β : Type} [DecidableEq α] {l : List (α × β)}
    (hl : (l.map Prod.fst).Nodup) {a : α} {b : β} : l.lookup a = some b ↔ (a, b) ∈ l := by
  induction l with
  | nil => exact iff_of_false (fun h => by cases h) List.not_mem_nil
  | cons entry l ih =>
    obtain ⟨hnot, hl⟩ := List.nodup_cons.mp hl
    rw [List.lookup_cons, List.mem_cons]
    by_cases heq : a = entry.1
    · subst heq
      have hself : (entry.1 == entry.1) = true := beq_self_eq_true _
      rw [hself]
      constructor
      · intro h
        exact .inl (Prod.ext rfl (Option.some.inj h).symm)
      · rintro (h | h)
        · exact congrArg (fun entry => some entry.2) h.symm
        · exact absurd (List.mem_map.mpr ⟨_, h, rfl⟩) hnot
    · rw [beq_eq_false_iff_ne.mpr heq, ← ih hl, or_iff_right]
      intro h
      exact heq (congrArg Prod.fst h)

/-- **What is decoded** are the entries, where no two groups have a low byte in common. -/
theorem decodeGroups_eq_iff (hlow : (groups.flatMap fun group => group.low.dedup).Nodup)
    (hhigh : ∀ group ∈ groups, (group.keys.map Prod.fst).Nodup) (hkey : key ≠ 0) :
    decodeGroups code groups = key ↔ (code, key) ∈ groups.flatMap ScanGroup.entries := by
  induction groups with
  | nil => exact iff_of_false (fun h => hkey h.symm) List.not_mem_nil
  | cons group groups ih =>
    rw [List.flatMap_cons] at hlow ⊢
    obtain ⟨-, hlow, hdisjoint⟩ := List.nodup_append.mp hlow
    have hrest := ih hlow fun group' h => hhigh group' (List.mem_cons_of_mem _ h)
    have hgroup : group.keys.lookup code.high = some key ↔ (code.high, key) ∈ group.keys :=
      lookup_eq_some_iff (hhigh group List.mem_cons_self)
    rw [decodeGroups, List.mem_append, mem_entries, ← hgroup, ← hrest]
    by_cases hmem : code.low ∈ group.low
    · -- the groups behind do not have the low byte
      have hnot : decodeGroups code groups ≠ key := by
        intro h
        obtain ⟨group', hgroup', hentry⟩ := List.mem_flatMap.mp (hrest.mp h)
        exact hdisjoint _ (List.mem_dedup.mpr hmem) _
          (List.mem_flatMap.mpr ⟨group', hgroup', List.mem_dedup.mpr (mem_entries.mp hentry).1⟩) rfl
      rw [if_pos hmem, or_iff_left hnot, and_iff_right hmem]
      cases hlookup : group.keys.lookup code.high with
      | some key' => exact Option.some_inj.symm
      | none =>
        refine iff_of_false ?_ fun h => by cases h
        show (if group.returns then 0x00 else decodeGroups code groups) ≠ key
        split
        · exact hkey.symm
        · exact hnot
    · rw [if_neg hmem, or_iff_right fun h => hmem h.1]

theorem ne_zero_of_mem_keyEntries {entry : ScanCode × UInt8} (h : entry ∈ keyEntries board) :
    entry.2 ≠ 0 := by
  have hall : ∀ board, ∀ entry ∈ keyEntries board, entry.2 ≠ 0 := by
    intro board
    cases board <;> decide
  exact hall board entry h

/-- **A scan code is decoded** to a key if and only if it is an entry of the key. -/
theorem kbDecodeScanCode_eq_iff (hkey : key ≠ 0) :
    kbDecodeScanCode board code = key ↔ (code, key) ∈ keyEntries board := by
  have hlow : (board.scanGroups.flatMap fun group => group.low.dedup).Nodup := by
    cases board <;> decide
  have hhigh : ∀ group ∈ board.scanGroups, (group.keys.map Prod.fst).Nodup := by
    cases board <;> decide
  exact decodeGroups_eq_iff hlow hhigh hkey

theorem reverseBits_reverseBits (byte : UInt8) : reverseBits (reverseBits byte) = byte :=
  congrArg UInt8.ofBitVec BitVec.reverse_reverse_eq

theorem ScanCode.reverse_reverse (code : ScanCode) : code.reverse.reverse = code := by
  rw [reverse, reverse, reverseBits_reverseBits, reverseBits_reverseBits]

/-- The entries of the RetroAVR x4 are those of the Retroboard and the additional keys, with their
bits in the other order. -/
theorem mem_keyEntries_reverse :
    (code.reverse, key) ∈ keyEntries .retroAvrX4Rev1 ↔
      (code, key) ∈ keyEntries .retroboardRev2 ∨ (code, key) ∈ additionalKeys := by
  have hreverse : ∀ entry ∈ keyEntries .retroAvrX4Rev1,
      (entry.1.reverse, entry.2) ∈ keyEntries .retroboardRev2 ++ additionalKeys := by
    decide +kernel
  have hentries : ∀ entry ∈ keyEntries .retroboardRev2 ++ additionalKeys,
      (entry.1.reverse, entry.2) ∈ keyEntries .retroAvrX4Rev1 := by
    decide +kernel
  rw [← List.mem_append]
  constructor
  · intro h
    have h := hreverse _ h
    rwa [ScanCode.reverse_reverse] at h
  · exact hentries (code, key)

/-- **The boards decode the same keys**, with the data lines in the other order, but for the additional
keys of the RetroAVR x4, which the Retroboard does not decode. -/
theorem kbDecodeScanCode_reverse (code : ScanCode) :
    kbDecodeScanCode .retroAvrX4Rev1 code.reverse =
        (additionalKeys.lookup code).getD (kbDecodeScanCode .retroboardRev2 code) ∧
      ((additionalKeys.lookup code).isSome → kbDecodeScanCode .retroboardRev2 code = 0) := by
  have hnodup : (additionalKeys.map Prod.fst).Nodup := by decide
  have hnone : ∀ entry ∈ additionalKeys, kbDecodeScanCode .retroboardRev2 entry.1 = 0 := by
    decide +kernel
  have hdecode : ∀ key ≠ 0, kbDecodeScanCode .retroAvrX4Rev1 code.reverse = key ↔
      kbDecodeScanCode .retroboardRev2 code = key ∨ (code, key) ∈ additionalKeys := fun key hkey => by
    rw [kbDecodeScanCode_eq_iff hkey, kbDecodeScanCode_eq_iff hkey, mem_keyEntries_reverse]
  cases hlookup : additionalKeys.lookup code with
  | some key =>
    -- an additional key
    have hmem := (lookup_eq_some_iff hnodup).mp hlookup
    have hzero : ∀ entry ∈ additionalKeys, entry.2 ≠ 0 := by decide
    exact ⟨(hdecode key (hzero _ hmem)).mpr (.inr hmem), fun _ => hnone _ hmem⟩
  | none =>
    have hnot : ∀ key, (code, key) ∉ additionalKeys := by
      intro key hmem
      rw [(lookup_eq_some_iff hnodup).mpr hmem] at hlookup
      cases hlookup
    refine ⟨?_, fun h => by cases h⟩
    rw [Option.getD_none]
    by_cases hkey : kbDecodeScanCode .retroboardRev2 code = 0
    · -- neither board knows the scan code
      rw [hkey]
      by_contra hne
      rcases (hdecode _ hne).mp rfl with h | h
      · rw [hkey] at h
        exact hne h.symm
      · exact hnot _ h
    · exact (hdecode _ hkey).mpr (.inl rfl)

end Decode

end MicroKernel
