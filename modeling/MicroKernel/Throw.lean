import MicroKernel.Command.Console
import MicroKernel.CString
import MicroKernel.Kalloc
import MicroKernel.Watchdog
import MicroKernel.X4.Step

/-!
# The fault screen

`kThrow` of `kernel/throw.c`, up to the loop that halts the kernel. The bytes of an address are
converted one at a time into the two characters of `hexstr`. What is written behind them is kept as
what follows `hexstr` in memory, and every write is recorded.

## Main definitions

* `kThrow`: the console on which the kernel halts, and the writes to `hexstr`
* `ShowsFault`: the screen shows the address, and the writes stay inside `hexstr`

## Main results

* `printed_kThrow`: what the screen shows behind `0x`
* `showsDigits_iff`: when these are the digits of the address
* `not_showsFault`: the writes never stay inside `hexstr`
-/

namespace MicroKernel

open Command (Console)
open CString (intToHexString intToHexString_eq hexDigit hexDigits)
open X4 (haltSegmentationFault)
open Command.Console (printed_print printed_consoleSetCursor printed_consoleCursorDisable)
open Store (wordByte)

variable {F : Type}

/-- `HALT_BAD_ALLOCATION` -/
def haltBadAllocation : UInt32 := 0x50000007

/-- A message, with the zero byte behind it. -/
def message (characters : List Char) : List UInt8 := characters.map Char.toUInt8 ++ [0]

def msgErrorEvent : List UInt8 :=
  message ['F', 'a', 't', 'a', 'l', ' ', 'k', 'e', 'r', 'n', 'e', 'l', ' ', 'e', 'r', 'r', 'o', 'r']
def msgHardwareAddr : List UInt8 := message ['0', 'x']
def msgSegFault : List UInt8 := message ['S', 'I', 'G', '-', 'S', 'E', 'G', 'V']
def msgBadAlloc : List UInt8 := message ['B', 'A', 'D', '-', 'A', 'L', 'L', 'O', 'C']
def msgOutOfMem : List UInt8 := message ['O', 'U', 'T', '-', 'O', 'F', '-', 'M', 'E', 'M']
def msgProgHang : List UInt8 := message ['A', 'P', 'P', '-', 'H', 'A', 'N', 'G']

/-- `print` with the size of the message. -/
def printMessage (msg : List UInt8) (s : Console F) : Console F :=
  s.print msg (UInt8.ofNat msg.length)

/-- The `switch` over the error codes. -/
def printError (errorCode : UInt32) (s : Console F) : Console F :=
  if errorCode = haltBadAllocation then printMessage msgBadAlloc s
  else if errorCode = haltSegmentationFault then printMessage msgSegFault s
  else if errorCode = haltOutOfMemory then printMessage msgOutOfMem s
  else if errorCode = haltAppHang then printMessage msgProgHang s
  else s

/-- The state of the loop of `kThrow`: the console, the memory from `hexstr` on, and the writes to
it. -/
structure Throw (F : Type) where
  console : Console F
  hexstr : ℕ → UInt8
  writes : List (ℕ × UInt8)

/-- One iteration: the byte `3 - i` of the address. -/
def Throw.printByte (address : UInt32) (t : Throw F) (i : ℕ) : Throw F :=
  let console := t.console.consoleSetCursor 7 (UInt8.ofNat (2 + 2 * i))
  let writes := intToHexString (wordByte address (3 - i)).toUInt32
  let hexstr := writes.foldl (fun m w => Function.update m w.1 w.2) t.hexstr
  ⟨console.print ((List.range 3).map hexstr) 3, hexstr, t.writes ++ writes⟩

/-- The console on which the kernel halts, and the writes to `hexstr`, which starts with what is in
memory. -/
def kThrow (errorCode : Int32) (hardwareAddress : UInt32) (hexstr : ℕ → UInt8) (s : Console F) :
    Console F × List (ℕ × UInt8) :=
  let s := s.consoleClearScreen ' '.toUInt8
  let s := s.consoleSetCursor 0 0
  let s := printMessage msgErrorEvent s
  let s := s.consoleSetCursor 6 0
  let s := printError errorCode.toUInt32 s
  let s := s.consoleSetCursor 7 0
  let s := printMessage msgHardwareAddr s
  let t : Throw F := ⟨s, hexstr, []⟩
  let t := (List.range 4).foldl (Throw.printByte (errorCode.toUInt32 + hardwareAddress)) t
  (t.console.consoleCursorDisable, t.writes)

section Printed

variable {s : Console F} {errorCode : Int32} {address hardwareAddress : UInt32} {hexstr : ℕ → UInt8}

/-- The digits of a byte: the first two of the eight are zeros. -/
theorem printed_printByte (address : UInt32) (t : Throw F) (i : ℕ) :
    (t.printByte address i).console.printed =
      t.console.printed ++ ['0'.toUInt8, '0'.toUInt8] := by
  obtain ⟨byte, hbyte⟩ : ∃ byte, wordByte address (3 - i) = byte := ⟨_, rfl⟩
  obtain ⟨hexstr, hhexstr⟩ : ∃ hexstr, (intToHexString byte.toUInt32).foldl
    (fun m w => Function.update m w.1 w.2) t.hexstr = hexstr := ⟨_, rfl⟩
  have hlt := byte.toNat_lt
  have hdigit : ∀ k < 2, hexstr k = '0'.toUInt8 := by
    intro k hk
    rw [← hhexstr, intToHexString_eq, List.foldl_map]
    refine (Store.writeEach_apply (f := id) Function.injective_id.injOn
      (List.mem_range.mpr (show k < 8 by omega))).trans ?_
    have hzero : byte.toUInt32.toNat / 16 ^ (7 - k) = 0 := by
      rw [UInt8.toNat_toUInt32]
      interval_cases k <;> omega
    rw [hzero]
    rfl
  rw [Throw.printByte]
  simp only [hbyte, hhexstr, printed_print, printed_consoleSetCursor]
  refine congrArg _ ?_
  show [hexstr 0, hexstr 1] = _
  rw [hdigit 0 (by decide), hdigit 1 (by decide)]

/-- **What the screen shows** behind `0x` is eight zeros, whatever the address. -/
theorem printed_kThrow (errorCode : Int32) (hardwareAddress : UInt32) (hexstr : ℕ → UInt8)
    (s : Console F) :
    ∃ before, (kThrow errorCode hardwareAddress hexstr s).1.printed =
      before ++ ['0', 'x'].map Char.toUInt8 ++ List.replicate 8 '0'.toUInt8 := by
  rw [kThrow]
  simp only [printed_consoleCursorDisable]
  obtain ⟨r, hr⟩ : ∃ r, (printError errorCode.toUInt32 ((printMessage msgErrorEvent
    ((s.consoleClearScreen ' '.toUInt8).consoleSetCursor 0 0)).consoleSetCursor 6 0)).consoleSetCursor
      7 0 = r := ⟨_, rfl⟩
  have hrange : List.range 4 = [0, 1, 2, 3] := rfl
  rw [hr, hrange]
  simp only [List.foldl_cons, List.foldl_nil, printed_printByte, printMessage, printed_print]
  refine ⟨r.printed, ?_⟩
  simp only [List.append_assoc]
  rfl

/-- The digits of a word are all zeros if it is zero. -/
theorem hexDigits_eq_replicate_iff {n : UInt32} :
    hexDigits n = List.replicate 8 '0'.toUInt8 ↔ n = 0 := by
  constructor
  · intro h
    have hdigit : ∀ d : Fin 16, hexDigit d = '0'.toUInt8 → d = 0 := by decide
    have hzero : ∀ k < 8, n.toNat / 16 ^ k % 16 = 0 := by
      intro k hk
      have hmem := (List.eq_replicate_iff.mp h).2 _
        (List.mem_map_of_mem (List.mem_range.mpr (show 7 - k < 8 by omega)))
      rw [show 7 - (7 - k) = k by omega] at hmem
      exact congrArg Fin.val (hdigit ⟨_, Nat.mod_lt _ (by decide)⟩ hmem)
    have hlow : ∀ k ≤ 8, n.toNat % 16 ^ k = 0 := by
      intro k hk
      induction k with
      | zero => exact Nat.mod_one _
      | succ k ih => rw [Nat.mod_pow_succ, ih (by omega), hzero k (by omega), Nat.mul_zero]
    apply UInt32.toNat_inj.mp
    exact (Nat.mod_eq_of_lt n.toNat_lt).symm.trans (hlow 8 le_rfl)
  · rintro rfl
    rfl

/-- **The digits are those of the address** only if it is zero. -/
theorem showsDigits_iff :
    (∃ before, (kThrow errorCode hardwareAddress hexstr s).1.printed = before ++
      ['0', 'x'].map Char.toUInt8 ++ hexDigits (errorCode.toUInt32 + hardwareAddress)) ↔
      errorCode.toUInt32 + hardwareAddress = 0 := by
  obtain ⟨screen, hscreen⟩ := printed_kThrow errorCode hardwareAddress hexstr s
  rw [← hexDigits_eq_replicate_iff]
  constructor
  · rintro ⟨before, hbefore⟩
    rw [hscreen] at hbefore
    exact (List.append_inj_right' hbefore (by rfl)).symm
  · intro hdigits
    exact ⟨screen, by rw [hscreen, hdigits]⟩

/-- The last byte is converted at `hexstr` too, and its third character is behind it. -/
theorem mem_writes_kThrow (errorCode : Int32) (hardwareAddress : UInt32) (hexstr : ℕ → UInt8)
    (s : Console F) :
    ∃ character, (2, character) ∈ (kThrow errorCode hardwareAddress hexstr s).2 := by
  have hrange : List.range 4 = [0, 1, 2, 3] := rfl
  rw [kThrow, hrange]
  simp only [List.foldl_cons, List.foldl_nil]
  rw [Throw.printByte]
  have hmem : ∀ integer, (2, hexDigit (integer.toNat / 16 ^ (7 - 2) % 16)) ∈
      intToHexString integer := fun integer => by
    rw [intToHexString_eq]
    exact List.mem_map_of_mem (List.mem_range.mpr (by decide))
  exact ⟨_, List.mem_append_right _ (hmem _)⟩

end Printed

/-- The eight characters behind `0x` are the digits of the address, and producing them writes only
inside `hexstr`, of two characters. -/
structure ShowsFault (errorCode : Int32) (hardwareAddress : UInt32) (hexstr : ℕ → UInt8)
    (s : Console F) : Prop where
  digits : ∃ before, (kThrow errorCode hardwareAddress hexstr s).1.printed = before ++
    ['0', 'x'].map Char.toUInt8 ++ hexDigits (errorCode.toUInt32 + hardwareAddress)
  inside : ∀ w ∈ (kThrow errorCode hardwareAddress hexstr s).2, w.1 < 2

/-- **The fault screen** never shows an address without writing outside of `hexstr`. -/
theorem not_showsFault (errorCode : Int32) (hardwareAddress : UInt32) (hexstr : ℕ → UInt8)
    (s : Console F) : ¬ ShowsFault errorCode hardwareAddress hexstr s := by
  intro h
  obtain ⟨character, hmem⟩ := mem_writes_kThrow errorCode hardwareAddress hexstr s
  exact lt_irrefl 2 (h.inside _ hmem)

/-- Memory runs out at boot: the screen does not show the error's code. -/
theorem exists_not_showsFault :
    ∃ errorCode hardwareAddress hexstr, ∃ s : Console Unit,
      ¬ ShowsFault errorCode hardwareAddress hexstr s := by
  refine ⟨haltOutOfMemory.toInt32, 0, fun _ => 0, Console.afterCliInit, fun h => ?_⟩
  exact absurd (showsDigits_iff.mp h.digits) (by decide)

end MicroKernel
