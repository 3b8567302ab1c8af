import MicroKernel.CString
import MicroKernel.Command.Editor
import MicroKernel.Fs.File

/-!
# Printing

The rest of `kernel/syscalls/print/print.c`, the settings of the console in `kernel/command/cli.c`, and
the line of `kernel/version.c`. Printing moves the cursor and writes to the display, and changes nothing
else of the console.

## Main definitions

* `Console.printSpace`, `Console.printInt`, `Console.consoleSetPrompt`, `Console.kPrintVersion`
* `Prints`: a console that has shown a text
* `decimal`: the characters of a decimal numeral

## Main results

* `prints_print`, `prints_printInt`, `prints_printLn`, `prints_printPrompt`: what is shown
* `prints_kPrintVersion`: the first line that the kernel shows
-/

namespace MicroKernel.Command

open Fs (Fault ok_bind chars)

variable {F : Type}

namespace Console

def printSpace (numberOfSpaces : UInt8) (s : Console F) : Console F :=
  let s := (List.range numberOfSpaces.toNat).foldl (fun s i =>
    let s := s.displayWrite 0x00002 s.consolePosition
    let s := s.displayWrite (0x00010 + UInt32.ofNat i) space
    { s with consolePosition := s.consolePosition + 1 }) (s.displayWrite 0x00001 s.consoleLine)
  s.consoleSetCursorPosition s.consolePosition

/-- The characters of `string` are written before they are read, so that it does not matter what the
array holds at first. -/
def printInt (integer : UInt32) (s : Console F) : Except Fault (Console F) := do
  let (place, string) ← CString.intToString integer fun _ => 0
  if integer = 0 then return s.printChar '0'.toUInt8
  let place := if place = 0 then place + 1 else place
  let s := s.displayWrite 0x00001 s.consoleLine
  let s := s.displayWrite 0x00002 s.consolePosition
  let s := (List.range place.toNat).foldl (fun s i =>
    s.displayWrite (0x00010 + UInt32.ofNat i) (string i)) s
  return s.consoleSetCursorPosition (s.consolePosition + (place / 2 + 1))

def consoleSetBlinkRate (rate : UInt8) (s : Console F) : Console F :=
  { s with cursorBlinkRate := rate }.displayWrite 3 rate

def consoleSetPrompt (prompt : List UInt8) (length : UInt8) (s : Console F) : Console F :=
  { s with
    consolePrompt := prompt.take length.toNat ++ s.consolePrompt.drop length.toNat
    consolePromptLength := length }

/-- `_KERNEL_VERSION_MAJOR__`, `_KERNEL_VERSION_MINOR__`, `_KERNEL_VERSION_PATCH__` -/
def versionMajor : UInt8 := 0
def versionMinor : UInt8 := 1
def versionPatch : UInt8 := 0

def kernelHelloWorldString : List UInt8 := chars ['k', 'e', 'r', 'n', 'e', 'l'] ++ [0]

def kPrintVersion (s : Console F) : Except Fault (Console F) := do
  let s := s.consoleSetBlinkRate 60
  let s := s.print kernelHelloWorldString (UInt8.ofNat kernelHelloWorldString.length)
  let s := s.printSpace 1
  let s := s.printChar 'v'.toUInt8
  let s ← s.printInt versionMajor.toUInt32
  let s := s.printChar '.'.toUInt8
  let s ← s.printInt versionMinor.toUInt32
  let s := s.printChar '.'.toUInt8
  let s ← s.printInt versionPatch.toUInt32
  return s.printLn

end Console

/-- The characters of a decimal numeral. -/
def decimal (n : UInt32) : List UInt8 :=
  if n = 0 then ['0'.toUInt8] else ((Nat.digits 10 n.toNat).map CString.digitChar).reverse

/-- The console `t` is `s`, with the text shown behind what was shown before. -/
structure Prints (text : List UInt8) (s t : Console F) : Prop where
  frame : ∃ line position display,
    t = { s with consoleLine := line, consolePosition := position, display := display }
  line_lt : s.consoleLine.toNat < 8 → t.consoleLine.toNat < 8
  printed : t.printed = s.printed ++ text

section Prints

variable {s t u : Console F} {text text' : List UInt8}

theorem Prints.trans (h : Prints text s t) (h' : Prints text' t u) : Prints (text ++ text') s u := by
  obtain ⟨line, position, display, rfl⟩ := h.frame
  obtain ⟨line', position', display', rfl⟩ := h'.frame
  refine ⟨⟨line', position', display', rfl⟩, fun hlt => h'.line_lt (h.line_lt hlt), ?_⟩
  rw [h'.printed, h.printed, List.append_assoc]

theorem Prints.refl (s : Console F) : Prints [] s s :=
  ⟨⟨_, _, _, rfl⟩, id, (List.append_nil _).symm⟩

/-- A write to a register that shows no character. -/
theorem prints_displayWrite {address : UInt32} (h : address < 0x00010) (byte : UInt8) :
    Prints [] s (s.displayWrite address byte) := by
  refine ⟨⟨_, _, _, rfl⟩, id, ?_⟩
  rw [Console.printed_displayWrite, if_neg (UInt32.not_le.mpr h)]

/-- A character written to the display. -/
theorem prints_character {i : ℕ} (hi : i < 256) (character : UInt8) :
    Prints [character] s (s.displayWrite (0x00010 + UInt32.ofNat i) character) := by
  have hregister : (0x00010 : UInt32) ≤ 0x00010 + UInt32.ofNat i := by
    have h16 : (0x00010 : UInt32).toNat = 16 := rfl
    rw [UInt32.le_iff_toNat_le, UInt32.toNat_add, UInt32.toNat_ofNat']
    omega
  refine ⟨⟨_, _, _, rfl⟩, id, ?_⟩
  rw [Console.printed_displayWrite, if_pos hregister]

/-- A change of the position. -/
theorem prints_position (position : UInt8) : Prints [] s { s with consolePosition := position } :=
  ⟨⟨_, _, _, rfl⟩, id, (List.append_nil _).symm⟩

theorem prints_consoleSetCursorPosition (position : UInt8) :
    Prints [] s (s.consoleSetCursorPosition position) :=
  (prints_position position).trans (prints_displayWrite (by decide) position)

/-- A move of the cursor to one of the rows. -/
theorem prints_consoleSetCursor {line : UInt8} (hline : line.toNat < 8) (position : UInt8) :
    Prints [] s (s.consoleSetCursor line position) :=
  ⟨⟨line, position, _, rfl⟩, fun _ => hline, by
    rw [Console.printed_consoleSetCursor, List.append_nil]⟩

theorem prints_printChar (character : UInt8) : Prints [character] s (s.printChar character) :=
  (((prints_displayWrite (by decide) _).trans (prints_displayWrite (by decide) _)).trans
    (prints_character (i := 0) (by decide) character)).trans (prints_position _)

/-- A loop that shows a character with each pass. -/
theorem prints_foldl {step : Console F → ℕ → Console F} {character : ℕ → UInt8} {n : ℕ}
    (hstep : ∀ i < n, ∀ text t, Prints text s t → Prints [character i] t (step t i)) :
    Prints ((List.range n).map character) s ((List.range n).foldl step s) := by
  induction n with
  | zero => exact .refl s
  | succ n ih =>
    rw [List.range_succ, List.foldl_append, List.map_append]
    have h := ih fun i hi => hstep i (Nat.lt_succ_of_lt hi)
    exact h.trans (hstep n (Nat.lt_succ_self n) _ _ h)

theorem map_range_getD (string : List UInt8) {n : ℕ} (hn : n ≤ string.length) :
    ((List.range n).map fun i => string.getD i 0) = string.take n := by
  refine List.ext_getElem (by simp [hn]) fun i hi hi' => ?_
  rw [List.length_map, List.length_range] at hi
  rw [List.getElem_map, List.getElem_range, List.getElem_take,
    List.getD_eq_getElem _ _ (hi.trans_le hn)]

/-- **A string** is shown up to its terminator. -/
theorem prints_print (string : List UInt8) (length : UInt8) (hlength : length.toNat - 1 ≤ string.length) :
    Prints (string.take (length.toNat - 1)) s (s.print string length) := by
  have hlt := length.toNat_lt
  rw [← map_range_getD string hlength]
  refine (prints_displayWrite (by decide) s.consoleLine).trans (prints_foldl fun i hi _ u _ => ?_)
  exact (prints_character (by omega) _).trans (prints_position _)

theorem prints_printSpace_one : Prints [space] s (s.printSpace 1) :=
  ((((prints_displayWrite (by decide) _).trans (prints_displayWrite (by decide) _)).trans
    (prints_character (i := 0) (by decide) space)).trans (prints_position _)).trans
      (prints_consoleSetCursorPosition _)

/-- **A number** is shown as its decimal numeral. -/
theorem prints_printInt (integer : UInt32) (s : Console F) :
    ∃ t, s.printInt integer = .ok t ∧ Prints (decimal integer) s t := by
  by_cases hzero : integer = 0
  · subst hzero
    exact ⟨s.printChar '0'.toUInt8, rfl, prints_printChar _⟩
  have hlength : (Nat.digits 10 integer.toNat).length ≤ 10 := by
    rw [Nat.digits_length_le_iff (by decide)]
    exact integer.toNat_lt.trans (by decide)
  have hpos : (Nat.digits 10 integer.toNat).length ≠ 0 := fun h =>
    hzero (UInt32.toNat_inj.mp (Nat.digits_eq_nil_iff_eq_zero.mp (List.length_eq_zero_iff.mp h)))
  obtain ⟨digits, hdigits⟩ : ∃ digits,
    ((Nat.digits 10 integer.toNat).map CString.digitChar).reverse = digits := ⟨_, rfl⟩
  have hcount : digits.length = (Nat.digits 10 integer.toNat).length := by
    rw [← hdigits, List.length_reverse, List.length_map]
  -- the digits fit the string, so that their number is a byte
  have hplace : (UInt8.ofNat digits.length).toNat = digits.length := by
    rw [UInt8.toNat_ofNat', Nat.mod_eq_of_lt (by omega)]
  have hne : UInt8.ofNat digits.length ≠ 0 := by
    intro h
    rw [h] at hplace
    exact hpos (hcount.symm.trans hplace.symm)
  have hstring := CString.intToString_eq hzero fun _ => (0 : UInt8)
  rw [hdigits, ← hcount] at hstring
  rw [Console.printInt, hstring, ok_bind]
  simp only [if_neg hzero, if_neg hne, hplace]
  refine ⟨_, rfl, ?_⟩
  have htext : decimal integer = ((List.range digits.length).map fun i => digits.getD i 0) ++ [] := by
    rw [decimal, if_neg hzero, hdigits, map_range_getD digits le_rfl, List.take_length,
      List.append_nil]
  have hcursor : Prints [] s
      ((s.displayWrite 0x00001 s.consoleLine).displayWrite 0x00002 s.consolePosition) :=
    (prints_displayWrite (by decide) _).trans (prints_displayWrite (by decide) _)
  rw [htext]
  exact hcursor.trans ((prints_foldl fun i hi _ u _ => prints_character (by omega) _).trans
    (prints_consoleSetCursorPosition _))

/-- A new line shows no character. -/
theorem prints_printLn : Prints [] s s.printLn := by
  refine ⟨?_, fun hlt => (printLn_cases hlt).2, ?_⟩
  · obtain ⟨line, display, hframe⟩ := printLn_frame (s := s)
    exact ⟨line, 0, display, hframe⟩
  · rw [Console.printLn]
    split
    · rw [Console.printed_consoleSetCursor, Console.printed_displayWrite]
      rfl
    · rw [Console.printed_consoleSetCursor, Console.printed_displayWrite]
      rfl

/-- **A prompt** is shown up to its terminator. -/
theorem prints_printPrompt (hlength : s.consolePromptLength.toNat - 1 ≤ s.consolePrompt.length) :
    Prints (s.consolePrompt.take (s.consolePromptLength.toNat - 1)) s s.printPrompt := by
  have hlt := s.consolePromptLength.toNat_lt
  have hcursor : Prints [] s ((s.displayWrite 0x00001 s.consoleLine).displayWrite 0x00002 0) :=
    (prints_displayWrite (by decide) _).trans (prints_displayWrite (by decide) _)
  have hloop : Prints (s.consolePrompt.take (s.consolePromptLength.toNat - 1)) s
      ((List.range (s.consolePromptLength.toNat - 1)).foldl
        (fun s i => s.displayWrite (0x00010 + UInt32.ofNat i) (s.consolePrompt.getD i 0))
        ((s.displayWrite 0x00001 s.consoleLine).displayWrite 0x00002 0)) := by
    rw [← map_range_getD s.consolePrompt hlength]
    refine hcursor.trans (prints_foldl fun i hi text t h => ?_)
    -- the loop does not change the prompt
    have hprompt : t.consolePrompt = s.consolePrompt := by
      obtain ⟨line, position, display, rfl⟩ := h.frame
      rfl
    rw [← hprompt]
    exact prints_character (by omega) _
  rw [← List.append_nil (List.take _ _)]
  exact hloop.trans (prints_consoleSetCursorPosition _)

/-- **The first line** that the kernel shows. -/
theorem prints_kPrintVersion (s : Console F) : ∃ t, s.kPrintVersion = .ok t ∧
    Prints (chars ['k', 'e', 'r', 'n', 'e', 'l', ' ', 'v', '0', '.', '1', '.', '0'])
      { s with cursorBlinkRate := 60 } t := by
  have hblink : Prints [] { s with cursorBlinkRate := 60 } (s.consoleSetBlinkRate 60) :=
    prints_displayWrite (s := { s with cursorBlinkRate := 60 }) (by decide) 60
  have hkernel : ∀ u : Console F, Prints (chars ['k', 'e', 'r', 'n', 'e', 'l']) u
      (u.print Console.kernelHelloWorldString (UInt8.ofNat Console.kernelHelloWorldString.length)) :=
    fun u => prints_print Console.kernelHelloWorldString
      (UInt8.ofNat Console.kernelHelloWorldString.length) (by decide)
  obtain ⟨u, hu, hu'⟩ := prints_printInt Console.versionMajor.toUInt32
    (((s.consoleSetBlinkRate 60).print Console.kernelHelloWorldString
      (UInt8.ofNat Console.kernelHelloWorldString.length)).printSpace 1 |>.printChar 'v'.toUInt8)
  obtain ⟨v, hv, hv'⟩ := prints_printInt Console.versionMinor.toUInt32 (u.printChar '.'.toUInt8)
  obtain ⟨w, hw, hw'⟩ := prints_printInt Console.versionPatch.toUInt32 (v.printChar '.'.toUInt8)
  refine ⟨w.printLn, ?_, ?_⟩
  · rw [Console.kPrintVersion]
    simp only [hu, hv, hw, ok_bind]
    rfl
  · have h := (((((((((hblink.trans (hkernel _)).trans prints_printSpace_one).trans
      (prints_printChar 'v'.toUInt8)).trans hu').trans (prints_printChar '.'.toUInt8)).trans hv').trans
        (prints_printChar '.'.toUInt8)).trans hw').trans prints_printLn)
    exact h

end Prints

end MicroKernel.Command
