import MicroKernel.Command.Lookup
import MicroKernel.Fs.Header

/-!
# The console

The globals of `kernel/command/cli.c` that the line editor and printing use, and the printing of
`kernel/syscalls/print/print.c`. The display is seen through what is written to its registers, in
order; waiting for it changes nothing. An access outside a line buffer stops the computation.

## Main definitions

* `Console`, `Console.afterCliInit`: the globals, and the writes to the display
* `printChar`, `printLn`, `print`, `printPrompt`: printing
* `scrolls`, `printed`: how often the display scrolled, and the characters written to it
-/

namespace MicroKernel.Command

open Fs (Fault)

/-- `displayRows` -/
def displayRows : UInt16 := 8

/-- `displayColumbs` -/
def displayColumbs : UInt16 := 21

/-- A line buffer of `CONSOLE_STRING_LENGTH` characters. -/
abbrev LineBuffer := Fin consoleStringLength → UInt8

/-- `buffer[index]` -/
def LineBuffer.read (buffer : LineBuffer) (index : ℕ) : Except Fault UInt8 :=
  if h : index < consoleStringLength then .ok (buffer ⟨index, h⟩) else .error .outOfBounds

/-- `buffer[index] = character` -/
def LineBuffer.write (buffer : LineBuffer) (index : ℕ) (character : UInt8) :
    Except Fault LineBuffer :=
  if h : index < consoleStringLength then .ok (Function.update buffer ⟨index, h⟩ character)
  else .error .outOfBounds

section LineBuffer

variable {buffer : LineBuffer} {index : ℕ}

theorem LineBuffer.read_of_lt (h : index < consoleStringLength) :
    buffer.read index = .ok (buffer ⟨index, h⟩) := dif_pos h

theorem LineBuffer.read_of_le (h : consoleStringLength ≤ index) :
    buffer.read index = .error .outOfBounds := dif_neg (not_lt.mpr h)

theorem LineBuffer.write_of_lt (h : index < consoleStringLength) (character : UInt8) :
    buffer.write index character = .ok (Function.update buffer ⟨index, h⟩ character) := dif_pos h

end LineBuffer

/-- The globals of the console, with the functions of the commands in `F`. -/
structure Console (F : Type) where
  consoleString : LineBuffer
  consoleStringOld : LineBuffer
  consoleStringLength : UInt8
  consoleStringLengthOld : UInt8
  parametersBegin : UInt8
  consolePosition : UInt8
  consoleLine : UInt8
  shiftState : UInt8
  consolePrompt : List UInt8
  consolePromptLength : UInt8
  cursorBlinkRate : UInt8
  commandRegistry : List (ConsoleCommand F)
  /-- The registers of the display that are written, with the bytes. -/
  display : List (UInt32 × UInt8)

variable {F : Type}

namespace Console

/-- The console behind `cliInit`. -/
def afterCliInit : Console F where
  consoleString _ := space
  consoleStringOld _ := 0
  consoleStringLength := 0
  consoleStringLengthOld := 0
  parametersBegin := 0
  consolePosition := 0
  consoleLine := 0
  shiftState := 0
  consolePrompt := ['A', '>'].map Char.toUInt8 ++ [0]
  consolePromptLength := 3
  cursorBlinkRate := 60
  commandRegistry := cliInit
  -- the cursor's blink rate, and its character
  display := [(3, 60), (4, '_'.toUInt8)]

/-- `displayDevice->write` -/
def displayWrite (address : UInt32) (byte : UInt8) (s : Console F) : Console F :=
  { s with display := s.display ++ [(address, byte)] }

/-- `swapBuffers` -/
def swapBuffers (s : Console F) : Console F := s.displayWrite 0x0000F 1

def consoleSetCursor (line position : UInt8) (s : Console F) : Console F :=
  ({ s with consoleLine := line, consolePosition := position }.displayWrite 1 line).displayWrite 2
    position

def consoleSetCursorPosition (position : UInt8) (s : Console F) : Console F :=
  { s with consolePosition := position }.displayWrite 2 position

def consoleCursorDisable (s : Console F) : Console F := s.displayWrite 3 0

def consoleClearScreen (clearToCharacter : UInt8) (s : Console F) : Console F :=
  ((List.range 8).foldl (fun s l => (List.range 21).foldl
    (fun s c => s.displayWrite (0x00010 + UInt32.ofNat c) clearToCharacter)
      ((s.displayWrite 0x00001 (UInt8.ofNat l)).displayWrite 0x00002 0)) s).swapBuffers

def consoleClearKeyboardString (s : Console F) : Console F :=
  { s with consoleString := fun _ => space }

/-! ## Printing -/

def print (string : List UInt8) (length : UInt8) (s : Console F) : Console F :=
  (List.range (length.toNat - 1)).foldl (fun s i =>
    let s := s.displayWrite (0x00010 + UInt32.ofNat i) (string.getD i 0)
    { s with consolePosition := s.consolePosition + 1 }) (s.displayWrite 0x00001 s.consoleLine)

def printChar (character : UInt8) (s : Console F) : Console F :=
  let s := s.displayWrite 0x00001 s.consoleLine
  let s := s.displayWrite 0x00002 s.consolePosition
  let s := s.displayWrite 0x00010 character
  { s with consolePosition := s.consolePosition + 1 }

def printLn (s : Console F) : Console F :=
  let s :=
    if s.consoleLine.toUInt16 < displayRows - 1 then
      { s with consoleLine := s.consoleLine + 1 }.displayWrite 0x00001 (s.consoleLine + 1)
    else s.displayWrite 0x00005 1
  s.consoleSetCursor s.consoleLine 0

def printPrompt (s : Console F) : Console F :=
  let s := s.displayWrite 0x00001 s.consoleLine
  let s := s.displayWrite 0x00002 0
  let s := (List.range (s.consolePromptLength.toNat - 1)).foldl (fun s i =>
    s.displayWrite (0x00010 + UInt32.ofNat i) (s.consolePrompt.getD i 0)) s
  s.consoleSetCursorPosition (s.consolePromptLength - 1)

/-! ## What is written to the display -/

/-- The number of scrolls: a write to register 5. -/
def scrolls (s : Console F) : ℕ := s.display.countP fun w => w.1 == 0x00005

/-- The characters written to the display, whose registers start at `0x10`. -/
def printed (s : Console F) : List UInt8 :=
  s.display.filterMap fun w => if 0x00010 ≤ w.1 then some w.2 else none

section Printed

@[simp] theorem printed_displayWrite (address : UInt32) (byte : UInt8) (s : Console F) :
    (s.displayWrite address byte).printed =
      s.printed ++ if 0x00010 ≤ address then [byte] else [] := by
  simp only [printed, displayWrite, List.filterMap_append]
  split <;> simp_all

@[simp] theorem printed_consoleSetCursor (line position : UInt8) (s : Console F) :
    (s.consoleSetCursor line position).printed = s.printed := by
  rw [consoleSetCursor, printed_displayWrite, printed_displayWrite]
  simp [printed]

@[simp] theorem printed_consoleCursorDisable (s : Console F) :
    s.consoleCursorDisable.printed = s.printed := by
  rw [consoleCursorDisable, printed_displayWrite]
  simp

/-- A message shows its characters. -/
theorem printed_print (string : List UInt8) (length : UInt8) (s : Console F) :
    (s.print string length).printed =
      s.printed ++ (List.range (length.toNat - 1)).map fun i => string.getD i 0 := by
  have hlength := length.toNat_lt
  obtain ⟨n, hn⟩ : ∃ n, length.toNat - 1 = n := ⟨_, rfl⟩
  have hle : n < 255 := by omega
  rw [print, hn]
  clear hn
  induction n with
  | zero => simp
  | succ n ih =>
    have hregister : (0x00010 : UInt32) ≤ 0x00010 + UInt32.ofNat n := by
      rw [UInt32.le_iff_toNat_le, UInt32.toNat_add, UInt32.toNat_ofNat']
      have : (0x00010 : UInt32).toNat = 16 := rfl
      omega
    rw [List.range_succ, List.foldl_append, List.map_append, ← List.append_assoc, ← ih (by omega)]
    show (displayWrite _ _ _).printed = _
    rw [printed_displayWrite, if_pos hregister]
    rfl

end Printed

end Console

end MicroKernel.Command
