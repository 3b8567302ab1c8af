import MicroKernel.Command.Console
import MicroKernel.Lib.Run
import Mathlib.Data.List.GetD

/-!
# The line editor

The key functions of `kernel/command/shell.c`, `KeyFunctionReturn` of `kernel/command/command.c` and
their dispatch in `cliRunShell`. A line is edited like a stack of characters, of at most
`CONSOLE_STRING_LENGTH`: typing wraps at the width of the display and may scroll it, and backspace
steps back over the wraps.

## Main definitions

* `keyFunctionPrintChar`, `keyFunctionBackspace`, `keyFunctionReturn`, `cliRunShell`: the key
  functions and their dispatch by scan code
* `Typed`, `Typed.key`: the line that the keys type
* `Edited`: what the console holds for a line
* `lengthAfter`: the length of the line behind a sequence of keys

## Main results

* `edited_of_keys`: the console follows the typed line
* `staysInBuffers_iff`: when no access leaves the line buffers
-/

namespace MicroKernel.Command

open Fs (Fault ok_bind)

variable {F : Type}

/-! ## The keys -/

/-- The scan codes of the shift key, pressed and released, of backspace and of return. -/
def keyShiftPressed : UInt8 := 0x11
def keyShiftReleased : UInt8 := 0x12
def keyBackspace : UInt8 := 0x01
def keyReturn : UInt8 := 0x02

/-- The shift mapping of digits, in `KeyFunctionPrintChar`. -/
def shiftNumber (scanCode : UInt8) : UInt8 :=
  if scanCode = '0'.toUInt8 then ')'.toUInt8
  else if scanCode = '1'.toUInt8 then '!'.toUInt8
  else if scanCode = '2'.toUInt8 then '@'.toUInt8
  else if scanCode = '3'.toUInt8 then '#'.toUInt8
  else if scanCode = '4'.toUInt8 then '$'.toUInt8
  else if scanCode = '5'.toUInt8 then '%'.toUInt8
  else if scanCode = '6'.toUInt8 then '^'.toUInt8
  else if scanCode = '7'.toUInt8 then '&'.toUInt8
  else if scanCode = '8'.toUInt8 then '*'.toUInt8
  else if scanCode = '9'.toUInt8 then '('.toUInt8
  else scanCode

/-- The shift mapping of other characters, each test made on what the one before left. -/
def shiftSymbol (scanCode : UInt8) : UInt8 :=
  let c := if scanCode = '['.toUInt8 ∨ scanCode = ']'.toUInt8 then scanCode + 0x20 else scanCode
  let c := if c = 0x3B then c - 1 else c
  let c := if c = '-'.toUInt8 then '_'.toUInt8 else c
  let c := if c = '='.toUInt8 then '+'.toUInt8 else c
  let c := if c = '\\'.toUInt8 then '|'.toUInt8 else c
  let c := if c = 0x27 then 0x22 else c
  let c := if c = ','.toUInt8 then '<'.toUInt8 else c
  let c := if c = '.'.toUInt8 then '>'.toUInt8 else c
  if c = '/'.toUInt8 then '?'.toUInt8 else c

/-- The character of a scan code. -/
def shiftedChar (shiftState scanCode : UInt8) : UInt8 :=
  if shiftState = 1 then
    let scanCode := if isNumber scanCode then shiftNumber scanCode else scanCode
    if isLetter scanCode = false then shiftSymbol scanCode else scanCode - 0x20
  else scanCode

namespace Console

def keyFunctionPrintChar (scanCode : UInt8) (s : Console F) : Except Fault (Console F) := do
  if Command.consoleStringLength ≤ s.consoleStringLength.toNat then return s
  let scanCode := shiftedChar s.shiftState scanCode
  let consoleString ← s.consoleString.write s.consoleStringLength.toNat scanCode
  let s := { s with
    consoleString := consoleString
    consoleStringLength := s.consoleStringLength + 1 }
  let s := s.printChar scanCode
  let s := s.consoleSetCursorPosition s.consolePosition
  -- New line
  if displayColumbs ≤ s.consolePosition.toUInt16 then
    return s.printLn.consoleSetCursorPosition 0
  return s

/-- The step of `KeyFunctionBackspace` from the start of a line to behind the line above. -/
def stepUp (s : Console F) : Console F :=
  if s.consolePosition = 0 then
    { s with consoleLine := s.consoleLine - 1, consolePosition := 21 }.displayWrite 0x00001
      (s.consoleLine - 1)
  else s

def keyFunctionBackspace (s : Console F) : Except Fault (Console F) := do
  if s.consoleStringLength = 0 then return s
  -- Remove last character from the console string
  let consoleString ← s.consoleString.write (s.consoleStringLength.toNat - 1) space
  let s := { s with consoleString := consoleString }.stepUp
  let s := { s with
    consoleStringLength := s.consoleStringLength - 1
    consolePosition := s.consolePosition - 1 }
  let s := s.displayWrite 0x00002 s.consolePosition
  let s := s.displayWrite 0x00010 space
  let s := s.displayWrite 0x00002 s.consolePosition
  return s.swapBuffers

/-- The loop that saves the line, over the indices from 0 up to its length. -/
def saveString (consoleString : LineBuffer) (consoleStringOld : LineBuffer) (indices : List ℕ) :
    Except Fault LineBuffer :=
  indices.foldlM (fun old a => do old.write a (← consoleString.read a)) consoleStringOld

/-- The loop that looks for the parameters: `parameters_begin`. -/
def findParameters (consoleString : LineBuffer) : List ℕ → Except Fault UInt8
  | [] => return 0
  | i :: indices => do
    if (← consoleString.read i) ≠ space then findParameters consoleString indices
    else return UInt8.ofNat (i + 1)

def msgBadCommand : List UInt8 :=
  ['B', 'a', 'd', ' ', 'c', 'm', 'd', ' ', 'o', 'r', ' ', 'f', 'i', 'l', 'e', 'n', 'a', 'm', 'e'].map
    Char.toUInt8 ++ [0]

def commandSpecialChar : UInt8 := 0

/-- The rest of `KeyFunctionReturn`, once the line is saved: the command is looked up and run, and a
new prompt is printed. `run` is what the functions of the commands do. -/
def runCommand (run : Call F → Console F → Console F) (s : Console F) : Console F :=
  -- Look up function name
  let (passed, call) :=
    if commandSpecialChar = 0 then
      commandFunctionLookup s.parametersBegin (List.ofFn s.consoleString) s.consoleStringLength
        s.commandRegistry
    else (commandSpecialChar, none)
  let s : Console F := match call with
    | some call => run call s
    | none => s
  -- Bad command or filename
  let s :=
    if passed = 0 ∧ s.consoleStringLengthOld > 0 then
      (s.print msgBadCommand (UInt8.ofNat msgBadCommand.length)).printLn
    else s
  { s.printPrompt.consoleClearKeyboardString with consoleStringLength := 0 }

def keyFunctionReturn (run : Call F → Console F → Console F) (s : Console F) :
    Except Fault (Console F) := do
  let s := s.printLn.consoleSetCursorPosition 0
  -- Save last entered command string
  let indices := List.range (s.consoleStringLength.toNat + 1)
  let consoleStringOld ← saveString s.consoleString s.consoleStringOld indices
  let s := { s with
    consoleStringOld := consoleStringOld
    consoleStringLengthOld := s.consoleStringLength }
  -- Get the filename and parameters
  let parametersBegin ← findParameters s.consoleString indices
  return { s with parametersBegin := parametersBegin }.runCommand run

/-- `cliRunShell`, with the scan code that `ConsoleGetLastChar` returns. -/
def cliRunShell (run : Call F → Console F → Console F) (scanCode : UInt8) (s : Console F) :
    Except Fault (Console F) := do
  if scanCode = 0 then return s
  -- Shift pressed / released
  let s := if scanCode = keyShiftPressed then { s with shiftState := 1 } else s
  let s := if scanCode = keyShiftReleased then { s with shiftState := 0 } else s
  if scanCode < 0x20 then
    if scanCode = keyBackspace then s.keyFunctionBackspace
    else if scanCode = keyReturn then s.keyFunctionReturn run
    else return s
  else s.keyFunctionPrintChar scanCode

end Console

/-! ## The typed line -/

/-- A line that is typed, and the state of the shift key. -/
structure Typed where
  line : List UInt8
  shiftState : UInt8

/-- What a key that is not return does: a character is put behind the line while there is room, and
backspace takes the last one off. -/
def Typed.key (scanCode : UInt8) (typed : Typed) : Typed :=
  if scanCode = keyShiftPressed then { typed with shiftState := 1 }
  else if scanCode = keyShiftReleased then { typed with shiftState := 0 }
  else if scanCode = keyBackspace then { typed with line := typed.line.dropLast }
  else if scanCode < 0x20 then typed
  else if typed.line.length < consoleStringLength then
    { typed with line := typed.line ++ [shiftedChar typed.shiftState scanCode] }
  else typed

/-- The console `s` holds the typed line, which was begun behind a prompt of `promptLength - 1`
characters on line `start`, with `scrolls` scrolls before. -/
structure Edited (promptLength start scrolls : ℕ) (typed : Typed) (s : Console F) : Prop where
  length_le : typed.line.length ≤ consoleStringLength
  length : s.consoleStringLength.toNat = typed.line.length
  string : ∀ i, s.consoleString i = typed.line.getD i space
  shiftState : s.shiftState = typed.shiftState
  position : s.consolePosition.toNat = (promptLength - 1 + typed.line.length) % 21
  line : s.consoleLine.toNat + s.scrolls =
    start + scrolls + (promptLength - 1 + typed.line.length) / 21

/-- What typing and backspace keep: the line is on the display, and there are only as many scrolls as
a full line makes. -/
structure Editing (promptLength start scrolls : ℕ) (typed : Typed) (s : Console F) : Prop
    extends Edited promptLength start scrolls typed s where
  line_lt : s.consoleLine.toNat < 8
  scrolled : s.scrolls = scrolls ∨ s.scrolls + 5 ≤ start + scrolls

/-! ## Writes to the display -/

section Display

variable {s : Console F}

@[simp] theorem scrolls_displayWrite (address : UInt32) (byte : UInt8) :
    (s.displayWrite address byte).scrolls = s.scrolls + if address = 0x00005 then 1 else 0 := by
  rw [Console.scrolls, Console.displayWrite, List.countP_append, List.countP_singleton]
  simp [Console.scrolls]

theorem scrolls_congr {t : Console F} (h : t.display = s.display) : t.scrolls = s.scrolls := by
  rw [Console.scrolls, h, Console.scrolls]

@[simp] theorem scrolls_consoleSetCursorPosition (position : UInt8) :
    (s.consoleSetCursorPosition position).scrolls = s.scrolls := by
  simp [Console.consoleSetCursorPosition, Console.scrolls, Console.displayWrite]

@[simp] theorem scrolls_printChar (c : UInt8) : (s.printChar c).scrolls = s.scrolls := by
  simp [Console.printChar, Console.scrolls, Console.displayWrite]

@[simp] theorem scrolls_swapBuffers : s.swapBuffers.scrolls = s.scrolls := by
  simp [Console.swapBuffers, Console.scrolls, Console.displayWrite]

/-- Writes to the display change nothing else. -/
theorem foldl_displayWrite_frame (address : ℕ → UInt32) (byte : Console F → ℕ → UInt8)
    (l : List ℕ) : ∃ display, l.foldl (fun s i => s.displayWrite (address i) (byte s i)) s =
      { s with display := display } := by
  induction l generalizing s with
  | nil => exact ⟨s.display, rfl⟩
  | cons i l ih =>
    obtain ⟨display, h⟩ := ih (s := s.displayWrite (address i) (byte s i))
    exact ⟨display, h⟩

/-- A prompt changes the position and the display. -/
theorem printPrompt_frame : ∃ display, s.printPrompt =
    { s with consolePosition := s.consolePromptLength - 1, display := display } := by
  obtain ⟨display, h⟩ := foldl_displayWrite_frame
    (s := (s.displayWrite 0x00001 s.consoleLine).displayWrite 0x00002 0)
    (fun i => 0x00010 + UInt32.ofNat i) (fun s i => s.consolePrompt.getD i 0)
    (List.range (s.consolePromptLength.toNat - 1))
  exact ⟨display ++ [(2, s.consolePromptLength - 1)],
    congrArg (fun u : Console F => u.consoleSetCursorPosition (u.consolePromptLength - 1)) h⟩

/-- A new line changes the cursor and the display. -/
theorem printLn_frame : ∃ line display,
    s.printLn = { s with consoleLine := line, consolePosition := 0, display := display } := by
  rw [Console.printLn]
  split
  · exact ⟨_, _, rfl⟩
  · exact ⟨_, _, rfl⟩

/-- **A new line** goes down, or scrolls on the last line. -/
theorem printLn_cases (hline : s.consoleLine.toNat < 8) :
    (s.printLn.consoleLine.toNat = s.consoleLine.toNat + 1 ∧ s.printLn.scrolls = s.scrolls ∨
      s.consoleLine.toNat = 7 ∧ s.printLn.consoleLine = s.consoleLine ∧
        s.printLn.scrolls = s.scrolls + 1) ∧ s.printLn.consoleLine.toNat < 8 := by
  have hlt : s.consoleLine.toUInt16 < displayRows - 1 ↔ s.consoleLine.toNat < 7 := by
    rw [UInt16.lt_iff_toNat_lt, UInt8.toNat_toUInt16]
    rfl
  by_cases h : s.consoleLine.toNat < 7
  · have hsucc : (s.consoleLine + 1).toNat = s.consoleLine.toNat + 1 := by
      rw [UInt8.toNat_add, UInt8.toNat_one, Nat.mod_eq_of_lt (by omega)]
    have heq : s.printLn = (({ s with consoleLine := s.consoleLine + 1 } : Console F).displayWrite
        0x00001 (s.consoleLine + 1)).consoleSetCursor (s.consoleLine + 1) 0 := by
      rw [Console.printLn, if_pos (hlt.mpr h)]
      rfl
    rw [heq]
    refine ⟨Or.inl ⟨hsucc, ?_⟩, ?_⟩
    · simp [Console.consoleSetCursor, Console.scrolls, Console.displayWrite]
    · show (s.consoleLine + 1).toNat < 8
      omega
  · have heq : s.printLn = (s.displayWrite 0x00005 1).consoleSetCursor s.consoleLine 0 := by
      rw [Console.printLn, if_neg (mt hlt.mp h)]
      rfl
    rw [heq]
    refine ⟨Or.inr ⟨by omega, rfl, ?_⟩, hline⟩
    simp [Console.consoleSetCursor, Console.scrolls, Console.displayWrite]

end Display

/-! ## The line on the display -/

section Editing

variable {s t : Console F} {typed : Typed} {promptLength start scrolls : ℕ} {c scanCode : UInt8}

/-- **Typing** a character on a line with room. -/
theorem keyFunctionPrintChar_eq (hlt : s.consoleStringLength.toNat < consoleStringLength) :
    s.keyFunctionPrintChar scanCode =
      let shown := (({ s with
        consoleString := Function.update s.consoleString ⟨s.consoleStringLength.toNat, hlt⟩
          (shiftedChar s.shiftState scanCode)
        consoleStringLength := s.consoleStringLength + 1 }.printChar
          (shiftedChar s.shiftState scanCode)).consoleSetCursorPosition (s.consolePosition + 1))
      if displayColumbs ≤ (s.consolePosition + 1).toUInt16 then
        .ok (shown.printLn.consoleSetCursorPosition 0)
      else .ok shown := by
  rw [Console.keyFunctionPrintChar, if_neg (not_le.mpr hlt)]
  simp only [LineBuffer.write_of_lt hlt, ok_bind]
  rfl

theorem Edited.getD_update (h : Edited promptLength start scrolls typed s)
    (hlt : s.consoleStringLength.toNat < consoleStringLength) (i : Fin consoleStringLength) :
    Function.update s.consoleString ⟨s.consoleStringLength.toNat, hlt⟩ c i =
      (typed.line ++ [c]).getD i space := by
  rcases eq_or_ne i ⟨s.consoleStringLength.toNat, hlt⟩ with rfl | hne
  · rw [Function.update_self]
    simp [h.length]
  · have hi : (i : ℕ) ≠ typed.line.length := fun hi => hne (Fin.ext (hi.trans h.length.symm))
    rw [Function.update_of_ne hne, h.string]
    rcases Nat.lt_or_ge i typed.line.length with hlt' | hge
    · rw [List.getD_append _ _ _ _ hlt']
    · rw [List.getD_eq_default _ _ hge, List.getD_eq_default]
      rw [List.length_append, List.length_singleton]
      omega

/-- The console `t` shows the character `c` behind the line of `s`. -/
structure Shows (c : UInt8) (line : List UInt8) (s t : Console F) : Prop where
  string : ∀ i, t.consoleString i = (line ++ [c]).getD i space
  length : t.consoleStringLength = s.consoleStringLength + 1
  position : t.consolePosition = s.consolePosition + 1
  line : t.consoleLine = s.consoleLine
  shiftState : t.shiftState = s.shiftState
  scrolls : t.scrolls = s.scrolls

/-- What is typed is shown, before the next line begins. -/
theorem Edited.keyFunctionPrintChar (scanCode : UInt8)
    (h : Edited promptLength start scrolls typed s)
    (hlt : typed.line.length < consoleStringLength) :
    ∃ shown, Shows (shiftedChar typed.shiftState scanCode) typed.line s shown ∧
      s.keyFunctionPrintChar scanCode =
        .ok (if displayColumbs ≤ (s.consolePosition + 1).toUInt16 then
          shown.printLn.consoleSetCursorPosition 0 else shown) := by
  have hlen : s.consoleStringLength.toNat < consoleStringLength := h.length ▸ hlt
  refine ⟨(({ s with
      consoleString := Function.update s.consoleString ⟨s.consoleStringLength.toNat, hlen⟩
        (shiftedChar s.shiftState scanCode)
      consoleStringLength := s.consoleStringLength + 1 }.printChar
        (shiftedChar s.shiftState scanCode)).consoleSetCursorPosition (s.consolePosition + 1)),
    ⟨fun i => ?_, rfl, rfl, rfl, rfl, ?_⟩, ?_⟩
  · rw [← h.shiftState]
    exact h.getD_update hlen i
  · rw [scrolls_consoleSetCursorPosition, scrolls_printChar]
    exact scrolls_congr rfl
  · rw [keyFunctionPrintChar_eq hlen]
    exact (apply_ite Except.ok _ _ _).symm

/-- A character in front of the last column stays on its line of the display. -/
theorem Editing.shows (h : Editing promptLength start scrolls typed s)
    (ht : Shows c typed.line s t) (hlt : typed.line.length < consoleStringLength)
    (hroom : s.consolePosition.toNat < 20) :
    Editing promptLength start scrolls { typed with line := typed.line ++ [c] } t := by
  have h40 : consoleStringLength = 40 := rfl
  have hlength : (typed.line ++ [c]).length = typed.line.length + 1 := List.length_append
  have hposition := h.position
  have hline := h.line
  have hlen := h.length
  refine ⟨⟨?_, ?_, ht.string, ht.shiftState.trans h.shiftState, ?_, ?_⟩, ?_, ?_⟩
  · rw [hlength]
    exact hlt
  · rw [ht.length, UInt8.toNat_add, UInt8.toNat_one, hlength]
    omega
  · rw [ht.position, UInt8.toNat_add, UInt8.toNat_one, hlength]
    omega
  · rw [ht.line, ht.scrolls, hlength]
    omega
  · rw [ht.line]
    exact h.line_lt
  · rw [ht.scrolls]
    exact h.scrolled

/-- A character in the last column begins the next line, or scrolls. -/
theorem Editing.printLn (h : Editing promptLength start scrolls typed s)
    (hprompt : promptLength ≤ 16) (ht : Shows c typed.line s t)
    (hlt : typed.line.length < consoleStringLength) (hfull : s.consolePosition.toNat = 20) :
    Editing promptLength start scrolls { typed with line := typed.line ++ [c] }
      (t.printLn.consoleSetCursorPosition 0) := by
  have h40 : consoleStringLength = 40 := rfl
  have hlength : (typed.line ++ [c]).length = typed.line.length + 1 := List.length_append
  have hposition := h.position
  have hline := h.line
  have hscrolled := h.scrolled
  have hlen := h.length
  have hrows := h.line_lt
  rw [← ht.line] at hline hrows
  rw [← ht.scrolls] at hline hscrolled
  obtain ⟨hcases, hlast⟩ := printLn_cases hrows
  obtain ⟨line, display, hframe⟩ := printLn_frame (s := t)
  refine ⟨⟨?_, ?_, fun i => ?_, ?_, ?_, ?_⟩, hlast, ?_⟩
  · rw [hlength]
    exact hlt
  · rw [hframe]
    show t.consoleStringLength.toNat = _
    rw [ht.length, UInt8.toNat_add, UInt8.toNat_one, hlength]
    omega
  · rw [← ht.string, hframe]
    rfl
  · rw [hframe]
    exact ht.shiftState.trans h.shiftState
  · rw [hlength]
    show 0 = _
    omega
  · rw [scrolls_consoleSetCursorPosition, hlength]
    show t.printLn.consoleLine.toNat + _ = _
    rcases hcases with ⟨hdown, hsame⟩ | ⟨hbottom, hsame, hscroll⟩
    · rw [hdown, hsame]
      omega
    · rw [hsame, hscroll]
      omega
  · -- the last line is passed at most twice
    rw [scrolls_consoleSetCursorPosition]
    rcases hcases with ⟨hdown, hsame⟩ | ⟨hbottom, hsame, hscroll⟩
    · rwa [hsame]
    · rw [hscroll]
      omega

/-- **Typing keeps the line on the display.** -/
theorem Editing.keyFunctionPrintChar (h : Editing promptLength start scrolls typed s)
    (hprompt : promptLength ≤ 16) (hlt : typed.line.length < consoleStringLength) :
    ∃ t, s.keyFunctionPrintChar scanCode = .ok t ∧ Editing promptLength start scrolls
      { typed with line := typed.line ++ [shiftedChar typed.shiftState scanCode] } t := by
  obtain ⟨shown, hshows, heq⟩ := h.toEdited.keyFunctionPrintChar scanCode hlt
  have hposition := h.position
  have hwrap : displayColumbs ≤ (s.consolePosition + 1).toUInt16 ↔ 20 ≤ s.consolePosition.toNat := by
    have hcolumns : displayColumbs.toNat = 21 := rfl
    rw [UInt16.le_iff_toNat_le, UInt8.toNat_toUInt16, UInt8.toNat_add, UInt8.toNat_one, hcolumns]
    omega
  refine ⟨_, heq, ?_⟩
  split
  · next hw =>
    have hfull := hwrap.mp hw
    exact h.printLn hprompt hshows hlt (by omega)
  · next hw => exact h.shows hshows hlt (not_le.mp (mt hwrap.mpr hw))

/-- **A step up** goes back one position, at the start of a line over the end of the one above. -/
theorem stepUp_cursor (n row before : ℕ) (hcolumn : s.consolePosition.toNat = n % 21)
    (hrow : s.consoleLine.toNat + before = row + n / 21) (hn : 0 < n)
    (hup : s.consolePosition.toNat = 0 → 0 < s.consoleLine.toNat)
    (hlast : s.consoleLine.toNat < 8) :
    (s.stepUp.consolePosition - 1).toNat = (n - 1) % 21 ∧
      s.stepUp.consoleLine.toNat + before = row + (n - 1) / 21 ∧
      s.stepUp.consoleLine.toNat < 8 := by
  have hone : (1 : UInt8).toNat = 1 := rfl
  rw [Console.stepUp]
  by_cases h0 : s.consolePosition = 0
  · have hzero : s.consolePosition.toNat = 0 := by rw [h0]; rfl
    have hline := hup hzero
    have hpred : (s.consoleLine - 1).toNat = s.consoleLine.toNat - 1 := by
      rw [UInt8.toNat_sub_of_le _ _ (UInt8.le_iff_toNat_le.mpr (by omega)), hone]
    have hend : ((21 : UInt8) - 1).toNat = 20 := by decide
    rw [if_pos h0]
    refine ⟨?_, ?_, ?_⟩
    · show ((21 : UInt8) - 1).toNat = _
      rw [hend]
      omega
    · show (s.consoleLine - 1).toNat + before = _
      omega
    · show (s.consoleLine - 1).toNat < 8
      omega
  · have hne : s.consolePosition.toNat ≠ 0 := fun h => h0 (UInt8.toNat_inj.mp h)
    have hpred : (s.consolePosition - 1).toNat = s.consolePosition.toNat - 1 := by
      rw [UInt8.toNat_sub_of_le _ _ (UInt8.le_iff_toNat_le.mpr (by omega)), hone]
    rw [if_neg h0]
    exact ⟨by omega, by omega, hlast⟩

theorem stepUp_frame : s.stepUp.consoleString = s.consoleString ∧
    s.stepUp.consoleStringLength = s.consoleStringLength ∧ s.stepUp.shiftState = s.shiftState ∧
      s.stepUp.scrolls = s.scrolls := by
  rw [Console.stepUp]
  split
  · refine ⟨rfl, rfl, rfl, ?_⟩
    rw [scrolls_displayWrite, if_neg (by decide)]
    exact scrolls_congr rfl
  · exact ⟨rfl, rfl, rfl, rfl⟩

/-- **Backspace** on a line that is not empty. -/
theorem keyFunctionBackspace_eq (hne : s.consoleStringLength ≠ 0)
    (hlt : s.consoleStringLength.toNat - 1 < consoleStringLength) :
    s.keyFunctionBackspace =
      let s := { s with
        consoleString := Function.update s.consoleString ⟨s.consoleStringLength.toNat - 1, hlt⟩ space
        }.stepUp
      let s := { s with
        consoleStringLength := s.consoleStringLength - 1
        consolePosition := s.consolePosition - 1 }
      .ok (((s.displayWrite 0x00002 s.consolePosition).displayWrite 0x00010 space).displayWrite
        0x00002 s.consolePosition).swapBuffers := by
  rw [Console.keyFunctionBackspace, if_neg hne]
  simp only [LineBuffer.write_of_lt hlt, ok_bind]
  rfl

theorem Edited.getD_dropLast (h : Edited promptLength start scrolls typed s)
    (hlt : s.consoleStringLength.toNat - 1 < consoleStringLength) (i : Fin consoleStringLength) :
    Function.update s.consoleString ⟨s.consoleStringLength.toNat - 1, hlt⟩ space i =
      typed.line.dropLast.getD i space := by
  have hlength := h.length
  rw [List.getD_eq_getElem?_getD, List.getElem?_dropLast]
  rcases eq_or_ne i ⟨s.consoleStringLength.toNat - 1, hlt⟩ with rfl | hne
  · rw [Function.update_self, if_neg (by simp [hlength])]
    rfl
  · have hi : (i : ℕ) ≠ typed.line.length - 1 := by
      rw [← hlength]
      exact fun hi => hne (Fin.ext hi)
    rw [Function.update_of_ne hne, h.string, List.getD_eq_getElem?_getD]
    split
    · rfl
    · rw [List.getElem?_eq_none (by omega)]

/-- **Backspace keeps the line on the display.** -/
theorem Editing.keyFunctionBackspace (h : Editing promptLength start scrolls typed s) :
    ∃ t, s.keyFunctionBackspace = .ok t ∧ Editing promptLength start scrolls
      { typed with line := typed.line.dropLast } t := by
  have h40 : consoleStringLength = 40 := rfl
  have hlength := h.length
  have hle := h.length_le
  have hposition := h.position
  have hline := h.line
  have hrows := h.line_lt
  have hscrolled := h.scrolled
  by_cases hempty : s.consoleStringLength = 0
  · -- an empty line is left
    obtain ⟨line, shiftState⟩ := typed
    obtain rfl : line = [] := by
      rw [hempty] at hlength
      exact List.length_eq_zero_iff.mp hlength.symm
    exact ⟨s, by rw [Console.keyFunctionBackspace, if_pos hempty]; rfl, h⟩
  have hpos : 0 < typed.line.length := by
    rw [← hlength]
    exact Nat.pos_of_ne_zero fun h0 => hempty (UInt8.toNat_inj.mp h0)
  have hlt : s.consoleStringLength.toNat - 1 < consoleStringLength := by omega
  have hone : (1 : UInt8).toNat = 1 := rfl
  have hdrop : typed.line.dropLast.length = typed.line.length - 1 := List.length_dropLast
  rw [keyFunctionBackspace_eq hempty hlt]
  obtain ⟨v, hv, hvstring⟩ : ∃ v : Console F, { s with
      consoleString :=
        Function.update s.consoleString ⟨s.consoleStringLength.toNat - 1, hlt⟩ space } = v ∧
      ∀ i, v.consoleString i = typed.line.dropLast.getD i space :=
    ⟨_, rfl, h.getD_dropLast hlt⟩
  have hsame : v.consoleStringLength = s.consoleStringLength ∧ v.shiftState = s.shiftState ∧
      v.consolePosition = s.consolePosition ∧ v.consoleLine = s.consoleLine ∧
        v.scrolls = s.scrolls := by
    rw [← hv]
    exact ⟨rfl, rfl, rfl, rfl, scrolls_congr rfl⟩
  obtain ⟨hlength', hshift', hposition', hline', hscrolls'⟩ := hsame
  obtain ⟨hstring, hframe, hshift, hscrolls⟩ := stepUp_frame (s := v)
  -- the line above is on the display, as there were only as many scrolls as a full line makes
  obtain ⟨hcolumn, hrow, hlast⟩ := stepUp_cursor (s := v) (promptLength - 1 + typed.line.length)
    (start + scrolls) s.scrolls (by rw [hposition', hposition]) (by rw [hline', hline]) (by omega)
    (fun h0 => by rw [hline']; rw [hposition'] at h0; omega) (by rwa [hline'])
  have hwrites : ∀ (u : Console F) (position : UInt8), ((((u.displayWrite 0x00002 position).displayWrite
      0x00010 space).displayWrite 0x00002 position).swapBuffers).scrolls = u.scrolls := by
    intro u position
    simp
  simp only [hv]
  generalize v.stepUp = u at hstring hframe hshift hscrolls hcolumn hrow hlast ⊢
  have hscrolled' : ∀ length position, ({ u with
      consoleStringLength := length, consolePosition := position } : Console F).scrolls =
        s.scrolls := fun _ _ => (scrolls_congr rfl).trans (hscrolls.trans hscrolls')
  refine ⟨_, rfl, ⟨⟨?_, ?_, ?_, ?_, ?_, ?_⟩, hlast, ?_⟩⟩
  · show typed.line.dropLast.length ≤ _
    omega
  · show (u.consoleStringLength - 1).toNat = typed.line.dropLast.length
    rw [hframe, hlength', hdrop, UInt8.toNat_sub_of_le _ _ (UInt8.le_iff_toNat_le.mpr (by omega)),
      hlength, hone]
  · intro i
    show u.consoleString i = _
    rw [hstring, hvstring]
  · exact hshift.trans (hshift'.trans h.shiftState)
  · show (u.consolePosition - 1).toNat = _
    rw [hcolumn, hdrop]
    congr 1
    omega
  · rw [hwrites, hscrolled', hdrop]
    show u.consoleLine.toNat + s.scrolls = _
    rw [hrow]
    congr 2
    omega
  · rwa [hwrites, hscrolled']

/-- **A key** that is not return keeps the line on the display. -/
theorem Editing.cliRunShell (run : Call F → Console F → Console F)
    (h : Editing promptLength start scrolls typed s) (hprompt : promptLength ≤ 16)
    (hreturn : scanCode ≠ keyReturn) :
    ∃ t, s.cliRunShell run scanCode = .ok t ∧
      Editing promptLength start scrolls (typed.key scanCode) t := by
  have hshift : ∀ state, Editing promptLength start scrolls { typed with shiftState := state }
      { s with shiftState := state } := fun state =>
    ⟨⟨h.length_le, h.length, h.string, rfl, h.position, h.line⟩, h.line_lt, h.scrolled⟩
  by_cases hzero : scanCode = 0
  · subst hzero
    exact ⟨s, rfl, h⟩
  by_cases hpressed : scanCode = keyShiftPressed
  · subst hpressed
    exact ⟨_, rfl, hshift 1⟩
  by_cases hreleased : scanCode = keyShiftReleased
  · subst hreleased
    exact ⟨_, rfl, hshift 0⟩
  rw [Console.cliRunShell, if_neg hzero, Typed.key, if_neg hpressed, if_neg hreleased]
  simp only [if_neg hpressed, if_neg hreleased]
  by_cases hbackspace : scanCode = keyBackspace
  · subst hbackspace
    exact h.keyFunctionBackspace
  rw [if_neg hbackspace, if_neg hbackspace, if_neg hreturn]
  by_cases hcontrol : scanCode < 0x20
  · rw [if_pos hcontrol, if_pos hcontrol]
    exact ⟨s, rfl, h⟩
  rw [if_neg hcontrol, if_neg hcontrol]
  split
  · next hlt => exact h.keyFunctionPrintChar hprompt hlt
  · next hge =>
    -- the key is ignored on a full line
    have hfull : consoleStringLength ≤ s.consoleStringLength.toNat := by
      rw [h.length]
      exact not_lt.mp hge
    exact ⟨s, by rw [Console.keyFunctionPrintChar, if_pos hfull]; rfl, h⟩

/-- **The console follows the typed line**: behind any keys but return, pressed behind a prompt on an
empty and blank line. -/
theorem edited_of_keys (run : Call F → Console F → Console F) (keys : List UInt8)
    (hreturn : keyReturn ∉ keys) (hlength : s.consoleStringLength = 0)
    (hblank : ∀ i, s.consoleString i = space) (hline : s.consoleLine < 8)
    (htwo : 2 ≤ s.consolePromptLength) (hprompt : s.consolePromptLength ≤ 16) :
    ∃ t, Run.exec (Console.cliRunShell run) keys s.printPrompt = .ok t ∧
      Edited s.consolePromptLength.toNat s.consoleLine.toNat s.printPrompt.scrolls
        (keys.foldl (fun typed scanCode => typed.key scanCode) ⟨[], s.shiftState⟩) t := by
  rw [UInt8.le_iff_toNat_le] at htwo hprompt
  have h2 : (2 : UInt8).toNat = 2 := rfl
  have h16 : (16 : UInt8).toNat = 16 := rfl
  have hrows : s.consoleLine.toNat < 8 := UInt8.lt_iff_toNat_lt.mp hline
  have hstart : Editing s.consolePromptLength.toNat s.consoleLine.toNat s.printPrompt.scrolls
      ⟨[], s.shiftState⟩ s.printPrompt := by
    obtain ⟨display, hframe⟩ := printPrompt_frame (s := s)
    have hposition : (s.consolePromptLength - 1).toNat = s.consolePromptLength.toNat - 1 :=
      UInt8.toNat_sub_of_le _ _ (UInt8.le_iff_toNat_le.mpr (le_trans (by decide) htwo))
    rw [hframe]
    refine ⟨⟨Nat.zero_le _, ?_, hblank, rfl, ?_, ?_⟩, hrows, Or.inl rfl⟩
    · show s.consoleStringLength.toNat = 0
      rw [hlength]
      rfl
    · show (s.consolePromptLength - 1).toNat = (s.consolePromptLength.toNat - 1 + 0) % 21
      omega
    · show s.consoleLine.toNat + _ =
        s.consoleLine.toNat + _ + (s.consolePromptLength.toNat - 1 + 0) / 21
      omega
  -- each key keeps the line on the display
  generalize s.printPrompt = u, (⟨[], s.shiftState⟩ : Typed) = typed at hstart ⊢
  generalize u.scrolls = scrolls at hstart ⊢
  induction keys generalizing u typed with
  | nil => exact ⟨u, rfl, hstart.toEdited⟩
  | cons scanCode keys ih =>
    rw [List.mem_cons, not_or] at hreturn
    obtain ⟨t, ht, htyped⟩ := hstart.cliRunShell run hprompt (Ne.symm hreturn.1)
    rw [Run.exec_cons_of_ok ht]
    exact ih hreturn.2 t _ htyped

/-- The console with the cursor in the last row. -/
def lastRow : Console Unit := { Console.afterCliInit with consoleLine := 7 }

/-- A line longer than a row, whose last character is replaced. -/
def longLine : List UInt8 := List.replicate 25 0x61 ++ [keyBackspace, 0x62]

/-- `edited_of_keys` for a line that goes on in the next row, to which the display scrolls. -/
theorem edited_of_keys_longLine :
    ∃ t, Run.exec (Console.cliRunShell fun _ s => s) longLine lastRow.printPrompt = .ok t ∧
      t.consoleLine = 7 ∧ t.scrolls = lastRow.printPrompt.scrolls + 1 ∧
      Edited 3 7 lastRow.printPrompt.scrolls
        (longLine.foldl (fun typed scanCode => typed.key scanCode) ⟨[], 0⟩) t := by
  obtain ⟨t, ht, hedited⟩ := edited_of_keys (s := lastRow) (fun _ s => s) longLine (by decide) rfl
    (fun _ => rfl) (by decide) (by decide) (by decide)
  have hend : (Run.exec (Console.cliRunShell fun _ s => s) longLine lastRow.printPrompt).map
      (fun t => (t.consoleLine, t.scrolls)) = .ok (7, lastRow.printPrompt.scrolls + 1) := by
    decide +kernel
  rw [ht] at hend
  obtain ⟨hline, hscrolls⟩ := Prod.mk.inj (Except.ok.inj hend)
  exact ⟨t, ht, hline, hscrolls, hedited⟩

end Editing

/-! ## The bounds of the line buffers -/

/-- The length of the line behind a key. -/
def keyLength (n : ℕ) (scanCode : UInt8) : ℕ :=
  if scanCode = keyBackspace then n - 1
  else if scanCode = keyReturn then 0
  else if scanCode < 0x20 then n
  else min (n + 1) consoleStringLength

/-- The length of the line behind keys that are pressed on an empty line. -/
def lengthAfter (keys : List UInt8) : ℕ := keys.foldl keyLength 0

/-- No access of the key functions is outside of a line buffer: none stops the run. -/
def StaysInBuffers (run : Call F → Console F → Console F) (keys : List UInt8) (s : Console F) :
    Prop :=
  ∃ t, Run.exec (Console.cliRunShell run) keys s = .ok t

section Bounds

variable {s : Console F} {run : Call F → Console F → Console F} {scanCode : UInt8}
  {indices : List ℕ}

theorem saveString_ok (old : LineBuffer) (h : ∀ a ∈ indices, a < consoleStringLength) :
    ∃ buffer, Console.saveString s.consoleString old indices = .ok buffer := by
  induction indices generalizing old with
  | nil => exact ⟨old, rfl⟩
  | cons a indices ih =>
    have ha := h a List.mem_cons_self
    rw [Console.saveString, List.foldlM_cons, LineBuffer.read_of_lt ha, ok_bind,
      LineBuffer.write_of_lt ha, ok_bind]
    exact ih _ fun b hb => h b (List.mem_cons_of_mem _ hb)

theorem saveString_error (old : LineBuffer) {a : ℕ} (ha : a ∈ indices) (hle : consoleStringLength ≤ a) :
    Console.saveString s.consoleString old indices = .error .outOfBounds := by
  induction indices generalizing old with
  | nil => exact absurd ha List.not_mem_nil
  | cons b indices ih =>
    rw [Console.saveString, List.foldlM_cons]
    rcases Nat.lt_or_ge b consoleStringLength with hb | hb
    · rw [LineBuffer.read_of_lt hb, ok_bind, LineBuffer.write_of_lt hb, ok_bind]
      refine ih _ ((List.mem_cons.mp ha).resolve_left ?_)
      rintro rfl
      exact absurd hb (not_lt.mpr hle)
    · rw [LineBuffer.read_of_le hb]
      rfl

theorem findParameters_ok (h : ∀ a ∈ indices, a < consoleStringLength) :
    ∃ begin, Console.findParameters s.consoleString indices = .ok begin := by
  induction indices with
  | nil => exact ⟨0, rfl⟩
  | cons a indices ih =>
    rw [Console.findParameters, LineBuffer.read_of_lt (h a List.mem_cons_self), ok_bind]
    split
    · exact ih fun b hb => h b (List.mem_cons_of_mem _ hb)
    · exact ⟨_, rfl⟩

/-- **Return** on a line that is not full begins a new line. -/
theorem keyFunctionReturn_ok (run : Call F → Console F → Console F)
    (hlt : s.consoleStringLength.toNat < consoleStringLength) :
    ∃ t, s.keyFunctionReturn run = .ok t ∧ t.consoleStringLength = 0 := by
  have hindices : ∀ a ∈ List.range (s.consoleStringLength.toNat + 1), a < consoleStringLength :=
    fun a ha => (Nat.lt_succ_iff.mp (List.mem_range.mp ha)).trans_lt hlt
  obtain ⟨line, display, hframe⟩ := printLn_frame (s := s)
  obtain ⟨old, hold⟩ := saveString_ok (s := s) s.consoleStringOld hindices
  obtain ⟨begin, hbegin⟩ := findParameters_ok (s := s) hindices
  rw [Console.keyFunctionReturn, hframe]
  simp only [Console.consoleSetCursorPosition, Console.displayWrite, hold, hbegin, ok_bind]
  exact ⟨_, rfl, rfl⟩

/-- **Return on a full line** reads behind it. -/
theorem keyFunctionReturn_error (hle : consoleStringLength ≤ s.consoleStringLength.toNat) :
    s.keyFunctionReturn run = .error .outOfBounds := by
  obtain ⟨line, display, hframe⟩ := printLn_frame (s := s)
  have herror := saveString_error (s := s) s.consoleStringOld
    (List.mem_range.mpr (Nat.lt_succ_self s.consoleStringLength.toNat)) hle
  rw [Console.keyFunctionReturn, hframe]
  simp only [Console.consoleSetCursorPosition, Console.displayWrite, herror]
  rfl

/-- Backspace takes the last character off, if there is one. -/
theorem keyFunctionBackspace_ok (hle : s.consoleStringLength.toNat ≤ consoleStringLength) :
    ∃ t, s.keyFunctionBackspace = .ok t ∧
      t.consoleStringLength.toNat = s.consoleStringLength.toNat - 1 := by
  by_cases hempty : s.consoleStringLength = 0
  · exact ⟨s, by rw [Console.keyFunctionBackspace, if_pos hempty]; rfl, by rw [hempty]; rfl⟩
  · have h40 : consoleStringLength = 40 := rfl
    have hpos : s.consoleStringLength.toNat ≠ 0 := fun h => hempty (UInt8.toNat_inj.mp h)
    have hone : (1 : UInt8).toNat = 1 := rfl
    rw [keyFunctionBackspace_eq hempty (by omega)]
    refine ⟨_, rfl, ?_⟩
    show (Console.consoleStringLength (Console.stepUp _) - 1).toNat = _
    rw [stepUp_frame.2.1]
    show (s.consoleStringLength - 1).toNat = _
    exact UInt8.toNat_sub_of_le _ _ (UInt8.le_iff_toNat_le.mpr (by omega))

/-- A character is put behind the line, if there is room. -/
theorem keyFunctionPrintChar_ok (hle : s.consoleStringLength.toNat ≤ consoleStringLength) :
    ∃ t, s.keyFunctionPrintChar scanCode = .ok t ∧
      t.consoleStringLength.toNat = min (s.consoleStringLength.toNat + 1) consoleStringLength := by
  have h40 : consoleStringLength = 40 := rfl
  rcases hle.lt_or_eq with hlt | heq
  · have hsucc : (s.consoleStringLength + 1).toNat = s.consoleStringLength.toNat + 1 := by
      rw [UInt8.toNat_add, UInt8.toNat_one, Nat.mod_eq_of_lt (by omega)]
    rw [keyFunctionPrintChar_eq hlt, Nat.min_eq_left (by omega), ← hsucc]
    split
    · refine ⟨_, rfl, ?_⟩
      rw [Console.consoleSetCursorPosition, Console.displayWrite]
      obtain ⟨line, display, hframe⟩ := printLn_frame (s := Console.consoleSetCursorPosition _ _)
      rw [hframe]
      rfl
    · exact ⟨_, rfl, rfl⟩
  · exact ⟨s, by rw [Console.keyFunctionPrintChar, if_pos heq.ge]; rfl, by omega⟩

/-- **A key that is not a return on a full line** stays in the line buffers. -/
theorem cliRunShell_ok (run : Call F → Console F → Console F)
    (hle : s.consoleStringLength.toNat ≤ consoleStringLength)
    (hkey : scanCode = keyReturn → s.consoleStringLength.toNat < consoleStringLength) :
    ∃ t, s.cliRunShell run scanCode = .ok t ∧
      t.consoleStringLength.toNat = keyLength s.consoleStringLength.toNat scanCode := by
  by_cases hzero : scanCode = 0
  · subst hzero
    exact ⟨s, rfl, rfl⟩
  by_cases hpressed : scanCode = keyShiftPressed
  · subst hpressed
    exact ⟨_, rfl, rfl⟩
  by_cases hreleased : scanCode = keyShiftReleased
  · subst hreleased
    exact ⟨_, rfl, rfl⟩
  rw [Console.cliRunShell, if_neg hzero, keyLength]
  simp only [if_neg hpressed, if_neg hreleased]
  by_cases hbackspace : scanCode = keyBackspace
  · subst hbackspace
    rw [if_pos (show keyBackspace < 0x20 by decide), if_pos rfl, if_pos rfl]
    exact keyFunctionBackspace_ok hle
  rw [if_neg hbackspace, if_neg hbackspace]
  by_cases hreturn : scanCode = keyReturn
  · subst hreturn
    rw [if_pos (show keyReturn < 0x20 by decide), if_pos rfl, if_pos rfl]
    obtain ⟨t, ht, hlength⟩ := keyFunctionReturn_ok run (hkey rfl)
    exact ⟨t, ht, by rw [hlength]; rfl⟩
  rw [if_neg hreturn, if_neg hreturn]
  by_cases hcontrol : scanCode < 0x20
  · rw [if_pos hcontrol, if_pos hcontrol]
    exact ⟨s, rfl, rfl⟩
  rw [if_neg hcontrol, if_neg hcontrol]
  exact keyFunctionPrintChar_ok hle

theorem keyLength_le (n : ℕ) (hle : n ≤ consoleStringLength) :
    keyLength n scanCode ≤ consoleStringLength := by
  rw [keyLength]
  split_ifs
  · exact (Nat.sub_le _ _).trans hle
  · exact Nat.zero_le _
  · exact hle
  · exact Nat.min_le_right _ _

/-- The bounds of a run, from a line of any length on. -/
theorem staysInBuffers_iff_foldl (keys : List UInt8)
    (hle : s.consoleStringLength.toNat ≤ consoleStringLength) :
    StaysInBuffers run keys s ↔ ∀ before after, keys = before ++ keyReturn :: after →
      before.foldl keyLength s.consoleStringLength.toNat < consoleStringLength := by
  induction keys generalizing s with
  | nil => exact iff_of_true ⟨s, rfl⟩ fun before after h =>
      absurd h.symm (List.append_ne_nil_of_right_ne_nil _ (List.cons_ne_nil _ _))
  | cons scanCode keys ih =>
    by_cases hkey : scanCode = keyReturn → s.consoleStringLength.toNat < consoleStringLength
    · -- the key is handled, and the rest goes on from the line it leaves
      obtain ⟨t, ht, hlength⟩ := cliRunShell_ok run hle hkey
      rw [StaysInBuffers, Run.exec_cons_of_ok ht, ← StaysInBuffers,
        ih (hlength ▸ keyLength_le _ hle), hlength]
      constructor
      · intro h before after heq
        cases before with
        | nil =>
          obtain ⟨rfl, -⟩ := List.cons_eq_cons.mp heq
          exact hkey rfl
        | cons c before =>
          obtain ⟨rfl, htail⟩ := List.cons_eq_cons.mp heq
          exact h before after htail
      · intro h before after heq
        exact h (scanCode :: before) after (by rw [heq]; rfl)
    · -- a return on a full line stops the run
      rw [Classical.not_imp] at hkey
      obtain ⟨rfl, hfull⟩ := hkey
      refine iff_of_false ?_ fun h => hfull (h [] keys rfl)
      rintro ⟨t, ht⟩
      rw [Run.exec, show s.cliRunShell run keyReturn = s.keyFunctionReturn run from rfl,
        keyFunctionReturn_error (not_lt.mp hfull)] at ht
      cases ht

/-- **No access leaves the line buffers** if and only if return is not pressed on a full line. -/
theorem staysInBuffers_iff (run : Call F → Console F → Console F) (keys : List UInt8)
    (hlength : s.consoleStringLength = 0) :
    StaysInBuffers run keys s ↔ ∀ before after, keys = before ++ keyReturn :: after →
      lengthAfter before < consoleStringLength := by
  have hzero : s.consoleStringLength.toNat = 0 := by rw [hlength]; rfl
  rw [staysInBuffers_iff_foldl keys (by rw [hzero]; exact Nat.zero_le _), hzero]
  rfl

/-- `staysInBuffers_iff` for two lines. -/
theorem staysInBuffers_twoLines : StaysInBuffers (F := Unit) (fun _ s => s)
    [0x6C, 0x73, keyReturn, 0x78, keyReturn] Console.afterCliInit := by
  refine (staysInBuffers_iff (fun _ s => s) _ rfl).mpr fun before after heq => ?_
  have hall : ∀ n < 5, lengthAfter ([0x6C, 0x73, keyReturn, 0x78, keyReturn].take n) <
      consoleStringLength := by decide
  have hlt : before.length < 5 := by
    have hlength := congrArg List.length heq
    simp only [List.length_append, List.length_cons, List.length_nil] at hlength
    omega
  have h := hall before.length hlt
  rwa [heq, List.take_left] at h

/-- Return behind forty characters leaves the line buffers. -/
theorem exists_not_staysInBuffers : ¬ ∀ (run : Call Unit → Console Unit → Console Unit)
    (keys : List UInt8), StaysInBuffers run keys Console.afterCliInit := by
  intro h
  have hstays := h (fun _ s => s) (List.replicate 40 0x61 ++ keyReturn :: [])
  have hlt : (List.replicate 40 0x61).foldl keyLength 0 < consoleStringLength :=
    (staysInBuffers_iff_foldl _ (by decide)).mp hstays (List.replicate 40 0x61) [] rfl
  have hkey : ∀ n ≤ 40, (List.replicate n 0x61).foldl keyLength 0 = n := by
    intro n hn
    induction n with
    | zero => rfl
    | succ n ih =>
      rw [List.replicate_succ', List.foldl_append, ih (Nat.le_of_succ_le hn)]
      show min (n + 1) 40 = n + 1
      exact Nat.min_eq_left hn
  rw [hkey 40 le_rfl] at hlt
  exact absurd hlt (lt_irrefl _)

end Bounds

end MicroKernel.Command
