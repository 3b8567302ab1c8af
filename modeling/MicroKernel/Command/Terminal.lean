import Mathlib.Data.List.Destutter
import MicroKernel.Command.Boot
import MicroKernel.Devices.Keyboard

/-!
# The terminal

The loop of `main` on the Retroboard, which samples the registers of the keyboard: `ConsoleGetLastChar`
of `kernel/command/cli.c` returns a key when the registers have changed, and `cliRunShell` takes it. So
the display shows the dialogue of the scan codes that follow one another, and nothing but printable
characters; and what can be typed on a line is every text of printable characters that has room, but
for the tilde.

## Main definitions

* `Keyboard`, `consoleGetLastChar`: the key that the samples of the keyboard give
* `Terminal`, `Terminal.start`, `Terminal.cliRunShell`: the system with the keyboard
* `keysOf`: the keys of the scan codes
* `Printable`, `Typable`: the characters that can be shown and typed
* `strokes`: the scan codes for a character

## Main results

* `Terminal.shows_keysOf`: what is shown behind any samples
* `Terminal.types_iff`: the lines that can be typed
-/

namespace MicroKernel.Command

open Fs

/-! ## The keyboard -/

/-- The variables of `ConsoleGetLastChar`. -/
structure Keyboard where
  oldScanCode : ScanCode
  lastChar : UInt8

/-- `ConsoleGetLastChar`, where the registers of the keyboard hold `code`. -/
def consoleGetLastChar (board : Board) (code : ScanCode) (s : Keyboard) : UInt8 × Keyboard :=
  if s.oldScanCode = code then (0, s)
  else
    let s := { s with oldScanCode := code }
    let scanCode := kbDecodeScanCode board code
    if scanCode = 0 then (0, s)
    else (scanCode, { s with lastChar := scanCode })

/-- The system with the keyboard. -/
structure Terminal where
  system : System
  keyboard : Keyboard

/-- What the registers of the keyboard hold when the shell is run, and what the stack holds. -/
structure Sample where
  scanCode : ScanCode
  junk : ℕ → ℕ → UInt8

namespace Terminal

/-- `main` up to the first prompt, where the registers hold `code` in `cliInit`. -/
def start (code : ScanCode) (junk : ℕ → ℕ → UInt8) (mem : Memory) : Except Fault Terminal := do
  let system ← Command.start junk mem
  return ⟨system, ⟨code, kbDecodeScanCode .retroboardRev2 code⟩⟩

/-- A pass of the loop of `main` with `BOARD_RETROBOARD_REV2`. -/
def cliRunShell (sample : Sample) (s : Terminal) : Except Fault Terminal := do
  let (scanCode, keyboard) := consoleGetLastChar .retroboardRev2 sample.scanCode s.keyboard
  let system ← s.system.cliRunShell ⟨scanCode, sample.junk⟩
  return ⟨system, keyboard⟩

end Terminal

/-- The keys of the scan codes that the registers hold one after the other, from `old` on: a scan code
that stays is one key, and one that is not decoded is none. -/
def keysOf (old : ScanCode) (codes : List ScanCode) : List UInt8 :=
  (((codes.destutter' (· ≠ ·) old).tail).map (kbDecodeScanCode .retroboardRev2)).filter (· ≠ 0)

/-! ## The characters -/

/-- A character of the display's font that is not a control code. -/
def Printable (c : UInt8) : Prop := 0x20 ≤ c ∧ c ≤ 0x7e

instance (c : UInt8) : Decidable (Printable c) := instDecidableAnd

/-- A printable character but the tilde. -/
def Typable (c : UInt8) : Prop := Printable c ∧ c ≠ '~'.toUInt8

instance (c : UInt8) : Decidable (Typable c) := instDecidableAnd

/-- The scan code of the shift key when it is pressed, and when it is released. -/
def shiftPressed : ScanCode := ⟨0x98, 0xc4⟩
def shiftReleased : ScanCode := ⟨0x9f, 0xc4⟩

/-- A scan code that is not decoded. -/
def idle : ScanCode := ⟨0, 0⟩

/-- The scan codes for a character: of its key, or of the key with which shift makes it. -/
def strokes (c : UInt8) : List ScanCode :=
  match (keyEntries .retroboardRev2).find? (·.2 = c) with
  | some entry => [entry.1, idle]
  | none =>
    match (keyEntries .retroboardRev2).find? (shiftedChar 1 ·.2 = c) with
    | some entry => [shiftPressed, entry.1, shiftReleased, idle]
    | none => []

/-- The typed line behind keys that are not return. -/
def Typed.keys (scanCodes : List UInt8) (typed : Typed) : Typed :=
  scanCodes.foldl (fun (typed : Typed) scanCode => typed.key scanCode) typed

/-! ## The keys of the samples -/

section Keys

variable {old code : ScanCode} {codes : List ScanCode}

theorem destutter'_eq_cons (old : ScanCode) (codes : List ScanCode) :
    codes.destutter' (· ≠ ·) old = old :: (codes.destutter' (· ≠ ·) old).tail := by
  induction codes with
  | nil => rfl
  | cons code codes ih =>
    by_cases h : old = code
    · rw [List.destutter'_cons_neg _ (not_not.mpr h), ← ih]
    · rw [List.destutter'_cons_pos _ h]
      rfl

/-- A scan code that stays. -/
theorem keysOf_cons_self (code : ScanCode) (codes : List ScanCode) :
    keysOf code (code :: codes) = keysOf code codes := by
  rw [keysOf, List.destutter'_cons_neg _ (not_not.mpr rfl), ← keysOf]

/-- A scan code that is new. -/
theorem keysOf_cons_of_ne (h : old ≠ code) (codes : List ScanCode) :
    keysOf old (code :: codes) =
      if kbDecodeScanCode .retroboardRev2 code = 0 then keysOf code codes
      else kbDecodeScanCode .retroboardRev2 code :: keysOf code codes := by
  rw [keysOf, List.destutter'_cons_pos _ h, List.tail_cons, destutter'_eq_cons, List.map_cons,
    List.filter_cons, ← keysOf]
  by_cases hzero : kbDecodeScanCode .retroboardRev2 code = 0
  · rw [if_pos hzero, if_neg (by rw [decide_eq_true_iff]; exact not_not.mpr hzero)]
  · rw [if_neg hzero, if_pos (by rw [decide_eq_true_iff]; exact hzero)]

/-- A sample is the key that the keyboard gives for it, if there is one. -/
theorem keysOf_sample (code : ScanCode) (codes : List ScanCode) (keyboard : Keyboard) :
    keysOf keyboard.oldScanCode (code :: codes) =
      if (consoleGetLastChar .retroboardRev2 code keyboard).1 = 0 then
        keysOf (consoleGetLastChar .retroboardRev2 code keyboard).2.oldScanCode codes
      else (consoleGetLastChar .retroboardRev2 code keyboard).1 ::
        keysOf (consoleGetLastChar .retroboardRev2 code keyboard).2.oldScanCode codes := by
  by_cases hsame : keyboard.oldScanCode = code
  · rw [consoleGetLastChar, if_pos hsame, if_pos rfl, hsame, keysOf_cons_self]
  · rw [keysOf_cons_of_ne hsame, consoleGetLastChar, if_neg hsame]
    by_cases hzero : kbDecodeScanCode .retroboardRev2 code = 0
    · simp only [hzero]
      rfl
    · simp only [if_neg hzero]

/-- **The loop takes the keys** of the scan codes. -/
theorem exec_terminal (samples : List Sample) (keyboard : Keyboard) :
    ∃ (keys : List KeyPress) (keyboard' : Keyboard),
      keys.map KeyPress.scanCode =
        keysOf keyboard.oldScanCode (samples.map Sample.scanCode) ∧
      ∀ system, Run.exec Terminal.cliRunShell samples ⟨system, keyboard⟩ =
        (Run.exec System.cliRunShell keys system).map fun system => ⟨system, keyboard'⟩ := by
  induction samples generalizing keyboard with
  | nil => exact ⟨[], keyboard, rfl, fun system => rfl⟩
  | cons sample samples ih =>
    obtain ⟨⟨key, after⟩, hget⟩ :
      ∃ r, consoleGetLastChar .retroboardRev2 sample.scanCode keyboard = r := ⟨_, rfl⟩
    obtain ⟨keys, keyboard', hkeys, hexec⟩ := ih after
    have hsample := keysOf_sample sample.scanCode (samples.map Sample.scanCode) keyboard
    rw [hget, ← hkeys] at hsample
    by_cases hzero : key = 0
    · -- there is no key, and the pass does nothing
      subst hzero
      refine ⟨keys, keyboard', (hsample.trans (if_pos rfl)).symm, fun system => ?_⟩
      rw [← hexec, Run.exec_cons_of_ok]
      rw [Terminal.cliRunShell, hget]
      rfl
    · refine ⟨⟨key, sample.junk⟩ :: keys, keyboard', (hsample.trans (if_neg hzero)).symm,
        fun system => ?_⟩
      rw [Run.exec, Run.exec, Terminal.cliRunShell, hget]
      cases hrun : system.cliRunShell ⟨key, sample.junk⟩ with
      | error fault =>
        simp only [hrun]
        rfl
      | ok system' =>
        simp only [hrun]
        exact hexec system'

end Keys

/-! ## Printable characters -/

section Characters

variable {c : UInt8} {d : Dialogue} {scanCodes : List UInt8}

/-- A property of all characters is checked one by one. -/
theorem forall_of_range {p : UInt8 → Prop} (h : ∀ n < 256, p (UInt8.ofNat n)) (c : UInt8) : p c := by
  have hc := h c.toNat c.toNat_lt
  rwa [UInt8.ofNat_toNat] at hc

/-- A property of the characters of a text is checked one by one. -/
theorem forall_mem_of_all {p : UInt8 → Prop} [DecidablePred p] {text : List UInt8}
    (h : (text.all fun c => p c) = true) : ∀ c ∈ text, p c :=
  fun c hc => of_decide_eq_true (List.all_eq_true.mp h c hc)

theorem shiftedChar_cases (shiftState scanCode : UInt8) :
    shiftedChar shiftState scanCode = scanCode ∨
      shiftedChar shiftState scanCode = shiftedChar 1 scanCode := by
  by_cases h : shiftState = 1
  · exact .inr (by rw [h])
  · exact .inl (if_neg h)

/-- The keys of the Retroboard that are not control codes make characters that can be typed, with shift
and without. -/
theorem typable_of_mem_keyEntries {entry : ScanCode × UInt8} (h : entry ∈ keyEntries .retroboardRev2)
    (hcontrol : ¬ entry.2 < 0x20) (shiftState : UInt8) :
    Typable (shiftedChar shiftState entry.2) := by
  have hall : ∀ entry ∈ keyEntries .retroboardRev2, ¬ entry.2 < 0x20 →
      Typable entry.2 ∧ Typable (shiftedChar 1 entry.2) := by decide +kernel
  obtain ⟨hplain, hshift⟩ := hall entry h hcontrol
  rcases shiftedChar_cases shiftState entry.2 with heq | heq
  · rwa [heq]
  · rwa [heq]

theorem typable_of_mem_keysOf {old : ScanCode} {codes : List ScanCode} {scanCode : UInt8}
    (h : scanCode ∈ keysOf old codes) (hcontrol : ¬ scanCode < 0x20) (shiftState : UInt8) :
    Typable (shiftedChar shiftState scanCode) := by
  obtain ⟨hmem, hzero⟩ := List.mem_filter.mp h
  obtain ⟨code, -, hcode⟩ := List.mem_map.mp hmem
  have hentry := (kbDecodeScanCode_eq_iff (of_decide_eq_true hzero)).mp hcode
  exact typable_of_mem_keyEntries hentry hcontrol shiftState

/-- What a key that can be typed shows and leaves on the line. -/
structure Dialogue.Clean (d : Dialogue) : Prop where
  shown : ∀ c ∈ d.shown, Printable c
  typed : ∀ c ∈ d.typed.line, Typable c

theorem printable_response {line : List UInt8} :
    ∀ c ∈ response (initialEntries.map NewEntry.entry) line, Printable c := by
  have hlisting : ∀ c ∈ (initialEntries.map NewEntry.entry).flatMap listingLine, Printable c :=
    forall_mem_of_all (by decide +kernel)
  have hnotFound : ∀ c ∈ msgDirectoryNotFound.dropLast, Printable c := forall_mem_of_all (by decide)
  have hbad : ∀ c ∈ Console.msgBadCommand.dropLast, Printable c := forall_mem_of_all (by decide)
  have hnil : ∀ c ∈ ([] : List UInt8), Printable c := fun c h => absurd h List.not_mem_nil
  rw [response]
  split_ifs
  · exact hlisting
  · exact hnil
  · exact hnotFound
  · exact hnil
  · exact hbad

/-- **A key keeps the dialogue clean.** -/
theorem Dialogue.Clean.key (h : d.Clean) {scanCode : UInt8}
    (hkey : ¬ scanCode < 0x20 → ∀ shiftState, Typable (shiftedChar shiftState scanCode)) :
    (d.key (initialEntries.map NewEntry.entry) scanCode).Clean := by
  rw [Dialogue.key]
  -- return shows a response and the prompt, and empties the line
  by_cases hreturn : scanCode = keyReturn
  · rw [if_pos hreturn]
    refine ⟨fun c hc => ?_, fun c hc => absurd hc List.not_mem_nil⟩
    have hprompt : ∀ c ∈ chars ['x', '>'], Printable c := forall_mem_of_all (by decide)
    rcases List.mem_append.mp hc with hc | hc
    · rcases List.mem_append.mp hc with hc | hc
      · exact h.shown c hc
      · exact printable_response c hc
    · exact hprompt c hc
  rw [if_neg hreturn]
  constructor
  · intro c hc
    rcases List.mem_append.mp hc with hc | hc
    · exact h.shown c hc
    · rw [echo] at hc
      split_ifs at hc with hbackspace hempty hcontrol hlt
      · cases hc
      · obtain rfl := List.mem_singleton.mp hc
        decide
      · cases hc
      · obtain rfl := List.mem_singleton.mp hc
        exact (hkey hcontrol _).1
      · cases hc
  · intro c hc
    rw [Typed.key] at hc
    split_ifs at hc with hpressed hreleased hbackspace hcontrol hlt
    · exact h.typed c hc
    · exact h.typed c hc
    · exact h.typed c (List.mem_of_mem_dropLast hc)
    · exact h.typed c hc
    · rcases List.mem_append.mp hc with hc | hc
      · exact h.typed c hc
      · obtain rfl := List.mem_singleton.mp hc
        exact hkey hcontrol _
    · exact h.typed c hc

/-- A numeral is printable. -/
theorem printable_decimal {n : UInt32} (hc : c ∈ decimal n) : Printable c := by
  rw [decimal] at hc
  split_ifs at hc
  · obtain rfl := List.mem_singleton.mp hc
    decide
  · obtain ⟨d, hd, rfl⟩ := List.mem_map.mp (List.mem_reverse.mp hc)
    have hlt : d < 10 := Nat.digits_lt_base (by decide) hd
    have htoNat := CString.toNat_digitChar hlt
    rw [Printable, UInt8.le_iff_toNat_le, UInt8.le_iff_toNat_le, htoNat]
    show 32 ≤ 48 + d ∧ 48 + d ≤ 126
    omega

/-- The count of the memory is printable. -/
theorem printable_countedText {n : UInt32} (hc : c ∈ countedText n) : Printable c := by
  have hfree : ∀ c ∈ chars [' ', 'b', 'y', 't', 'e', 's', ' ', 'f', 'r', 'e', 'e'], Printable c :=
    forall_mem_of_all (by decide)
  have hspace : Printable space := by decide
  rcases List.mem_append.mp hc with hc | hc
  · obtain ⟨k, -, hline⟩ := List.mem_flatMap.mp hc
    rcases List.mem_append.mp (List.mem_of_mem_take hline) with hc | hc
    · exact printable_decimal hc
    · rwa [List.eq_of_mem_replicate hc]
  · split_ifs at hc
    · exact absurd hc List.not_mem_nil
    · exact hfree c hc

/-- The dialogue of the keys of scan codes is clean. -/
theorem clean_dialogueOf (old : ScanCode) (codes : List ScanCode) :
    (dialogueOf (keysOf old codes)).Clean := by
  have hversion : ∀ c ∈ chars ['k', 'e', 'r', 'n', 'e', 'l', ' ', 'v', '0', '.', '1', '.', '0'],
    Printable c := forall_mem_of_all (by decide)
  have hprompt : ∀ c ∈ chars ['x', '>'], Printable c := forall_mem_of_all (by decide)
  have hfirst : ∀ c ∈ firstLines, Printable c := by
    intro c hc
    rcases List.mem_append.mp hc with hc | hc
    · exact (List.mem_append.mp hc).elim printable_countedText (hversion c)
    · exact hprompt c hc
  have hall : ∀ scanCode ∈ keysOf old codes, ¬ scanCode < 0x20 →
      ∀ shiftState, Typable (shiftedChar shiftState scanCode) :=
    fun scanCode h => typable_of_mem_keysOf h
  rw [dialogueOf]
  generalize keysOf old codes = scanCodes at hall
  refine List.foldlRecOn scanCodes _ ⟨hfirst, fun c hc => absurd hc List.not_mem_nil⟩ ?_
  intro d hd scanCode hmem
  exact hd.key (hall scanCode hmem)

end Characters

/-! ## What is shown -/

namespace Terminal

section Shown

variable {code : ScanCode} {junk : ℕ → ℕ → UInt8} {mem : Memory}

/-- **The loop at the first prompt** takes the keys of the scan codes. -/
theorem exec_start (code : ScanCode) (junk : ℕ → ℕ → UInt8) (mem : Memory) :
    ∃ s, start code junk mem = .ok s ∧
      Serving (initialEntries.map NewEntry.entry) ⟨⟨[], 0⟩, firstLines⟩ s.system ∧
      ∀ samples, ∃ (keys : List KeyPress) (keyboard : Keyboard),
        keys.map KeyPress.scanCode = keysOf code (samples.map Sample.scanCode) ∧
        Run.exec cliRunShell samples s =
          (Run.exec System.cliRunShell keys s.system).map fun system => ⟨system, keyboard⟩ := by
  obtain ⟨system, hsystem, hserving⟩ := serving_start junk mem
  refine ⟨⟨system, ⟨code, kbDecodeScanCode .retroboardRev2 code⟩⟩, ?_, hserving, fun samples => ?_⟩
  · rw [start, hsystem]
    rfl
  · obtain ⟨keys, keyboard, hkeys, hexec⟩ :=
      exec_terminal samples ⟨code, kbDecodeScanCode .retroboardRev2 code⟩
    exact ⟨keys, keyboard, hkeys, hexec system⟩

/-- **Whatever the keyboard sends** from power-on, the display shows the dialogue of the keys, and only
printable characters; the shell fails if and only if return is pressed on a full line. -/
theorem shows_keysOf (code : ScanCode) (junk : ℕ → ℕ → UInt8) (mem : Memory)
    (samples : List Sample) :
    ∃ s, start code junk mem = .ok s ∧
      ((∃ t, Run.exec cliRunShell samples s = .ok t) ↔
        ∀ before after, keysOf code (samples.map Sample.scanCode) = before ++ keyReturn :: after →
          lengthAfter before < consoleStringLength) ∧
      ∀ t, Run.exec cliRunShell samples s = .ok t →
        t.system.console.printed =
          (dialogueOf (keysOf code (samples.map Sample.scanCode))).shown ∧
        (∀ c ∈ t.system.console.printed, Printable c) ∧
        t.system.fs.memory = s.system.fs.memory := by
  obtain ⟨s, hs, hserving, hkeysOf⟩ := exec_start code junk mem
  obtain ⟨keys, keyboard, hkeys, hexec⟩ := hkeysOf samples
  refine ⟨s, hs, ?_⟩
  rw [hexec, ← hkeys]
  constructor
  · constructor
    · rintro ⟨t, ht⟩
      obtain ⟨system, hrun, -⟩ := map_eq_ok.mp ht
      exact hserving.lt_of_exec hrun
    · intro hlt
      obtain ⟨system, hrun, -⟩ := hserving.exec keys hlt
      exact ⟨_, by rw [hrun]; rfl⟩
  · intro t ht
    obtain ⟨system, hrun, rfl⟩ := map_eq_ok.mp ht
    obtain ⟨hrestored, hserving'⟩ := hserving.of_exec hrun
    have hprinted : system.console.printed = (dialogueOf (keys.map KeyPress.scanCode)).shown :=
      hserving'.printed
    refine ⟨hprinted, ?_, hrestored.memory_eq⟩
    rw [hprinted, hkeys]
    exact (clean_dialogueOf _ _).shown

end Shown

end Terminal

/-! ## What can be typed -/

section Typing

variable {old code : ScanCode} {codes rest : List ScanCode} {c : UInt8} {line : List UInt8}

theorem kbDecodeScanCode_idle : kbDecodeScanCode .retroboardRev2 idle = 0 := by decide

/-- The registers return to a scan code that is not decoded. -/
theorem keysOf_cons_idle (old : ScanCode) (codes : List ScanCode) :
    keysOf old (idle :: codes) = keysOf idle codes := by
  by_cases h : old = idle
  · rw [h, keysOf_cons_self]
  · rw [keysOf_cons_of_ne h, if_pos kbDecodeScanCode_idle]

/-- A scan code that is decoded, from another. -/
theorem keysOf_cons_key {scanCode : UInt8} (hcode : kbDecodeScanCode .retroboardRev2 code = scanCode)
    (hold : kbDecodeScanCode .retroboardRev2 old ≠ scanCode) (hzero : scanCode ≠ 0)
    (codes : List ScanCode) : keysOf old (code :: codes) = scanCode :: keysOf code codes := by
  have hne : old ≠ code := by
    rintro rfl
    exact hold hcode
  rw [keysOf_cons_of_ne hne, hcode, if_neg hzero]

/-- A character is put behind a line with room. -/
theorem key_of_typable {scanCode shiftState : UInt8} (hcontrol : ¬ scanCode < 0x20)
    (hlt : line.length < consoleStringLength) :
    Typed.key scanCode ⟨line, shiftState⟩ = ⟨line ++ [shiftedChar shiftState scanCode], shiftState⟩ := by
  have hne : ∀ code : UInt8, code < 0x20 → scanCode ≠ code := by
    rintro code hcode rfl
    exact hcontrol hcode
  rw [Typed.key, if_neg (hne _ (by decide)), if_neg (hne _ (by decide)), if_neg (hne _ (by decide)),
    if_neg hcontrol, if_pos hlt]

/-- **The strokes of a character** put it behind a line with room. -/
theorem keysOf_strokes (hc : Typable c) : ∃ keys, keyReturn ∉ keys ∧
    (∀ rest, keysOf idle (strokes c ++ rest) = keys ++ keysOf idle rest) ∧
    ∀ line : List UInt8, line.length < consoleStringLength →
      Typed.keys keys ⟨line, 0⟩ = ⟨line ++ [c], 0⟩ := by
  have hcontrol : ¬ c < 0x20 := UInt8.not_lt.mpr hc.1.1
  have hall : ∀ c, Typable c → strokes c ≠ [] := forall_of_range (by decide +kernel)
  have hstrokes := hall c hc
  rw [strokes] at hstrokes ⊢
  cases hplain : (keyEntries .retroboardRev2).find? (·.2 = c) with
  | some entry =>
    -- the character has a key
    have hfound := List.find?_some hplain
    have hentry : entry.2 = c := of_decide_eq_true hfound
    have hmem := List.mem_of_find?_eq_some hplain
    have hzero : entry.2 ≠ 0 := ne_zero_of_mem_keyEntries hmem
    have hdecode := (kbDecodeScanCode_eq_iff hzero).mpr hmem
    refine ⟨[c], ?_, fun rest => ?_, fun line hlt => ?_⟩
    · rw [List.mem_singleton]
      rintro rfl
      exact hcontrol (by decide)
    · show keysOf idle (entry.1 :: idle :: rest) = c :: keysOf idle rest
      rw [keysOf_cons_key hdecode (by rw [kbDecodeScanCode_idle]; exact hzero.symm) hzero,
        keysOf_cons_idle, hentry]
    · exact key_of_typable hcontrol hlt
  | none =>
    rw [hplain] at hstrokes
    cases hshift : (keyEntries .retroboardRev2).find? (shiftedChar 1 ·.2 = c) with
    | none =>
      rw [hshift] at hstrokes
      exact absurd rfl hstrokes
    | some entry =>
      -- shift makes the character of a key
      have hfound := List.find?_some hshift
      have hentry : shiftedChar 1 entry.2 = c := of_decide_eq_true hfound
      have hmem := List.mem_of_find?_eq_some hshift
      have hzero : entry.2 ≠ 0 := ne_zero_of_mem_keyEntries hmem
      have hdecode := (kbDecodeScanCode_eq_iff hzero).mpr hmem
      have hkey : ¬ entry.2 < 0x20 := by
        have hall : ∀ entry ∈ keyEntries .retroboardRev2, entry.2 < 0x20 →
            shiftedChar 1 entry.2 < 0x20 := by decide +kernel
        intro hlt
        exact hcontrol (hentry ▸ hall entry hmem hlt)
      have hne : ∀ code : UInt8, code < 0x20 → code ≠ entry.2 := by
        rintro code hcode rfl
        exact hkey hcode
      have hpressed : kbDecodeScanCode .retroboardRev2 shiftPressed = keyShiftPressed := by decide
      have hreleased : kbDecodeScanCode .retroboardRev2 shiftReleased = keyShiftReleased := by decide
      refine ⟨[keyShiftPressed, entry.2, keyShiftReleased], ?_, fun rest => ?_, fun line hlt => ?_⟩
      · intro h
        rcases List.mem_cons.mp h with h | h
        · exact absurd h (by decide)
        rcases List.mem_cons.mp h with h | h
        · exact hne keyReturn (by decide) h
        · exact absurd (List.mem_singleton.mp h) (by decide)
      · show keysOf idle (shiftPressed :: entry.1 :: shiftReleased :: idle :: rest) = _
        rw [keysOf_cons_key hpressed (by rw [kbDecodeScanCode_idle]; decide) (by decide),
          keysOf_cons_key hdecode (by rw [hpressed]; exact hne _ (by decide)) hzero,
          keysOf_cons_key hreleased (by rw [hdecode]; exact (hne _ (by decide)).symm) (by decide),
          keysOf_cons_idle]
        rfl
      · show Typed.key keyShiftReleased (Typed.key entry.2 ⟨line, 1⟩) = _
        rw [key_of_typable hkey hlt, hentry]
        rfl

/-- The strokes of the characters of a text type it. -/
theorem keysOf_flatMap_strokes (htypable : ∀ c ∈ line, Typable c)
    (hle : line.length ≤ consoleStringLength) :
    keyReturn ∉ keysOf idle (line.flatMap strokes) ∧
      Typed.keys (keysOf idle (line.flatMap strokes)) ⟨[], 0⟩ = ⟨line, 0⟩ := by
  have htext : ∀ text before : List UInt8, (∀ c ∈ text, Typable c) →
      before.length + text.length ≤ consoleStringLength →
      keyReturn ∉ keysOf idle (text.flatMap strokes) ∧
        Typed.keys (keysOf idle (text.flatMap strokes)) ⟨before, 0⟩ = ⟨before ++ text, 0⟩ := by
    intro text
    induction text with
    | nil =>
      intro before _ _
      rw [List.flatMap_nil, List.append_nil]
      exact ⟨List.not_mem_nil, rfl⟩
    | cons c text ih =>
      intro before htypable hle
      rw [List.length_cons] at hle
      obtain ⟨keys, hreturn, hkeys, hfold⟩ := keysOf_strokes (htypable c List.mem_cons_self)
      obtain ⟨hreturn', hfold'⟩ := ih (before ++ [c])
        (fun c hc => htypable c (List.mem_cons_of_mem _ hc))
        (by rw [List.length_append, List.length_singleton]; omega)
      rw [List.flatMap_cons, hkeys, Typed.keys, List.foldl_append, ← Typed.keys, ← Typed.keys,
        hfold before (by omega), hfold', List.append_assoc]
      exact ⟨fun h => (List.mem_append.mp h).elim hreturn hreturn', rfl⟩
  exact htext line [] htypable (by rw [List.length_nil]; omega)

/-- Keys that are not return leave the typed line of the dialogue to `Typed.key`. -/
theorem typed_foldl {entries : List CatalogEntry} {scanCodes : List UInt8}
    (hreturn : keyReturn ∉ scanCodes) (d : Dialogue) :
    (scanCodes.foldl (fun d scanCode => d.key entries scanCode) d).typed =
      Typed.keys scanCodes d.typed := by
  induction scanCodes generalizing d with
  | nil => rfl
  | cons scanCode scanCodes ih =>
    rw [List.mem_cons, not_or] at hreturn
    rw [List.foldl_cons, ih hreturn.2, Dialogue.key, if_neg (Ne.symm hreturn.1)]
    rfl

end Typing

namespace Terminal

/-- The line that the shell holds. -/
def line (s : Terminal) : List UInt8 :=
  (List.ofFn s.system.console.consoleString).take s.system.console.consoleStringLength.toNat

theorem line_eq {entries : List CatalogEntry} {d : Dialogue} {s : Terminal}
    (h : Serving entries d s.system) : s.line = d.typed.line := by
  obtain ⟨start, scrolls, hedit⟩ := h.editing
  rw [line, hedit.ofFn_consoleString, hedit.length, paddedLine, List.rightpad,
    List.take_append_of_le_length le_rfl, List.take_length]

/-- **What can be typed**: the shell can be brought to hold a line if and only if the line is not longer
than the buffer and has only printable characters but the tilde. -/
theorem types_iff (code : ScanCode) (junk : ℕ → ℕ → UInt8) (mem : Memory) (text : List UInt8) :
    (∃ samples s t, start code junk mem = .ok s ∧ Run.exec cliRunShell samples s = .ok t ∧
      t.line = text) ↔ text.length ≤ consoleStringLength ∧ ∀ c ∈ text, Typable c := by
  obtain ⟨s, hs, hserving, hkeysOf⟩ := exec_start code junk mem
  -- a line that is held has come from keys; a line of typable characters is typed one by one
  constructor
  · rintro ⟨samples, s', t, hs', ht, rfl⟩
    obtain rfl : s = s' := Except.ok.inj (hs.symm.trans hs')
    obtain ⟨keys, keyboard, hkeys, hexec⟩ := hkeysOf samples
    rw [hexec] at ht
    obtain ⟨system, hrun, rfl⟩ := map_eq_ok.mp ht
    obtain ⟨-, hserving'⟩ := hserving.of_exec hrun
    have hline := line_eq (s := ⟨system, keyboard⟩) hserving'
    obtain ⟨start, scrolls, hedit⟩ := hserving'.editing
    rw [hline]
    refine ⟨hedit.length_le, ?_⟩
    have hclean := (clean_dialogueOf code (samples.map Sample.scanCode)).typed
    rwa [← hkeys] at hclean
  · rintro ⟨hle, htypable⟩
    obtain ⟨hreturn, hfold⟩ := keysOf_flatMap_strokes htypable hle
    obtain ⟨samples, hsamples⟩ : ∃ samples : List Sample,
        samples.map Sample.scanCode = idle :: text.flatMap strokes :=
      ⟨(idle :: text.flatMap strokes).map fun code => ⟨code, fun _ _ => 0⟩, by
        rw [List.map_map]
        exact List.map_id _⟩
    obtain ⟨keys, keyboard, hkeys, hexec⟩ := hkeysOf samples
    rw [hsamples, keysOf_cons_idle] at hkeys
    obtain ⟨system, hrun, -, hserving'⟩ := hserving.exec keys fun before after heq => by
      rw [← hkeys, heq] at hreturn
      exact absurd (List.mem_append_right _ List.mem_cons_self) hreturn
    refine ⟨samples, s, ⟨system, keyboard⟩, hs, by rw [hexec, hrun]; rfl, ?_⟩
    rw [line_eq hserving', hkeys, typed_foldl hreturn, hfold]

end Terminal

end MicroKernel.Command
