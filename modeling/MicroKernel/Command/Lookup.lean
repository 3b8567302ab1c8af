import Mathlib.Data.List.Infix
import Mathlib.Data.UInt

/-!
# Command dispatch

The command registry of the console: `ConsoleRegisterCommand` and `cliInit` of
`kernel/command/cli.c`, and `commandFunctionLookup` of `kernel/command/command.c`. The lookup
compares the line with the name of each entry until a name ends at a space, or the line has a symbol
next, whether or not the name is complete there.

## Main definitions

* `ConsoleCommand`, `consoleRegisterCommand`: the registry
* `commandFunctionLookup`: the entry that is called, with its parameters
* `word`, `parametersStart`: the first word of a line, and where its parameters start
* `DispatchExact`: the exact dispatch of a line
* `Distinguished`: the condition on the registered names and the line

## Main results

* `registry_registerAll`: the registry behind `cliInit` and the registrations
* `commandFunctionLookup_registerAll`: the entry that is called
* `dispatchExact_iff`: when the dispatch is exact
-/

namespace MicroKernel.Command

/-! ## Characters -/

/-- `is_number` -/
def isNumber (c : UInt8) : Bool := 0x30 ≤ c && c ≤ 0x39

/-- `is_uppercase` -/
def isUppercase (c : UInt8) : Bool := 0x41 ≤ c && c ≤ 0x5a

/-- `is_lowercase` -/
def isLowercase (c : UInt8) : Bool := 0x61 ≤ c && c ≤ 0x7a

/-- `is_letter` -/
def isLetter (c : UInt8) : Bool := isUppercase c || isLowercase c

/-- `is_symbol` -/
def isSymbol (c : UInt8) : Bool :=
  (0x21 ≤ c && c ≤ 0x2f) || (0x3a ≤ c && c ≤ 0x40) || (0x5b ≤ c && c ≤ 0x60) ||
    (0x7b ≤ c && c ≤ 0x7e)

/-- `lowercase` -/
def lowercase (c : UInt8) : UInt8 := if isUppercase c then c + 0x20 else c

/-- `' '` -/
def space : UInt8 := ' '.toUInt8

/-! ## The registry -/

/-- `CONSOLE_STRING_LENGTH` -/
def consoleStringLength : ℕ := 40

/-- `CONSOLE_FUNCTION_NAME_LENGTH` -/
def consoleFunctionNameLength : ℕ := 10

/-- `CONSOLE_FUNCTION_TABLE_SIZE` -/
def consoleFunctionTableSize : ℕ := 8

/-- `struct ConsoleCommand`, with the functions of the commands in `F`. -/
structure ConsoleCommand (F : Type*) where
  name : List UInt8
  function : Option F

variable {F : Type*}

/-- The registry as `cliInit` leaves it. -/
def cliInit : List (ConsoleCommand F) :=
  List.replicate consoleFunctionTableSize
    ⟨List.replicate consoleFunctionNameLength space, none⟩

/-- The name of an entry does not start with a letter or a number. -/
def isFree (command : ConsoleCommand F) : Bool :=
  !(isLetter (command.name.headD 0) || isNumber (command.name.headD 0))

/-- The first free entry is taken; without one, the first entry. -/
def consoleRegisterCommand (name : List UInt8) (nameLength : UInt8) (functionPtr : F)
    (registry : List (ConsoleCommand F)) : List (ConsoleCommand F) :=
  -- Check valid value
  let index := (registry.findIdx? isFree).getD 0
  let nameLength := min nameLength.toNat consoleFunctionNameLength
  registry.modify index fun command =>
    { name := name.take (nameLength - 1) ++ command.name.drop (nameLength - 1)
      function := some functionPtr }

/-! ## The lookup -/

/-- The characters of a name from index `n` on, next to those of the line: the variables `passed`
and `parameters_begin_chk` behind the loop. -/
def compareName : (name line : List UInt8) → (n passed parametersBeginChk : UInt8) → UInt8 × UInt8
  | c :: name, x :: line, n, passed, chk =>
    if c ≠ lowercase x then (0, chk)
    else if isSymbol (line.headD 0) || c == space then
      (passed, if chk = 0 then n + 1 else chk)
    else compareName name line (n + 1) 1 chk
  | _, _, _, passed, chk => (passed, chk)

/-- A call of the function of an entry, with the index of its parameters in the line. -/
structure Call (F : Type*) where
  index : ℕ
  function : F
  parameters : UInt8
  length : UInt8

/-- The entries from index `i` on: the variable `passed` behind the loop, and the call. -/
def lookupFrom (paramsBegin : UInt8) (line : List UInt8) (length : UInt8) :
    List (ConsoleCommand F) → (i : ℕ) → (passed parametersBeginChk : UInt8) →
      UInt8 × Option (Call F)
  | [], _, passed, _ => (passed, none)
  | command :: registry, i, passed, chk =>
    let r := compareName command.name line 0 passed chk
    if r.1 = 0 then lookupFrom paramsBegin line length registry (i + 1) r.1 r.2
    else
      let paramsBegin := if r.2 ≠ 0 then r.2 else paramsBegin
      -- Run the function
      (r.1, command.function.map fun f => ⟨i, f, paramsBegin, length + 1 - paramsBegin⟩)

/-- The result, and the call that is made. `line` and `length` are `console_string` and
`console_string_length`. -/
def commandFunctionLookup (paramsBegin : UInt8) (line : List UInt8) (length : UInt8)
    (registry : List (ConsoleCommand F)) : UInt8 × Option (Call F) :=
  lookupFrom paramsBegin line length registry 0 0 0

/-! ## The exact dispatch -/

/-- A command to register: its name without the terminator, and its function. -/
structure Registration (F : Type*) where
  name : List UInt8
  function : F

/-- `cliInit`, and the registrations in order. -/
def registerAll (commands : List (Registration F)) : List (ConsoleCommand F) :=
  commands.foldl (fun registry command =>
    consoleRegisterCommand (command.name ++ [0]) (UInt8.ofNat (command.name.length + 1))
      command.function registry) cliInit

/-- One to ten lower-case letters. -/
def IsName (name : List UInt8) : Prop :=
  1 ≤ name.length ∧ name.length ≤ consoleFunctionNameLength ∧ ∀ c ∈ name, isLowercase c = true

/-- Neither a space nor a symbol. -/
def inWord (c : UInt8) : Bool := !(c == space || isSymbol c)

/-- The first word of a line, lower-cased. -/
def word (line : List UInt8) : List UInt8 := (line.takeWhile inWord).map lowercase

/-- What stands behind the first word. -/
def terminator (line : List UInt8) : UInt8 := (line.dropWhile inWord).headD 0

/-- The symbol behind the first word, or the character behind the space there. -/
def parametersStart (line : List UInt8) : UInt8 :=
  UInt8.ofNat ((word line).length + if terminator line = space then 1 else 0)

/-- The function of a command is called if and only if the word is its name, with the parameters of
the line; and if none has that name, nothing is called and the result is 0. -/
structure DispatchExact (commands : List (Registration F)) (line : List UInt8) (length : UInt8)
    (r : UInt8 × Option (Call F)) : Prop where
  calls_iff : ∀ i command, commands[i]? = some command →
    ((∃ call ∈ r.2, call.index = i) ↔ command.name = word line)
  call : ∀ call ∈ r.2, ∃ command, commands[call.index]? = some command ∧
    call.function = command.function ∧ call.parameters = parametersStart line ∧
      call.length = length + 1 - parametersStart line
  none : (∀ command ∈ commands, command.name ≠ word line) → r = (0, none)

/-- What the lookup takes for the name of an entry: the word, ending at a space, or a name that begins
with a word of two letters or more, ending at a symbol. -/
def accepts (name line : List UInt8) : Bool :=
  (name == word line && terminator line == space) ||
    (2 ≤ (word line).length && isSymbol (terminator line) && (word line).isPrefixOf name)

/-- No name of ten letters is the word, and no name of one letter if the word ends at a symbol; and
for a word of nine letters, or of two to eight that ends at a symbol, the first name that begins
with the word is the word itself. -/
structure Distinguished (names : List (List UInt8)) (line : List UInt8) : Prop where
  notMem : (word line).length = 10 ∨
    (word line).length = 1 ∧ isSymbol (terminator line) = true → word line ∉ names
  first : (word line).length = 9 ∨
    2 ≤ (word line).length ∧ (word line).length ≤ 8 ∧ isSymbol (terminator line) = true →
      ∀ name ∈ names.find? ((word line).isPrefixOf ·), name = word line

/-! ## The registry behind the registrations -/

section Registry

variable {commands : List (Registration F)} {name : List UInt8} {k : ℕ}

/-- An entry of the registry that is not taken. -/
def freeCommand : ConsoleCommand F := ⟨List.replicate consoleFunctionNameLength space, none⟩

/-- The entry of a command: nine characters of its name, as the terminator counts for the tenth. -/
def storedCommand (command : Registration F) : ConsoleCommand F where
  name := command.name.take 9 ++ List.replicate (10 - (command.name.take 9).length) space
  function := some command.function

theorem IsName.isLetter_head (hname : IsName name) : isLetter (name.headD 0) = true := by
  obtain ⟨hpos, -, hlower⟩ := hname
  cases name with
  | nil => exact absurd hpos (by decide)
  | cons c name => rw [isLetter, List.headD_cons, hlower c List.mem_cons_self, Bool.or_true]

theorem isFree_storedCommand {command : Registration F} (hname : IsName command.name) :
    isFree (storedCommand command) = false := by
  have hhead : (storedCommand command).name.headD 0 = command.name.headD 0 := by
    obtain ⟨hpos, -, -⟩ := hname
    rw [storedCommand]
    cases hc : command.name with
    | nil => rw [hc] at hpos; exact absurd hpos (by decide)
    | cons c name => rfl
  rw [isFree, hhead, hname.isLetter_head]
  rfl

/-- **A registration** takes the first entry that is free. -/
theorem consoleRegisterCommand_of_isFree {taken rest : List (ConsoleCommand F)}
    {free : ConsoleCommand F} (htaken : ∀ c ∈ taken, isFree c = false) (hfree : isFree free = true)
    (name : List UInt8) (nameLength : UInt8) (functionPtr : F) :
    consoleRegisterCommand name nameLength functionPtr (taken ++ free :: rest) = taken ++
      ⟨name.take (min nameLength.toNat consoleFunctionNameLength - 1) ++
        free.name.drop (min nameLength.toNat consoleFunctionNameLength - 1),
          some functionPtr⟩ :: rest := by
  have hindex : (taken ++ free :: rest).findIdx? isFree = some taken.length := by
    rw [List.findIdx?_append, List.findIdx?_eq_none_iff.mpr htaken, List.findIdx?_cons,
      if_pos hfree, Option.map_some, Nat.zero_add]
    rfl
  rw [consoleRegisterCommand, hindex, Option.getD_some, List.modify_eq_take_drop,
    List.take_left' rfl, List.drop_left' rfl]
  rfl

/-- A registration behind the commands registered before. -/
theorem consoleRegisterCommand_append (hnames : ∀ c ∈ commands, IsName c.name)
    {command : Registration F} (hname : IsName command.name) :
    consoleRegisterCommand (command.name ++ [0]) (UInt8.ofNat (command.name.length + 1))
        command.function (commands.map storedCommand ++ List.replicate (k + 1) freeCommand) =
      (commands ++ [command]).map storedCommand ++ List.replicate k freeCommand := by
  have htaken : ∀ c ∈ commands.map (storedCommand (F := F)), isFree c = false := by
    intro c hc
    obtain ⟨b, hb, rfl⟩ := List.mem_map.mp hc
    exact isFree_storedCommand (hnames b hb)
  have hlength : (UInt8.ofNat (command.name.length + 1)).toNat = command.name.length + 1 := by
    have hle := hname.2.1
    rw [consoleFunctionNameLength] at hle
    rw [UInt8.toNat_ofNat', Nat.mod_eq_of_lt (by omega)]
  have hentry : (⟨(command.name ++ [0]).take (min (command.name.length + 1) 10 - 1) ++
      (List.replicate 10 space).drop (min (command.name.length + 1) 10 - 1),
        some command.function⟩ : ConsoleCommand F) = storedCommand command := by
    have hmin : min (command.name.length + 1) 10 - 1 = min 9 command.name.length := by omega
    rw [storedCommand, hmin, List.drop_replicate, List.length_take,
      List.take_append_of_le_length (Nat.min_le_right _ _), ← List.take_eq_take_min]
  rw [List.replicate_succ, consoleRegisterCommand_of_isFree htaken rfl, hlength, List.map_append,
    List.map_singleton, List.append_assoc, List.singleton_append, ← hentry]
  rfl

/-- **The registry**: the commands in their order, and free entries. -/
theorem registry_registerAll (hlength : commands.length ≤ consoleFunctionTableSize)
    (hnames : ∀ c ∈ commands, IsName c.name) :
    registerAll commands = commands.map storedCommand ++
      List.replicate (consoleFunctionTableSize - commands.length) freeCommand := by
  induction commands using List.reverseRecOn with
  | nil => rfl
  | append_singleton commands command ih =>
    rw [List.length_append, List.length_singleton] at hlength ⊢
    rw [registerAll, List.foldl_append, ← registerAll, ih (by omega) fun c hc =>
      hnames c (List.mem_append_left _ hc)]
    obtain ⟨k, hk⟩ : ∃ k, consoleFunctionTableSize - commands.length = k + 1 :=
      ⟨consoleFunctionTableSize - commands.length - 1, by omega⟩
    rw [hk, show consoleFunctionTableSize - (commands.length + 1) = k by omega]
    exact consoleRegisterCommand_append (fun c hc => hnames c (List.mem_append_left _ hc))
      (hnames command (List.mem_append_right _ (List.mem_singleton_self _)))

end Registry

/-! ## The comparison -/

section Comparison

variable {name line : List UInt8} {x : UInt8}

theorem word_cons_of_inWord (hx : inWord x = true) : word (x :: line) = lowercase x :: word line := by
  rw [word, List.takeWhile_cons_of_pos hx, List.map_cons, word]

theorem word_cons_of_not (hx : inWord x = false) : word (x :: line) = [] := by
  rw [word, List.takeWhile_cons_of_neg (by rw [hx]; decide), List.map_nil]

theorem terminator_cons_of_inWord (hx : inWord x = true) :
    terminator (x :: line) = terminator line := by
  rw [terminator, List.dropWhile_cons_of_pos hx, terminator]

theorem terminator_cons_of_not (hx : inWord x = false) : terminator (x :: line) = x := by
  rw [terminator, List.dropWhile_cons_of_neg (by rw [hx]; decide), List.headD_cons]

/-- The upper-case letter or the letter itself. -/
theorem inWord_of_isLowercase (h : isLowercase (lowercase x) = true) : inWord x = true := by
  have hall : ∀ n : Fin 256, isLowercase (lowercase (UInt8.ofNat n)) = true →
      inWord (UInt8.ofNat n) = true := by decide +kernel
  have hx := hall ⟨x.toNat, x.toNat_lt⟩
  rw [UInt8.ofNat_toNat] at hx
  exact hx h

theorem lowercase_eq_space : lowercase x = space ↔ x = space := by
  have hall : ∀ n : Fin 256, lowercase (UInt8.ofNat n) = space ↔ UInt8.ofNat n = space := by
    decide +kernel
  have hx := hall ⟨x.toNat, x.toNat_lt⟩
  rwa [UInt8.ofNat_toNat] at hx

theorem ne_space_of_isLowercase (h : isLowercase x = true) : x ≠ space := by
  rintro rfl
  exact absurd h (by decide)

theorem not_inWord_of_isSymbol (h : isSymbol x = true) : inWord x = false := by
  rw [inWord, h, Bool.or_true]
  rfl

theorem not_inWord_space : inWord space = false := by decide

/-- **The comparison of a line with a name** behind index `n`. -/
theorem compareName_spec (hname : ∀ c ∈ name, isLowercase c = true)
    (hline : name.length + 1 < line.length) (j : ℕ) (n passed chk : UInt8) :
    compareName (name ++ List.replicate (j + 1) space) line n passed chk =
      if name = word line ∧ terminator line = space then
        (if name = [] then passed else 1,
          if chk = 0 then n + UInt8.ofNat name.length + 1 else chk)
      else if word line <+: name ∧ word line ≠ [] ∧ isSymbol (terminator line) = true then
        (if 2 ≤ (word line).length then 1 else passed,
          if chk = 0 then n + UInt8.ofNat (word line).length else chk)
      else (0, chk) := by
  induction name generalizing line n passed with
  | nil =>
    obtain _ | ⟨x, line⟩ := line
    · exact absurd hline (Nat.not_lt_zero _)
    rw [List.nil_append, List.replicate_succ, compareName]
    by_cases hx : x = space
    · subst hx
      have hstop : (isSymbol (line.headD 0) || space == space) = true := Bool.or_true _
      have hfull : ([] : List UInt8) = [] ∧ space = space := ⟨rfl, rfl⟩
      rw [word_cons_of_not not_inWord_space, terminator_cons_of_not not_inWord_space,
        if_neg (not_not.mpr (lowercase_eq_space.mpr rfl).symm), if_pos hstop, if_pos hfull,
        if_pos (Eq.refl ([] : List UInt8)), List.length_nil, show UInt8.ofNat 0 = 0 from rfl,
        UInt8.add_zero]
    · have hne : ¬ ([] = word (x :: line) ∧ terminator (x :: line) = space) := by
        rintro ⟨hw, ht⟩
        cases hin : inWord x with
        | true => rw [word_cons_of_inWord hin] at hw; cases hw
        | false => exact hx ((terminator_cons_of_not hin).symm.trans ht)
      rw [if_pos (fun h => hx (lowercase_eq_space.mp h.symm)), if_neg hne, if_neg]
      rintro ⟨hpre, hw, -⟩
      exact hw (List.prefix_nil.mp hpre)
  | cons c name ih =>
    obtain _ | ⟨x, line⟩ := line
    · exact absurd hline (Nat.not_lt_zero _)
    have hc := hname c List.mem_cons_self
    have hspace : (c == space) = false := beq_false_of_ne (ne_space_of_isLowercase hc)
    rw [List.cons_append, compareName, hspace, Bool.or_false]
    by_cases hcx : c = lowercase x
    · have hin : inWord x = true := inWord_of_isLowercase (hcx ▸ hc)
      rw [word_cons_of_inWord hin, terminator_cons_of_inWord hin, ← hcx,
        if_neg (not_not.mpr rfl)]
      rw [List.length_cons, List.length_cons] at hline
      by_cases hsym : isSymbol (line.headD 0) = true
      · -- the early exit
        obtain _ | ⟨y, line⟩ := line
        · exact absurd hsym (by decide)
        rw [List.headD_cons] at hsym ⊢
        have hy := not_inWord_of_isSymbol hsym
        have hne : ¬ (c :: name = c :: [] ∧ y = space) := by
          rintro ⟨-, rfl⟩
          exact absurd hsym (by decide)
        have hpre : [c] <+: c :: name ∧ [c] ≠ [] ∧ isSymbol y = true :=
          ⟨(List.prefix_cons_inj c).mpr List.nil_prefix, List.cons_ne_nil _ _, hsym⟩
        rw [if_pos hsym, word_cons_of_not hy, terminator_cons_of_not hy, if_neg hne, if_pos hpre]
        rfl
      · rw [if_neg hsym, ih (fun c hc => hname c (List.mem_cons_of_mem _ hc)) (by omega)]
        have hsucc : ∀ k : ℕ, n + 1 + UInt8.ofNat k = n + UInt8.ofNat (k + 1) := fun k => by
          rw [UInt8.ofNat_add, UInt8.add_comm (UInt8.ofNat k), ← UInt8.add_assoc]
          rfl
        by_cases hfull : name = word line ∧ terminator line = space
        · have hfull' : c :: name = c :: word line ∧ terminator line = space :=
            ⟨congrArg (c :: ·) hfull.1, hfull.2⟩
          rw [if_pos hfull, if_pos hfull', hsucc, if_neg (List.cons_ne_nil c name),
            ite_self (1 : UInt8), List.length_cons]
        · have hfull' : ¬ (c :: name = c :: word line ∧ terminator line = space) := fun h =>
            hfull ⟨List.tail_eq_of_cons_eq h.1, h.2⟩
          rw [if_neg hfull, if_neg hfull']
          by_cases hpre : word line <+: name ∧ word line ≠ [] ∧ isSymbol (terminator line) = true
          · have hpre' : c :: word line <+: c :: name ∧ c :: word line ≠ [] ∧
                isSymbol (terminator line) = true :=
              ⟨(List.prefix_cons_inj c).mpr hpre.1, List.cons_ne_nil _ _, hpre.2.2⟩
            have hlen : 2 ≤ (word line).length + 1 :=
              Nat.succ_le_succ (List.length_pos_of_ne_nil hpre.2.1)
            rw [if_pos hpre, if_pos hpre', ite_self (1 : UInt8), hsucc, List.length_cons,
              if_pos hlen]
          · rw [if_neg hpre, if_neg]
            rintro ⟨hw, -, ht⟩
            refine hpre ⟨(List.prefix_cons_inj c).mp hw, fun hnil => hsym ?_, ht⟩
            -- the word ends here, at what is no symbol
            obtain _ | ⟨y, line⟩ := line
            · exact absurd ht (by decide)
            cases hy : inWord y with
            | true => rw [word_cons_of_inWord hy] at hnil; cases hnil
            | false => rwa [terminator_cons_of_not hy] at ht
    · rw [if_pos hcx]
      have hhead : ∀ w, word (x :: line) = w → w ≠ [] → w <+: c :: name → False := by
        rintro w rfl hne hw
        cases hin : inWord x with
        | true =>
          rw [word_cons_of_inWord hin] at hw
          exact hcx (List.cons_prefix_cons.mp hw).1.symm
        | false => exact hne (word_cons_of_not hin)
      rw [if_neg, if_neg]
      · rintro ⟨hw, hne, -⟩
        exact hhead _ rfl hne hw
      · rintro ⟨hw, -⟩
        exact hhead _ rfl (hw ▸ List.cons_ne_nil _ _) (hw ▸ List.prefix_rfl)

theorem accepts_iff : accepts name line = true ↔ name = word line ∧ terminator line = space ∨
    2 ≤ (word line).length ∧ isSymbol (terminator line) = true ∧ word line <+: name := by
  rw [accepts, Bool.or_eq_true, Bool.and_eq_true, Bool.and_eq_true, Bool.and_eq_true, beq_iff_eq,
    beq_iff_eq, decide_eq_true_iff, List.isPrefixOf_iff_prefix, and_assoc]

/-- A word of one letter that ends at a symbol; with no name it passes. -/
def Short (line : List UInt8) : Prop :=
  (word line).length = 1 ∧ isSymbol (terminator line) = true

/-- **The comparison with an entry** passes if it accepts the line. -/
theorem compareName_storedCommand {command : Registration F} (hname : IsName command.name)
    (hline : line.length = consoleStringLength) {chk : UInt8} (hchk : chk = 0 ∨ Short line) :
    if accepts (command.name.take 9) line = true then
      compareName (storedCommand command).name line 0 0 chk = (1, parametersStart line)
    else (compareName (storedCommand command).name line 0 0 chk).1 = 0 ∧
      ((compareName (storedCommand command).name line 0 0 chk).2 = 0 ∨ Short line) := by
  have hlen : (command.name.take 9).length ≤ 9 := List.length_take_le _ _
  -- of ten bytes of storage at most nine are of the name, so a terminator is left
  have hne : command.name.take 9 ≠ [] := by
    intro h
    have := hname.1
    rw [List.take_eq_nil_iff] at h
    rcases h with h | h
    · exact absurd h (by decide)
    · rw [h] at this
      exact absurd this (by decide)
  obtain ⟨j, hj⟩ : ∃ j, 10 - (command.name.take 9).length = j + 1 :=
    ⟨10 - (command.name.take 9).length - 1, by omega⟩
  rw [consoleStringLength] at hline
  rw [storedCommand, hj, compareName_spec
    (fun c hc => hname.2.2 c (List.mem_of_mem_take hc)) (by omega) j 0 0 chk]
  by_cases hfull : command.name.take 9 = word line ∧ terminator line = space
  · -- the whole name, and a space
    have hacc : accepts (command.name.take 9) line = true := accepts_iff.mpr (Or.inl hfull)
    have h0 : chk = 0 := hchk.resolve_right fun hs => by
      rw [Short, hfull.2] at hs
      exact absurd hs.2 (by decide)
    rw [if_pos hacc, if_pos hfull, if_neg hne, if_pos h0, parametersStart, if_pos hfull.2,
      ← hfull.1, UInt8.zero_add, UInt8.ofNat_add]
    rfl
  rw [if_neg hfull]
  by_cases hpre : word line <+: command.name.take 9 ∧ word line ≠ [] ∧
      isSymbol (terminator line) = true
  · -- a part of the name, and a symbol: two letters are enough
    rw [if_pos hpre]
    have hspace : terminator line ≠ space := by
      intro h
      have hsym := hpre.2.2
      rw [h] at hsym
      exact absurd hsym (by decide)
    by_cases htwo : 2 ≤ (word line).length
    · have hacc : accepts (command.name.take 9) line = true :=
        accepts_iff.mpr (Or.inr ⟨htwo, hpre.2.2, hpre.1⟩)
      have h0 : chk = 0 := hchk.resolve_right fun hs => by
        have := hs.1
        omega
      rw [if_pos hacc, if_pos htwo, if_pos h0, parametersStart, if_neg hspace, UInt8.zero_add,
        Nat.add_zero]
    · -- of one letter, the count stays set for the next entry
      have hpos := List.length_pos_of_ne_nil hpre.2.1
      have hacc : ¬ accepts (command.name.take 9) line = true := fun h =>
        (accepts_iff.mp h).elim hfull fun h => htwo h.1
      rw [if_neg hacc, if_neg htwo]
      exact ⟨rfl, Or.inr ⟨by omega, hpre.2.2⟩⟩
  · have hacc : ¬ accepts (command.name.take 9) line = true := fun h =>
      (accepts_iff.mp h).elim hfull fun h => hpre ⟨h.2.2, List.ne_nil_of_length_pos (by omega), h.2.1⟩
    rw [if_neg hpre, if_neg hacc]
    exact ⟨rfl, hchk⟩

end Comparison

/-! ## The lookup in the registry -/

section Lookup

variable {commands : List (Registration F)} {line : List UInt8} {length paramsBegin : UInt8}

/-- The call of the first command whose entry accepts the line. -/
def dispatched (commands : List (Registration F)) (line : List UInt8) (length : UInt8) (i : ℕ) :
    UInt8 × Option (Call F) :=
  match commands.findIdx? fun command => accepts (command.name.take 9) line with
  | some j => (1, commands[j]?.map fun command =>
      ⟨i + j, command.function, parametersStart line, length + 1 - parametersStart line⟩)
  | none => (0, none)

/-- What is accepted has a first word. -/
theorem length_word_of_accepts {name : List UInt8} (hname : IsName name)
    (hacc : accepts (name.take 9) line = true) :
    1 ≤ (word line).length ∧ (word line).length ≤ 9 := by
  have hlen : (name.take 9).length = min 9 name.length := List.length_take
  have hpos := hname.1
  rcases accepts_iff.mp hacc with ⟨hw, -⟩ | ⟨htwo, -, hpre⟩
  · rw [← hw]
    omega
  · have hle := hpre.length_le
    omega

theorem parametersStart_ne_zero {name : List UInt8} (hname : IsName name)
    (hacc : accepts (name.take 9) line = true) : parametersStart line ≠ 0 := by
  obtain ⟨hpos, hle⟩ := length_word_of_accepts hname hacc
  intro h
  have htoNat := congrArg UInt8.toNat h
  rw [parametersStart, UInt8.toNat_ofNat', show (0 : UInt8).toNat = 0 from rfl] at htoNat
  split at htoNat <;> omega

/-- A free entry is not called. -/
theorem lookupFrom_replicate (hline : line.length = consoleStringLength) (k i : ℕ) (chk : UInt8) :
    lookupFrom paramsBegin line length (List.replicate k (freeCommand (F := F))) i 0 chk =
      (0, none) := by
  induction k generalizing i chk with
  | zero => rfl
  | succ k ih =>
    have hfree : (compareName (freeCommand (F := F)).name line 0 0 chk).1 = 0 := by
      rw [consoleStringLength] at hline
      have hspec := @compareName_spec [] line (fun c hc => absurd hc List.not_mem_nil)
        (by rw [hline]; decide) 9 0 0 chk
      rw [List.nil_append] at hspec
      rw [freeCommand, consoleFunctionNameLength, hspec, if_pos (Eq.refl ([] : List UInt8))]
      split
      · rfl
      · rw [if_neg]
        rintro ⟨hpre, hne, -⟩
        exact hne (List.prefix_nil.mp hpre)
    rw [List.replicate_succ, lookupFrom]
    simp only [hfree, if_true]
    exact ih (i + 1) _

/-- The entries of the commands, one after the other. -/
theorem lookupFrom_map (hline : line.length = consoleStringLength)
    (hnames : ∀ c ∈ commands, IsName c.name) (k i : ℕ) {chk : UInt8}
    (hchk : chk = 0 ∨ Short line) :
    lookupFrom paramsBegin line length
        (commands.map storedCommand ++ List.replicate k freeCommand) i 0 chk =
      dispatched commands line length i := by
  induction commands generalizing i chk with
  | nil => exact lookupFrom_replicate hline k i chk
  | cons command commands ih =>
    have hentry := compareName_storedCommand (hnames command List.mem_cons_self) hline hchk
    rw [List.map_cons, List.cons_append, lookupFrom, dispatched, List.findIdx?_cons]
    by_cases hacc : accepts (command.name.take 9) line = true
    · rw [if_pos hacc] at hentry ⊢
      have hstart := parametersStart_ne_zero (hnames command List.mem_cons_self) hacc
      simp only [hentry, if_neg (show ¬ (1 : UInt8) = 0 by decide), if_pos hstart]
      rfl
    · rw [if_neg hacc] at hentry ⊢
      simp only [hentry.1, if_true]
      rw [ih (fun c hc => hnames c (List.mem_cons_of_mem _ hc)) (i + 1) hentry.2, dispatched]
      cases commands.findIdx? fun command => accepts (command.name.take 9) line with
      | none => rfl
      | some j =>
        simp only [Option.map_some, Nat.add_assoc i 1 j, Nat.add_comm 1 j]
        rfl

/-- **The lookup** calls the first command whose entry accepts the line. -/
theorem commandFunctionLookup_registerAll (hline : line.length = consoleStringLength)
    (hlength : commands.length ≤ consoleFunctionTableSize) (hnames : ∀ c ∈ commands, IsName c.name) :
    commandFunctionLookup paramsBegin line length (registerAll commands) =
      dispatched commands line length 0 := by
  rw [registry_registerAll hlength hnames]
  exact lookupFrom_map hline hnames _ 0 (Or.inl rfl)

/-- A space or a symbol stands behind a word that is shorter than the line. -/
theorem terminator_cases (hlt : (word line).length < line.length) :
    terminator line = space ∨ isSymbol (terminator line) = true := by
  induction line with
  | nil => exact absurd hlt (Nat.not_lt_zero _)
  | cons x line ih =>
    cases hx : inWord x with
    | true =>
      rw [word_cons_of_inWord hx, List.length_cons, List.length_cons] at hlt
      rw [terminator_cons_of_inWord hx]
      exact ih (by omega)
    | false =>
      rw [terminator_cons_of_not hx]
      rwa [inWord, Bool.not_eq_false', Bool.or_eq_true, beq_iff_eq] at hx

/-- Where the lookup takes a prefix for the name. -/
theorem accepts_iff_prefix {name : List UInt8}
    (hterm : terminator line = space ∨ isSymbol (terminator line) = true)
    (hword : (word line).length = 9 ∨
      2 ≤ (word line).length ∧ (word line).length ≤ 8 ∧ isSymbol (terminator line) = true) :
    accepts (name.take 9) line = true ↔ word line <+: name := by
  have hpre : word line <+: name.take 9 ↔ word line <+: name := by
    rw [List.prefix_take_iff, and_iff_left (by omega)]
  rw [accepts_iff]
  rcases hterm with hspace | hsym
  · have hno : ¬ isSymbol (terminator line) = true := by
      rw [hspace]
      decide
    have hlen : (word line).length = 9 := hword.resolve_right fun h => hno h.2.2
    rw [and_iff_left hspace, or_iff_left fun h => hno h.2.1, List.prefix_iff_eq_take, hlen]
    exact eq_comm
  · have hne : ¬ terminator line = space := by
      intro h
      rw [h] at hsym
      exact absurd hsym (by decide)
    rw [or_iff_right fun h => hne h.2, hpre]
    exact ⟨fun h => h.2.2, fun h => ⟨by omega, hsym, h⟩⟩

/-- The calls are those of the first command whose entry accepts the line. -/
theorem mem_dispatched {call : Call F} : call ∈ (dispatched commands line length 0).2 ↔
    ∃ j command, (commands.findIdx? fun c => accepts (c.name.take 9) line) = some j ∧
      commands[j]? = some command ∧ call = ⟨j, command.function, parametersStart line,
        length + 1 - parametersStart line⟩ := by
  rw [dispatched]
  cases commands.findIdx? fun c => accepts (c.name.take 9) line with
  | none => exact ⟨fun h => absurd h (Option.not_mem_none _), fun ⟨j, c, h, _⟩ => by cases h⟩
  | some j =>
    constructor
    · intro h
      obtain ⟨command, hc, rfl⟩ := Option.map_eq_some_iff.mp h
      exact ⟨j, command, rfl, hc, by rw [Nat.zero_add]⟩
    · rintro ⟨k, command, hk, hc, rfl⟩
      cases hk
      refine Option.map_eq_some_iff.mpr ⟨command, hc, ?_⟩
      rw [Nat.zero_add]

/-- The entry that is called accepts the line. -/
theorem accepts_of_findIdx? {j : ℕ} {command : Registration F}
    (hj : (commands.findIdx? fun c => accepts (c.name.take 9) line) = some j)
    (hc : commands[j]? = some command) : accepts (command.name.take 9) line = true := by
  obtain ⟨hlt, hacc, -⟩ := List.findIdx?_eq_some_iff_getElem.mp hj
  rw [List.getElem?_eq_getElem hlt] at hc
  rwa [Option.some.inj hc] at hacc

theorem findIdx?_accepts (hterm : terminator line = space ∨ isSymbol (terminator line) = true)
    (hword : (word line).length = 9 ∨
      2 ≤ (word line).length ∧ (word line).length ≤ 8 ∧ isSymbol (terminator line) = true) :
    (commands.findIdx? fun c => accepts (c.name.take 9) line) =
      commands.findIdx? (((word line).isPrefixOf ·) ∘ Registration.name) := by
  congr 1
  funext c
  rw [Bool.eq_iff_iff, accepts_iff_prefix hterm hword, Function.comp_apply,
    List.isPrefixOf_iff_prefix]

/-- The first name that begins with the word, where the lookup takes prefixes. -/
theorem find?_word {j : ℕ} {command : Registration F}
    (hterm : terminator line = space ∨ isSymbol (terminator line) = true)
    (hword : (word line).length = 9 ∨
      2 ≤ (word line).length ∧ (word line).length ≤ 8 ∧ isSymbol (terminator line) = true)
    (hj : (commands.findIdx? fun c => accepts (c.name.take 9) line) = some j)
    (hc : commands[j]? = some command) :
    (commands.map Registration.name).find? ((word line).isPrefixOf ·) = some command.name := by
  rw [findIdx?_accepts hterm hword] at hj
  rw [List.find?_map, List.find?_eq_bind_findIdx?_getElem?, hj, Option.bind_some, hc,
    Option.map_some]

/-- The first entry that accepts the line is that of the word. -/
theorem Distinguished.name_eq (hd : Distinguished (commands.map Registration.name) line)
    (hline : line.length = consoleStringLength) {j : ℕ} {command : Registration F}
    (hname : IsName command.name)
    (hj : (commands.findIdx? fun c => accepts (c.name.take 9) line) = some j)
    (hc : commands[j]? = some command) : command.name = word line := by
  have hacc := accepts_of_findIdx? hj hc
  obtain ⟨hpos, hle⟩ := length_word_of_accepts hname hacc
  rw [consoleStringLength] at hline
  have hterm := terminator_cases (show (word line).length < line.length by omega)
  by_cases hword : (word line).length = 9 ∨
      2 ≤ (word line).length ∧ (word line).length ≤ 8 ∧ isSymbol (terminator line) = true
  · exact hd.first hword _ (find?_word hterm hword hj hc)
  · rcases accepts_iff.mp hacc with ⟨hw, -⟩ | ⟨htwo, hsym, -⟩
    · -- a shorter name is stored as it is
      have hlen := congrArg List.length hw
      rw [List.length_take] at hlen
      rw [← hw, List.take_of_length_le (by omega)]
    · exact absurd (Or.inr ⟨htwo, by omega, hsym⟩) hword

/-- The entry of the word accepts the line. -/
theorem Distinguished.exists_findIdx? (hd : Distinguished (commands.map Registration.name) line)
    (hline : line.length = consoleStringLength) {command : Registration F}
    (hc : command ∈ commands) (hname : IsName command.name) (hw : command.name = word line) :
    ∃ j, (commands.findIdx? fun c => accepts (c.name.take 9) line) = some j := by
  have hmem : word line ∈ commands.map Registration.name := hw ▸ List.mem_map_of_mem hc
  have hlen : (word line).length = command.name.length := by rw [hw]
  have hle := hname.2.1
  have hpos := hname.1
  rw [consoleFunctionNameLength] at hle
  rw [consoleStringLength] at hline
  have hten : (word line).length ≠ 10 := fun h => hd.notMem (Or.inl h) hmem
  have htake : command.name.take 9 = word line := by
    rw [List.take_of_length_le (by omega), hw]
  have hacc : accepts (command.name.take 9) line = true := by
    rw [accepts_iff, htake]
    rcases terminator_cases (show (word line).length < line.length by omega) with hspace | hsym
    · exact Or.inl ⟨rfl, hspace⟩
    · have hone : (word line).length ≠ 1 := fun h => hd.notMem (Or.inr ⟨h, hsym⟩) hmem
      exact Or.inr ⟨by omega, hsym, List.prefix_rfl⟩
  cases hj : commands.findIdx? fun c => accepts (c.name.take 9) line with
  | none => exact absurd hacc (Bool.eq_false_iff.mp (List.findIdx?_eq_none_iff.mp hj command hc))
  | some j => exact ⟨j, rfl⟩

/-- **The dispatch is exact** if and only if the registered names are distinguished on the line: for
every registry and every line, whatever stands behind the length of the line. -/
theorem dispatchExact_iff (hlength : commands.length ≤ consoleFunctionTableSize)
    (hnames : ∀ c ∈ commands, IsName c.name) (hnodup : (commands.map Registration.name).Nodup)
    (hline : line.length = consoleStringLength) :
    DispatchExact commands line length
        (commandFunctionLookup paramsBegin line length (registerAll commands)) ↔
      Distinguished (commands.map Registration.name) line := by
  rw [commandFunctionLookup_registerAll hline hlength hnames]
  constructor
  · intro he
    refine ⟨fun hshort hmem => ?_, fun hword name hname => ?_⟩
    · -- a word of ten letters, or of one before a symbol, calls nothing
      obtain ⟨command, hc, hw⟩ := List.mem_map.mp hmem
      obtain ⟨i, hi⟩ := List.mem_iff_getElem?.mp hc
      obtain ⟨call, hcall, rfl⟩ := (he.calls_iff i command hi).mpr hw
      obtain ⟨j, command', hj, hc', rfl⟩ := mem_dispatched.mp hcall
      have hacc := accepts_of_findIdx? hj hi
      have hlen := length_word_of_accepts (hnames command hc) hacc
      rcases hshort with hten | ⟨hone, hsym⟩
      · omega
      · rcases accepts_iff.mp hacc with ⟨-, hspace⟩ | ⟨htwo, -⟩
        · rw [hspace] at hsym
          exact absurd hsym (by decide)
        · omega
    · -- what is called is the first name that begins with the word
      have hline' := hline
      rw [consoleStringLength] at hline'
      have hterm := terminator_cases (show (word line).length < line.length by omega)
      cases hj : commands.findIdx? fun c => accepts (c.name.take 9) line with
      | none =>
        rw [findIdx?_accepts hterm hword] at hj
        rw [List.find?_map, List.find?_eq_bind_findIdx?_getElem?, hj] at hname
        exact absurd hname (Option.not_mem_none _)
      | some j =>
        obtain ⟨hlt, -⟩ := List.findIdx?_eq_some_iff_getElem.mp hj
        have hc := List.getElem?_eq_getElem hlt
        rw [find?_word hterm hword hj hc] at hname
        obtain rfl := Option.some.inj hname
        exact (he.calls_iff j _ hc).mp ⟨_, mem_dispatched.mpr ⟨j, _, hj, hc, rfl⟩, rfl⟩
  · intro hd
    refine ⟨fun i command hi => ⟨?_, fun hw => ?_⟩, fun call hcall => ?_, fun hnone => ?_⟩
    · -- what is called has the word for its name
      rintro ⟨call, hcall, rfl⟩
      obtain ⟨j, command', hj, hc', rfl⟩ := mem_dispatched.mp hcall
      exact hd.name_eq hline (hnames command (List.mem_of_getElem? hi)) hj hi
    · -- the first that is accepted has the name, and no other has
      have hmem := List.mem_of_getElem? hi
      obtain ⟨j, hj⟩ := hd.exists_findIdx? hline hmem (hnames command hmem) hw
      obtain ⟨hlt, -⟩ := List.findIdx?_eq_some_iff_getElem.mp hj
      have hj' := List.getElem?_eq_getElem hlt
      have hname := hd.name_eq hline (hnames _ (List.getElem_mem hlt)) hj hj'
      refine ⟨_, mem_dispatched.mpr ⟨j, _, hj, hj', rfl⟩, ?_⟩
      have hlt' : j < (commands.map Registration.name).length := by rwa [List.length_map]
      refine (List.getElem?_inj hlt' hnodup).mp ?_
      rw [List.getElem?_map, List.getElem?_map, hi, hj', Option.map_some, Option.map_some, hw, hname]
    · obtain ⟨j, command, hj, hc, rfl⟩ := mem_dispatched.mp hcall
      exact ⟨command, hc, rfl, rfl, rfl⟩
    · -- without a command of that name nothing is accepted
      rw [dispatched]
      cases hj : commands.findIdx? fun c => accepts (c.name.take 9) line with
      | none => rfl
      | some j =>
        obtain ⟨hlt, -⟩ := List.findIdx?_eq_some_iff_getElem.mp hj
        have hmem := List.getElem_mem hlt
        exact absurd (hd.name_eq hline (hnames _ hmem) hj (List.getElem?_eq_getElem hlt))
          (hnone _ hmem)

end Lookup

/-! ## The command `cls` -/

/-- The registration of `cls`. -/
def clsCommand : Registration Unit := ⟨['c', 'l', 's'].map Char.toUInt8, ()⟩

/-- A line of the console. -/
def consoleLine (s : List Char) : List UInt8 :=
  (s.map Char.toUInt8).rightpad consoleStringLength space

/-- `cls`, and a command whose name begins with it. -/
def clsCommands : List (Registration Unit) :=
  [clsCommand, ⟨['c', 'l', 's', 'x'].map Char.toUInt8, ()⟩]

/-- `dispatchExact_iff` for `clsCommands`, where the word ends at a space, and where it ends at a symbol:
in the other order, it is not distinguished there. -/
theorem dispatchExact_clsCommands :
    DispatchExact clsCommands (consoleLine ['C', 'l', 's', 'x', ' ', 'a']) 6
        (commandFunctionLookup 0 (consoleLine ['C', 'l', 's', 'x', ' ', 'a']) 6
          (registerAll clsCommands)) ∧
      DispatchExact clsCommands (consoleLine ['c', 'l', 's', '/', 'a']) 5
        (commandFunctionLookup 0 (consoleLine ['c', 'l', 's', '/', 'a']) 5
          (registerAll clsCommands)) ∧
      ¬ DispatchExact clsCommands.reverse (consoleLine ['c', 'l', 's', '/', 'a']) 5
        (commandFunctionLookup 0 (consoleLine ['c', 'l', 's', '/', 'a']) 5
          (registerAll clsCommands.reverse)) := by
  have hnames : ∀ c ∈ clsCommands, IsName c.name := by
    simp only [clsCommands, List.forall_mem_cons]
    exact ⟨⟨by decide, by decide +kernel, by decide +kernel⟩,
      ⟨by decide, by decide +kernel, by decide +kernel⟩, by simp⟩
  refine ⟨(dispatchExact_iff (by decide) hnames (by decide) (by decide)).mpr ⟨by decide, by decide⟩,
    (dispatchExact_iff (by decide) hnames (by decide) (by decide)).mpr ⟨by decide, by decide⟩,
    fun h => ?_⟩
  have hfirst := ((dispatchExact_iff (by decide)
    (fun c hc => hnames c (List.mem_reverse.mp hc)) (by decide) (by decide)).mp h).first
  exact absurd hfirst (by decide)

/-- Not every dispatch is exact: a word that ends at a symbol calls a command whose name it begins. -/
theorem not_dispatchExact : ¬ ∀ (commands : List (Registration Unit)) (line : List UInt8)
    (length paramsBegin : UInt8), commands.length ≤ consoleFunctionTableSize →
      (∀ c ∈ commands, IsName c.name) → (commands.map Registration.name).Nodup →
        line.length = consoleStringLength →
          DispatchExact commands line length
            (commandFunctionLookup paramsBegin line length (registerAll commands)) := by
  intro h
  have he := h [clsCommand] (consoleLine ['c', 'l', '/']) 3 0 (by decide)
    (fun c hc => List.mem_singleton.mp hc ▸ ⟨by decide, by decide +kernel, by decide +kernel⟩)
    (List.nodup_singleton _) (by decide)
  have hcalled : (commandFunctionLookup 0 (consoleLine ['c', 'l', '/']) 3
      (registerAll [clsCommand])).2.map Call.index = some 0 := by decide +kernel
  obtain ⟨call, hcall, hindex⟩ := Option.map_eq_some_iff.mp hcalled
  have hname := (he.calls_iff 0 clsCommand rfl).mp ⟨call, hcall, hindex⟩
  exact absurd hname (by decide +kernel)

end MicroKernel.Command
