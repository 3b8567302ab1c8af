import MicroKernel.Command.Print
import MicroKernel.Fs.Catalog

/-!
# The shell

The console together with the file system: the listing of `kernel/fs/basefs/fsVirtual.c`, the commands
of `kernel/command/ls/ls.c` and `kernel/command/cd/cd.c`, and the line editor of `kernel/command/shell.c`
and `kernel/command/command.c`, where the function of a command reads the files. Whatever keys are
pressed, the display shows the dialogue of the keys with the catalog of the root directory.

## Main definitions

* `System`, `vfsList`, `functionLS`, `functionCD`
* `System.keyFunctionReturn`, `System.cliRunShell`: the line editor of the system
* `listingLine`, `response`: what a listing shows of an entry, and what is answered to a line
* `Dialogue`, `Dialogue.key`: the dialogue of the keys
* `Serving`: a system that has shown a dialogue

## Main results

* `vfsList_ok`: a listing shows a line for each entry
* `serving_of_keys`: the dialogue that is shown
-/

namespace MicroKernel.Command

open Fs
open Console (commandSpecialChar msgBadCommand)

/-- The functions of the commands that `main` registers. -/
inductive CommandFunction where
  | functionLS
  | functionCD
deriving DecidableEq

/-- The console and the file system. -/
structure System where
  console : Console CommandFunction
  fs : FileSystem

/-! ## The listing -/

def msgDir : List UInt8 := chars ['<', 'd', 'i', 'r', '>'] ++ [0]

/-- A pass of the loop of `vfsList`. -/
def listEntry (part : Partition) (handle : DirectoryHandle) (junk : ℕ → UInt8) (i : UInt32)
    (s : System) : Except Fault System := do
  let (entryHandle, fs) ← fsDirectoryFindByIndex part handle i junk s.fs
  -- Check file attributes
  let fileAttr := fsFileGetAttributes part entryHandle fs.memory
  let isDirectory := fileAttr.getD 3 0 = 'd'.toUInt8
  let console := (s.console.print fileAttr 4).printSpace 1
  -- Print file name
  let filename := fsFileGetName part entryHandle (List.replicate fileNameLength space) fs.memory
  let console := (console.print filename 11).printSpace 1
  let console ←
    if isDirectory then pure (console.print msgDir (UInt8.ofNat msgDir.length))
    else console.printInt (fsFileGetSize part entryHandle fs.memory)
  return ⟨console.printLn, fs⟩

def vfsList (part : Partition) (handle : DirectoryHandle) (junk : ℕ → ℕ → UInt8) (s : System) :
    Except Fault (UInt8 × System) := do
  let directoryRefTotal ← fsDirectoryGetTotalSize part handle s.fs.memory
  if directoryRefTotal = 0 then return (0, s)
  let s ← (List.range directoryRefTotal.toNat).foldlM
    (fun s i => listEntry part handle (junk i) (UInt32.ofNat i) s) s
  return (0, s)

/-! ## The commands -/

def msgDirectoryNotFound : List UInt8 :=
  chars ['D', 'i', 'r', 'e', 'c', 't', 'o', 'r', 'y', ' ', 'n', 'o', 't', ' ', 'f', 'o', 'u', 'n',
    'd'] ++ [0]

def functionLS (junk : ℕ → ℕ → UInt8) (s : System) : Except Fault System := do
  let part := fsDeviceOpen 0x00000000 s.fs.memory
  let rootDirectory := fsDeviceGetRootDirectory part s.fs.memory
  let (_, s) ← vfsList part rootDirectory junk s
  return s

/-- The parameters are the characters of `console_string` from `param` on. No character of a line is
zero, so that a name of ten characters is read. -/
def functionCD (param : ℕ) (junk : ℕ → UInt8) (s : System) : Except Fault System := do
  let part := fsDeviceOpen 0x00000000 s.fs.memory
  let rootDirectory := fsDeviceGetRootDirectory part s.fs.memory
  if consoleStringLength < param + fileNameLength then .error .outOfBounds
  let (directory, fs) ← fsDirectoryFindByName part rootDirectory
    ((List.ofFn s.console.consoleString).drop param) junk s.fs
  if directory = 0 then
    let console := s.console.print msgDirectoryNotFound (UInt8.ofNat msgDirectoryNotFound.length)
    return ⟨console.printLn, fs⟩
  return { s with fs }

/-- The function that is called, with the parameters of the call. -/
def Call.run (call : Call CommandFunction) (junk : ℕ → ℕ → UInt8) (s : System) :
    Except Fault System :=
  match call.function with
  | .functionLS => functionLS junk s
  | .functionCD => functionCD call.parameters.toNat (junk 0) s

def Console.registerCommandLS (s : Console CommandFunction) : Console CommandFunction :=
  { s with commandRegistry :=
      consoleRegisterCommand (chars ['l', 's'] ++ [0]) 3 .functionLS s.commandRegistry }

def Console.registerCommandCD (s : Console CommandFunction) : Console CommandFunction :=
  { s with commandRegistry :=
      consoleRegisterCommand (chars ['c', 'd'] ++ [0]) 3 .functionCD s.commandRegistry }

/-! ## The line editor -/

/-- A scan code, and what the stack holds while it is handled. -/
structure KeyPress where
  scanCode : UInt8
  junk : ℕ → ℕ → UInt8

namespace System

/-- The call of a function, if there is one. -/
def runCall (junk : ℕ → ℕ → UInt8) (s : System) : Option (Call CommandFunction) → Except Fault System
  | some call => call.run junk s
  | none => .ok s

/-- The rest of `KeyFunctionReturn`, once the line is saved. -/
def runCommand (junk : ℕ → ℕ → UInt8) (s : System) : Except Fault System := do
  -- Look up function name
  let (passed, call) :=
    if commandSpecialChar = 0 then
      commandFunctionLookup s.console.parametersBegin (List.ofFn s.console.consoleString)
        s.console.consoleStringLength s.console.commandRegistry
    else (commandSpecialChar, none)
  let s ← s.runCall junk call
  -- Bad command or filename
  let console :=
    if passed = 0 ∧ s.console.consoleStringLengthOld > 0 then
      (s.console.print msgBadCommand (UInt8.ofNat msgBadCommand.length)).printLn
    else s.console
  return { s with
    console := { console.printPrompt.consoleClearKeyboardString with consoleStringLength := 0 } }

def keyFunctionReturn (junk : ℕ → ℕ → UInt8) (s : System) : Except Fault System := do
  let console := s.console.printLn.consoleSetCursorPosition 0
  -- Save last entered command string
  let indices := List.range (console.consoleStringLength.toNat + 1)
  let consoleStringOld ← Console.saveString console.consoleString console.consoleStringOld indices
  let console := { console with
    consoleStringOld := consoleStringOld
    consoleStringLengthOld := console.consoleStringLength }
  -- Get the filename and parameters
  let parametersBegin ← Console.findParameters console.consoleString indices
  runCommand junk { s with console := { console with parametersBegin := parametersBegin } }

/-- `cliRunShell`, with the scan code that `ConsoleGetLastChar` returns. -/
def cliRunShell (key : KeyPress) (s : System) : Except Fault System := do
  let scanCode := key.scanCode
  if scanCode = 0 then return s
  -- Shift pressed / released
  let console := if scanCode = keyShiftPressed then { s.console with shiftState := 1 } else s.console
  let console := if scanCode = keyShiftReleased then { console with shiftState := 0 } else console
  if scanCode < 0x20 then
    if scanCode = keyBackspace then
      let console ← console.keyFunctionBackspace
      return { s with console }
    else if scanCode = keyReturn then keyFunctionReturn key.junk { s with console }
    else return { s with console }
  else
    let console ← console.keyFunctionPrintChar scanCode
    return { s with console }

end System

/-! ## The dialogue -/

/-- What a listing shows of an entry: its attributes but the last, its name, and its size or that it is
a directory. -/
def listingLine (entry : CatalogEntry) : List UInt8 :=
  entry.attributes.take 3 ++ [space] ++ entry.name ++ [space] ++
    if entry.attributes.getD 3 0 = 'd'.toUInt8 then chars ['<', 'd', 'i', 'r', '>']
    else decimal entry.size

/-- The line buffer of a line. -/
def paddedLine (line : List UInt8) : List UInt8 := line.rightpad consoleStringLength space

/-- What is answered to a line, where the root directory has the entries. -/
def response (entries : List CatalogEntry) (line : List UInt8) : List UInt8 :=
  if accepts (chars ['l', 's']) (paddedLine line) then entries.flatMap listingLine
  else if accepts (chars ['c', 'd']) (paddedLine line) then
    if cleanName ((paddedLine line).drop (parametersStart (paddedLine line)).toNat) ∈
        entries.map CatalogEntry.name then []
    else msgDirectoryNotFound.dropLast
  else if line = [] then [] else msgBadCommand.dropLast

/-- The line that is typed, and what was shown. -/
structure Dialogue where
  typed : Typed
  shown : List UInt8

/-- What a key that is not return shows. -/
def echo (typed : Typed) (scanCode : UInt8) : List UInt8 :=
  if scanCode = keyBackspace then if typed.line = [] then [] else [space]
  else if scanCode < 0x20 then []
  else if typed.line.length < consoleStringLength then [shiftedChar typed.shiftState scanCode]
  else []

/-- The commands that are registered. -/
def commands : List (Registration CommandFunction) :=
  [⟨chars ['l', 's'], .functionLS⟩, ⟨chars ['c', 'd'], .functionCD⟩]

/-- What a key does to the dialogue: return shows the response to the line, and the prompt. -/
def Dialogue.key (entries : List CatalogEntry) (scanCode : UInt8) (d : Dialogue) : Dialogue :=
  if scanCode = keyReturn then
    ⟨{ d.typed with line := [] }, d.shown ++ response entries d.typed.line ++ chars ['x', '>']⟩
  else ⟨d.typed.key scanCode, d.shown ++ echo d.typed scanCode⟩

/-! ## What a listing shows -/

section Listing

variable {part : Partition} {dir : DirectoryHandle} {files : Files} {blocks : List Block}
  {entries : List CatalogEntry} {s : System}

theorem length_name_catalogEntry (part : Partition) (mem : Memory) (h : FileHandle) :
    (catalogEntry part mem h).name.length = 10 := by
  have hten : fileNameLength = 10 := rfl
  show (fsFileGetName part h (cleanName []) mem).length = 10
  rw [fsFileGetName, hten]
  generalize hread : List.takeWhile _ _ = read
  have hle : read.length ≤ 10 := by
    rw [← hread]
    exact (List.takeWhile_prefix _).length_le.trans (by simp)
  split
  · rw [List.length_append, List.length_cons, List.length_drop, length_cleanName]
    omega
  · rw [List.length_append, List.length_drop, length_cleanName]
    omega

theorem length_attributes_catalogEntry (part : Partition) (mem : Memory) (h : FileHandle) :
    (catalogEntry part mem h).attributes.length = 4 := by
  show ((List.range 4).map _).length = 4
  rw [List.length_map, List.length_range]

/-- **A pass of a listing** shows a line for its entry, and leaves the files. -/
theorem listEntry_ok (hp : part.Small) (hc : Catalog part dir s.fs.memory files blocks entries)
    (hslot : ∃ i, s.fs.fileList i = 0) (junk : ℕ → UInt8) {i : ℕ} (hi : i < entries.length) :
    ∃ t, listEntry part dir junk (UInt32.ofNat i) s = .ok t ∧ s.fs.Restored t.fs ∧
      Prints (listingLine entries[i]) s.console t.console := by
  have hlen := hc.length_entries
  have hindex : (UInt32.ofNat i).toNat = i := by
    have hlt := hc.contents.length_listing_lt hp
    rw [UInt32.toNat_ofNat', Nat.mod_eq_of_lt (by omega)]
  obtain ⟨fs', hfind, hrestored⟩ := hc.contents.findByIndex hp hslot (UInt32.ofNat i) junk
  have hi' : i < (listing blocks).length := hlen ▸ hi
  rw [hindex, List.getD_eq_getElem _ _ hi'] at hfind
  have hentry : catalogEntry part fs'.memory (listing blocks)[i] = entries[i] := by
    rw [hrestored.memory_eq]
    have h := List.getElem_map (catalogEntry part s.fs.memory) (l := listing blocks) (i := i)
      (h := by rw [hc.entries_eq]; exact hi)
    rw [← h]
    exact List.getElem_of_eq hc.entries_eq _
  generalize (listing blocks)[i] = file at hfind hentry
  have hname := length_name_catalogEntry part fs'.memory file
  have hattributes := length_attributes_catalogEntry part fs'.memory file
  rw [hentry] at hname hattributes
  generalize entries[i] = entry at hentry hname hattributes ⊢
  -- the getters return what is catalogued
  have h₁ : fsFileGetName part file (List.replicate fileNameLength space) fs'.memory = entry.name :=
    congrArg CatalogEntry.name hentry
  have h₂ : fsFileGetAttributes part file fs'.memory = entry.attributes :=
    congrArg CatalogEntry.attributes hentry
  have h₃ : fsFileGetSize part file fs'.memory = entry.size := congrArg CatalogEntry.size hentry
  have hfields : Prints (entry.attributes.take 3 ++ [space] ++ entry.name ++ [space]) s.console
      ((((s.console.print entry.attributes 4).printSpace 1).print entry.name 11).printSpace 1) := by
    have hshown := prints_print (s := (s.console.print entry.attributes 4).printSpace 1) entry.name 11
      hname.ge
    rw [show (11 : UInt8).toNat - 1 = 10 from rfl, List.take_of_length_le hname.le] at hshown
    exact (((prints_print entry.attributes 4 (by rw [hattributes]; decide)).trans
      prints_printSpace_one).trans hshown).trans prints_printSpace_one
  rw [listEntry, hfind, ok_bind]
  simp only [h₁, h₂, h₃]
  rw [listingLine]
  by_cases hdir : entry.attributes.getD 3 0 = 'd'.toUInt8
  · rw [if_pos hdir, if_pos hdir]
    refine ⟨_, rfl, hrestored, ?_⟩
    have hshown := hfields.trans (prints_print msgDir (UInt8.ofNat msgDir.length) (by decide))
    exact (List.append_nil (_ ++ _)) ▸ hshown.trans prints_printLn
  · obtain ⟨console, hprint, hshown⟩ := prints_printInt entry.size
      ((((s.console.print entry.attributes 4).printSpace 1).print entry.name 11).printSpace 1)
    rw [if_neg hdir, if_neg hdir, hprint, ok_bind]
    exact ⟨_, rfl, hrestored, (List.append_nil (_ ++ _)) ▸ (hfields.trans hshown).trans prints_printLn⟩

/-- **A listing** shows a line for each entry of the directory, and leaves the files. -/
theorem vfsList_ok (hp : part.Small) (hc : Catalog part dir s.fs.memory files blocks entries)
    (hslot : ∃ i, s.fs.fileList i = 0) (junk : ℕ → ℕ → UInt8) :
    ∃ t, vfsList part dir junk s = .ok (0, t) ∧ s.fs.Restored t.fs ∧
      Prints (entries.flatMap listingLine) s.console t.console := by
  have hlen := hc.length_entries
  have hlt := hc.contents.length_listing_lt hp
  have htotal : (UInt32.ofNat (listing blocks).length).toNat = entries.length := by
    rw [UInt32.toNat_ofNat', Nat.mod_eq_of_lt hlt, hlen]
  -- the loop has shown the first `n` entries
  have hloop : ∀ n ≤ entries.length, ∃ t, (List.range n).foldlM
      (fun s i => listEntry part dir (junk i) (UInt32.ofNat i) s) s = .ok t ∧ s.fs.Restored t.fs ∧
        Prints ((entries.take n).flatMap listingLine) s.console t.console := by
    intro n hn
    induction n with
    | zero => exact ⟨s, rfl, ⟨rfl, rfl, fun _ => .inl rfl⟩, .refl _⟩
    | succ n ih =>
      obtain ⟨t, ht, hrestored, hshown⟩ := ih (Nat.le_of_succ_le hn)
      obtain ⟨u, hu, hrestored', hshown'⟩ := listEntry_ok (s := t) hp
        (hrestored.memory_eq ▸ hc) (hrestored.fileList_eq ▸ hslot) (junk n) hn
      refine ⟨u, ?_, hrestored.trans hrestored', ?_⟩
      · rw [List.range_succ, List.foldlM_append, ht, ok_bind, List.foldlM_cons, hu, ok_bind]
        rfl
      · rw [List.take_succ_eq_append_getElem hn, List.flatMap_append, List.flatMap_singleton]
        exact hshown.trans hshown'
  rw [vfsList, hc.contents.totalSize hp, ok_bind]
  split
  · next hzero =>
    rw [hzero] at htotal
    rw [List.length_eq_zero_iff.mp htotal.symm]
    exact ⟨s, rfl, ⟨rfl, rfl, fun _ => .inl rfl⟩, .refl _⟩
  · obtain ⟨t, ht, hrestored, hshown⟩ := hloop entries.length le_rfl
    rw [htotal, ht, ok_bind]
    rw [List.take_length] at hshown
    exact ⟨t, rfl, hrestored, hshown⟩

/-- **Whatever is created and added** on a device just formatted, for which there are enough sectors, is
listed: a line for each entry in the order of the additions, whatever the memory held before. -/
theorem lists_of_additions {p : Partition} {beginning ending : UInt32}
    (hpart : formatted p beginning ending 32 = part)
    (hle : part.blockAddress.toNat + part.blockSize.toNat ≤ 2 ^ 32) (additions : List Addition)
    (hsectors : 3 + sectorsFor part 0 (additions.map Addition.new) ≤ part.sectorCount.toNat)
    (mem : Memory) (console : Console CommandFunction) (junk : ℕ → ℕ → UInt8) :
    ∃ mem' fs t, fsDeviceFormat p beginning ending 32 mem = .ok (part, mem') ∧
      Run.exec (addEntry part (fsDeviceGetRootDirectory part mem')) additions
        (closedFileSystem mem') = .ok fs ∧
      vfsList part (fsDeviceGetRootDirectory part mem') junk ⟨console, fs⟩ = .ok (0, t) ∧
      fs.Restored t.fs ∧ t.console.printed =
        console.printed ++ additions.flatMap fun addition => listingLine addition.new.entry := by
  have hp : part.Small := by
    subst hpart
    exact ⟨⟨le_rfl, rfl⟩, rfl, hle⟩
  obtain ⟨mem', hformat, hc, hb⟩ := catalog_of_format p beginning ending 32 mem hpart hp
    ((Nat.le_add_right _ _).trans hsectors)
  have hc : Catalog part part.sectorSize (closedFileSystem mem').memory _ _ _ := hc
  obtain ⟨fs, files, blocks, hrun, hlist, hcatalog⟩ :=
    hc.of_additions hp ⟨0, rfl⟩ hb (by decide) additions hsectors
  have hcatalog : Catalog part part.sectorSize (System.mk console fs).fs.memory _ _ _ := hcatalog
  obtain ⟨t, ht, hrestored, hshown⟩ := vfsList_ok hp hcatalog (hlist ▸ ⟨0, rfl⟩) junk
  refine ⟨mem', fs, t, hformat, ?_, ?_, hrestored, ?_⟩
  · rwa [show fsDeviceGetRootDirectory part mem' = part.sectorSize from hc.root_eq]
  · rwa [show fsDeviceGetRootDirectory part mem' = part.sectorSize from hc.root_eq]
  · rw [hshown.printed, List.nil_append, List.flatMap_map]

/-- `lists_of_additions` for a directory and a file on a device of 128 sectors. -/
theorem lists_of_additions_manySectors :
    ∃ mem' fs t, fsDeviceFormat ⟨0, 0, 0, 0⟩ 0 4096 32 (fun _ => 0) = .ok (manySectors, mem') ∧
      Run.exec (addEntry manySectors (fsDeviceGetRootDirectory manySectors mem'))
        [⟨.directory (chars ['d']), fun _ => 0⟩, ⟨.file (chars ['f']) 40, fun _ => 0⟩]
        (closedFileSystem mem') = .ok fs ∧
      vfsList manySectors (fsDeviceGetRootDirectory manySectors mem') (fun _ _ => 0)
        ⟨Console.afterCliInit, fs⟩ = .ok (0, t) ∧
      t.console.printed = chars [' ', 'r', 'w', ' ', 'd', ' ', ' ', ' ', ' ', ' ', ' ', ' ', ' ', ' ',
        ' ', '<', 'd', 'i', 'r', '>', ' ', 'r', 'w', ' ', 'f', ' ', ' ', ' ', ' ', ' ', ' ', ' ', ' ',
        ' ', ' ', '4', '0'] := by
  have hpart : formatted ⟨0, 0, 0, 0⟩ 0 4096 32 = manySectors := rfl
  obtain ⟨mem', fs, t, hformat, hrun, hlist, -, hprinted⟩ := lists_of_additions hpart (by decide)
    [⟨.directory (chars ['d']), fun _ => 0⟩, ⟨.file (chars ['f']) 40, fun _ => 0⟩] (by decide)
    (fun _ => 0) Console.afterCliInit fun _ _ => 0
  exact ⟨mem', fs, t, hformat, hrun, hlist, hprinted.trans (by decide)⟩

end Listing

/-! ## What a command shows -/

/-- The root directory of the device has the entries, and a file can be opened. -/
structure Serves (entries : List CatalogEntry) (fs : FileSystem) : Prop where
  catalog : ∃ part dir files blocks, part.Small ∧ part.blockAddress = 0 ∧
    Catalog part dir fs.memory files blocks entries
  slot : ∃ i, fs.fileList i = 0

section Commands

variable {entries : List CatalogEntry} {s : System} {fs fs' : FileSystem} {line : List UInt8}

theorem Serves.of_restored (h : Serves entries fs) (hrestored : fs.Restored fs') :
    Serves entries fs' := by
  refine ⟨?_, hrestored.fileList_eq ▸ h.slot⟩
  rw [hrestored.memory_eq]
  exact h.catalog

theorem functionLS_ok (h : Serves entries s.fs) (junk : ℕ → ℕ → UInt8) :
    ∃ t, functionLS junk s = .ok t ∧ s.fs.Restored t.fs ∧
      Prints (entries.flatMap listingLine) s.console t.console := by
  obtain ⟨part, dir, files, blocks, hp, hbase, hc⟩ := h.catalog
  obtain ⟨t, ht, hrestored, hshown⟩ := vfsList_ok hp hc h.slot junk
  have hopen := hc.opened
  rw [hbase] at hopen
  rw [functionLS]
  simp only [hopen, hc.root_eq, ht, ok_bind]
  exact ⟨t, rfl, hrestored, hshown⟩

theorem functionCD_ok (h : Serves entries s.fs) {param : ℕ} (hparam : param + 10 ≤ 40)
    (junk : ℕ → UInt8) :
    ∃ t, functionCD param junk s = .ok t ∧ s.fs.Restored t.fs ∧
      Prints (if cleanName ((List.ofFn s.console.consoleString).drop param) ∈
        entries.map CatalogEntry.name then [] else msgDirectoryNotFound.dropLast)
        s.console t.console := by
  obtain ⟨part, dir, files, blocks, hp, hbase, hc⟩ := h.catalog
  obtain ⟨file, fs', hfind, hrestored, hfound⟩ := hc.findByName hp h.slot
    ((List.ofFn s.console.consoleString).drop param) junk
  have hopen := hc.opened
  rw [hbase] at hopen
  rw [functionCD]
  simp only [hopen, hc.root_eq, if_neg (show ¬ consoleStringLength < param + fileNameLength from
    not_lt.mpr hparam), hfind, ok_bind]
  by_cases hzero : file = 0
  · rw [if_pos hzero, if_neg (hfound.mp hzero)]
    refine ⟨_, rfl, hrestored, ?_⟩
    exact (prints_print msgDirectoryNotFound (UInt8.ofNat msgDirectoryNotFound.length)
      (by decide)).trans prints_printLn
  · rw [if_neg hzero, if_pos (not_not.mp (mt hfound.mpr hzero))]
    exact ⟨_, rfl, hrestored, .refl _⟩

theorem isName_commands : ∀ c ∈ commands, IsName c.name := by
  intro c hc
  rcases List.mem_cons.mp hc with rfl | hc
  · exact ⟨by decide, by decide, List.all_eq_true.mp (by decide)⟩
  · obtain rfl := List.mem_singleton.mp hc
    exact ⟨by decide, by decide, List.all_eq_true.mp (by decide)⟩

theorem length_paddedLine (hle : line.length ≤ consoleStringLength) :
    (paddedLine line).length = consoleStringLength := by
  rw [paddedLine, List.length_rightpad, Nat.max_eq_left hle]

/-- The lookup takes the first command that accepts the line. -/
theorem dispatched_commands (line : List UInt8) (length : UInt8) :
    dispatched commands line length 0 =
      if accepts (chars ['l', 's']) line then
        (1, some ⟨0, .functionLS, parametersStart line, length + 1 - parametersStart line⟩)
      else if accepts (chars ['c', 'd']) line then
        (1, some ⟨1, .functionCD, parametersStart line, length + 1 - parametersStart line⟩)
      else (0, none) := by
  have hls : accepts (List.take 9 (chars ['l', 's'])) line = accepts (chars ['l', 's']) line := rfl
  have hcd : accepts (List.take 9 (chars ['c', 'd'])) line = accepts (chars ['c', 'd']) line := rfl
  rw [dispatched, commands, List.findIdx?_cons, List.findIdx?_cons, List.findIdx?_nil]
  simp only [hls, hcd]
  split_ifs <;> rfl

/-- **A command** is run for the line, and a new prompt is shown. -/
theorem runCommand_ok (h : Serves entries s.fs)
    (hregistry : s.console.commandRegistry = registerAll commands)
    (hstring : List.ofFn s.console.consoleString = paddedLine line)
    (hle : line.length ≤ consoleStringLength)
    (hold : s.console.consoleStringLengthOld > 0 ↔ line ≠ [])
    (hprompt : s.console.consolePrompt.take 2 = chars ['x', '>'])
    (hlength : s.console.consolePromptLength = 3) (junk : ℕ → ℕ → UInt8) :
    ∃ t v, System.runCommand junk s = .ok t ∧ s.fs.Restored t.fs ∧
      Prints (response entries line ++ chars ['x', '>']) s.console v ∧ v.consolePosition = 2 ∧
      t.console = { v with consoleString := fun _ => space, consoleStringLength := 0 } := by
  -- it is enough that the command shows the response
  suffices hresponse : ∃ passed call, commandFunctionLookup s.console.parametersBegin
      (List.ofFn s.console.consoleString) s.console.consoleStringLength s.console.commandRegistry =
        (passed, call) ∧ ∃ u : System, s.runCall junk call = .ok u ∧ s.fs.Restored u.fs ∧
        Prints (response entries line) s.console
          (if passed = 0 ∧ u.console.consoleStringLengthOld > 0 then
            (u.console.print msgBadCommand (UInt8.ofNat msgBadCommand.length)).printLn
          else u.console) by
    obtain ⟨passed, call, hlookup, u, hu, hrestored, hshown⟩ := hresponse
    rw [System.runCommand, commandSpecialChar, if_pos rfl, hlookup]
    simp only [hu, ok_bind]
    generalize (if passed = 0 ∧ u.console.consoleStringLengthOld > 0 then
      (u.console.print msgBadCommand (UInt8.ofNat msgBadCommand.length)).printLn else u.console) =
        console at hshown ⊢
    obtain ⟨row, position, display, rfl⟩ := hshown.frame
    have hpromptLength : 2 ≤ s.console.consolePrompt.length := by
      have h := congrArg List.length hprompt
      rw [List.length_take] at h
      have htwo : min 2 s.console.consolePrompt.length = 2 := h
      omega
    obtain ⟨c, hc⟩ : ∃ c : Console CommandFunction, { s.console with
      consoleLine := row, consolePosition := position, display := display } = c := ⟨_, rfl⟩
    have hshownPrompt : Prints (chars ['x', '>']) c c.printPrompt := by
      have h := prints_printPrompt (s := c) (by rw [← hc]; simpa [hlength] using hpromptLength)
      rw [← hprompt]
      rw [← hc] at h ⊢
      simpa [hlength] using h
    have hposition : c.printPrompt.consolePosition = 2 := by
      obtain ⟨display', hframe⟩ := printPrompt_frame (s := c)
      rw [hframe, ← hc]
      show s.console.consolePromptLength - 1 = 2
      rw [hlength]
      rfl
    rw [hc] at hshown ⊢
    exact ⟨_, c.printPrompt, rfl, hrestored, hshown.trans hshownPrompt, hposition, rfl⟩
  rw [hregistry, commandFunctionLookup_registerAll (by rw [hstring, length_paddedLine hle])
    (by decide) isName_commands, dispatched_commands, hstring, response]
  by_cases hls : accepts (chars ['l', 's']) (paddedLine line) = true
  · obtain ⟨u, hu, hrestored, hshown⟩ := functionLS_ok h junk
    rw [if_pos hls, if_pos hls]
    exact ⟨_, _, rfl, u, hu, hrestored, hshown⟩
  rw [if_neg hls, if_neg hls]
  by_cases hcd : accepts (chars ['c', 'd']) (paddedLine line) = true
  · have hparam : (parametersStart (paddedLine line)).toNat + 10 ≤ 40 := by
      have hname : IsName (chars ['c', 'd']) :=
        ⟨by decide, by decide, List.all_eq_true.mp (by decide)⟩
      have hword := (length_word_of_accepts hname hcd).2
      rw [parametersStart, UInt8.toNat_ofNat']
      split <;> omega
    obtain ⟨u, hu, hrestored, hshown⟩ := functionCD_ok h hparam (junk 0)
    rw [hstring] at hshown
    rw [if_pos hcd, if_pos hcd]
    exact ⟨_, _, rfl, u, hu, hrestored, hshown⟩
  · rw [if_neg hcd, if_neg hcd]
    refine ⟨_, _, rfl, s, rfl, ⟨rfl, rfl, fun _ => .inl rfl⟩, ?_⟩
    by_cases hnil : line = []
    · rw [if_pos hnil, if_neg fun h => hold.mp h.2 hnil]
      exact .refl _
    · rw [if_neg hnil, if_pos ⟨rfl, hold.mpr hnil⟩]
      exact (prints_print msgBadCommand (UInt8.ofNat msgBadCommand.length) (by decide)).trans
        prints_printLn

end Commands

/-! ## What a key shows -/

/-- The console `t` has shown a text behind what `s` has shown, with the same commands and prompt. -/
structure Echoes {F : Type} (text : List UInt8) (s t : Console F) : Prop where
  registry : t.commandRegistry = s.commandRegistry
  prompt : t.consolePrompt = s.consolePrompt
  promptLength : t.consolePromptLength = s.consolePromptLength
  printed : t.printed = s.printed ++ text

section Echoes

variable {F : Type} {s t u : Console F} {text text' : List UInt8} {typed : Typed} {scanCode : UInt8}
  {promptLength start scrolls : ℕ}

theorem Prints.echoes (h : Prints text s t) : Echoes text s t := by
  obtain ⟨line, position, display, rfl⟩ := h.frame
  exact ⟨rfl, rfl, rfl, h.printed⟩

theorem Echoes.trans (h : Echoes text s t) (h' : Echoes text' t u) : Echoes (text ++ text') s u :=
  ⟨h'.registry.trans h.registry, h'.prompt.trans h.prompt, h'.promptLength.trans h.promptLength, by
    rw [h'.printed, h.printed, List.append_assoc]⟩

/-- **A character** that is typed on a line with room is shown. -/
theorem echoes_keyFunctionPrintChar (hlt : s.consoleStringLength.toNat < consoleStringLength)
    (hs : s.keyFunctionPrintChar scanCode = .ok t) :
    Echoes [shiftedChar s.shiftState scanCode] s t := by
  rw [keyFunctionPrintChar_eq hlt] at hs
  obtain ⟨u, hu⟩ : ∃ u, { s with
    consoleString := Function.update s.consoleString ⟨s.consoleStringLength.toNat, hlt⟩
      (shiftedChar s.shiftState scanCode)
    consoleStringLength := s.consoleStringLength + 1 } = u := ⟨_, rfl⟩
  have hsame : Echoes [] s u := by
    rw [← hu]
    exact ⟨rfl, rfl, rfl, (List.append_nil _).symm⟩
  have hshown : Prints [shiftedChar s.shiftState scanCode] u
      ((u.printChar (shiftedChar s.shiftState scanCode)).consoleSetCursorPosition
        (s.consolePosition + 1)) :=
    (prints_printChar _).trans (prints_consoleSetCursorPosition _)
  simp only [hu] at hs
  split at hs
  · obtain rfl := Except.ok.inj hs
    exact hsame.trans ((hshown.trans (prints_printLn.trans (prints_consoleSetCursorPosition 0))).echoes)
  · obtain rfl := Except.ok.inj hs
    exact hsame.trans hshown.echoes

/-- **Backspace** blanks the last character. -/
theorem echoes_keyFunctionBackspace (hle : s.consoleStringLength.toNat ≤ consoleStringLength)
    (hs : s.keyFunctionBackspace = .ok t) :
    Echoes (if s.consoleStringLength = 0 then [] else [space]) s t := by
  by_cases hempty : s.consoleStringLength = 0
  · rw [Console.keyFunctionBackspace, if_pos hempty] at hs
    obtain rfl : s = t := Except.ok.inj hs
    rw [if_pos hempty]
    exact (Prints.refl s).echoes
  have hforty : consoleStringLength = 40 := rfl
  have hpos : s.consoleStringLength.toNat ≠ 0 := fun h => hempty (UInt8.toNat_inj.mp h)
  rw [keyFunctionBackspace_eq hempty (by omega)] at hs
  obtain rfl := Except.ok.inj hs
  rw [if_neg hempty]
  -- a step up shows no character
  have hup : ∀ v : Console F, Echoes [] v v.stepUp := by
    intro v
    rw [Console.stepUp]
    split
    · exact (⟨rfl, rfl, rfl, (List.append_nil _).symm⟩ : Echoes [] v { v with
        consoleLine := v.consoleLine - 1, consolePosition := 21 }).trans
          (prints_displayWrite (by decide) _).echoes
    · exact (Prints.refl v).echoes
  have hsame : ∀ (v : Console F) (length position : UInt8), Echoes [] v { v with
      consoleStringLength := length, consolePosition := position } := fun v length position =>
    ⟨rfl, rfl, rfl, (List.append_nil _).symm⟩
  have hblank : ∀ (v : Console F) (position : UInt8), Prints [space] v
      (((v.displayWrite 0x00002 position).displayWrite 0x00010 space).displayWrite 0x00002
        position).swapBuffers := fun v position =>
    (((prints_displayWrite (by decide) _).trans (prints_character (i := 0) (by decide) space)).trans
      (prints_displayWrite (by decide) _)).trans (prints_displayWrite (by decide) _)
  have hstring : ∀ string : LineBuffer, Echoes [] s { s with consoleString := string } :=
    fun string => ⟨rfl, rfl, rfl, (List.append_nil _).symm⟩
  exact (((hstring _).trans (hup _)).trans (hsame _ _ _)).trans (hblank _ _).echoes

/-- **A key** that is not return. -/
theorem echoes_cliRunShell {run : Call F → Console F → Console F}
    (h : Editing promptLength start scrolls typed s) (hreturn : scanCode ≠ keyReturn)
    (hs : s.cliRunShell run scanCode = .ok t) : Echoes (echo typed scanCode) s t := by
  have hle : s.consoleStringLength.toNat ≤ consoleStringLength := h.length ▸ h.length_le
  have hshift : ∀ state : UInt8, Echoes [] s { s with shiftState := state } := fun state =>
    ⟨rfl, rfl, rfl, (List.append_nil _).symm⟩
  -- no key, and the shift keys, show nothing
  by_cases hzero : scanCode = 0
  · subst hzero
    obtain rfl : s = t := Except.ok.inj hs
    exact (Prints.refl s).echoes
  by_cases hpressed : scanCode = keyShiftPressed
  · subst hpressed
    obtain rfl : { s with shiftState := 1 } = t := Except.ok.inj hs
    exact hshift 1
  by_cases hreleased : scanCode = keyShiftReleased
  · subst hreleased
    obtain rfl : { s with shiftState := 0 } = t := Except.ok.inj hs
    exact hshift 0
  rw [Console.cliRunShell, if_neg hzero] at hs
  simp only [if_neg hpressed, if_neg hreleased] at hs
  rw [echo]
  by_cases hbackspace : scanCode = keyBackspace
  · subst hbackspace
    rw [if_pos (show keyBackspace < 0x20 by decide), if_pos rfl] at hs
    have hempty : s.consoleStringLength = 0 ↔ typed.line = [] := by
      rw [← UInt8.toNat_inj, h.length]
      exact List.length_eq_zero_iff
    have hshown := echoes_keyFunctionBackspace hle hs
    rw [if_pos rfl]
    rwa [if_congr hempty rfl rfl] at hshown
  rw [if_neg hbackspace, if_neg hreturn] at hs
  rw [if_neg hbackspace]
  -- the other control keys are ignored, and so is a character behind a full line
  by_cases hcontrol : scanCode < 0x20
  · rw [if_pos hcontrol] at hs ⊢
    obtain rfl : s = t := Except.ok.inj hs
    exact (Prints.refl s).echoes
  rw [if_neg hcontrol] at hs ⊢
  rw [← h.length, ← h.shiftState]
  split
  · next hlt => exact echoes_keyFunctionPrintChar hlt hs
  · next hge =>
    rw [Console.keyFunctionPrintChar, if_pos (not_lt.mp hge)] at hs
    obtain rfl : s = t := Except.ok.inj hs
    exact (Prints.refl s).echoes

end Echoes

/-! ## The dialogue that is shown -/

/-- The system has shown the dialogue, with the typed line behind the prompt, and lists the entries. -/
structure Serving (entries : List CatalogEntry) (d : Dialogue) (s : System) : Prop where
  editing : ∃ start scrolls, Editing 3 start scrolls d.typed s.console
  registry : s.console.commandRegistry = registerAll commands
  prompt : s.console.consolePrompt.take 2 = chars ['x', '>']
  promptLength : s.console.consolePromptLength = 3
  printed : s.console.printed = d.shown
  serves : Serves entries s.fs

section Serving

variable {entries : List CatalogEntry} {d : Dialogue} {s t : System} {key : KeyPress}

/-- Keys that are not return do not reach the files. -/
theorem cliRunShell_of_ne (hreturn : key.scanCode ≠ keyReturn)
    (run : Call CommandFunction → Console CommandFunction → Console CommandFunction) :
    s.cliRunShell key = (s.console.cliRunShell run key.scanCode).map fun console =>
      { s with console } := by
  rw [System.cliRunShell, Console.cliRunShell]
  split
  · rfl
  · dsimp only
    generalize (if key.scanCode = keyShiftReleased then _ else _ : Console CommandFunction) = console
    split
    · split
      · cases console.keyFunctionBackspace <;> rfl
      · rfl
    · cases console.keyFunctionPrintChar key.scanCode <;> rfl

/-- The line buffer holds the typed line. -/
theorem Editing.ofFn_consoleString {F : Type} {console : Console F} {start scrolls : ℕ}
    {typed : Typed} (h : Editing 3 start scrolls typed console) :
    List.ofFn console.consoleString = paddedLine typed.line := by
  refine List.ext_getElem (by rw [List.length_ofFn, length_paddedLine h.length_le]) fun i hi hi' => ?_
  rw [List.getElem_ofFn, h.string, ← List.getD_eq_getElem _ space hi', paddedLine, List.rightpad]
  rcases Nat.lt_or_ge i typed.line.length with hlt | hge
  · rw [List.getD_append _ _ _ _ hlt]
  · rw [List.getD_eq_default _ _ hge, List.getD_append_right _ _ _ _ hge, List.getD_replicate]
    rw [List.length_ofFn] at hi
    exact Nat.sub_lt_sub_right hge hi

/-- **Return** on a line that is not full shows the response to the line, and the prompt. -/
theorem Serving.keyFunctionReturn (h : Serving entries d s)
    (hlt : d.typed.line.length < consoleStringLength) (junk : ℕ → ℕ → UInt8) :
    ∃ t, s.keyFunctionReturn junk = .ok t ∧ s.fs.Restored t.fs ∧ Serving entries
      ⟨{ d.typed with line := [] }, d.shown ++ response entries d.typed.line ++ chars ['x', '>']⟩ t := by
  obtain ⟨start, scrolls, hedit⟩ := h.editing
  have hlength := hedit.length
  have hindices : ∀ a ∈ List.range (s.console.consoleStringLength.toNat + 1), a < consoleStringLength :=
    fun a ha => (Nat.lt_succ_iff.mp (List.mem_range.mp ha)).trans_lt (hlength ▸ hlt)
  -- a new line is begun, and the line is saved
  have hbegun : Prints [] s.console (s.console.printLn.consoleSetCursorPosition 0) :=
    prints_printLn.trans (prints_consoleSetCursorPosition 0)
  obtain ⟨row, position, display, hc⟩ := hbegun.frame
  rw [System.keyFunctionReturn, hc]
  obtain ⟨old, hold⟩ := saveString_ok (s := s.console) s.console.consoleStringOld hindices
  obtain ⟨begin, hbegin⟩ := findParameters_ok (s := s.console) hindices
  simp only [hold, hbegin, ok_bind]
  obtain ⟨c, hsaved⟩ : ∃ c : Console CommandFunction, { s.console with
    consoleStringOld := old
    consoleStringLengthOld := s.console.consoleStringLength
    parametersBegin := begin
    consolePosition := position
    consoleLine := row
    display := display } = c := ⟨_, rfl⟩
  have hrow : c.consoleLine.toNat < 8 := by
    have hlt := hbegun.line_lt hedit.line_lt
    rw [hc] at hlt
    rw [← hsaved]
    exact hlt
  have hprinted : c.printed = d.shown := by
    have hshown := hbegun.printed
    rw [hc, h.printed, List.append_nil] at hshown
    rw [← hsaved]
    exact hshown
  have hline : List.ofFn c.consoleString = paddedLine d.typed.line := by
    rw [← hsaved]
    exact hedit.ofFn_consoleString
  obtain ⟨t, v, ht, hrestored, hshown, hv, htconsole⟩ := runCommand_ok (s := ⟨c, s.fs⟩)
    h.serves (by rw [← hsaved]; exact h.registry) hline hedit.length_le
    (by
      rw [← hsaved]
      show 0 < s.console.consoleStringLength ↔ _
      rw [UInt8.lt_iff_toNat_lt, hlength]
      exact List.length_pos_iff)
    (by rw [← hsaved]; exact h.prompt) (by rw [← hsaved]; exact h.promptLength) junk
  rw [hsaved]
  have hechoes := hshown.echoes
  have hvrow := hshown.line_lt hrow
  have hvshift : v.shiftState = d.typed.shiftState := by
    obtain ⟨row', position', display', rfl⟩ := hshown.frame
    rw [← hedit.shiftState, ← hsaved]
  refine ⟨t, ht, hrestored, ⟨v.consoleLine.toNat, v.scrolls, ?_⟩, ?_, ?_, ?_, ?_,
    h.serves.of_restored hrestored⟩
  · -- the new line is empty, behind the prompt
    rw [htconsole]
    refine ⟨⟨Nat.zero_le _, rfl, fun i => rfl, hvshift, ?_, ?_⟩, hvrow, .inl rfl⟩
    · show v.consolePosition.toNat = _
      rw [hv]
      rfl
    · show v.consoleLine.toNat + v.scrolls = v.consoleLine.toNat + v.scrolls + 2 / 21
      rfl
  · rw [htconsole]
    refine hechoes.registry.trans ?_
    rw [← hsaved]
    exact h.registry
  · rw [htconsole]
    show v.consolePrompt.take 2 = _
    rw [hechoes.prompt, ← hsaved]
    exact h.prompt
  · rw [htconsole]
    refine hechoes.promptLength.trans ?_
    rw [← hsaved]
    exact h.promptLength
  · rw [htconsole]
    refine hechoes.printed.trans ?_
    rw [List.append_assoc, ← hprinted]

/-- **A key** goes on with the dialogue, and leaves the files. -/
theorem Serving.cliRunShell (h : Serving entries d s) (hkey : key.scanCode = keyReturn →
    d.typed.line.length < consoleStringLength) :
    ∃ t, s.cliRunShell key = .ok t ∧ s.fs.Restored t.fs ∧
      Serving entries (d.key entries key.scanCode) t := by
  rw [Dialogue.key]
  by_cases hreturn : key.scanCode = keyReturn
  · rw [if_pos hreturn]
    obtain ⟨t, ht, hrestored, hserving⟩ := h.keyFunctionReturn (hkey hreturn) key.junk
    refine ⟨t, ?_, hrestored, hserving⟩
    rw [System.cliRunShell]
    simp only [hreturn]
    exact ht
  · obtain ⟨start, scrolls, hedit⟩ := h.editing
    obtain ⟨console, hconsole, hedit'⟩ :=
      hedit.cliRunShell (fun _ c => c) (by decide) hreturn
    have hechoes := echoes_cliRunShell hedit hreturn hconsole
    rw [if_neg hreturn, cliRunShell_of_ne hreturn fun _ c => c, hconsole]
    refine ⟨⟨console, s.fs⟩, rfl, ⟨rfl, rfl, fun _ => .inl rfl⟩, ⟨start, scrolls, hedit'⟩,
      hechoes.registry.trans h.registry, ?_, hechoes.promptLength.trans h.promptLength, ?_, h.serves⟩
    · show console.consolePrompt.take 2 = _
      rw [hechoes.prompt]
      exact h.prompt
    · show console.printed = _
      rw [hechoes.printed, h.printed]

theorem length_key_le (typed : Typed) (scanCode : UInt8) (hle : typed.line.length ≤ consoleStringLength)
    (hreturn : scanCode ≠ keyReturn) :
    (typed.key scanCode).line.length = keyLength typed.line.length scanCode := by
  rw [Typed.key, keyLength, if_neg hreturn]
  by_cases hpressed : scanCode = keyShiftPressed
  · subst hpressed
    rfl
  by_cases hreleased : scanCode = keyShiftReleased
  · subst hreleased
    rfl
  rw [if_neg hpressed, if_neg hreleased]
  split_ifs with hbackspace hcontrol hlt
  · exact List.length_dropLast
  · rfl
  · rw [List.length_append, List.length_singleton, Nat.min_eq_left hlt]
  · rw [Nat.min_eq_right (by omega)]
    exact le_antisymm hle (not_lt.mp hlt)

/-- A key makes the line longer by one character at most. -/
theorem foldl_keyLength_le (keys : List UInt8) (n : ℕ) : keys.foldl keyLength n ≤ n + keys.length := by
  induction keys generalizing n with
  | nil => exact le_rfl
  | cons key keys ih =>
    have hkey : keyLength n key ≤ n + 1 := by
      rw [keyLength]
      split_ifs <;> omega
    have hrest := ih (keyLength n key)
    rw [List.foldl_cons, List.length_cons]
    omega

/-- Fewer keys than the line holds do not fill it. -/
theorem lengthAfter_lt_of_length_le {keys : List UInt8} (hle : keys.length ≤ consoleStringLength) :
    ∀ before after, keys = before ++ keyReturn :: after → lengthAfter before < consoleStringLength := by
  rintro before after rfl
  have hbefore := foldl_keyLength_le before 0
  rw [List.length_append, List.length_cons] at hle
  show before.foldl keyLength 0 < _
  omega

/-- The length of the line behind a key. -/
theorem Serving.length_key (h : Serving entries d s) (scanCode : UInt8) :
    (d.key entries scanCode).typed.line.length = keyLength d.typed.line.length scanCode := by
  obtain ⟨start, scrolls, hedit⟩ := h.editing
  rw [Dialogue.key]
  by_cases hreturn : scanCode = keyReturn
  · rw [if_pos hreturn, hreturn]
    rfl
  · rw [if_neg hreturn]
    exact length_key_le d.typed scanCode hedit.length_le hreturn

/-- Return is on a line with room, for the first key and the others. -/
theorem returns_cons_iff {scanCode : UInt8} {scanCodes : List UInt8} {n : ℕ} :
    (∀ before after, scanCode :: scanCodes = before ++ keyReturn :: after →
      before.foldl keyLength n < consoleStringLength) ↔
    (scanCode = keyReturn → n < consoleStringLength) ∧
      ∀ before after, scanCodes = before ++ keyReturn :: after →
        before.foldl keyLength (keyLength n scanCode) < consoleStringLength := by
  constructor
  · intro h
    refine ⟨fun hkey => h [] scanCodes (by rw [hkey]; rfl), fun before after heq => ?_⟩
    exact h (scanCode :: before) after (by rw [heq]; rfl)
  · rintro ⟨hkey, hkeys⟩ before after heq
    cases before with
    | nil => exact hkey (List.cons_eq_cons.mp heq).1
    | cons first before =>
      obtain ⟨rfl, htail⟩ := List.cons_eq_cons.mp heq
      exact hkeys before after htail

/-- Where return is not pressed on a full line, the shell does not fail, and goes on with the
dialogue. -/
theorem Serving.exec (h : Serving entries d s) (keys : List KeyPress)
    (hkeys : ∀ before after, keys.map KeyPress.scanCode = before ++ keyReturn :: after →
      before.foldl keyLength d.typed.line.length < consoleStringLength) :
    ∃ t, Run.exec System.cliRunShell keys s = .ok t ∧ s.fs.Restored t.fs ∧
      Serving entries ((keys.map KeyPress.scanCode).foldl (fun d scanCode => d.key entries scanCode) d)
        t := by
  induction keys generalizing d s with
  | nil => exact ⟨s, rfl, ⟨rfl, rfl, fun _ => .inl rfl⟩, h⟩
  | cons key keys ih =>
    obtain ⟨hkey, hrest⟩ := returns_cons_iff.mp hkeys
    rw [← h.length_key] at hrest
    obtain ⟨u, hu, hrestored, hserving⟩ := h.cliRunShell hkey
    obtain ⟨t, ht, hrestored', hserving'⟩ := ih hserving hrest
    refine ⟨t, ?_, hrestored.trans hrestored', hserving'⟩
    rw [Run.exec_cons_of_ok hu, ht]

/-- **Return on a full line** reads behind it. -/
theorem Serving.keyFunctionReturn_error (h : Serving entries d s)
    (hfull : consoleStringLength ≤ d.typed.line.length) (junk : ℕ → ℕ → UInt8) :
    s.keyFunctionReturn junk = .error .outOfBounds := by
  obtain ⟨start, scrolls, hedit⟩ := h.editing
  have hbegun : Prints [] s.console (s.console.printLn.consoleSetCursorPosition 0) :=
    prints_printLn.trans (prints_consoleSetCursorPosition 0)
  obtain ⟨row, position, display, hframe⟩ := hbegun.frame
  have herror := saveString_error (s := s.console) s.console.consoleStringOld
    (List.mem_range.mpr (Nat.lt_succ_self s.console.consoleStringLength.toNat))
    (hedit.length.symm ▸ hfull)
  rw [System.keyFunctionReturn, hframe]
  simp only [herror]
  rfl

theorem Serving.cliRunShell_error (h : Serving entries d s) (hreturn : key.scanCode = keyReturn)
    (hfull : consoleStringLength ≤ d.typed.line.length) :
    s.cliRunShell key = .error .outOfBounds := by
  rw [System.cliRunShell]
  simp only [hreturn]
  exact h.keyFunctionReturn_error hfull key.junk

/-- A run of the shell does not press return on a full line. -/
theorem Serving.lt_of_exec (h : Serving entries d s) {keys : List KeyPress}
    (hrun : Run.exec System.cliRunShell keys s = .ok t) :
    ∀ before after, keys.map KeyPress.scanCode = before ++ keyReturn :: after →
      before.foldl keyLength d.typed.line.length < consoleStringLength := by
  induction keys generalizing d s with
  | nil =>
    intro before after heq
    exact absurd heq.symm (List.append_ne_nil_of_right_ne_nil _ (List.cons_ne_nil _ _))
  | cons key keys ih =>
    by_cases hfull : key.scanCode = keyReturn ∧ consoleStringLength ≤ d.typed.line.length
    · rw [Run.exec, h.cliRunShell_error hfull.1 hfull.2] at hrun
      cases hrun
    · have hkey : key.scanCode = keyReturn → d.typed.line.length < consoleStringLength :=
        fun hreturn => not_le.mp fun hle => hfull ⟨hreturn, hle⟩
      obtain ⟨u, hu, -, hserving⟩ := h.cliRunShell hkey
      rw [Run.exec_cons_of_ok hu] at hrun
      have hrest := ih hserving hrun
      rw [h.length_key] at hrest
      exact returns_cons_iff.mpr ⟨hkey, hrest⟩

/-- **A run that ends** has answered its keys. -/
theorem Serving.of_exec (h : Serving entries d s) {keys : List KeyPress}
    (hrun : Run.exec System.cliRunShell keys s = .ok t) : s.fs.Restored t.fs ∧
      Serving entries ((keys.map KeyPress.scanCode).foldl (fun d scanCode => d.key entries scanCode) d)
        t := by
  obtain ⟨u, hu, hrestored, hserving⟩ := h.exec keys (h.lt_of_exec hrun)
  obtain rfl : u = t := Except.ok.inj (hu.symm.trans hrun)
  exact ⟨hrestored, hserving⟩

/-- **Whatever keys are pressed**, the shell fails if and only if return is pressed on a full line; the
display shows the dialogue, and the device and the open files are left. -/
theorem serving_of_keys (h : Serving entries d s) (keys : List KeyPress) :
    ((∃ t, Run.exec System.cliRunShell keys s = .ok t) ↔
      ∀ before after, keys.map KeyPress.scanCode = before ++ keyReturn :: after →
        before.foldl keyLength d.typed.line.length < consoleStringLength) ∧
    ∀ t, Run.exec System.cliRunShell keys s = .ok t → s.fs.Restored t.fs ∧ Serving entries
      ((keys.map KeyPress.scanCode).foldl (fun d scanCode => d.key entries scanCode) d) t := by
  refine ⟨⟨fun ⟨t, ht⟩ => h.lt_of_exec ht, fun hkeys => ?_⟩, fun t ht => h.of_exec ht⟩
  obtain ⟨t, ht, -⟩ := h.exec keys hkeys
  exact ⟨t, ht⟩

end Serving

end MicroKernel.Command
