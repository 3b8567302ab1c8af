import MicroKernel.Command.Terminal
import MicroKernel.Fs.SharedBus

/-!
# The kernel on the Retroboard

The kernel with the bus of the board, from power-on: once the memory is counted, every byte that
`kInit`, the commands and the shell read or write goes through the cache of `bus.c`, whose window and
dirty bytes are part of the state. The cache does not show: the board does what the kernel does on a
memory without one.

## Main definitions

* `Bytewise.functionLS`, `Bytewise.functionCD`, `Bytewise.cliRunShell`, `Bytewise.boot`: the
  commands, the shell and the boot as programs on the bus
* `Retroboard`: the kernel's variables, and the bus with its cache and the memory behind it
* `Retroboard.start`, `Retroboard.cliRunShell`: from power-on to the first prompt, and a pass of the
  loop
* `Retroboard.terminal`: the terminal whose memory is that of the board once the cache is flushed

## Main results

* `Bytewise.runFs_cliRunShell`, `Bytewise.runFs_boot`: the programs on a byte array
* `Retroboard.refines_terminal`: a run on the board is one of the terminal
-/

namespace MicroKernel.Command

open Fs

namespace Bytewise

open Console (commandSpecialChar msgBadCommand saveString findParameters)

/-! ## The listing -/

/-- A pass of the loop of `vfsList`. -/
def listEntry (part : Partition) (handle : DirectoryHandle) (junk : ℕ → UInt8) (i : UInt32)
    (s : Console CommandFunction) : FsProgram (Console CommandFunction) := do
  let entryHandle ← Bytewise.fsDirectoryFindByIndex part handle i junk
  -- Print attributes
  let fileAttr ← Bytewise.fsFileGetAttributes part entryHandle
  let isDirectory := fileAttr.getD 3 0 = 'd'.toUInt8
  let s := (s.print fileAttr 4).printSpace 1
  -- Print file name
  let filename ← Bytewise.fsFileGetName part entryHandle (List.replicate fileNameLength space)
  let s := (s.print filename 11).printSpace 1
  -- Print file size / dir
  if isDirectory then
    return (s.print msgDir (UInt8.ofNat msgDir.length)).printLn
  else
    let fileSize ← Bytewise.fsFileGetSize part entryHandle
    let s ← s.printInt fileSize
    return s.printLn

def vfsList (part : Partition) (handle : DirectoryHandle) (junk : ℕ → ℕ → UInt8)
    (s : Console CommandFunction) : FsProgram (UInt8 × Console CommandFunction) := do
  let directoryRefTotal ← Bytewise.fsDirectoryGetTotalSize part handle
  if directoryRefTotal = 0 then return (0, s)
  else
    let s ← (List.range directoryRefTotal.toNat).foldlM
      (fun s i => listEntry part handle (junk i) (UInt32.ofNat i) s) s
    return (0, s)

/-! ## The commands -/

def functionLS (junk : ℕ → ℕ → UInt8) (s : Console CommandFunction) :
    FsProgram (Console CommandFunction) := do
  let part ← Bytewise.fsDeviceOpen 0x00000000
  let rootDirectory ← Bytewise.fsDeviceGetRootDirectory part
  let (_, s) ← vfsList part rootDirectory junk s
  return s

def functionCD (param : ℕ) (junk : ℕ → UInt8) (s : Console CommandFunction) :
    FsProgram (Console CommandFunction) := do
  let part ← Bytewise.fsDeviceOpen 0x00000000
  let rootDirectory ← Bytewise.fsDeviceGetRootDirectory part
  if consoleStringLength < param + fileNameLength then (Except.error .outOfBounds : Except Fault _)
  else
    let directory ← Bytewise.fsDirectoryFindByName part rootDirectory
      ((List.ofFn s.consoleString).drop param) junk
    if directory = 0 then
      return (s.print msgDirectoryNotFound (UInt8.ofNat msgDirectoryNotFound.length)).printLn
    else return s

/-- The call of a function, if there is one. -/
def runCall (junk : ℕ → ℕ → UInt8) (s : Console CommandFunction) :
    Option (Call CommandFunction) → FsProgram (Console CommandFunction)
  | some call =>
    match call.function with
    | .functionLS => functionLS junk s
    | .functionCD => functionCD call.parameters.toNat (junk 0) s
  | none => return s

/-! ## The line editor -/

/-- The rest of `KeyFunctionReturn`, once the line is saved. -/
def runCommand (junk : ℕ → ℕ → UInt8) (s : Console CommandFunction) :
    FsProgram (Console CommandFunction) := do
  let (passed, call) :=
    if commandSpecialChar = 0 then
      commandFunctionLookup s.parametersBegin (List.ofFn s.consoleString) s.consoleStringLength
        s.commandRegistry
    else (commandSpecialChar, none)
  let s ← runCall junk s call
  let s :=
    if passed = 0 ∧ s.consoleStringLengthOld > 0 then
      (s.print msgBadCommand (UInt8.ofNat msgBadCommand.length)).printLn
    else s
  return { s.printPrompt.consoleClearKeyboardString with consoleStringLength := 0 }

def keyFunctionReturn (junk : ℕ → ℕ → UInt8) (s : Console CommandFunction) :
    FsProgram (Console CommandFunction) := do
  let s := s.printLn.consoleSetCursorPosition 0
  -- Save last entered command string
  let indices := List.range (s.consoleStringLength.toNat + 1)
  let consoleStringOld ← saveString s.consoleString s.consoleStringOld indices
  let s := { s with
    consoleStringOld := consoleStringOld
    consoleStringLengthOld := s.consoleStringLength }
  -- Get the filename and parameters
  let parametersBegin ← findParameters s.consoleString indices
  runCommand junk { s with parametersBegin := parametersBegin }

def cliRunShell (key : KeyPress) (s : Console CommandFunction) :
    FsProgram (Console CommandFunction) := do
  let scanCode := key.scanCode
  if scanCode = 0 then return s
  else
    let s := if scanCode = keyShiftPressed then { s with shiftState := 1 } else s
    let s := if scanCode = keyShiftReleased then { s with shiftState := 0 } else s
    if scanCode < 0x20 then
      if scanCode = keyBackspace then s.keyFunctionBackspace
      else if scanCode = keyReturn then keyFunctionReturn key.junk s
      else return s
    else s.keyFunctionPrintChar scanCode

/-! ## The boot -/

/-- Create an entry and add it to the directory. -/
def addEntry (part : Partition) (dir : DirectoryHandle) (addition : Addition) : FsProgram Unit := do
  let file ← match addition.new with
    | .file filename size => (Bytewise.fsFileCreate part filename size : FsProgram FileHandle)
    | .directory filename => (Bytewise.fsDirectoryCreate part filename : FsProgram FileHandle)
  let _ ← Bytewise.fsDirectoryAddFile part dir file addition.junk
  return ()

def kInit (junk : ℕ → ℕ → UInt8) (s : Console CommandFunction) :
    FsProgram (Console CommandFunction) := do
  let s ← s.kPrintVersion
  -- Set a default prompt
  let prompt := chars ['x', '>'] ++ [0]
  let s := s.consoleSetPrompt prompt (UInt8.ofNat prompt.length)
  -- Format the device
  let part ← Bytewise.fsDeviceOpen 0x00000000
  let part ← Bytewise.fsDeviceFormat part 0 32768 32
  let rootDirectory ← Bytewise.fsDeviceGetRootDirectory part
  addEntry part rootDirectory ⟨.directory (chars ['b', 'i', 'n']), junk 0⟩
  addEntry part rootDirectory ⟨.directory (chars ['s', 'y', 's']), junk 1⟩
  addEntry part rootDirectory ⟨.file (chars ['f', 'i', 'l', 'e']) 128, junk 2⟩
  addEntry part rootDirectory ⟨.file (chars ['t', 'e', 's', 't']) 40, junk 3⟩
  return s

/-- `main` from `kInit` to `printPrompt`. -/
def boot (junk : ℕ → ℕ → UInt8) (s : Console CommandFunction) :
    FsProgram (Console CommandFunction) := do
  let s ← kInit junk s
  return s.registerCommandLS.registerCommandCD.printPrompt

/-! ## On the byte array -/

section RunFs

variable {part : Partition} {handle : DirectoryHandle} {s : System} {junk : ℕ → ℕ → UInt8}

/-- The console and the files. -/
def parts (s : System) : Console CommandFunction × FileSystem := (s.console, s.fs)

theorem runFs_listEntry (junk : ℕ → UInt8) (i : UInt32) :
    (listEntry part handle junk i s.console).runFs s.fs =
      parts <$> Command.listEntry part handle junk i s := by
  rw [listEntry, Command.listEntry, runFs_bind, Bytewise.fsDirectoryFindByIndex,
    Bytewise.runFs_findByIndexFrom, map_bind]
  refine bind_congr fun r => ?_
  rw [runFs_bind_of_read Bytewise.onArray_fsFileGetAttributes]
  dsimp only
  rw [runFs_bind_of_read (Bytewise.onArray_fsFileGetName _)]
  by_cases hdir : (Fs.fsFileGetAttributes part r.1 r.2.memory).getD 3 0 = 'd'.toUInt8
  · rw [if_pos hdir, if_pos hdir]
    rfl
  · rw [if_neg hdir, if_neg hdir, runFs_bind_of_read Bytewise.onArray_fsFileGetSize, runFs_bind,
      runFs_except, bind_map_left, map_bind]
    rfl

theorem runFs_vfsList : (vfsList part handle junk s.console).runFs s.fs =
    (fun r => ((r.1, r.2.console), r.2.fs)) <$> Command.vfsList part handle junk s := by
  have hloop : ∀ (l : List ℕ) (s : System),
      (l.foldlM (fun s i => listEntry part handle (junk i) (UInt32.ofNat i) s) s.console).runFs s.fs =
        parts <$> l.foldlM
          (fun s i => Command.listEntry part handle (junk i) (UInt32.ofNat i) s) s := by
    intro l
    induction l with
    | nil => exact fun _ => rfl
    | cons i l ih =>
      intro s
      rw [List.foldlM_cons, List.foldlM_cons, runFs_bind, runFs_listEntry, bind_map_left, map_bind]
      exact bind_congr fun t => ih t
  rw [vfsList, Command.vfsList, runFs_bind, runFs_lift, Bytewise.onArray_fsDirectoryGetTotalSize,
    bind_map_left, bind_map_left, map_bind]
  refine bind_congr fun directoryRefTotal => ?_
  by_cases hzero : directoryRefTotal = 0
  · rw [if_pos hzero, if_pos hzero]
    rfl
  · rw [if_neg hzero, if_neg hzero, runFs_bind, hloop, bind_map_left, map_bind]
    rfl

theorem runFs_functionLS : (functionLS junk s.console).runFs s.fs =
    parts <$> Command.functionLS junk s := by
  rw [functionLS, Command.functionLS, runFs_bind_of_read (Bytewise.onArray_fsDeviceOpen _),
    runFs_bind_of_read Bytewise.onArray_fsDeviceGetRootDirectory, runFs_bind, runFs_vfsList,
    bind_map_left, map_bind]
  rfl

theorem runFs_functionCD (param : ℕ) (junk : ℕ → UInt8) :
    (functionCD param junk s.console).runFs s.fs = parts <$> Command.functionCD param junk s := by
  rw [functionCD, Command.functionCD, runFs_bind_of_read (Bytewise.onArray_fsDeviceOpen _),
    runFs_bind_of_read Bytewise.onArray_fsDeviceGetRootDirectory]
  by_cases hlt : consoleStringLength < param + fileNameLength
  · rw [if_pos hlt, if_pos hlt]
    rfl
  · rw [if_neg hlt, if_neg hlt, runFs_bind, Bytewise.fsDirectoryFindByName,
      Bytewise.runFs_findByNameFrom, map_bind]
    refine bind_congr fun r => ?_
    dsimp only
    by_cases hzero : r.1 = 0
    · rw [if_pos hzero, if_pos hzero]
      rfl
    · rw [if_neg hzero, if_neg hzero]
      rfl

theorem runFs_runCall (call : Option (Call CommandFunction)) :
    (runCall junk s.console call).runFs s.fs = parts <$> s.runCall junk call := by
  cases call with
  | none => rfl
  | some call =>
    rw [runCall, System.runCall, Call.run]
    cases call.function with
    | functionLS => exact runFs_functionLS
    | functionCD => exact runFs_functionCD ..

theorem runFs_runCommand : (runCommand junk s.console).runFs s.fs = parts <$> s.runCommand junk := by
  rw [runCommand, System.runCommand, runFs_bind, runFs_runCall, bind_map_left, map_bind]
  rfl

theorem runFs_keyFunctionReturn : (keyFunctionReturn junk s.console).runFs s.fs =
    parts <$> s.keyFunctionReturn junk := by
  rw [keyFunctionReturn, System.keyFunctionReturn, runFs_bind, runFs_except, bind_map_left, map_bind]
  refine bind_congr fun consoleStringOld => ?_
  rw [runFs_bind, runFs_except, bind_map_left, map_bind]
  exact bind_congr fun parametersBegin => runFs_runCommand (s := { s with console := _ })

/-- **The shell, byte by byte.** -/
theorem runFs_cliRunShell (key : KeyPress) : (cliRunShell key s.console).runFs s.fs =
    parts <$> s.cliRunShell key := by
  rw [cliRunShell, System.cliRunShell]
  by_cases hzero : key.scanCode = 0
  · rw [if_pos hzero, if_pos hzero]
    rfl
  rw [if_neg hzero, if_neg hzero]
  dsimp only
  generalize (if key.scanCode = keyShiftReleased then _ else _) = console
  by_cases hcontrol : key.scanCode < 0x20
  · rw [if_pos hcontrol, if_pos hcontrol]
    by_cases hbackspace : key.scanCode = keyBackspace
    · rw [if_pos hbackspace, if_pos hbackspace, runFs_except, map_bind]
      rfl
    rw [if_neg hbackspace, if_neg hbackspace]
    by_cases hreturn : key.scanCode = keyReturn
    · rw [if_pos hreturn, if_pos hreturn]
      exact runFs_keyFunctionReturn (s := { s with console })
    · rw [if_neg hreturn, if_neg hreturn]
      rfl
  · rw [if_neg hcontrol, if_neg hcontrol, runFs_except, map_bind]
    rfl

theorem runFs_addEntry {fs : FileSystem} (addition : Addition) :
    (addEntry part handle addition).runFs fs =
      (fun fs => ((), fs)) <$> Fs.addEntry part handle addition fs := by
  obtain ⟨new, junk⟩ := addition
  cases new with
  | file filename size =>
    simp only [addEntry, Fs.addEntry, NewEntry.create, runFs_bind, runFs_lift, runFs_pure,
      Bytewise.onArray_fsFileCreate, Bytewise.runFs_fsDirectoryAddFile, bind_map_left, map_bind]
    rfl
  | directory filename =>
    simp only [addEntry, Fs.addEntry, NewEntry.create, runFs_bind, runFs_lift, runFs_pure,
      Bytewise.onArray_fsDirectoryCreate, Bytewise.runFs_fsDirectoryAddFile, bind_map_left, map_bind]
    rfl

theorem runFs_kInit : (kInit junk s.console).runFs s.fs = parts <$> Command.kInit junk s := by
  simp only [kInit, Command.kInit, runFs_bind, runFs_except, runFs_lift, runFs_addEntry, runFs_pure,
    Bytewise.onArray_fsDeviceOpen, Bytewise.onArray_fsDeviceFormat,
    Bytewise.onArray_fsDeviceGetRootDirectory, ok_bind, bind_map_left, map_bind]
  rfl

/-- **The boot, byte by byte.** -/
theorem runFs_boot : (boot junk s.console).runFs s.fs = (fun s =>
    (s.console.registerCommandLS.registerCommandCD.printPrompt, s.fs)) <$> Command.kInit junk s := by
  rw [boot, runFs_bind, runFs_kInit, bind_map_left]
  rfl

end RunFs

end Bytewise

/-! ## The board -/

open RetroboardRev2 (Bus busDevice powerOn writeBack busFlushCache)

/-- The variables of the console, the keyboard and the open table, and the bus. -/
structure Retroboard where
  console : Console CommandFunction
  keyboard : Keyboard
  table : FileTable
  bus : Bus

namespace Retroboard

/-- `main` up to the first prompt, where the registers of the keyboard hold `code` in `cliInit`. The
memory is counted with raw accesses, which do not touch the cache: it is still as at power-on. -/
def start (code : ScanCode) (junk : ℕ → ℕ → UInt8) (memory : UInt32 → UInt8) :
    Except Fault Retroboard := do
  let counted ← allocateExternalMemory ByteDevice.byteArray Board.retroboardRev2.maxMemorySize
    ⟨0, memory, Console.afterCliInit⟩
  let (console, table, bus) ←
    (Bytewise.boot junk counted.console).runOn busDevice (closedTable, powerOn counted.memory)
  return ⟨console, ⟨code, kbDecodeScanCode .retroboardRev2 code⟩, table, bus⟩

/-- A pass of the loop of `main`. -/
def cliRunShell (sample : Sample) (s : Retroboard) : Except Fault Retroboard := do
  let (scanCode, keyboard) := consoleGetLastChar .retroboardRev2 sample.scanCode s.keyboard
  let (console, table, bus) ←
    (Bytewise.cliRunShell ⟨scanCode, sample.junk⟩ s.console).runOn busDevice (s.table, s.bus)
  return ⟨console, keyboard, table, bus⟩

/-- The terminal with the memory that a flush of the cache leaves. -/
def terminal (s : Retroboard) : Terminal :=
  ⟨⟨s.console, s.table.over (writeBack s.bus)⟩, s.keyboard⟩

section Board

variable {s : Retroboard} {table : FileTable} {bus : Bus}

/-- The memory of the terminal is that behind the bus, once the cache is flushed. -/
theorem terminal_memory (s : Retroboard) (address : UInt32) :
    s.terminal.system.fs.memory = (busFlushCache s.bus address).memory := rfl

/-- **A program on the bus** does what the system does on the contents. -/
theorem runOn_cases {p : FsProgram (Console CommandFunction)} {x : Except Fault System}
    (hbus : bus.Current) (hp : p.runFs (table.over (writeBack bus)) = Bytewise.parts <$> x) :
    (∃ e, p.runOn busDevice (table, bus) = .error e ∧ x = .error e) ∨
    ∃ console table' bus', p.runOn busDevice (table, bus) = .ok (console, table', bus') ∧
      bus'.Current ∧ x = .ok ⟨console, table'.over (writeBack bus')⟩ := by
  have hcontents : bus.Current ∧ writeBack bus = (table.over (writeBack bus)).memory := ⟨hbus, rfl⟩
  obtain ⟨hok, herror⟩ := runOn_of_simulates RetroboardRev2.busDevice_simulates_writeBack p hcontents
  cases x with
  | error e => exact .inl ⟨e, herror e hp, rfl⟩
  | ok t =>
    obtain ⟨bus', hrun, hcurrent, hmemory⟩ := hok t.console t.fs hp
    exact .inr ⟨t.console, t.fs.table, bus', hrun, hcurrent, by rw [hmemory]; rfl⟩

/-- **At the first prompt** the board is as the terminal. -/
theorem start_cases (code : ScanCode) (junk : ℕ → ℕ → UInt8) (memory : UInt32 → UInt8) :
    (∃ e, start code junk memory = .error e ∧ Terminal.start code junk memory = .error e) ∨
    ∃ s, start code junk memory = .ok s ∧ s.bus.Current ∧
      Terminal.start code junk memory = .ok s.terminal := by
  rw [start, Terminal.start, Command.start]
  cases hcount : allocateExternalMemory ByteDevice.byteArray Board.retroboardRev2.maxMemorySize
    (⟨0, memory, Console.afterCliInit⟩ : Kalloc Memory CommandFunction) with
  | error e => exact .inl ⟨e, rfl, rfl⟩
  | ok counted =>
    have hboot : (Bytewise.boot junk counted.console).runFs
        (closedTable.over (writeBack (powerOn counted.memory))) =
          Bytewise.parts <$> (Command.kInit junk
            ⟨counted.console, closedFileSystem counted.memory⟩ >>= fun s => pure { s with
              console := s.console.registerCommandLS.registerCommandCD.printPrompt }) := by
      rw [RetroboardRev2.writeBack_powerOn, map_bind]
      exact Bytewise.runFs_boot (s := ⟨counted.console, closedFileSystem counted.memory⟩)
    simp only [ok_bind]
    rcases runOn_cases (RetroboardRev2.current_powerOn counted.memory) hboot with
      ⟨e, hrun, hsystem⟩ | ⟨console, table, bus, hrun, hcurrent, hsystem⟩
    · rw [hrun, hsystem]
      exact .inl ⟨e, rfl, rfl⟩
    · rw [hrun, hsystem]
      exact .inr ⟨_, rfl, hcurrent, rfl⟩

/-- **A pass of the loop** does what it does on the terminal. -/
theorem cliRunShell_cases (hs : s.bus.Current) (sample : Sample) :
    (∃ e, cliRunShell sample s = .error e ∧ Terminal.cliRunShell sample s.terminal = .error e) ∨
    ∃ t, cliRunShell sample s = .ok t ∧ t.bus.Current ∧
      Terminal.cliRunShell sample s.terminal = .ok t.terminal := by
  have hkeyboard : s.terminal.keyboard = s.keyboard := rfl
  rw [cliRunShell, Terminal.cliRunShell, hkeyboard]
  generalize consoleGetLastChar .retroboardRev2 sample.scanCode s.keyboard = key
  obtain ⟨scanCode, keyboard⟩ := key
  dsimp only
  rcases runOn_cases hs (Bytewise.runFs_cliRunShell (s := s.terminal.system)
    ⟨scanCode, sample.junk⟩) with
    ⟨e, hrun, hsystem⟩ | ⟨console, table, bus, hrun, hcurrent, hsystem⟩
  · rw [hsystem]
    exact .inl ⟨e, congrArg (· >>= _) hrun, rfl⟩
  · rw [hsystem]
    exact .inr ⟨⟨console, keyboard, table, bus⟩, congrArg (· >>= _) hrun, hcurrent, rfl⟩

/-- **A run of the loop** does what it does on the terminal. -/
theorem exec_cliRunShell (hs : s.bus.Current) (samples : List Sample) :
    (Run.exec cliRunShell samples s).map terminal =
      Run.exec Terminal.cliRunShell samples s.terminal := by
  induction samples generalizing s with
  | nil => rfl
  | cons sample samples ih =>
    rcases cliRunShell_cases hs sample with ⟨e, hboard, hterminal⟩ | ⟨t, hboard, ht, hterminal⟩
    · rw [Run.exec, Run.exec, hboard, hterminal]
      rfl
    · rw [Run.exec_cons_of_ok hboard, Run.exec_cons_of_ok hterminal]
      exact ih ht

/-- **The cache does not show.** From power-on, with anything in the memory, whatever the keyboard
sends and the stack holds, the board and the terminal without a cache fail alike, or have shown the
same and hold the same, once the cache is flushed. -/
theorem refines_terminal (code : ScanCode) (junk : ℕ → ℕ → UInt8) (memory : UInt32 → UInt8)
    (samples : List Sample) :
    (start code junk memory >>= Run.exec cliRunShell samples).map terminal =
      Terminal.start code junk memory >>= Run.exec Terminal.cliRunShell samples := by
  rcases start_cases code junk memory with ⟨e, hboard, hterminal⟩ | ⟨s, hboard, hs, hterminal⟩
  · rw [hboard, hterminal]
    rfl
  · rw [hboard, hterminal]
    exact exec_cliRunShell hs samples

end Board

end Retroboard

end MicroKernel.Command
