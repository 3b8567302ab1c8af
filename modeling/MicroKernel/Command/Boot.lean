import MicroKernel.Command.Shell
import MicroKernel.Kalloc

/-!
# From power-on to the shell

`kInit` of `kernel/kernel.c` and the part of `main` from `cliInit` to the first prompt, on a board with
all the memory it can address. The memory is counted, which shows the count and overwrites what was
there; then the device is formatted, and two directories and two files are created in its root
directory; so the shell answers as one whose root directory has these entries.

## Main definitions

* `kInit`, `start`: the system up to the first prompt
* `initialEntries`: the entries that are created
* `firstLines`: the count of the memory, the first line of the kernel, and the first prompt
* `dialogueOf`: the dialogue of the keys behind the first lines

## Main results

* `serving_start`: what the system has shown at the first prompt
* `shows_dialogueOf`: what it has shown behind any keys
-/

namespace MicroKernel.Command

open Fs

/-- `kInit`, where the stack holds `junk i` when the entry `i` is added. -/
def kInit (junk : ℕ → ℕ → UInt8) (s : System) : Except Fault System := do
  let console ← s.console.kPrintVersion
  -- Set a default prompt
  let prompt := chars ['x', '>'] ++ [0]
  let console := console.consoleSetPrompt prompt (UInt8.ofNat prompt.length)
  -- Format the device
  let part := fsDeviceOpen 0x00000000 s.fs.memory
  let (part, mem) ← fsDeviceFormat part 0 32768 32 s.fs.memory
  let rootDirectory := fsDeviceGetRootDirectory part mem
  let fs := { s.fs with memory := mem }
  let fs ← addEntry part rootDirectory ⟨.directory (chars ['b', 'i', 'n']), junk 0⟩ fs
  let fs ← addEntry part rootDirectory ⟨.directory (chars ['s', 'y', 's']), junk 1⟩ fs
  let fs ← addEntry part rootDirectory ⟨.file (chars ['f', 'i', 'l', 'e']) 128, junk 2⟩ fs
  let fs ← addEntry part rootDirectory ⟨.file (chars ['t', 'e', 's', 't']) 40, junk 3⟩ fs
  return ⟨console, fs⟩

/-- `main` from `cliInit` to `printPrompt` on the Retroboard, with a memory that holds anything and no
open file. -/
def start (junk : ℕ → ℕ → UInt8) (mem : Memory) : Except Fault System := do
  -- Check amount of external memory
  let counted ← allocateExternalMemory ByteDevice.byteArray Board.retroboardRev2.maxMemorySize
    ⟨0, mem, Console.afterCliInit⟩
  let s ← kInit junk ⟨counted.console, closedFileSystem counted.memory⟩
  return { s with console := s.console.registerCommandLS.registerCommandCD.printPrompt }

/-- The entries that `kInit` creates. -/
def initialEntries : List NewEntry :=
  [.directory (chars ['b', 'i', 'n']), .directory (chars ['s', 'y', 's']),
    .file (chars ['f', 'i', 'l', 'e']) 128, .file (chars ['t', 'e', 's', 't']) 40]

/-- The count of the memory, the first line of the kernel, and the first prompt. -/
def firstLines : List UInt8 :=
  countedText Board.retroboardRev2.maxMemorySize ++
    chars ['k', 'e', 'r', 'n', 'e', 'l', ' ', 'v', '0', '.', '1', '.', '0'] ++ chars ['x', '>']

/-- The dialogue of the keys that are pressed from the first prompt on. -/
def dialogueOf (scanCodes : List UInt8) : Dialogue :=
  scanCodes.foldl (fun d scanCode => d.key (initialEntries.map NewEntry.entry) scanCode)
    ⟨⟨[], 0⟩, firstLines⟩

section Start

variable {junk : ℕ → ℕ → UInt8} {mem : Memory}

/-- The partition that `kInit` formats. -/
def kInitPartition : Partition := ⟨0, 32768, 1024, 32⟩

theorem small_kInitPartition : kInitPartition.Small := ⟨⟨by decide, by decide⟩, by decide, by decide⟩

theorem formatted_fsDeviceOpen (mem : Memory) :
    formatted (fsDeviceOpen 0x00000000 mem) 0 32768 32 = kInitPartition := by
  have hbase : (fsDeviceOpen 0x00000000 mem).blockAddress = 0 := by
    rw [fsDeviceOpen]
    dsimp only
    split <;> rfl
  rw [formatted, hbase]
  rfl

/-- **The kernel starts** on any memory, with its entries in the root directory of its device. -/
theorem kInit_ok (junk : ℕ → ℕ → UInt8) (mem : Memory) (s : Console CommandFunction) :
    ∃ console fs, s.kPrintVersion = .ok console ∧
      kInit junk ⟨s, closedFileSystem mem⟩ =
        .ok ⟨console.consoleSetPrompt (chars ['x', '>'] ++ [0]) 3, fs⟩ ∧
      Serves (initialEntries.map NewEntry.entry) fs ∧
      fsDeviceOpen 0x00000000 fs.memory = kInitPartition := by
  obtain ⟨console, hconsole, -⟩ := prints_kPrintVersion s
  obtain ⟨mem', hformat, hc, hb⟩ := catalog_of_format (fsDeviceOpen 0x00000000 mem) 0 32768 32 mem
    (formatted_fsDeviceOpen mem) small_kInitPartition (by decide)
  have hclosed : ∃ i, (FileSystem.mk mem' (fun _ => 0) fun _ => 0).fileList i = 0 := ⟨0, rfl⟩
  have hc : Catalog kInitPartition kInitPartition.sectorSize
    (FileSystem.mk mem' (fun _ => 0) fun _ => 0).memory _ _ _ := hc
  obtain ⟨fs, files, blocks, hrun, hlist, hcatalog⟩ := hc.of_additions small_kInitPartition hclosed hb
    (by decide) [⟨.directory (chars ['b', 'i', 'n']), junk 0⟩,
      ⟨.directory (chars ['s', 'y', 's']), junk 1⟩, ⟨.file (chars ['f', 'i', 'l', 'e']) 128, junk 2⟩,
      ⟨.file (chars ['t', 'e', 's', 't']) 40, junk 3⟩]
      (show 3 + sectorsFor kInitPartition 0 initialEntries ≤ 1024 by decide)
  refine ⟨console, fs, hconsole, ?_, ⟨⟨_, _, files, blocks, small_kInitPartition, rfl, hcatalog⟩,
    hlist ▸ hclosed⟩, hcatalog.opened⟩
  -- the entries are added one after the other
  obtain ⟨fs₁, h₁, hrun⟩ := bind_eq_ok hrun
  obtain ⟨fs₂, h₂, hrun⟩ := bind_eq_ok hrun
  obtain ⟨fs₃, h₃, hrun⟩ := bind_eq_ok hrun
  obtain ⟨fs₄, h₄, hrun⟩ := bind_eq_ok hrun
  obtain rfl : fs₄ = fs := Except.ok.inj hrun
  rw [kInit]
  simp only [hconsole, closedFileSystem, hformat, hc.root_eq, h₁, h₂, h₃, h₄, ok_bind]
  rfl

/-- The memory is counted, and the count is shown. -/
theorem allocateExternalMemory_afterCliInit (mem : Memory) :
    ∃ counted : Kalloc Memory CommandFunction,
      allocateExternalMemory ByteDevice.byteArray Board.retroboardRev2.maxMemorySize
        ⟨0, mem, Console.afterCliInit⟩ = .ok counted ∧
      Prints (countedText Board.retroboardRev2.maxMemorySize) Console.afterCliInit counted.console := by
  obtain ⟨counted, hcount, -, hshown⟩ := allocateExternalMemory_eq_ok (UInt32.le_refl _)
    (hasMemory_byteArray _) (⟨0, mem, Console.afterCliInit⟩ : Kalloc Memory CommandFunction)
  exact ⟨counted, hcount, hshown⟩

/-- At the first prompt the device is the one that was formatted. -/
theorem opened_start {s : System} (h : start junk mem = .ok s) :
    fsDeviceOpen 0x00000000 s.fs.memory = kInitPartition := by
  obtain ⟨counted, hcount, -⟩ := allocateExternalMemory_afterCliInit mem
  obtain ⟨console, fs, -, hkInit, -, hopen⟩ := kInit_ok junk counted.memory counted.console
  rw [start, hcount, ok_bind, hkInit, ok_bind] at h
  obtain rfl := Except.ok.inj h
  exact hopen

/-- A prompt for an empty line. -/
theorem serving_printPrompt {entries : List CatalogEntry} {shown : List UInt8} {fs : FileSystem}
    {u : Console CommandFunction} (hregistry : u.commandRegistry = registerAll commands)
    (hprompt : u.consolePrompt = chars ['x', '>'] ++ [0]) (hlength : u.consolePromptLength = 3)
    (hstring : ∀ i, u.consoleString i = space) (hempty : u.consoleStringLength = 0)
    (hrow : u.consoleLine.toNat < 8) (hprinted : u.printed = shown) (hserves : Serves entries fs) :
    Serving entries ⟨⟨[], u.shiftState⟩, shown ++ chars ['x', '>']⟩ ⟨u.printPrompt, fs⟩ := by
  have hshown := prints_printPrompt (s := u) (by rw [hlength, hprompt]; decide)
  rw [hlength, hprompt] at hshown
  obtain ⟨display, hframe⟩ := printPrompt_frame (s := u)
  have hline : u.printPrompt.consoleLine = u.consoleLine := by rw [hframe]
  refine ⟨⟨u.consoleLine.toNat, u.printPrompt.scrolls, ⟨⟨Nat.zero_le _, ?_, ?_, ?_, ?_, ?_⟩, ?_,
    .inl rfl⟩⟩, ?_, ?_, ?_, ?_, hserves⟩
  · rw [hframe]
    exact congrArg UInt8.toNat hempty
  · rw [hframe]
    exact hstring
  · rw [hframe]
  · rw [hframe]
    show (u.consolePromptLength - 1).toNat = 2
    rw [hlength]
    rfl
  · show u.printPrompt.consoleLine.toNat + u.printPrompt.scrolls =
      u.consoleLine.toNat + u.printPrompt.scrolls + 2 / 21
    rw [hline]
    rfl
  · show u.printPrompt.consoleLine.toNat < 8
    rwa [hline]
  · exact hshown.echoes.registry.trans hregistry
  · show u.printPrompt.consolePrompt.take 2 = _
    rw [hshown.echoes.prompt, hprompt]
    rfl
  · exact hshown.echoes.promptLength.trans hlength
  · exact hshown.printed.trans (congrArg (· ++ _) hprinted)

/-- **At the first prompt** the kernel has shown the count of the memory and its version. -/
theorem serving_start (junk : ℕ → ℕ → UInt8) (mem : Memory) :
    ∃ s, start junk mem = .ok s ∧
      Serving (initialEntries.map NewEntry.entry) ⟨⟨[], 0⟩, firstLines⟩ s := by
  obtain ⟨counted, hcount, hcounted⟩ := allocateExternalMemory_afterCliInit mem
  obtain ⟨console, fs, hconsole, hkInit, hserves, -⟩ := kInit_ok junk counted.memory counted.console
  obtain ⟨c, hc, hshown⟩ := prints_kPrintVersion counted.console
  obtain rfl : c = console := Except.ok.inj (hc.symm.trans hconsole)
  rw [start, hcount, ok_bind, hkInit, ok_bind]
  -- the count and the version change the display and the cursor only
  obtain ⟨row, position, display, hcountedFrame⟩ := hcounted.frame
  obtain ⟨row', position', display', hframe⟩ := hshown.frame
  rw [hcountedFrame] at hframe
  obtain ⟨u, hu⟩ : ∃ u, (c.consoleSetPrompt (chars ['x', '>'] ++ [0]) 3).registerCommandLS.registerCommandCD
    = u := ⟨_, rfl⟩
  have hregistry : u.commandRegistry = registerAll commands := by
    rw [← hu, hframe]
    rfl
  have hprompt : u.consolePrompt = chars ['x', '>'] ++ [0] := by
    rw [← hu, hframe]
    rfl
  have hlength : u.consolePromptLength = 3 := by
    rw [← hu]
    rfl
  have hstring : ∀ i, u.consoleString i = space := by
    rw [← hu, hframe]
    exact fun _ => rfl
  have hempty : u.consoleStringLength = 0 ∧ u.shiftState = 0 := by
    rw [← hu, hframe]
    exact ⟨rfl, rfl⟩
  have hrow : u.consoleLine.toNat < 8 := by
    rw [← hu]
    exact hshown.line_lt (hcounted.line_lt (by decide))
  have hprinted : u.printed = countedText Board.retroboardRev2.maxMemorySize ++
      chars ['k', 'e', 'r', 'n', 'e', 'l', ' ', 'v', '0', '.', '1', '.', '0'] := by
    rw [← hu]
    exact hshown.printed.trans (congrArg (· ++ _) hcounted.printed)
  have hserving := serving_printPrompt hregistry hprompt hlength hstring hempty.1 hrow hprinted hserves
  rw [hempty.2] at hserving
  simp only [hu]
  exact ⟨_, rfl, hserving⟩

/-- `serving_of_keys` for a listing from the first prompt on. -/
theorem serving_of_keys_ls : ∃ s t, start (fun _ _ => 0) (fun _ => 0) = .ok s ∧
    Run.exec System.cliRunShell ((chars ['l', 's'] ++ [keyReturn]).map fun c => ⟨c, fun _ _ => 0⟩) s =
      .ok t ∧ s.fs.Restored t.fs ∧
    Serving (initialEntries.map NewEntry.entry) (dialogueOf (chars ['l', 's'] ++ [keyReturn])) t := by
  obtain ⟨s, hs, hserving⟩ := serving_start (fun _ _ => 0) fun _ => 0
  obtain ⟨hexec, hshows⟩ := serving_of_keys hserving
    ((chars ['l', 's'] ++ [keyReturn]).map fun c => ⟨c, fun _ _ => 0⟩)
  obtain ⟨t, ht⟩ := hexec.mpr (lengthAfter_lt_of_length_le (by decide))
  obtain ⟨hrestored, hserving'⟩ := hshows t ht
  exact ⟨s, t, hs, ht, hrestored, hserving'⟩

/-- What keys show is put behind what was shown. -/
theorem shown_foldl_key (entries : List CatalogEntry) (scanCodes shown more : List UInt8)
    (typed : Typed) :
    (scanCodes.foldl (fun d scanCode => d.key entries scanCode) ⟨typed, shown ++ more⟩ : Dialogue).shown =
      shown ++ (scanCodes.foldl (fun d scanCode => d.key entries scanCode)
        (⟨typed, more⟩ : Dialogue)).shown := by
  induction scanCodes generalizing typed more with
  | nil => rfl
  | cons scanCode scanCodes ih =>
    rw [List.foldl_cons, List.foldl_cons, Dialogue.key, Dialogue.key]
    split
    · simp only [List.append_assoc]
      exact ih ..
    · simp only [List.append_assoc]
      exact ih ..

/-- **Behind any keys** the display shows the count of the memory, the first line of the kernel and the
dialogue of the keys with the entries that `kInit` created, whatever the memory held at power-on; the
shell fails if and only if return is pressed on a full line. -/
theorem shows_dialogueOf (junk : ℕ → ℕ → UInt8) (mem : Memory) (keys : List KeyPress) :
    ∃ s, start junk mem = .ok s ∧
      ((∃ t, Run.exec System.cliRunShell keys s = .ok t) ↔
        ∀ before after, keys.map KeyPress.scanCode = before ++ keyReturn :: after →
          lengthAfter before < consoleStringLength) ∧
      ∀ t, Run.exec System.cliRunShell keys s = .ok t →
        t.console.printed = (dialogueOf (keys.map KeyPress.scanCode)).shown ∧
        (∃ row scrolls, Editing 3 row scrolls (dialogueOf (keys.map KeyPress.scanCode)).typed
          t.console) ∧ t.fs.memory = s.fs.memory := by
  obtain ⟨s, hs, hserving⟩ := serving_start junk mem
  refine ⟨s, hs, ⟨fun ⟨t, ht⟩ => hserving.lt_of_exec ht, fun hkeys => ?_⟩, fun t ht => ?_⟩
  · obtain ⟨t, ht, -⟩ := hserving.exec keys hkeys
    exact ⟨t, ht⟩
  · obtain ⟨hrestored, hserving'⟩ := hserving.of_exec ht
    exact ⟨hserving'.printed, hserving'.editing, hrestored.memory_eq⟩

/-- `shows_dialogueOf` for a name that is not found and a listing. -/
theorem shows_dialogueOf_cd_ls : ∃ s t, start (fun _ _ => 0) (fun _ => 0) = .ok s ∧
    Run.exec System.cliRunShell
      ((chars ['c', 'd', ' ', 'b'] ++ [keyReturn] ++ chars ['l', 's'] ++ [keyReturn]).map fun c =>
        ⟨c, fun _ _ => 0⟩) s = .ok t ∧
    t.console.printed = countedText Board.retroboardRev2.maxMemorySize ++
      (chars ['k', 'e', 'r', 'n', 'e', 'l', ' ', 'v', '0', '.', '1', '.', '0', 'x', '>', 'c', 'd',
        ' ', 'b', 'D', 'i', 'r', 'e', 'c', 't', 'o', 'r', 'y', ' ', 'n', 'o', 't', ' ', 'f', 'o',
        'u', 'n', 'd', 'x', '>', 'l', 's'] ++
      chars [' ', 'r', 'w', ' ', 'b', 'i', 'n', ' ', ' ', ' ', ' ', ' ', ' ', ' ', ' ', '<', 'd',
        'i', 'r', '>'] ++
      chars [' ', 'r', 'w', ' ', 's', 'y', 's', ' ', ' ', ' ', ' ', ' ', ' ', ' ', ' ', '<', 'd',
        'i', 'r', '>'] ++
      chars [' ', 'r', 'w', ' ', 'f', 'i', 'l', 'e', ' ', ' ', ' ', ' ', ' ', ' ', ' ', '1', '2',
        '8'] ++
      chars [' ', 'r', 'w', ' ', 't', 'e', 's', 't', ' ', ' ', ' ', ' ', ' ', ' ', ' ', '4', '0'] ++
      chars ['x', '>']) := by
  obtain ⟨s, hs, hexec, hshows⟩ := shows_dialogueOf (fun _ _ => 0) (fun _ => 0)
    ((chars ['c', 'd', ' ', 'b'] ++ [keyReturn] ++ chars ['l', 's'] ++ [keyReturn]).map fun c =>
      ⟨c, fun _ _ => 0⟩)
  obtain ⟨t, ht⟩ := hexec.mpr (lengthAfter_lt_of_length_le (by decide))
  refine ⟨s, t, hs, ht, (hshows t ht).1.trans ?_⟩
  -- the count is not evaluated
  rw [dialogueOf, firstLines, List.append_assoc, shown_foldl_key]
  refine congrArg (countedText Board.retroboardRev2.maxMemorySize ++ ·) ?_
  decide

end Start

end MicroKernel.Command
