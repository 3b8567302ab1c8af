import MicroKernel.Command.Retroboard

/-!
# The board with other programs

The shell shares the cached bus with other programs, such as those of the emulator, which read and
write the memory behind the device that `kInit` formats: each pass of the shell and each of their
accesses may move the window of the cache and leave modified bytes in it. They do not meet: the display
shows the dialogue of the keys as if the shell were alone, and the other programs have a memory of their
own.

## Main definitions

* `BoardEvent`, `SharedBoard.step`: a pass of the loop, or an access of another program
* `SharedBoard.Holds`: a board that has shown a dialogue, and what its memory holds

## Main results

* `Catalog.of_agreeOff_rest`: bytes behind the sectors may change
* `SharedBoard.exec_step`: any order of passes and accesses
* `SharedBoard.shares_board`: what is shown and read from power-on
-/

namespace MicroKernel.Fs

open Store

section Rest

variable {part : Partition} {dir : DirectoryHandle} {mem mem' : Memory} {live files : Files}
  {blocks : List Block} {entries : List CatalogEntry}

/-- Bytes behind the sectors may change. -/
theorem Owned.of_agreeOff_rest (hp : part.Formatted) (hpos : 0 < part.sectorCount.toNat)
    (ho : Owned part mem live) (ha : AgreeOff part.blockAddress part.sectorsᶜ mem mem') :
    Owned part mem' live := by
  have hmem : ∀ o ∈ part.sectors, o ∉ part.sectorsᶜ := fun o h hc => hc h
  have hmarker : ∀ i < part.sectorCount.toNat, sectorMarker part mem' i = sectorMarker part mem i := by
    intro i hi
    have hle := hp.mul_le hi.le
    have hss := hp.le_sectorSize
    have := part.blockSize.toNat_lt
    exact ha _ (by omega) (hmem _ (Nat.mul_lt_mul_of_pos_right hi (by omega)))
  refine ⟨hmarker 0 hpos ▸ ho.device, ho.aligned, fun h size hl => ?_, ho.disjoint,
    fun i hi hlt hnone => (hmarker i hlt).trans (ho.free i hi hlt hnone)⟩
  have hsub := ho.runBytes_subset_sectors hl
  have hle := ho.run_le_pow hp hl
  refine (ho.marked h size hl).of_agreeOff hp hle ha (fun k hk => hmem _ (hsub ?_))
    fun o hof => hmem o (hsub (sizeField_subset hp hof))
  exact ⟨by omega, by have := (mem_runBytes hp hle hk).2; omega⟩

/-- **Bytes behind the sectors** may change: the catalog stays. -/
theorem Catalog.of_agreeOff_rest (hp : part.Small) (hpos : 0 < part.sectorCount.toNat)
    (hc : Catalog part dir mem files blocks entries)
    (ha : AgreeOff part.blockAddress part.sectorsᶜ mem mem') :
    Catalog part dir mem' files blocks entries := by
  have hdevice : SameDevice part mem mem' := by
    refine fun o ho => ha o (by omega) fun hn => hn ?_
    show o < part.sectorCount.toNat * part.sectorSize.toNat
    rw [hp.sectorSize_eq]
    omega
  have hcontents : Contents part dir mem' files blocks := by
    refine ⟨hc.contents.owned.of_agreeOff_rest hp.toFormatted hpos ha,
      hc.contents.directory.of_agreeOff hp ha (Set.disjoint_left.mpr ?_)
        fun b hb => withBlocks_of_mem hb, hc.contents.head_eq, hc.contents.apart,
      hc.contents.entries, hc.contents.nodup⟩
    rintro o ⟨b, hb, hmem⟩ hn
    exact hn (hc.contents.owned.runBytes_subset_sectors (withBlocks_of_mem hb) hmem)
  have hkeeps : Keeps part files mem mem' := by
    refine ⟨?_, fun h size hl o ho => ?_⟩
    · rw [sectorMarker, sectorMarker, Nat.zero_mul]
      exact hdevice 0 (by decide)
    · have hlive := (hc.contents.file_eq hl).2
      have hle := hc.contents.owned.run_le_pow hp.toFormatted hlive
      exact ha o (ho.2.trans_le hle) fun hn =>
        hn (hc.contents.owned.runBytes_subset_sectors hlive ho)
  refine ⟨hcontents, hc.filled, ?_, hdevice.opened hc.opened, ?_⟩
  · rw [← hc.entries_eq]
    refine List.map_congr_left fun f hf => ?_
    obtain ⟨size, hl⟩ := Option.ne_none_iff_exists'.mp (hc.contents.entries f hf)
    exact hkeeps.catalogEntry_eq hp.toFormatted hl
  · rw [← hc.root_eq]
    exact hdevice.getWord rfl (by decide)

end Rest

end MicroKernel.Fs

namespace MicroKernel.Command

open Fs
open Store (AgreeOff)
open RetroboardRev2 (busReadMemory busWriteMemory busFlushCache writeBack)

/-! ## Passes and accesses -/

/-- A pass of the loop of `main`, or an access of another program. -/
inductive BoardEvent where
  | sample (sample : Sample)
  | access (x : Access UInt32 UInt8)

/-- The scan codes of the passes. -/
def scanCodes : List BoardEvent → List ScanCode
  | [] => []
  | .sample sample :: events => sample.scanCode :: scanCodes events
  | .access _ :: events => scanCodes events

/-- The accesses of the other programs. -/
def accesses : List BoardEvent → List (Access UInt32 UInt8)
  | [] => []
  | .sample _ :: events => accesses events
  | .access x :: events => x :: accesses events

/-- The board, and the bytes that the other programs have read. -/
structure SharedBoard where
  board : Retroboard
  bytes : List UInt8

namespace SharedBoard

/-- What happens next on the board. -/
def step : BoardEvent → SharedBoard → Except Fault SharedBoard
  | .sample sample, s => do
    let board ← s.board.cliRunShell sample
    return { s with board }
  | .access (.read address), s =>
    let (byte, bus) := busReadMemory s.board.bus address
    .ok ⟨{ s.board with bus }, s.bytes ++ [byte]⟩
  | .access (.write address byte), s =>
    .ok { s with board := { s.board with bus := busWriteMemory s.board.bus address byte } }

/-- The board has shown the dialogue, and its memory is `m`, with the device that `kInit` formats. -/
structure Holds (d : Dialogue) (m : Memory) (s : Retroboard) : Prop where
  current : s.bus.Current
  contents : writeBack s.bus = m
  serving : Serving (initialEntries.map NewEntry.entry) d ⟨s.console, s.table.over m⟩
  opened : fsDeviceOpen 0x00000000 m = kInitPartition

end SharedBoard

/-- No key leaves the dialogue. -/
theorem Dialogue.key_zero (entries : List CatalogEntry) (d : Dialogue) : d.key entries 0 = d := by
  obtain ⟨typed, shown⟩ := d
  rw [Dialogue.key, if_neg (by decide), echo, if_neg (by decide), if_pos (by decide),
    List.append_nil, Typed.key, if_neg (by decide), if_neg (by decide), if_neg (by decide),
    if_pos (by decide)]

/-! ## What the board holds -/

section Board

variable {d : Dialogue} {m : Memory} {s : Retroboard} {address : UInt32}

/-- A byte behind the device may change. -/
theorem Serves.write_rest {entries : List CatalogEntry} {fs : FileSystem} (h : Serves entries fs)
    (hopen : fsDeviceOpen 0x00000000 fs.memory = kInitPartition) (hle : 32768 ≤ address.toNat)
    (byte : UInt8) :
    Serves entries { fs with memory := Function.update fs.memory address byte } ∧
      fsDeviceOpen 0x00000000 (Function.update fs.memory address byte) = kInitPartition := by
  obtain ⟨⟨part, dir, files, blocks, hp, hbase, hc⟩, hslot⟩ := h
  have hpart : part = kInitPartition := by
    have hopened := hc.opened
    rw [hbase] at hopened
    exact hopened.symm.trans hopen
  subst hpart
  have ha : AgreeOff kInitPartition.blockAddress kInitPartition.sectorsᶜ fs.memory
      (Function.update fs.memory address byte) := by
    have h : AgreeOff kInitPartition.blockAddress kInitPartition.sectorsᶜ fs.memory
        (Function.update fs.memory (kInitPartition.blockAddress + address) byte) :=
      Store.agreeOff_update byte fun hlt : address.toNat < 1024 * 32 => by omega
    have hadd : kInitPartition.blockAddress + address = address := UInt32.zero_add address
    rwa [hadd] at h
  have hc' := hc.of_agreeOff_rest hp (by decide) ha
  exact ⟨⟨⟨_, dir, files, blocks, hp, rfl, hc'⟩, hslot⟩, hc'.opened⟩

namespace SharedBoard

/-- A read returns what the memory holds. -/
theorem Holds.read (h : Holds d m s) (address : UInt32) :
    (busReadMemory s.bus address).1 = m address ∧
      Holds d m { s with bus := (busReadMemory s.bus address).2 } := by
  have hd := RetroboardRev2.busDevice_simulates_writeBack
  obtain ⟨hcurrent, hcontents⟩ := hd.read (a := address) ⟨h.current, h.contents⟩ trivial
  exact ⟨hd.read_eq (a := address) ⟨h.current, h.contents⟩ trivial,
    hcurrent, hcontents, h.serving, h.opened⟩

/-- **A write behind the device** leaves the dialogue. -/
theorem Holds.write (h : Holds d m s) (hle : 32768 ≤ address.toNat) (byte : UInt8) :
    Holds d (Function.update m address byte)
      { s with bus := busWriteMemory s.bus address byte } := by
  obtain ⟨hcurrent, hcontents⟩ := RetroboardRev2.busDevice_simulates_writeBack.write (a := address)
    byte ⟨h.current, h.contents⟩ trivial
  obtain ⟨hserves, hopen⟩ := h.serving.serves.write_rest h.opened hle byte
  exact ⟨hcurrent, hcontents, { h.serving with serves := hserves }, hopen⟩

/-- **A pass of the loop** goes on with the dialogue, but for return on a full line. -/
theorem Holds.sample (h : Holds d m s) (sample : Sample) {key : UInt8} {keyboard : Keyboard}
    (hkey : consoleGetLastChar .retroboardRev2 sample.scanCode s.keyboard = (key, keyboard)) :
    ((key = keyReturn → d.typed.line.length < consoleStringLength) →
      ∃ t, s.cliRunShell sample = .ok t ∧ t.keyboard = keyboard ∧
        Holds (d.key (initialEntries.map NewEntry.entry) key) m t) ∧
    (key = keyReturn → consoleStringLength ≤ d.typed.line.length →
      ∃ e, s.cliRunShell sample = .error e) := by
  have hterminal : s.terminal = ⟨⟨s.console, s.table.over m⟩, s.keyboard⟩ := by
    rw [Retroboard.terminal, h.contents]
  have hpass : Terminal.cliRunShell sample s.terminal =
      (System.cliRunShell ⟨key, sample.junk⟩ ⟨s.console, s.table.over m⟩).map
        fun system => ⟨system, keyboard⟩ := by
    rw [hterminal, Terminal.cliRunShell]
    dsimp only
    rw [hkey]
    rfl
  refine ⟨fun hlt => ?_, fun hreturn hfull => ?_⟩
  · have hkeyPress : (KeyPress.mk key sample.junk).scanCode = keyReturn →
        d.typed.line.length < consoleStringLength := hlt
    obtain ⟨system, hrun, hrestored, hserving⟩ := h.serving.cliRunShell hkeyPress
    rw [hrun] at hpass
    -- the board does what the terminal without a cache does
    rcases Retroboard.cliRunShell_cases h.current sample with
      ⟨e, -, hfault⟩ | ⟨t, hboard, hcurrent, hrun'⟩
    · cases hfault.symm.trans hpass
    · obtain ⟨hsystem, hkeyboard⟩ := Terminal.mk.inj (Except.ok.inj (hrun'.symm.trans hpass))
      have hcontents : writeBack t.bus = m :=
        (congrArg (fun system : System => system.fs.memory) hsystem).trans hrestored.memory_eq
      refine ⟨t, hboard, hkeyboard, hcurrent, hcontents, ?_, h.opened⟩
      rw [← hcontents, hsystem]
      exact hserving
  · have hkeyPress : (KeyPress.mk key sample.junk).scanCode = keyReturn := hreturn
    rw [h.serving.cliRunShell_error hkeyPress hfull] at hpass
    rcases Retroboard.cliRunShell_cases h.current sample with
      ⟨e, hboard, -⟩ | ⟨t, -, -, hrun⟩
    · exact ⟨e, hboard⟩
    · cases hrun.symm.trans hpass

/-- **Any order of passes and accesses**: the passes fail if and only if return is pressed on a full
line, and go on with the dialogue; the accesses are those of a memory of their own. -/
theorem exec_step {s : SharedBoard} (h : Holds d m s.board) (events : List BoardEvent)
    (hbehind : ∀ x ∈ accesses events, 32768 ≤ x.address.toNat) :
    ((∃ t, Run.exec step events s = .ok t) ↔ ∀ before after,
      keysOf s.board.keyboard.oldScanCode (scanCodes events) = before ++ keyReturn :: after →
        before.foldl keyLength d.typed.line.length < consoleStringLength) ∧
    ∀ t, Run.exec step events s = .ok t →
      Holds ((keysOf s.board.keyboard.oldScanCode (scanCodes events)).foldl
          (fun d scanCode => d.key (initialEntries.map NewEntry.entry) scanCode) d)
        (ByteDevice.byteArray.final m (accesses events)) t.board ∧
      t.bytes = s.bytes ++ ByteDevice.byteArray.replies m (accesses events) := by
  -- on the events: a pass changes the dialogue, and an access the memory
  induction events generalizing d m s with
  | nil =>
    refine ⟨⟨fun _ before after heq => ?_, fun _ => ⟨s, rfl⟩⟩, fun t ht => ?_⟩
    · exact absurd heq.symm (List.append_ne_nil_of_right_ne_nil _ (List.cons_ne_nil _ _))
    · obtain rfl := Except.ok.inj ht
      exact ⟨h, (List.append_nil _).symm⟩
  | cons event events ih =>
    cases event with
    | sample sample =>
      obtain ⟨⟨key, keyboard⟩, hkey⟩ :
        ∃ r, consoleGetLastChar .retroboardRev2 sample.scanCode s.board.keyboard = r := ⟨_, rfl⟩
      obtain ⟨hpass, hfail⟩ := h.sample sample hkey
      have hkeys := keysOf_sample sample.scanCode (scanCodes events) s.board.keyboard
      rw [hkey] at hkeys
      rw [scanCodes, hkeys]
      by_cases hfull : key = keyReturn ∧ consoleStringLength ≤ d.typed.line.length
      -- the line that return saves does not fit
      · obtain ⟨e, hboard⟩ := hfail hfull.1 hfull.2
        have hexec : Run.exec step (.sample sample :: events) s = .error e := by
          rw [Run.exec, step, hboard]
          rfl
        rw [hexec, if_neg fun hzero => absurd (hfull.1.symm.trans hzero) (by decide)]
        refine ⟨⟨?_, fun hlt => ?_⟩, fun t ht => (by cases ht)⟩
        · rintro ⟨t, ht⟩
          cases ht
        · exact absurd (hlt [] _ (by rw [hfull.1]; rfl)) (not_lt.mpr hfull.2)
      · have hlt : key = keyReturn → d.typed.line.length < consoleStringLength :=
          fun hreturn => not_le.mp fun hle => hfull ⟨hreturn, hle⟩
        obtain ⟨board, hboard, rfl, hholds⟩ := hpass hlt
        have hstep : step (.sample sample) s = .ok { s with board } := by
          rw [step, hboard]
          rfl
        rw [Run.exec_cons_of_ok hstep]
        obtain ⟨hiff, hok⟩ := ih (s := { s with board }) hholds hbehind
        -- a sample without a key leaves the dialogue
        by_cases hzero : key = 0
        · rw [hzero, Dialogue.key_zero] at hiff hok
          rw [if_pos hzero]
          exact ⟨hiff, hok⟩
        · rw [if_neg hzero, returns_cons_iff, ← h.serving.length_key]
          exact ⟨hiff.trans ⟨fun hrest => ⟨hlt, hrest⟩, fun hboth => hboth.2⟩, hok⟩
    | access x =>
      cases x with
      | read address =>
        obtain ⟨hbyte, hread⟩ := h.read address
        have hstep : step (.access (.read address)) s =
            .ok ⟨{ s.board with bus := (busReadMemory s.board.bus address).2 },
              s.bytes ++ [m address]⟩ := by
          rw [← hbyte]
          rfl
        rw [Run.exec_cons_of_ok hstep]
        obtain ⟨hiff, hok⟩ := ih (s := ⟨_, s.bytes ++ [m address]⟩) hread
          fun x hx => hbehind x (List.mem_cons_of_mem _ hx)
        refine ⟨hiff, fun t ht => ?_⟩
        obtain ⟨hholds, hbytes⟩ := hok t ht
        exact ⟨hholds, hbytes.trans (List.append_assoc ..)⟩
      | write address byte =>
        have hstep : step (.access (.write address byte)) s =
            .ok { s with board := { s.board with bus := busWriteMemory s.board.bus address byte } } :=
          rfl
        rw [Run.exec_cons_of_ok hstep]
        exact ih (h.write (hbehind _ List.mem_cons_self) byte)
          fun x hx => hbehind x (List.mem_cons_of_mem _ hx)

/-- At the first prompt the board holds what the cache of the bus would write back. -/
theorem holds_start (code : ScanCode) (junk : ℕ → ℕ → UInt8) (memory : UInt32 → UInt8) :
    ∃ s, Retroboard.start code junk memory = .ok s ∧ s.keyboard.oldScanCode = code ∧
      Holds ⟨⟨[], 0⟩, firstLines⟩ (writeBack s.bus) s := by
  obtain ⟨system, hsystem, hserving⟩ := serving_start junk memory
  have hterminal : Terminal.start code junk memory =
      .ok ⟨system, ⟨code, kbDecodeScanCode .retroboardRev2 code⟩⟩ := by
    rw [Terminal.start, hsystem]
    rfl
  rcases Retroboard.start_cases code junk memory with ⟨e, -, hfault⟩ | ⟨s, hboard, hcurrent, hrun⟩
  · cases hfault.symm.trans hterminal
  · obtain ⟨hs, hkeyboard⟩ := Terminal.mk.inj (Except.ok.inj (hrun.symm.trans hterminal))
    have hopen := opened_start hsystem
    rw [← hs] at hserving hopen
    exact ⟨s, hboard, congrArg Keyboard.oldScanCode hkeyboard, hcurrent, rfl, hserving, hopen⟩

/-- **The shell and the other programs do not meet.** From power-on of the board with anything in the
memory, in whichever order the passes of the loop and accesses to the memory behind the device come: the
passes fail if and only if return is pressed on a full line; the display shows the dialogue of the keys;
a read returns the byte last written at its address, or what was there at the first prompt; and once the
cache is flushed the memory is that of the first prompt with the bytes written. -/
theorem shares_board (code : ScanCode) (junk : ℕ → ℕ → UInt8) (memory : UInt32 → UInt8) :
    ∃ s, Retroboard.start code junk memory = .ok s ∧
      ∀ events, (∀ x ∈ accesses events,
          -- behind the memory there are the registers of the devices
          32768 ≤ x.address.toNat ∧ x.address < Board.retroboardRev2.maxMemorySize) →
        ((∃ t, Run.exec step events ⟨s, []⟩ = .ok t) ↔ ∀ before after,
          keysOf code (scanCodes events) = before ++ keyReturn :: after →
            lengthAfter before < consoleStringLength) ∧
        ∀ t, Run.exec step events ⟨s, []⟩ = .ok t →
          t.board.console.printed = (dialogueOf (keysOf code (scanCodes events))).shown ∧
          t.bytes = ByteDevice.byteArray.replies (writeBack s.bus) (accesses events) ∧
          ∀ address, (busFlushCache t.board.bus address).memory =
            ByteDevice.byteArray.final (busFlushCache s.bus address).memory (accesses events) := by
  obtain ⟨s, hs, hcode, hholds⟩ := holds_start code junk memory
  refine ⟨s, hs, fun events hbehind => ?_⟩
  obtain ⟨hiff, hok⟩ := exec_step (s := ⟨s, []⟩) hholds events fun x hx => (hbehind x hx).1
  simp only [hcode] at hiff hok
  refine ⟨hiff, fun t ht => ?_⟩
  obtain ⟨hend, hbytes⟩ := hok t ht
  exact ⟨hend.serving.printed, hbytes, fun _ => hend.contents⟩

/-- A listing is typed while another program writes a byte and reads it back. -/
def listingShared : List BoardEvent :=
  [.access (.write 40000 7), .sample ⟨⟨0xdf, 0xd2⟩, fun _ _ => 0⟩, .access (.read 40000),
    .sample ⟨⟨0xdf, 0xc6⟩, fun _ _ => 0⟩, .sample ⟨⟨0x9f, 0xd6⟩, fun _ _ => 0⟩,
    .access (.read 40000)]

/-- `shares_board` for a listing. -/
theorem shares_board_listing : ∃ s t, Retroboard.start idle (fun _ _ => 0) (fun _ => 0) = .ok s ∧
    Run.exec step listingShared ⟨s, []⟩ = .ok t ∧ t.bytes = [7, 7] ∧
    t.board.console.printed = (dialogueOf (chars ['l', 's'] ++ [keyReturn])).shown := by
  obtain ⟨s, hs, hevents⟩ := shares_board idle (fun _ _ => 0) fun _ => 0
  have hkeys : keysOf idle (scanCodes listingShared) = chars ['l', 's'] ++ [keyReturn] := by decide
  obtain ⟨hiff, hok⟩ := hevents listingShared (by decide)
  rw [hkeys] at hiff hok
  obtain ⟨t, ht⟩ := hiff.mpr (lengthAfter_lt_of_length_le (by decide))
  obtain ⟨hprinted, hbytes, -⟩ := hok t ht
  exact ⟨s, t, hs, ht, hbytes, hprinted⟩

end SharedBoard

end Board

end MicroKernel.Command
