import MicroKernel.Board
import MicroKernel.Command.Print
import MicroKernel.Lib.ByteDevice
import MicroKernel.Lib.Traced

/-!
# Counting the external memory

`AllocateExternalMemory` of `kernel/kalloc.c` writes two patterns at one address after the other,
and stops at the first that does not hold them, or behind the last one a board has. The addresses
before it hold memory, but the total is one more than their number. Every 1024 addresses it is shown
in the first row of the display, right-padded by the blanks of its string.

## Main definitions

* `countFrom`: the loop over the addresses
* `allocateExternalMemory`, `kAllocGetTotal`: counting the memory at start-up, and the count
* `ramCheck`: what `main` does about the count
* `HasMemory`: a bus with memory up to an address
* `countedText`: what is shown of the count

## Main results

* `countFrom_spec`: the loop stops at the first address without memory
* `allocateExternalMemory_eq_ok`: the count, and what is shown
* `not_countsMemory`: the count is wrong for every amount of memory
* `ramCheck_allocate`: how much memory the start-up goes on with
-/

namespace MicroKernel

open Command
open Fs (Fault ok_bind chars)

/-- The next address does not wrap below a bound. -/
theorem toNat_add_one_of_lt {address bound : UInt32} (h : address < bound) :
    (address + 1).toNat = address.toNat + 1 := by
  have hlt := UInt32.lt_iff_toNat_lt.mp h
  have hbound := bound.toNat_lt
  exact Store.toNat_add_one (by omega)

/-- The memory behind the bus, the locals of the loop that counts it, and the console. -/
structure Counting (M F : Type) where
  memory : M
  counter : UInt16
  totalString : ℕ → UInt8
  console : Console F

section Count

variable {M F : Type} (bus : ByteDevice M UInt32 UInt8)

/-- The byte read from an address behind writing there. -/
def readBack (m : M) (address : UInt32) (byte : UInt8) : UInt8 × M :=
  bus.read (bus.write m address byte) address

/-- An address has held both patterns. The total is shown every 1024 addresses. -/
def countOne (address : UInt32) (s : Counting M F) : Except Fault (Counting M F) := do
  let counter := s.counter + 1
  if counter < 1024 then return { s with counter }
  else
    let (place, totalString) ← CString.intToString (address + 1) s.totalString
    let console := s.console.consoleSetCursor 0 0
    let console := console.print ((List.range 10).map totalString) 10
    let console := console.printLn
    let console := console.consoleSetCursor 0 place
    return { s with counter := 0, totalString, console }

/-- The loop over the addresses, from one of them on, with the address it leaves at. -/
def countFrom (maxMemorySize address : UInt32) (s : Counting M F) :
    Except Fault (UInt32 × Counting M F) :=
  if address < maxMemorySize then do
    let (buffer, memory) := readBack bus s.memory address 0x55
    let s := { s with memory }
    if buffer ≠ 0x55 then return (address, s)
    else
      let (buffer, memory) := readBack bus s.memory address 0xAA
      let s := { s with memory }
      if buffer ≠ 0xAA then return (address, s)
      else
        let s ← countOne address s
        countFrom maxMemorySize (address + 1) s
  else return (address, s)
termination_by maxMemorySize.toNat - address.toNat
decreasing_by
  have hlt := UInt32.lt_iff_toNat_lt.mp ‹address < maxMemorySize›
  rw [toNat_add_one_of_lt ‹address < maxMemorySize›]
  omega

/-- The globals of `kalloc.c`, the memory behind the bus, and the console. -/
structure Kalloc (M F : Type) where
  totalAllocatedMemory : UInt32
  memory : M
  console : Console F

def kAllocGetTotal (s : Kalloc M F) : UInt32 := s.totalAllocatedMemory

def allocateExternalMemory (maxMemorySize : UInt32) (s : Kalloc M F) :
    Except Fault (Kalloc M F) := do
  let (address, s) ← countFrom bus maxMemorySize 0
    ⟨s.memory, 0, fun _ => 0x20, s.console.consoleCursorDisable⟩
  let totalAllocatedMemory := address + 1
  if totalAllocatedMemory < 1024 then return ⟨totalAllocatedMemory, s.memory, s.console⟩
  else
    let console := s.console.printSpace 1
    let byteFreeString :=
      chars ['b', 'y', 't', 'e', 's', ' ', 'f', 'r', 'e', 'e'] ++ [0]
    let console := console.print byteFreeString (UInt8.ofNat byteFreeString.length)
    return ⟨totalAllocatedMemory, s.memory, console.printLn⟩

/-- There is memory below an address: each address below it gives the byte just written there, and
the address itself, where the board has it, fails one of the two patterns. -/
structure HasMemory (maxMemorySize n : UInt32) : Prop where
  holds : ∀ address < n, ∀ m byte, (readBack bus m address byte).1 = byte
  fails : n < maxMemorySize → ∀ m, (readBack bus m n 0x55).1 = 0x55 →
    (readBack bus (readBack bus m n 0x55).2 n 0xAA).1 ≠ 0xAA

/-- The count is the number of addresses with memory. -/
def CountsMemory (maxMemorySize n : UInt32) (s : Kalloc M F) : Prop :=
  ∃ t, allocateExternalMemory bus maxMemorySize s = .ok t ∧ kAllocGetTotal t = n

/-! ## What is shown -/

/-- A number as the first nine characters of `totalString` show it. -/
def countedLine (n : ℕ) : List UInt8 := ((decimal (UInt32.ofNat n)).rightpad 10 space).take 9

/-- The first `k` numbers. -/
def countedLines (k : ℕ) : List UInt8 := (List.range k).flatMap fun i => countedLine (1024 * (i + 1))

/-- What is shown of `n` addresses with memory. -/
def countedText (n : UInt32) : List UInt8 :=
  countedLines (n.toNat / 1024) ++
    if n + 1 < 1024 then [] else chars [' ', 'b', 'y', 't', 'e', 's', ' ', 'f', 'r', 'e', 'e']

/-- The loop has shown the numbers up to an address, from a console on. -/
structure Counted (console : Console F) (address : UInt32) (s : Counting M F) : Prop where
  counter : s.counter.toNat = address.toNat % 1024
  /-- Behind the digits that were written last there are blanks. -/
  blank : ∀ i, (Nat.digits 10 (1024 * (address.toNat / 1024))).length ≤ i → s.totalString i = space
  shown : Prints (countedLines (address.toNat / 1024)) console s.console

variable {bus} {maxMemorySize n address : UInt32} {console : Console F} {s : Counting M F}

/-- The memory of the loop does not matter to what it shows. -/
theorem Counted.memory (h : Counted console address s) (memory : M) :
    Counted console address { s with memory } := ⟨h.counter, h.blank, h.shown⟩

/-- The string holds the numeral with blanks behind it. -/
theorem map_totalString {number : UInt32} {totalString : ℕ → UInt8} (hne : number ≠ 0)
    (hblank : ∀ i, (Nat.digits 10 number.toNat).length ≤ i → totalString i = space) :
    ((List.range 10).map fun i =>
      ((Nat.digits 10 number.toNat).map CString.digitChar).reverse.getD i (totalString i)) =
        (decimal number).rightpad 10 space := by
  have hlength : (decimal number).length = (Nat.digits 10 number.toNat).length := by
    rw [decimal, if_neg hne, List.length_reverse, List.length_map]
  have hle : (decimal number).length ≤ 10 := by
    rw [hlength, Nat.digits_length_le_iff (by decide)]
    exact number.toNat_lt.trans (by decide)
  have hnumeral : ((Nat.digits 10 number.toNat).map CString.digitChar).reverse = decimal number :=
    (if_neg hne).symm
  rw [hnumeral]
  refine List.ext_getElem (by simp [hle]) fun i hi hi' => ?_
  rw [List.getElem_map, List.getElem_range]
  by_cases hlt : i < (decimal number).length
  · rw [List.getD_eq_getElem _ _ hlt]
    simp only [List.rightpad, List.getElem_append_left hlt]
  · have hge := not_lt.mp hlt
    rw [List.getD_eq_default _ _ hge, hblank i (hlength ▸ hge)]
    simp only [List.rightpad, List.getElem_append_right hge, List.getElem_replicate]

/-- A total is shown in the first row. -/
theorem prints_total {string : List UInt8} (hlength : string.length = 10) (place : UInt8) :
    Prints (string.take 9) console
      (((console.consoleSetCursor 0 0).print string 10).printLn.consoleSetCursor 0 place) := by
  have hprint : Prints (string.take 9) (console.consoleSetCursor 0 0)
      ((console.consoleSetCursor 0 0).print string 10) :=
    prints_print string 10 (by rw [hlength]; decide)
  have h := ((prints_consoleSetCursor (by decide) 0).trans hprint).trans
    (prints_printLn.trans (prints_consoleSetCursor (by decide : (0 : UInt8).toNat < 8) place))
  rwa [List.append_nil, List.append_nil] at h

/-- **An address is counted**, and shown if it is the last of 1024. -/
theorem Counted.countOne (h : Counted console address s) (hlt : address < n) :
    ∃ t, MicroKernel.countOne address s = .ok t ∧ Counted console (address + 1) t := by
  have hnext := toNat_add_one_of_lt hlt
  have hcounter : (s.counter + 1).toNat = address.toNat % 1024 + 1 := by
    have hone : (1 : UInt16).toNat = 1 := rfl
    rw [UInt16.toNat_add, h.counter, hone]
    omega
  rw [MicroKernel.countOne]
  by_cases hfew : s.counter + 1 < 1024
  · have hfew' : address.toNat % 1024 + 1 < 1024 := hcounter ▸ UInt16.lt_iff_toNat_lt.mp hfew
    have hdiv : (address.toNat + 1) / 1024 = address.toNat / 1024 := by omega
    refine ⟨_, if_pos hfew, ?_, ?_, ?_⟩
    · show (s.counter + 1).toNat = _
      rw [hcounter, hnext]
      omega
    · rw [hnext, hdiv]
      exact h.blank
    · rw [hnext, hdiv]
      exact h.shown
  · have hmany : ¬ address.toNat % 1024 + 1 < 1024 := fun hlt' =>
      hfew (UInt16.lt_iff_toNat_lt.mpr (hcounter.trans_lt hlt'))
    obtain ⟨k, hk⟩ : ∃ k, address.toNat / 1024 = k := ⟨_, rfl⟩
    have hnumber : (address + 1).toNat = 1024 * (k + 1) := by omega
    have hdiv : (address + 1).toNat / 1024 = k + 1 := by omega
    have hne : address + 1 ≠ 0 := fun hzero => by
      rw [hzero] at hnumber
      exact absurd hnumber (by simp)
    -- the digits that were there are overwritten
    have hblank : ∀ i, (Nat.digits 10 (address + 1).toNat).length ≤ i → s.totalString i = space := by
      intro i hi
      refine h.blank i (le_trans (Nat.le_length_digits_le 10 _ _ ?_) hi)
      rw [hk, hnumber]
      omega
    have hline : ((List.range 10).map fun i =>
        ((Nat.digits 10 (address + 1).toNat).map CString.digitChar).reverse.getD i
          (s.totalString i)).take 9 = countedLine (1024 * (k + 1)) := by
      rw [map_totalString hne hblank, countedLine, ← hnumber, UInt32.ofNat_toNat]
    rw [if_neg hfew, CString.intToString_eq hne]
    refine ⟨_, rfl, ?_, ?_, ?_⟩
    · show 0 = _
      omega
    · intro i hi
      have hi' : (Nat.digits 10 (address + 1).toNat).length ≤ i := by
        rwa [hdiv, ← hnumber] at hi
      show List.getD _ i _ = _
      rw [List.getD_eq_default _ _ (by rwa [List.length_reverse, List.length_map]), hblank i hi']
    · rw [hdiv, countedLines, List.range_succ, List.flatMap_append, List.flatMap_singleton, ← hline]
      exact (hk ▸ h.shown).trans (prints_total (by simp) _)

/-- The loop passes an address with memory. -/
theorem countFrom_of_holds (hlt : address < maxMemorySize)
    (hbus : ∀ m byte, (readBack bus m address byte).1 = byte) (h : Counted console address s) :
    ∃ t, countFrom bus maxMemorySize address s = countFrom bus maxMemorySize (address + 1) t ∧
      Counted console (address + 1) t := by
  rw [countFrom, if_pos hlt]
  simp only [hbus, ne_eq, not_true_eq_false, if_false]
  obtain ⟨t, ht, hcounted⟩ := (h.memory
    (readBack bus (readBack bus s.memory address 0x55).2 address 0xAA).2).countOne hlt
  exact ⟨t, by rw [ht, ok_bind], hcounted⟩

/-- The loop leaves at the first address without memory. -/
theorem countFrom_of_fails (hbus : HasMemory bus maxMemorySize n) (s : Counting M F) :
    ∃ memory, countFrom bus maxMemorySize n s = .ok (n, { s with memory }) := by
  rw [countFrom]
  split_ifs with hlt
  · dsimp only
    split_ifs with h55 hAA
    · exact ⟨_, rfl⟩
    · exact ⟨_, rfl⟩
    · exact absurd (not_not.mp hAA) (hbus.fails hlt _ (not_not.mp h55))
  · exact ⟨s.memory, rfl⟩

/-- **The loop leaves at the first address without memory**, from any address before it, and has shown
the numbers up to there. -/
theorem countFrom_spec (hn : n ≤ maxMemorySize) (hbus : HasMemory bus maxMemorySize n)
    (ha : address ≤ n) (h : Counted console address s) :
    ∃ t, countFrom bus maxMemorySize address s = .ok (n, t) ∧ Counted console n t := by
  -- induction on the number of addresses left
  obtain ⟨left, hleft⟩ : ∃ left, n.toNat - address.toNat = left := ⟨_, rfl⟩
  induction left generalizing address s with
  | zero =>
    have hle := UInt32.le_iff_toNat_le.mp ha
    obtain rfl : address = n := UInt32.toNat_inj.mp (by omega)
    obtain ⟨memory, hmemory⟩ := countFrom_of_fails hbus s
    exact ⟨_, hmemory, h.memory memory⟩
  | succ left ih =>
    have hlt : address < n := UInt32.lt_iff_toNat_lt.mpr (by omega)
    have hnext := toNat_add_one_of_lt hlt
    obtain ⟨t, ht, hcounted⟩ :=
      countFrom_of_holds (UInt32.lt_of_lt_of_le hlt hn) (hbus.holds address hlt) h
    rw [ht]
    exact ih (UInt32.le_iff_toNat_le.mpr (by omega)) hcounted (by omega)

/-- **The count is one more than the number of addresses with memory**, and shown in steps of 1024. -/
theorem allocateExternalMemory_eq_ok (hn : n ≤ maxMemorySize) (hbus : HasMemory bus maxMemorySize n)
    (s : Kalloc M F) : ∃ t, allocateExternalMemory bus maxMemorySize s = .ok t ∧
      kAllocGetTotal t = n + 1 ∧ Prints (countedText n) s.console t.console := by
  have hzero : 0 ≤ n := UInt32.le_iff_toNat_le.mpr (Nat.zero_le _)
  have hdisabled : Prints [] s.console s.console.consoleCursorDisable :=
    prints_displayWrite (by decide) 0
  obtain ⟨t, ht, hcounted⟩ := countFrom_spec hn hbus hzero
    (s := ⟨s.memory, 0, fun _ => 0x20, s.console.consoleCursorDisable⟩)
    ⟨rfl, fun _ _ => rfl, hdisabled⟩
  rw [allocateExternalMemory, ht, ok_bind]
  dsimp only
  by_cases hfew : n + 1 < 1024
  · refine ⟨_, if_pos hfew, rfl, ?_⟩
    rw [countedText, if_pos hfew, List.append_nil]
    exact hcounted.shown
  · refine ⟨_, if_neg hfew, rfl, ?_⟩
    rw [countedText, if_neg hfew]
    have hfree := (prints_printSpace_one (s := t.console)).trans ((prints_print
      (chars ['b', 'y', 't', 'e', 's', ' ', 'f', 'r', 'e', 'e'] ++ [0]) 11 (by decide)).trans
        prints_printLn)
    exact hcounted.shown.trans hfree

/-- **The count is wrong on every board**: whatever the number of addresses with memory. -/
theorem not_countsMemory (board : Board) (bus : ByteDevice M UInt32 UInt8) (n : UInt32)
    (hn : n ≤ board.maxMemorySize) (h : HasMemory bus board.maxMemorySize n) (s : Kalloc M F) :
    (∃ t, allocateExternalMemory bus board.maxMemorySize s = .ok t) ∧
      ¬ CountsMemory bus board.maxMemorySize n s := by
  obtain ⟨t, ht, htotal, -⟩ := allocateExternalMemory_eq_ok hn h s
  refine ⟨⟨t, ht⟩, ?_⟩
  rintro ⟨u, hu, hcount⟩
  obtain rfl : t = u := Except.ok.inj (ht.symm.trans hu)
  have heq : n + 1 = n := htotal.symm.trans hcount
  have hone : (1 : UInt32) = 0 := by rwa [UInt32.add_eq_left] at heq
  exact absurd hone (by decide)

end Count

/-! ## Memory up to an address -/

section RamBus

/-- The bus with memory below the address `n`, where the addresses from `n` on read as `0xFF`. -/
def ramBus (n : UInt32) : ByteDevice (UInt32 → UInt8) UInt32 UInt8 where
  read m address := (if address < n then m address else 0xFF, m)
  write m address byte := Function.update m address byte

/-- There can be memory below any address. -/
theorem hasMemory_ramBus (maxMemorySize n : UInt32) : HasMemory (ramBus n) maxMemorySize n where
  holds address hlt m byte := by
    simp only [readBack, ramBus, if_pos hlt, Function.update_self]
  fails _ m h := by
    simp only [readBack, ramBus, if_neg (UInt32.lt_irrefl n)] at h
    exact absurd h (by decide)

/-- A byte array has all the memory that a board can have. -/
theorem hasMemory_byteArray (maxMemorySize : UInt32) :
    HasMemory (ByteDevice.byteArray (A := UInt32) (B := UInt8)) maxMemorySize maxMemorySize where
  holds _ _ _ _ := Function.update_self ..
  fails hlt := absurd hlt (UInt32.lt_irrefl maxMemorySize)

/-- `not_countsMemory` for the whole memory of the board. -/
theorem not_countsMemory_ramBus :
    (0x40000 : UInt32) ≤ Board.retroboardRev2.maxMemorySize ∧
      HasMemory (ramBus 0x40000) Board.retroboardRev2.maxMemorySize 0x40000 ∧
      (∃ t, allocateExternalMemory (ramBus 0x40000) Board.retroboardRev2.maxMemorySize
        ⟨0, fun _ => 0, (Console.afterCliInit : Console Unit)⟩ = .ok t) ∧
      ¬ CountsMemory (ramBus 0x40000) Board.retroboardRev2.maxMemorySize 0x40000
        ⟨0, fun _ => 0, (Console.afterCliInit : Console Unit)⟩ :=
  ⟨by decide, hasMemory_ramBus _ _, not_countsMemory .retroboardRev2 (ramBus 0x40000) 0x40000
    (by decide) (hasMemory_ramBus _ _) _⟩

/-- The count is not always right: without any memory, it is 1. -/
theorem exists_not_countsMemory : ¬ ∀ (board : Board)
    (bus : ByteDevice (UInt32 → UInt8) UInt32 UInt8) (n : UInt32), n ≤ board.maxMemorySize →
    HasMemory bus board.maxMemorySize n → ∀ s : Kalloc (UInt32 → UInt8) Unit,
      CountsMemory bus board.maxMemorySize n s := by
  intro h
  obtain ⟨t, ht, hcount⟩ := h .retroboardRev2 (ramBus 0) 0 (by decide) (hasMemory_ramBus _ _)
    ⟨0, fun _ => 0, Console.afterCliInit⟩
  obtain ⟨u, hu, htotal, -⟩ := allocateExternalMemory_eq_ok (by decide)
    (hasMemory_ramBus 0x40000 0) (⟨0, fun _ => 0, Console.afterCliInit⟩ : Kalloc _ Unit)
  obtain rfl : t = u := Except.ok.inj (ht.symm.trans hu)
  exact absurd (htotal.symm.trans hcount) (by decide)

end RamBus

/-! ## The check at start-up -/

section RamCheck

/-- What the check does before the start-up goes on. -/
inductive StartupEffect where
  | sysbeep
  | delayMs (ms : UInt16)

/-- `kThrow` ends the run. -/
inductive StartupStop where
  | kThrow (errorCode hardwareAddress : UInt32)

/-- `HALT_OUT_OF_MEMORY` -/
def haltOutOfMemory : UInt32 := 0x10000008

open Traced in
/-- The memory check of `main`, which only one of the boards makes. -/
def ramCheck (board : Board) (total : UInt32) : Traced StartupEffect StartupStop PUnit :=
  match board with
  | .retroboardRev2 => pure ⟨⟩
  | .retroAvrX4Rev1 =>
    if total < 1024 then do
      (List.replicate 6 StartupEffect.sysbeep).forM tell
      tell (.delayMs 500)
      tell .sysbeep
      tell (.delayMs 500)
      tell .sysbeep
      stop (.kThrow haltOutOfMemory 0x00000)
    else tell .sysbeep

theorem ramCheck_value (board : Board) (total : UInt32) : (ramCheck board total).value =
    if board = .retroAvrX4Rev1 ∧ total < 1024 then .error (.kThrow haltOutOfMemory 0)
    else .ok ⟨⟩ := by
  cases board with
  | retroboardRev2 => rfl
  | retroAvrX4Rev1 =>
    by_cases hfew : total < 1024
    · rw [ramCheck, if_pos hfew, if_pos ⟨rfl, hfew⟩]
      rfl
    · rw [ramCheck, if_neg hfew, if_neg fun h => hfew h.2]
      rfl

/-- **The start-up goes on** with 1023 addresses of memory, one less than its check asks for. -/
theorem ramCheck_allocate {M F : Type} {bus : ByteDevice M UInt32 UInt8} {n : UInt32}
    (hn : n ≤ Board.retroAvrX4Rev1.maxMemorySize)
    (h : HasMemory bus Board.retroAvrX4Rev1.maxMemorySize n) (s : Kalloc M F) :
    ∃ t, allocateExternalMemory bus Board.retroAvrX4Rev1.maxMemorySize s = .ok t ∧
      ((ramCheck .retroAvrX4Rev1 (kAllocGetTotal t)).value = .ok ⟨⟩ ↔ 1023 ≤ n) := by
  have hsucc : (n + 1).toNat = n.toNat + 1 :=
    toNat_add_one_of_lt (UInt32.lt_of_le_of_lt hn (by decide : _ < (0x80001 : UInt32)))
  have hfew : n + 1 < 1024 ↔ ¬ 1023 ≤ n := by
    rw [UInt32.lt_iff_toNat_lt, UInt32.le_iff_toNat_le, hsucc]
    show n.toNat + 1 < 1024 ↔ ¬ 1023 ≤ n.toNat
    omega
  obtain ⟨t, ht, htotal, -⟩ := allocateExternalMemory_eq_ok hn h s
  refine ⟨t, ht, ?_⟩
  rw [htotal, ramCheck_value]
  by_cases hmany : 1023 ≤ n
  · rw [if_neg fun h => hfew.mp h.2 hmany]
    exact iff_of_true rfl hmany
  · rw [if_pos ⟨rfl, hfew.mpr hmany⟩]
    refine iff_of_false ?_ hmany
    rintro ⟨⟩

end RamCheck

end MicroKernel
