import MicroKernel.Board
import MicroKernel.Bus.Contents
import MicroKernel.Fs.BytewiseDirectory
import MicroKernel.Fs.Refinement

/-!
# A shared bus

The file system and other programs use one bus, and the same cache in front of it: the emulator
keeps the memory of its programs on it. What the bus is for is two memories that know nothing of each
other: a store of files, and the rest of the memory behind the sectors of the partition. On the cached
bus of the Retroboard, where every access may move the window of the cache, both are served as if each
were alone.

## Main definitions

* `BusRequest`, `busAnswer`: requests to the file system, and accesses of other programs
* `SharedStore`, `BusAnswers`: the two memories, and their answers
* `Partition.InMemory`: a partition whose scan stays in the memory of the board
* `SharedStore.Asks`: the requests that keep to the two memories

## Main results

* `agreeOff_answer`: a request to the file system stays in the sectors of the partition
* `simulates_busAnswer`: the memory serves both
* `refines_sharedStore`: and so does the cached bus from power-on
-/

namespace MicroKernel.Fs

open Store

/-- A request to the file system, or an access of another program. -/
inductive BusRequest where
  | request (q : Request)
  | read (address : UInt32)
  | write (address : UInt32) (byte : UInt8)

inductive BusAnswer where
  | answer (r : Answer)
  | byte (byte : UInt8)
  | nothing

/-- The answer to what is asked of the bus. -/
def busAnswer (part : Partition) : BusRequest → FsProgram BusAnswer
  | .request q => do return .answer (← Bytewise.answer part q)
  | .read address => do return .byte (← Bytewise.fsReadByte address)
  | .write address byte => do
    Bytewise.fsWriteByte address byte
    return .nothing

/-- The files and slots, and the bytes of the other programs. -/
structure SharedStore where
  store : FileStore
  rest : UInt32 → UInt8

/-- The answers of the file store and of a byte array. -/
inductive BusAnswers (part : Partition) : BusRequest → SharedStore → BusAnswer → SharedStore → Prop
  | answered {s t : FileStore} {q : Request} {r : Answer} {rest : UInt32 → UInt8}
      (h : Answers part q s r t) : BusAnswers part (.request q) ⟨s, rest⟩ (.answer r) ⟨t, rest⟩
  | read {s : FileStore} {address : UInt32} {rest : UInt32 → UInt8} :
      BusAnswers part (.read address) ⟨s, rest⟩ (.byte (rest address)) ⟨s, rest⟩
  | written {s : FileStore} {address : UInt32} {byte : UInt8} {rest : UInt32 → UInt8} :
      BusAnswers part (.write address byte) ⟨s, rest⟩ .nothing
        ⟨s, Function.update rest address byte⟩

/-- The offset of an address in the partition. -/
def Partition.offset (part : Partition) (address : UInt32) : ℕ := (address - part.blockAddress).toNat

/-- The bytes of the sectors. -/
def Partition.sectors (part : Partition) : Set ℕ :=
  {o | o < part.sectorCount.toNat * part.sectorSize.toNat}

/-- The scan for free sectors, which takes the size of the partition for their number, stays in the
memory: behind it there are the registers of the devices. -/
def Partition.InMemory (part : Partition) : Prop :=
  part.blockAddress.toNat + part.blockSize.toNat * part.sectorSize.toNat ≤
    Board.retroboardRev2.maxMemorySize.toNat

/-- The file system is asked what it serves, and the other programs stay in the memory and off the
sectors. They do not write the mark of a free sector where the scan looks for one. -/
def SharedStore.Asks (part : Partition) : BusRequest → SharedStore → Prop
  | .request q, s => s.store.Asks part q
  | .read address, _ =>
      address < Board.retroboardRev2.maxMemorySize ∧ part.offset address ∉ part.sectors
  | .write address byte, _ =>
      address < Board.retroboardRev2.maxMemorySize ∧ part.offset address ∉ part.sectors ∧
        (byte = sectorFree → ¬ part.sectorSize.toNat ∣ part.offset address)

/-- The memory and the open table hold the files and the bytes of the other programs. -/
structure Shares (part : Partition) (s : SharedStore) (fs : FileSystem) : Prop where
  stores : Stores part s.store fs
  rest : ∀ address, part.offset address ∉ part.sectors → fs.memory address = s.rest address

section Shares

variable {part : Partition} {s : FileStore} {fs fs' : FileSystem} {q : Request} {r : Answer}
  {address : UInt32} {byte : UInt8}

theorem view_offset (part : Partition) (m : Memory) (address : UInt32) :
    view part.blockAddress m (part.offset address) = m address := by
  rw [view, Partition.offset, UInt32.ofNat_toNat, UInt32.add_comm, UInt32.sub_add_cancel]

/-- The addresses of the memory do not wrap around. -/
theorem Partition.InMemory.noWrap (h : part.InMemory) : part.NoWrap := by
  have hle := Nat.mul_le_mul_right part.sectorSize.toNat (Nat.sub_le part.blockSize.toNat 1)
  have hmax : Board.retroboardRev2.maxMemorySize.toNat < 2 ^ 32 := UInt32.toNat_lt _
  rw [Partition.InMemory] at h
  rw [Partition.NoWrap]
  omega

/-- The run of a file lies in the sectors. -/
theorem Owned.runBytes_subset_sectors {mem : Memory} {live : Files} {h : FileHandle} {size : UInt32}
    (ho : Owned part mem live) (hl : live h = some size) : runBytes part h size ⊆ part.sectors := by
  obtain ⟨i, -, hle, hi⟩ := ho.aligned h size hl
  intro o ho
  have hlt := ho.2
  rw [hi, ← Nat.add_mul] at hlt
  exact hlt.trans_le (Nat.mul_le_mul_right _ hle)

/-- Opening changes no byte. -/
theorem memory_of_fsFileOpen {handle : FileHandle} {index : File}
    (h : fsFileOpen part handle fs = .ok (index, fs')) : fs'.memory = fs.memory := by
  obtain ⟨i, -, h⟩ := bind_eq_ok h
  split at h
  · cases h
    rfl
  · cases h
    rfl

/-- **A request stays in the sectors**: it leaves the bytes of the other programs. -/
theorem agreeOff_answer (hp : part.Formatted) (hs : Stores part s fs) (hq : s.Asks part q)
    (h : answer part q fs = .ok (r, fs')) :
    AgreeOff part.blockAddress part.sectors fs.memory fs'.memory := by
  cases q with
  | create filename size =>
    rcases room_or_fsAllocate_eq_zero size hp hs.owned.device hs.behind with hr | hfail
    · obtain ⟨_, -, mem, heq, -, -, -, ho, ha⟩ := hs.owned.create hp hr filename
      simp only [answer, heq] at h
      cases h
      exact ha.mono (ho.runBytes_subset_sectors (Function.update_self ..))
    · simp only [answer, fsFileCreate_eq_zero hfail] at h
      cases h
      exact .refl _ _
  | delete handle =>
    obtain ⟨f, hf⟩ := Option.ne_none_iff_exists'.mp hq
    obtain ⟨mem, heq, -, ha⟩ := hs.owned.delete hp (live_eq hf)
    simp only [answer, heq] at h
    cases h
    exact ha.mono (hs.owned.runBytes_subset_sectors (live_eq hf))
  | openFile handle =>
    obtain ⟨⟨index, fs₁⟩, hopen, h⟩ := bind_eq_ok h
    cases h
    rw [memory_of_fsFileOpen hopen]
    exact .refl _ _
  | close index =>
    rcases fsFileClose_eq_ok fs hq with heq | ⟨i, -, -, heq⟩
    · simp only [answer, heq] at h
      cases h
      exact .refl _ _
    · simp only [answer, heq] at h
      cases h
      exact .refl _ _
  | write index buffer n =>
    obtain ⟨hindex, hb, hstale⟩ := hq
    have hss := hp.le_sectorSize
    rcases fsFileWrite_eq_ok part fs hindex hb with heq | ⟨i, rfl, hne, hacc, heq⟩
    · simp only [answer, heq] at h
      cases h
      exact .refl _ _
    · simp only [answer, heq] at h
      cases h
      -- the slot is open on a file, in whose sectors the bytes lie
      rcases hs.index_cases hindex hstale with ⟨-, hclosed⟩ | ⟨j, handle, f, hj, -, hf, hopen⟩
      · exact absurd ((hs.closed_iff i).mpr (hclosed i rfl)) hne
      · obtain rfl : i = j := Fin.ext (Int.natCast_inj.mp hj)
        rw [hopen.size_eq] at hacc
        rw [hopen.address]
        exact ((agreeOff_transfer (by omega) (hs.run_le hp hf) fs.memory buffer
          (lt_of_accepted hacc).1).mono ((dataBytes_subset hp).trans contentBytes_subset)).mono
            (hs.owned.runBytes_subset_sectors (live_eq hf))
  | read index buffer n =>
    obtain ⟨x, -, h⟩ := bind_eq_ok h
    cases h
    exact .refl _ _
  | set handle setter =>
    cases h
    obtain ⟨f, hf⟩ := Option.ne_none_iff_exists'.mp hq.1
    have hrun := hs.run_le hp hf
    have hhead := header_le hp hrun
    exact (agreeOff_setter (by omega) setter).mono
      (((headerFields_subset hp f.size).trans contentBytes_subset).trans
        (hs.owned.runBytes_subset_sectors (live_eq hf)))
  | get handle field =>
    cases h
    exact .refl _ _

/-- A byte of the other programs that is written leaves the files. -/
theorem Stores.write_rest (hs : Stores part s fs) (hp : part.Formatted) (hw : part.NoWrap)
    (haddress : part.offset address ∉ part.sectors)
    (hbyte : byte = sectorFree → ¬ part.sectorSize.toNat ∣ part.offset address) :
    Stores part s { fs with memory := Function.update fs.memory address byte } := by
  have ha : AgreeOff part.blockAddress {part.offset address} fs.memory
      (Function.update fs.memory address byte) := by
    have h : AgreeOff part.blockAddress {part.offset address} fs.memory
        (Function.update fs.memory (part.blockAddress + (address - part.blockAddress)) byte) :=
      agreeOff_update byte (Set.mem_singleton _)
    rwa [UInt32.add_comm, UInt32.sub_add_cancel] at h
  have hdisjoint : ∀ h f, s.files h = some f →
      Disjoint (runBytes part h f.size) {part.offset address} := fun h f hf =>
    Set.disjoint_singleton_right.mpr fun hmem =>
      haddress (hs.owned.runBytes_subset_sectors (live_eq hf) hmem)
  -- no sector stride gets the mark of a free sector
  have hmarker : ∀ i, i * part.sectorSize.toNat < 2 ^ 32 →
      sectorMarker part fs.memory i ≠ sectorFree →
        sectorMarker part (Function.update fs.memory address byte) i ≠ sectorFree := by
    intro i hi hne
    by_cases hoff : i * part.sectorSize.toNat = part.offset address
    · rw [sectorMarker, hoff, view_offset, Function.update_self]
      exact fun hfree => hbyte hfree ⟨i, by rw [← hoff, Nat.mul_comm]⟩
    · rwa [sectorMarker, ha _ hi hoff]
  have hmarked : ∀ h size, s.live h = some size →
      Marked part (Function.update fs.memory address byte) h size := by
    intro h size hl
    have hsub := hs.owned.runBytes_subset_sectors hl
    have hrun := hs.owned.run_le_pow hp hl
    have hhead := header_le hp hrun
    have hsize : fileOffsetSize.toNat = 11 := rfl
    have hlen : 2 ≤ runLength part size := Nat.le_add_left _ _
    have hnotMem : ∀ o ∈ runBytes part h size, o ∉ ({part.offset address} : Set ℕ) := by
      rintro o ho rfl
      exact haddress (hsub ho)
    exact (hs.owned.marked h size hl).of_agreeOff hp hrun ha
      (fun k hk => hnotMem _ ⟨by omega, by have := (mem_runBytes hp hrun hk).2; omega⟩)
      fun o ho => hnotMem o ⟨by have := ho.1; omega, by have := ho.2; omega⟩
  refine ⟨⟨?_, hs.owned.aligned, hmarked, hs.owned.disjoint, fun i hpos hi hfree => ?_⟩,
    fun i hi hpos hlt => ?_, fun h f hf => ?_, fun i => ?_⟩
  · exact hmarker 0 (by omega) hs.owned.device
  · have hlt := hp.mul_le hi.le
    have := part.blockSize.toNat_lt
    rw [sectorMarker, ha _ (by omega), ← sectorMarker]
    · exact hs.owned.free i hpos hi hfree
    · rintro (h : _ = part.offset address)
      refine haddress (h ▸ ?_)
      exact Nat.mul_lt_mul_of_pos_right hi (by have := hp.le_sectorSize; omega)
  · have hmul := hw.mul_lt hlt
    have hne := hs.behind i hi hpos hlt
    rw [marker_ofNat hmul] at hne ⊢
    exact hmarker i hmul hne
  · exact (hs.stored h f hf).of_disjoint hp (hs.run_le hp hf) ha (hdisjoint h f hf)
  · exact (hs.slots i).of_eq rfl rfl rfl fun h f _ hf => ⟨f, hf, rfl⟩

/-- The answer of the memory to what is asked of the bus. -/
theorem runFs_busAnswer (q : Request) :
    (busAnswer part (.request q)).runFs fs = (answer part q fs).map fun r => (.answer r.1, r.2) := by
  rw [busAnswer, runFs_bind, Bytewise.runFs_answer]
  cases answer part q fs <;> rfl

/-- **The memory serves both**: what may be asked does not fail, and is answered as by a store of files
and a memory of their own for the other programs. -/
theorem simulates_busAnswer (hp : part.Formatted) (hw : part.NoWrap) :
    Service.Simulates (fun q => (busAnswer part q).runFs) (BusAnswers part) (SharedStore.Asks part)
      (Shares part) := by
  rintro q ⟨s, rest⟩ fs ⟨hs, hrest⟩ hq
  cases q with
  | request q =>
    obtain ⟨r, fs', t, heq, hr, ht⟩ := simulates_answer hp hw q s fs hs hq
    refine ⟨.answer r, fs', ⟨t, rest⟩, ?_, .answered hr, ht, fun address haddress => ?_⟩
    · show (busAnswer part (.request q)).runFs fs = _
      rw [runFs_busAnswer, heq]
      rfl
    · have ha := agreeOff_answer hp hs hq heq _ (UInt32.toNat_lt _) haddress
      rw [← hrest address haddress, ← view_offset part fs'.memory, ← view_offset part fs.memory]
      exact ha
  | read address =>
    refine ⟨.byte (rest address), fs, ⟨s, rest⟩, ?_, .read, hs, hrest⟩
    show Except.ok (BusAnswer.byte (fs.memory address), fs) = _
    rw [hrest address hq.2]
  | write address byte =>
    refine ⟨.nothing, { fs with memory := Function.update fs.memory address byte },
      ⟨s, Function.update rest address byte⟩, rfl, .written, hs.write_rest hp hw hq.2.1 hq.2.2, ?_⟩
    intro a ha
    show Function.update fs.memory address byte a = Function.update rest address byte a
    rw [Function.update_apply, Function.update_apply, hrest a ha]

/-- Any device that answers as the byte array serves both. -/
theorem simulates_onDevice {S : Type} {d : ByteDevice S UInt32 UInt8} {R : S → Memory → Prop}
    (hd : d.Simulates ByteDevice.byteArray (fun _ => True) R) (hp : part.Formatted)
    (hw : part.NoWrap) :
    Service.Simulates (fun q => (busAnswer part q).runOn d) (BusAnswers part)
      (SharedStore.Asks part) fun s r => ∃ fs, Shares part s fs ∧ R r.2 fs.memory ∧ r.1 = fs.table := by
  refine (simulates_busAnswer hp hw).of_refines ?_
  rintro q fs ⟨_, u⟩ r fs' ⟨hR, rfl⟩ heq
  obtain ⟨u', hu', hR'⟩ := (runOn_of_simulates hd _ hR).1 r fs' heq
  exact ⟨(fs'.table, u'), hu', hR', rfl⟩

end Shares

/-! ## The cached bus -/

/-- The files of a device and the bytes behind its sectors, before a file is opened. -/
def sharedStoreOf (part : Partition) (mem : Memory) : SharedStore :=
  ⟨fileStoreOf part mem (formatFiles part mem), mem⟩

/-- The open table without an open file. -/
def closedTable : FileTable := ⟨fun _ => 0, fun _ => 0⟩

section CachedBus

open RetroboardRev2 (busDevice powerOn busFlushCache)

variable {part : Partition}

/-- **From power-on the cached bus serves the file system and the other programs** as if each had a
memory of its own: on a device just formatted, with no mark of a free sector where the scan looks behind
it, no request fails, in whichever order the requests and the accesses come; the file system answers as
the store of files, a byte behind the sectors is the byte last written there, and once the cache is
flushed the memory holds both. -/
theorem refines_sharedStore {p : Partition} {beginning ending sectorSize : UInt32}
    (hss : 32 ≤ sectorSize.toNat) (hpart : formatted p beginning ending sectorSize = part)
    (hin : part.InMemory) {memory : Memory} (hn : NoFreeBehind part memory) :
    ∃ bus, (Bytewise.fsDeviceFormat p beginning ending sectorSize).run busDevice (powerOn memory) =
        .ok (part, bus) ∧
      ∀ program, Service.KeepsTo (BusAnswers part) (SharedStore.Asks part) program
          (sharedStoreOf part (RetroboardRev2.writeBack bus)) →
        ∀ n, ∃ answers table bus' t,
          Service.serve (fun q => (busAnswer part q).runOn busDevice) program n []
            (closedTable, bus) = .ok (answers, table, bus') ∧
          Service.Allows (BusAnswers part) program (sharedStoreOf part (RetroboardRev2.writeBack bus))
            answers t ∧
          ∀ address, Shares part t (table.over (busFlushCache bus' address).memory) := by
  have hp : part.Formatted := by
    subst hpart
    exact ⟨hss, rfl⟩
  have hw := hin.noWrap
  have hbus := RetroboardRev2.busDevice_simulates_writeBack
  obtain ⟨mem, heq, hstores⟩ := stores_format hss hpart hw hn
  have hformat := (Bytewise.onArray_fsDeviceFormat beginning ending sectorSize).trans heq
  obtain ⟨bus, hrun, hcurrent, rfl⟩ := (ByteProgram.run_of_simulates hbus _
    ⟨RetroboardRev2.current_powerOn memory, RetroboardRev2.writeBack_powerOn memory⟩).1 _ _ hformat
  have hstart : ∃ fs, Shares part (sharedStoreOf part (RetroboardRev2.writeBack bus)) fs ∧
      (bus.Current ∧ RetroboardRev2.writeBack bus = fs.memory) ∧ closedTable = fs.table :=
    ⟨closedFileSystem _, ⟨hstores, fun _ _ => rfl⟩, ⟨hcurrent, rfl⟩, rfl⟩
  refine ⟨bus, hrun, fun program hk n => ?_⟩
  obtain ⟨answers, ⟨table, bus'⟩, t, hserve, hallows, fs, hshares, ⟨-, hmem⟩, rfl⟩ :=
    (simulates_onDevice hbus hp hw).serve (s := (closedTable, bus)) hk hstart n
  refine ⟨answers, fs.table, bus', t, hserve, hallows, fun address => ?_⟩
  rw [show (busFlushCache bus' address).memory = fs.memory from hmem]
  exact hshares

/-- Two files are created while another program writes bytes behind the sectors and reads one back. -/
def interleaved : Service.Client BusRequest BusAnswer
  | [] => some (.request (.create (chars ['a']) 3))
  | [_] => some (.write 40000 7)
  | [_, _] => some (.request (.create (chars ['b']) 3))
  | [_, _, _] => some (.write 0x3ffff 8)
  | [_, _, _, _] => some (.read 40000)
  | _ => none

/-- `refines_sharedStore` for a device of 8 KiB and two programs. -/
theorem refines_sharedStore_interleaved :
    ∃ bus, (Bytewise.fsDeviceFormat ⟨0, 0, 0, 0⟩ 0 8192 32).run busDevice (powerOn fun _ => 0) =
        .ok (formatted ⟨0, 0, 0, 0⟩ 0 8192 32, bus) ∧
      ∃ answers table bus' t,
        Service.serve (fun q => (busAnswer (formatted ⟨0, 0, 0, 0⟩ 0 8192 32) q).runOn busDevice)
            interleaved 5 [] (closedTable, bus) = .ok (answers, table, bus') ∧
        Service.Allows (BusAnswers (formatted ⟨0, 0, 0, 0⟩ 0 8192 32)) interleaved
          (sharedStoreOf (formatted ⟨0, 0, 0, 0⟩ 0 8192 32) (RetroboardRev2.writeBack bus))
          answers t := by
  have hn : NoFreeBehind (formatted ⟨0, 0, 0, 0⟩ 0 8192 32) fun _ => 0 := by
    intro i _ _ _
    show (0 : UInt8) ≠ sectorFree
    decide
  have hin : (formatted ⟨0, 0, 0, 0⟩ 0 8192 32).InMemory := by
    show 0 + 8192 * 32 ≤ 0x40000
    decide
  have hoff : ∀ address : UInt32, 8192 ≤ (address - 0).toNat →
      (formatted ⟨0, 0, 0, 0⟩ 0 8192 32).offset address ∉
        (formatted ⟨0, 0, 0, 0⟩ 0 8192 32).sectors := by
    intro address hle
    show ¬ (address - 0).toNat < 256 * 32
    omega
  obtain ⟨bus, hrun, h⟩ := refines_sharedStore (by decide) rfl hin hn
  obtain ⟨answers, table, bus', t, hserve, hallows, -⟩ := h interleaved (fun answers s q _ hq => by
    unfold interleaved at hq
    split at hq
    · cases hq
      trivial
    · cases hq
      exact ⟨by decide, hoff _ (by decide), fun h => absurd h (by decide)⟩
    · cases hq
      trivial
    · cases hq
      exact ⟨by decide, hoff _ (by decide), fun h => absurd h (by decide)⟩
    · cases hq
      exact ⟨by decide, hoff _ (by decide)⟩
    · cases hq) 5
  exact ⟨bus, hrun, answers, table, bus', t, hserve, hallows⟩

end CachedBus

end MicroKernel.Fs
