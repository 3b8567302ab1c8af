import MicroKernel.Board
import MicroKernel.Devices.Driver

/-!
# The device table

`InitiateDeviceTable` of `kernel/device/device.c`. The devices on the bus are put into a list of
records that `malloc` returns, of which some fields are filled, and each driver is linked to the
first device it matches. The comparison takes in the bus type, which is not filled, and all ten
characters of the names, which end in spaces for devices and in zeros for drivers.

There are fewer than `2 ^ 16` drivers, since each has a node in the data memory, and `malloc` finds
space for five devices.

## Main definitions

* `detectDevices`, `linkDriver`, `initiateDeviceTable`: the table, and the drivers behind it
* `Serves`, `linkedByHardware`: the devices a driver is for, and the link that follows from them
* `LinksByHardware`: the links depend only on the hardware

## Main results

* `initiateDeviceTable_eq`: the links, driver by driver
* `linksByHardware_iff`: when they depend only on the hardware
-/

namespace MicroKernel.Devices

open Command (space)
open CString (stringCompare stringCompare_eq)
open Fs (Fault ok_bind)

/-! ## The devices -/

/-- The name of a device, as it is read from the bus. -/
def busName (bus : UInt32 → UInt8) (hardwareAddress : UInt32) : List UInt8 :=
  (List.range 10).map fun i => bus (hardwareAddress + UInt32.ofNat i + 1)

/-- The loop that blanks a name from its first space on. -/
def blankName : (checkFinished : Bool) → List UInt8 → List UInt8
  | _, [] => []
  | checkFinished, c :: name =>
    let checkFinished := c == space || checkFinished
    (if checkFinished then space else c) :: blankName checkFinished name

/-- The device at a slot, in the record `heap slot`. -/
def detectDevice (board : Board) (bus : UInt32 → UInt8) (heap : ℕ → Device) (slot : ℕ) :
    Option Device :=
  let hardwareAddress := slotAddress board slot
  let deviceID := bus hardwareAddress
  if deviceID = 0xff then none
  else
    let name := blankName false (busName bus hardwareAddress)
    some { heap slot with
      deviceId := deviceID
      deviceName := fun i => name.getD i 0
      hardwareAddress := hardwareAddress
      hardwareSlot := UInt8.ofNat slot }

/-- `DeviceTableHead`, with the devices of `NUMBER_OF_PERIPHERALS` slots. -/
def detectDevices (board : Board) (bus : UInt32 → UInt8) (heap : ℕ → Device) : List Device :=
  (List.range 5).filterMap (detectDevice board bus heap)

/-! ## The drivers -/

/-- The record of a driver that is linked to a device. -/
def Driver.linkTo (hardwareSlot : UInt8) (hardwareAddress : UInt32) (driver : Driver) : Driver where
  device := { driver.device with
    hardwareSlot := hardwareSlot
    hardwareAddress := hardwareAddress }
  isLinked := 1

/-- The loop over the devices for one driver. -/
def linkDriver (driver : Driver) : List Device → Except Fault Driver
  | [] => return driver
  | device :: devices => do
    -- Check hardware validation
    if driver.device.deviceId ≠ device.deviceId ∨
        driver.device.bus.busType ≠ device.bus.busType then
      linkDriver driver devices
    else if (← stringCompare driver.device.name 10 device.name 10) = 0 then
      linkDriver driver devices
    else return driver.linkTo device.hardwareSlot device.hardwareAddress

/-- One iteration of the loop over the drivers, whose index has 16 bits. -/
def linkIndex (devices : List Device) (drivers : List Driver) (i : ℕ) :
    Except Fault (List Driver) := do
  let index := UInt8.ofNat i
  let driver ← getDriverByIndex drivers index
  return drivers.set index.toNat (← linkDriver driver devices)

/-- The device table, and the drivers. -/
def initiateDeviceTable (board : Board) (bus : UInt32 → UInt8) (heap : ℕ → Device)
    (drivers : List Driver) : Except Fault (List Device × List Driver) := do
  let devices := detectDevices board bus heap
  let drivers ← (List.range drivers.length).foldlM (linkIndex devices) drivers
  return (devices, drivers)

/-! ## What the hardware decides -/

/-- A name up to its first space or zero byte. -/
def cutName (name : List UInt8) : List UInt8 := name.takeWhile fun c => c ≠ space ∧ c ≠ 0

/-- There is a device at the slot, with the id and the name of the driver. -/
def Serves (board : Board) (bus : UInt32 → UInt8) (driver : Driver) (slot : ℕ) : Prop :=
  bus (slotAddress board slot) ≠ 0xff ∧ driver.device.deviceId = bus (slotAddress board slot) ∧
    cutName (List.ofFn driver.device.deviceName) = cutName (busName bus (slotAddress board slot))

/-- The bus type, and all characters of the name, are those in the record of the slot. -/
def SameRecord (board : Board) (bus : UInt32 → UInt8) (heap : ℕ → Device) (driver : Driver)
    (slot : ℕ) : Prop :=
  driver.device.bus.busType = (heap slot).bus.busType ∧
    List.ofFn driver.device.deviceName = blankName false (busName bus (slotAddress board slot))

instance (board : Board) (bus : UInt32 → UInt8) (driver : Driver) (slot : ℕ) :
    Decidable (Serves board bus driver slot) :=
  inferInstanceAs (Decidable (_ ∧ _))

instance (board : Board) (bus : UInt32 → UInt8) (heap : ℕ → Device) (driver : Driver) (slot : ℕ) :
    Decidable (SameRecord board bus heap driver slot) :=
  inferInstanceAs (Decidable (_ ∧ _))

/-- The driver, linked to the device in the lowest slot it is for. -/
def linkedByHardware (board : Board) (bus : UInt32 → UInt8) (driver : Driver) : Driver :=
  match (List.range 5).find? fun slot => Serves board bus driver slot with
  | some slot => driver.linkTo (UInt8.ofNat slot) (slotAddress board slot)
  | none => driver

/-- The driver, linked to the first device it is for with the same record. -/
def linkedByRecord (board : Board) (bus : UInt32 → UInt8) (heap : ℕ → Device) (driver : Driver) :
    Driver :=
  match (List.range 5).find? fun slot =>
      Serves board bus driver slot ∧ SameRecord board bus heap driver slot with
  | some slot => driver.linkTo (UInt8.ofNat slot) (slotAddress board slot)
  | none => driver

/-- The links are those that the hardware decides, and the same for other contents of the heap. -/
structure LinksByHardware (board : Board) (bus : UInt32 → UInt8) (drivers : List Driver)
    (heap heap' : ℕ → Device) : Prop where
  linked : (initiateDeviceTable board bus heap drivers).map Prod.snd =
    .ok (drivers.map (linkedByHardware board bus))
  same : (initiateDeviceTable board bus heap' drivers).map Prod.snd =
    (initiateDeviceTable board bus heap drivers).map Prod.snd

/-- The links are right driver by driver: the device the hardware decides has the same record, or
the driver is linked to it already and there is no other such device. -/
def LinksRight (board : Board) (bus : UInt32 → UInt8) (drivers : List Driver)
    (heap : ℕ → Device) : Prop :=
  ∀ i (_ : i < drivers.length) slot,
    (List.range 5).find? (fun slot => Serves board bus drivers[i] slot) = some slot →
    (i < 256 ∧ SameRecord board bus heap drivers[i] slot) ∨
    (drivers[i].linkTo (UInt8.ofNat slot) (slotAddress board slot) = drivers[i] ∧
      (i < 256 → ∀ other < 5, Serves board bus drivers[i] other →
        ¬ SameRecord board bus heap drivers[i] other))

section Names

variable {checkFinished : Bool} {name : List UInt8}

@[simp] theorem length_blankName : (blankName checkFinished name).length = name.length := by
  induction name generalizing checkFinished with
  | nil => rfl
  | cons c name ih => rw [blankName, List.length_cons, ih, List.length_cons]

/-- A name is cut before it is blanked. -/
theorem cutName_blankName (name : List UInt8) : cutName (blankName false name) = cutName name := by
  induction name with
  | nil => rfl
  | cons c name ih =>
    rw [cutName] at ih
    rcases eq_or_ne c space with rfl | hne
    · rfl
    · have hfalse : (c == space || false) = false := by simpa using hne
      rw [blankName, hfalse, cutName, cutName, List.takeWhile_cons, List.takeWhile_cons, ih]
      rfl

/-- The comparison of the names of two records. -/
theorem stringCompare_ten (device device' : Device) :
    stringCompare device.name 10 device'.name 10 =
      .ok (if List.ofFn device.deviceName = List.ofFn device'.deviceName then 1 else 0) := by
  rw [stringCompare_eq (by decide) (by decide)]
  refine congrArg Except.ok (if_congr ?_ rfl rfl)
  rw [List.ofFn_inj, funext_iff]
  refine forall_congr' fun i => ?_
  have hten : i.val < (10 : UInt8).toNat := i.isLt
  rw [if_pos hten, if_pos hten, Device.name_val, Device.name_val]

end Names

section Links

variable {board : Board} {bus : UInt32 → UInt8} {heap : ℕ → Device} {driver : Driver}
  {drivers : List Driver} {slot n i : ℕ}

/-- The record of a device in a slot. -/
theorem ofFn_detectDevice :
    (List.ofFn fun i : Fin 10 =>
      (blankName false (busName bus (slotAddress board slot))).getD i 0) =
      blankName false (busName bus (slotAddress board slot)) := by
  have hlength : (blankName false (busName bus (slotAddress board slot))).length = 10 := by
    rw [length_blankName, busName, List.length_map, List.length_range]
  refine List.ext_getElem (by rw [List.length_ofFn, hlength]) fun i _ hi => ?_
  rw [List.getElem_ofFn, List.getD_eq_getElem _ _ hi]

/-- **The loop over the devices** stops at the first slot the driver is for, with the same record. -/
theorem linkDriver_filterMap (slots : List ℕ) :
    linkDriver driver (slots.filterMap (detectDevice board bus heap)) =
      .ok (match slots.find? fun slot =>
          Serves board bus driver slot ∧ SameRecord board bus heap driver slot with
        | some slot => driver.linkTo (UInt8.ofNat slot) (slotAddress board slot)
        | none => driver) := by
  induction slots with
  | nil => rfl
  | cons slot slots ih =>
    by_cases hnone : bus (slotAddress board slot) = 0xff
    · have hserves : ¬ (Serves board bus driver slot ∧ SameRecord board bus heap driver slot) :=
        fun h => h.1.1 hnone
      have hdetect : detectDevice board bus heap slot = none := if_pos hnone
      rw [List.filterMap_cons_none hdetect, ih, List.find?_cons_of_neg (by simpa using hserves)]
    · have hdetect : detectDevice board bus heap slot = some _ := if_neg hnone
      rw [List.filterMap_cons_some hdetect, linkDriver]
      simp only [stringCompare_ten, ofFn_detectDevice, ok_bind]
      by_cases hserves : Serves board bus driver slot ∧ SameRecord board bus heap driver slot
      · have ⟨⟨_, hid, _⟩, htype, hname⟩ := hserves
        rw [List.find?_cons_of_pos (by simpa using hserves),
          if_neg (not_or.mpr ⟨not_not.mpr hid, not_not.mpr htype⟩), if_pos hname, if_neg (by decide)]
        rfl
      · rw [List.find?_cons_of_neg (by simpa using hserves), ← ih]
        split
        · rfl
        · next hsame =>
          rw [not_or, not_not, not_not] at hsame
          rw [if_neg fun hname => hserves ⟨⟨hnone, hsame.1, ?_⟩, hsame.2, hname⟩, if_pos rfl]
          rw [hname, cutName_blankName]

theorem linkDriver_eq :
    linkDriver driver (detectDevices board bus heap) =
      .ok (linkedByRecord board bus heap driver) := linkDriver_filterMap _

/-- A driver that is linked once more stays as it is. -/
theorem linkedByRecord_linkedByRecord :
    linkedByRecord board bus heap (linkedByRecord board bus heap driver) =
      linkedByRecord board bus heap driver := by
  have hlink : ∀ s a, linkedByRecord board bus heap (driver.linkTo s a) =
      match (List.range 5).find? fun slot =>
        Serves board bus driver slot ∧ SameRecord board bus heap driver slot with
      | some slot => driver.linkTo (UInt8.ofNat slot) (slotAddress board slot)
      | none => driver.linkTo s a := fun _ _ => rfl
  cases hfind : (List.range 5).find? fun slot =>
      (Serves board bus driver slot ∧ SameRecord board bus heap driver slot : Prop) with
  | none =>
    have hself : linkedByRecord board bus heap driver = driver := by
      rw [linkedByRecord, hfind]
    rw [hself, hself]
  | some slot =>
    have hself : linkedByRecord board bus heap driver =
        driver.linkTo (UInt8.ofNat slot) (slotAddress board slot) := by
      rw [linkedByRecord, hfind]
    rw [hself, hlink, hfind]

/-- The table behind the first `n` iterations: an index of 8 bits links no driver from 256 on. -/
theorem foldlM_linkIndex (hn : n ≤ drivers.length) :
    (List.range n).foldlM (linkIndex (detectDevices board bus heap)) drivers =
      .ok (drivers.mapIdx fun i driver =>
        if i < n ∧ i < 256 then linkedByRecord board bus heap driver else driver) := by
  induction n with
  | zero =>
    refine congrArg Except.ok (List.ext_getElem (by simp) fun i _ _ => ?_)
    rw [List.getElem_mapIdx, if_neg (by omega)]
  | succ n ih =>
    rw [List.range_succ, List.foldlM_append, ih (by omega), ok_bind, List.foldlM_cons]
    have hval : (UInt8.ofNat n).toNat = n % 256 := UInt8.toNat_ofNat'
    have hlt : (UInt8.ofNat n).toNat < drivers.length := by
      have := Nat.mod_le n 256
      omega
    rw [linkIndex, getDriverByIndex_of_lt (by rwa [List.length_mapIdx])]
    simp only [ok_bind, linkDriver_eq, List.getElem_mapIdx]
    refine congrArg Except.ok (List.ext_getElem (by simp) fun j hj hj' => ?_)
    rw [List.getElem_set, List.getElem_mapIdx, List.getElem_mapIdx]
    split
    · next heq =>
      subst heq
      rw [if_pos (c := _ < n + 1 ∧ _) (by omega)]
      split
      · exact linkedByRecord_linkedByRecord
      · rfl
    · next hne => exact if_congr (by omega) rfl rfl

/-- **The links**, driver by driver. -/
theorem initiateDeviceTable_eq :
    initiateDeviceTable board bus heap drivers =
      .ok (detectDevices board bus heap, drivers.mapIdx fun i driver =>
        if i < 256 then linkedByRecord board bus heap driver else driver) := by
  have hall : (drivers.mapIdx fun i driver =>
        if i < drivers.length ∧ i < 256 then linkedByRecord board bus heap driver else driver) =
      drivers.mapIdx fun i driver =>
        if i < 256 then linkedByRecord board bus heap driver else driver := by
    refine List.ext_getElem (by simp) fun i hi _ => ?_
    rw [List.length_mapIdx] at hi
    rw [List.getElem_mapIdx, List.getElem_mapIdx]
    exact if_congr (and_iff_right hi) rfl rfl
  rw [initiateDeviceTable]
  simp only [foldlM_linkIndex le_rfl, ok_bind, hall]
  rfl

/-- The first slot of two conditions is the first slot of one, if it meets the other. -/
theorem find?_and_eq_some {l : List ℕ} {p q : ℕ → Prop} [DecidablePred p] [DecidablePred q]
    (hfind : l.find? (fun slot => p slot) = some slot) (hq : q slot) :
    l.find? (fun slot => p slot ∧ q slot) = some slot := by
  obtain ⟨hp, as, bs, rfl, has⟩ := List.find?_eq_some_iff_append.mp hfind
  refine List.find?_eq_some_iff_append.mpr ⟨by simpa using ⟨by simpa using hp, hq⟩, as, bs, rfl, ?_⟩
  intro a ha
  have hnot : ¬ p a := by simpa using has a ha
  simpa using Or.inl hnot

/-- **A driver is linked as the hardware decides** if the device it is for has the same record. -/
theorem linkedByRecord_eq_iff :
    linkedByRecord board bus heap driver = linkedByHardware board bus driver ↔
      ∀ slot, (List.range 5).find? (fun slot => Serves board bus driver slot) = some slot →
        SameRecord board bus heap driver slot ∨
        (driver.linkTo (UInt8.ofNat slot) (slotAddress board slot) = driver ∧
          ∀ other < 5, Serves board bus driver other → ¬ SameRecord board bus heap driver other) := by
  rw [linkedByHardware]
  cases hfind : (List.range 5).find? fun slot => (Serves board bus driver slot : Prop) with
  | none =>
    -- the driver is for no device, so it is linked to none
    have hnone : (List.range 5).find? (fun slot =>
        Serves board bus driver slot ∧ SameRecord board bus heap driver slot) = none := by
      rw [List.find?_eq_none] at hfind ⊢
      intro slot hslot
      simpa using fun h => absurd h (by simpa using hfind slot hslot)
    refine iff_of_true ?_ fun _ heq => by simp at heq
    rw [linkedByRecord, hnone]
  | some slot =>
    have hlt := List.mem_range.mp (List.mem_of_find?_eq_some hfind)
    have hserves : Serves board bus driver slot := by simpa using List.find?_some hfind
    simp only [Option.some.injEq, forall_eq']
    cases hfind' : (List.range 5).find? fun slot =>
        (Serves board bus driver slot ∧ SameRecord board bus heap driver slot : Prop) with
    | none =>
      -- no device has the record of the driver, which is right if it is linked already
      have hself : linkedByRecord board bus heap driver = driver := by rw [linkedByRecord, hfind']
      rw [List.find?_eq_none] at hfind'
      have hother : ∀ other < 5, Serves board bus driver other →
          ¬ SameRecord board bus heap driver other := fun other hlt => by
        simpa using hfind' other (List.mem_range.mpr hlt)
      rw [hself]
      exact ⟨fun h => .inr ⟨h.symm, hother⟩,
        fun h => h.elim (fun hsame => absurd hsame (hother slot hlt hserves)) fun h => h.1.symm⟩
    | some slot' =>
      have hself : linkedByRecord board bus heap driver =
          driver.linkTo (UInt8.ofNat slot') (slotAddress board slot') := by
        rw [linkedByRecord, hfind']
      have hlt' := List.mem_range.mp (List.mem_of_find?_eq_some hfind')
      have hboth : Serves board bus driver slot' ∧ SameRecord board bus heap driver slot' := by
        simpa using List.find?_some hfind'
      rw [hself]
      constructor
      · intro h
        -- a linked driver tells the slot
        have hslot := congrArg (fun d => d.device.hardwareSlot.toNat) h
        simp only [Driver.linkTo, UInt8.toNat_ofNat'] at hslot
        obtain rfl : slot' = slot := by omega
        exact .inl hboth.2
      · rintro (hsame | ⟨_, hother⟩)
        · rw [find?_and_eq_some hfind hsame] at hfind'
          rw [Option.some.inj hfind']
        · exact absurd hboth.2 (hother slot' hlt' hboth.1)

theorem linked_iff :
    (initiateDeviceTable board bus heap drivers).map Prod.snd =
      .ok (drivers.map (linkedByHardware board bus)) ↔ LinksRight board bus drivers heap := by
  have hmap : (initiateDeviceTable board bus heap drivers).map Prod.snd =
      .ok (drivers.mapIdx fun i driver =>
        if i < 256 then linkedByRecord board bus heap driver else driver) := by
    rw [initiateDeviceTable_eq]
    rfl
  rw [hmap, Except.ok.injEq, List.ext_getElem_iff, and_iff_right (by simp)]
  simp only [List.length_mapIdx, List.length_map, List.getElem_mapIdx, List.getElem_map]
  have hindex : ∀ i (_ : i < drivers.length),
      ((if i < 256 then linkedByRecord board bus heap drivers[i] else drivers[i]) =
        linkedByHardware board bus drivers[i] ↔ ∀ slot,
          (List.range 5).find? (fun slot => Serves board bus drivers[i] slot) = some slot →
          (i < 256 ∧ SameRecord board bus heap drivers[i] slot) ∨
          (drivers[i].linkTo (UInt8.ofNat slot) (slotAddress board slot) = drivers[i] ∧
            (i < 256 → ∀ other < 5, Serves board bus drivers[i] other →
              ¬ SameRecord board bus heap drivers[i] other))) := by
    intro i hi
    by_cases hi256 : i < 256
    · rw [if_pos hi256, linkedByRecord_eq_iff]
      simp only [hi256, true_and, forall_const]
    · -- the driver is never looked at
      rw [if_neg hi256, linkedByHardware]
      simp only [hi256, false_and, false_or, false_implies, and_true]
      cases (List.range 5).find? fun slot => (Serves board bus drivers[i] slot : Prop) with
      | none => simp
      | some slot =>
        simp only [Option.some.injEq, forall_eq']
        exact eq_comm
  exact ⟨fun h i hi => (hindex i hi).mp (h i hi hi), fun h i hi _ => (hindex i hi).mpr (h i hi)⟩

end Links

/-- **The links depend only on the hardware** if, for either content of the heap, they are right
driver by driver. -/
theorem linksByHardware_iff (board : Board) (bus : UInt32 → UInt8) (drivers : List Driver)
    (heap heap' : ℕ → Device) :
    LinksByHardware board bus drivers heap heap' ↔
      LinksRight board bus drivers heap ∧ LinksRight board bus drivers heap' := by
  rw [← linked_iff, ← linked_iff]
  exact ⟨fun h => ⟨h.linked, h.same.trans h.linked⟩, fun h => ⟨h.1, h.2.trans h.1.symm⟩⟩

/-- The driver of the display behind `initiateDisplayDriver`, whose record starts with zeros. -/
def displayDriver (board : Board) : Driver where
  device :=
    { deviceName := fun i => (['d', 'i', 's', 'p', 'l', 'a', 'y'].map Char.toUInt8).getD i 0
      deviceId := 0x10
      deviceClass := 0
      hardwareSlot := 0
      hardwareAddress := board.peripheralAddressBegin
      bus := ⟨8, 8, 0⟩ }
  isLinked := 0

/-- The display alone on the bus, its name padded with spaces. -/
def displayBus (board : Board) (address : UInt32) : UInt8 :=
  if address = slotAddress board 0 then 0x10
  else if address < slotAddress board 0 + 11 then
    (['d', 'i', 's', 'p', 'l', 'a', 'y'].map Char.toUInt8).getD
      (address - slotAddress board 0 - 1).toNat space
  else 0xff

/-- The driver of the display is not linked to it, since its name ends in zeros. -/
theorem exists_not_linksByHardware :
    ∃ board bus drivers heap heap', ¬ LinksByHardware board bus drivers heap heap' := by
  let heap : ℕ → Device := fun _ => ⟨fun _ => 0, 0, 0, 0, 0, ⟨0, 0, 0⟩⟩
  refine ⟨.retroboardRev2, displayBus .retroboardRev2, [displayDriver .retroboardRev2], heap, heap,
    fun h => ?_⟩
  have hright := linked_iff.mp h.linked 0 (by decide) 0 (by decide)
  rcases hright with ⟨_, _, hname⟩ | ⟨hlinked, _⟩
  · exact absurd hname (by decide)
  · exact absurd (congrArg Driver.isLinked hlinked) (by decide)

end MicroKernel.Devices
