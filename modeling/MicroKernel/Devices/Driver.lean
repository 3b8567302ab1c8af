import MicroKernel.CString
import Mathlib.Data.List.OfFn

/-!
# The driver table

The records of `kernel/device/device.h` and `kernel/driver/driver.h`, and the lookups of
`kernel/driver/driver.c`. A driver is found by its place in the table. The names are compared over
the requested length, so a name that only begins with the requested one is found too.

## Main definitions

* `Bus`, `Device`, `Driver`: the records
* `getDriverByIndex`, `getDriverByName`: the lookups
* `Driver.HasName`, `Driver.BeginsWith`: a driver has a name, and what is compared
* `FindsByName`: the lookup finds the first driver of a name

## Main results

* `findDriver_skip`: the drivers that are passed over
* `findsByName_iff`: when the lookup is exact
-/

namespace MicroKernel.Devices

open CString (stringCompare stringCompare_eq stringCompare_of_lt)
open Command (space)
open Fs (Fault ok_bind)

structure Bus where
  readWaitstate : UInt16
  writeWaitstate : UInt16
  busType : UInt8

structure Device where
  deviceName : Fin 10 → UInt8
  deviceId : UInt8
  deviceClass : UInt8
  hardwareSlot : UInt8
  hardwareAddress : UInt32
  bus : Bus

structure Driver where
  device : Device
  isLinked : UInt8

/-- The characters behind `device_name`: a comparison that goes past it stops before. -/
def Device.name (device : Device) (i : ℕ) : UInt8 :=
  if h : i < 10 then device.deviceName ⟨i, h⟩ else 0

def getDriverByIndex (drivers : List Driver) (index : UInt8) : Except Fault Driver :=
  match drivers[index.toNat]? with
  | some driver => .ok driver
  | none => .error .outOfBounds

/-- The loop of `GetDriverByName` from `index` on, with at most `limit` iterations. -/
def findDriver (drivers : List Driver) (name : ℕ → UInt8) (nameLength : UInt8) :
    (limit : ℕ) → (index : UInt8) → Except Fault (Option ℕ)
  | 0, _ => .error .diverges
  | limit + 1, index => do
    if index.toNat < drivers.length then
      let driver ← getDriverByIndex drivers index
      if (← stringCompare driver.device.name nameLength name nameLength) = 1 then
        return some index.toNat
      else findDriver drivers name nameLength limit (index + 1)
    else return none

/-- The place of the driver in the table, with at most `limit` iterations. -/
def getDriverByName (limit : ℕ) (drivers : List Driver) (name : ℕ → UInt8) (nameLength : UInt8) :
    Except Fault (Option ℕ) :=
  findDriver drivers name nameLength limit 0

/-- The name of the driver is the requested one, padded with spaces. -/
def Driver.HasName (name : ℕ → UInt8) (nameLength : ℕ) (driver : Driver) : Prop :=
  List.ofFn driver.device.deviceName = ((List.range nameLength).map name).rightpad 10 space

/-- The name of the driver begins with the requested one. -/
def Driver.BeginsWith (name : ℕ → UInt8) (nameLength : ℕ) (driver : Driver) : Prop :=
  ∀ i : Fin 10, i < nameLength → driver.device.deviceName i = name i

instance (name : ℕ → UInt8) (nameLength : ℕ) (driver : Driver) :
    Decidable (driver.HasName name nameLength) :=
  inferInstanceAs (Decidable (_ = _))

instance (name : ℕ → UInt8) (nameLength : ℕ) (driver : Driver) :
    Decidable (driver.BeginsWith name nameLength) :=
  inferInstanceAs (Decidable (∀ _, _))

/-- The lookup ends, inside its buffers, with the first driver of the requested name. -/
def FindsByName (drivers : List Driver) (name : ℕ → UInt8) (nameLength : UInt8) : Prop :=
  ∃ limit, getDriverByName limit drivers name nameLength =
    .ok (drivers.findIdx? fun driver => driver.HasName name nameLength.toNat)

section Names

variable {name : ℕ → UInt8} {n : ℕ} {driver : Driver}

/-- A padded name, character by character. -/
theorem Driver.hasName_iff (hn : n ≤ 10) :
    driver.HasName name n ↔
      ∀ i : Fin 10, driver.device.deviceName i = if i < n then name i else space := by
  have hpad : ((List.range n).map name).rightpad 10 space =
      List.ofFn fun i : Fin 10 => if i < n then name i else space := by
    refine List.ext_getElem (by simp [hn]) fun i _ hi => ?_
    rw [List.getElem_ofFn]
    simp only [List.rightpad, List.length_map, List.length_range]
    rcases Nat.lt_or_ge i n with hlt | hge
    · rw [if_pos hlt, List.getElem_append_left (by simpa using hlt), List.getElem_map,
        List.getElem_range]
    · rw [if_neg (not_lt.mpr hge), List.getElem_append_right (by simpa using hge),
        List.getElem_replicate]
  rw [Driver.HasName, hpad, List.ofFn_inj]
  exact funext_iff

/-- No driver has a name of more than ten characters. -/
theorem Driver.not_hasName (hn : 10 < n) : ¬ driver.HasName name n := by
  intro h
  have hlength := congrArg List.length h
  rw [List.length_ofFn, List.length_rightpad, List.length_map, List.length_range] at hlength
  omega

theorem Driver.HasName.beginsWith (h : driver.HasName name n) : driver.BeginsWith name n := by
  intro i hi
  rcases Nat.lt_or_ge 10 n with hgt | hle
  · exact absurd h (Driver.not_hasName hgt)
  · rw [(Driver.hasName_iff hle).mp h i, if_pos hi]

theorem Device.name_val (device : Device) (i : Fin 10) : device.name i = device.deviceName i :=
  dif_pos i.isLt

/-- **The comparison** of a name is one of its beginning. -/
theorem stringCompare_name {nameLength : UInt8} (hn : nameLength.toNat ≤ 10) :
    stringCompare driver.device.name nameLength name nameLength =
      .ok (if driver.BeginsWith name nameLength.toNat then 1 else 0) := by
  rw [stringCompare_eq hn hn]
  refine congrArg Except.ok (if_congr (forall_congr' fun i => ?_) rfl rfl)
  rw [Device.name_val]
  by_cases hi : i.val < nameLength.toNat
  · rw [if_pos hi, if_pos hi]
    exact ⟨fun h _ => h, fun h => h hi⟩
  · rw [if_neg hi, if_neg hi]
    exact iff_of_true rfl fun h => absurd h hi

end Names

section Lookup

variable {drivers : List Driver} {name : ℕ → UInt8} {nameLength : UInt8} {limit n i : ℕ}
  {index : UInt8}

theorem getDriverByIndex_of_lt (h : index.toNat < drivers.length) :
    getDriverByIndex drivers index = .ok drivers[index.toNat] := by
  rw [getDriverByIndex, List.getElem?_eq_getElem h]

/-- An iteration of the loop. -/
theorem findDriver_succ (hn : nameLength.toNat ≤ 10) (h : index.toNat < drivers.length) :
    findDriver drivers name nameLength (limit + 1) index =
      if drivers[index.toNat].BeginsWith name nameLength.toNat then .ok (some index.toNat)
      else findDriver drivers name nameLength limit (index + 1) := by
  rw [findDriver, if_pos h, getDriverByIndex_of_lt h]
  simp only [ok_bind, stringCompare_name hn]
  split
  · rfl
  · rfl

/-- **The drivers that are passed over** are those of other names. The index is back at zero behind
256 of them. -/
theorem findDriver_skip (hn : nameLength.toNat ≤ 10) (hle : n ≤ drivers.length) (hn256 : n ≤ 256)
    (hskip : ∀ j (hj : j < n), ¬ drivers[j].BeginsWith name nameLength.toNat) :
    findDriver drivers name nameLength (n + limit) 0 =
      findDriver drivers name nameLength limit (UInt8.ofNat n) := by
  induction n generalizing limit with
  | zero => rw [Nat.zero_add]; rfl
  | succ n ih =>
    have hval : (UInt8.ofNat n).toNat = n := by
      rw [UInt8.toNat_ofNat', Nat.mod_eq_of_lt (by omega)]
    have hlt : (UInt8.ofNat n).toNat < drivers.length := by omega
    have hnot : ¬ drivers[(UInt8.ofNat n).toNat].BeginsWith name nameLength.toNat := by
      simp only [hval]
      exact hskip n (Nat.lt_succ_self n)
    rw [Nat.add_assoc, ih (by omega) (by omega) fun j hj => hskip j (hj.trans (Nat.lt_succ_self n)),
      Nat.add_comm 1 limit, findDriver_succ hn hlt, if_neg hnot, UInt8.ofNat_add]
    rfl

/-- The lookup does not end among the drivers that are passed over. -/
theorem findDriver_of_le (hn : nameLength.toNat ≤ 10) (hle : n ≤ drivers.length) (hn256 : n ≤ 256)
    (hskip : ∀ j (hj : j < n), ¬ drivers[j].BeginsWith name nameLength.toNat) (hlimit : limit ≤ n) :
    findDriver drivers name nameLength limit 0 = .error .diverges := by
  have hdiverges : findDriver drivers name nameLength (limit + 0) 0 = .error .diverges :=
    findDriver_skip hn (hlimit.trans hle) (hlimit.trans hn256) fun j hj =>
      hskip j (hj.trans_le hlimit)
  rwa [Nat.add_zero] at hdiverges

/-- The lookup ends at the first driver whose name begins with the requested one. -/
theorem findDriver_of_beginsWith (hn : nameLength.toNat ≤ 10) (hi : i < drivers.length)
    (hi256 : i < 256) (hbegins : drivers[i].BeginsWith name nameLength.toNat)
    (hskip : ∀ j (hj : j < i), ¬ drivers[j].BeginsWith name nameLength.toNat) :
    findDriver drivers name nameLength (i + (limit + 1)) 0 = .ok (some i) := by
  have hval : (UInt8.ofNat i).toNat = i := by
    rw [UInt8.toNat_ofNat', Nat.mod_eq_of_lt hi256]
  have hlt : (UInt8.ofNat i).toNat < drivers.length := by omega
  rw [findDriver_skip hn hi.le hi256.le hskip, findDriver_succ hn hlt]
  simp only [hval, if_pos hbegins]

/-- The loop ends behind a table of fewer than 256 drivers. -/
theorem findDriver_of_length_lt (hn : nameLength.toNat ≤ 10) (hlength : drivers.length < 256)
    (hskip : ∀ j (hj : j < drivers.length), ¬ drivers[j].BeginsWith name nameLength.toNat) :
    findDriver drivers name nameLength (drivers.length + 1) 0 = .ok none := by
  have hval : (UInt8.ofNat drivers.length).toNat = drivers.length := by
    rw [UInt8.toNat_ofNat', Nat.mod_eq_of_lt hlength]
  rw [findDriver_skip hn le_rfl hlength.le hskip, findDriver, if_neg (by omega)]
  rfl

theorem findsByName_iff_hasName (hn : nameLength.toNat ≤ 10) (hi : i < drivers.length)
    (hi256 : i < 256) (hbegins : drivers[i].BeginsWith name nameLength.toNat)
    (hskip : ∀ j (hj : j < i), ¬ drivers[j].BeginsWith name nameLength.toNat) :
    FindsByName drivers name nameLength ↔ drivers[i].HasName name nameLength.toNat := by
  have hidx : drivers.findIdx? (fun d => d.HasName name nameLength.toNat) = some i ↔
      drivers[i].HasName name nameLength.toNat := by
    rw [List.findIdx?_eq_some_iff_getElem]
    refine ⟨fun ⟨_, h, _⟩ => by simpa using h, fun h => ⟨hi, by simpa using h, fun j hj => ?_⟩⟩
    simpa using fun h => hskip j hj (Driver.HasName.beginsWith h)
  rw [← hidx]
  constructor
  · rintro ⟨limit, hlimit⟩
    rcases Nat.lt_or_ge i limit with hlt | hge
    · obtain ⟨m, rfl⟩ := Nat.exists_eq_add_of_lt hlt
      rw [getDriverByName, Nat.add_assoc, findDriver_of_beginsWith hn hi hi256 hbegins hskip]
        at hlimit
      exact (Except.ok.inj hlimit).symm
    · rw [getDriverByName, findDriver_of_le hn hi.le hi256.le hskip hge] at hlimit
      cases hlimit
  · intro h
    refine ⟨i + (0 + 1), ?_⟩
    rw [getDriverByName, findDriver_of_beginsWith hn hi hi256 hbegins hskip, h]

theorem findsByName_iff_length_lt (hn : nameLength.toNat ≤ 10)
    (hskip : ∀ j (_ : j < drivers.length), j < 256 →
      ¬ drivers[j].BeginsWith name nameLength.toNat) :
    FindsByName drivers name nameLength ↔ drivers.length < 256 := by
  constructor
  · rintro ⟨limit, hlimit⟩
    by_contra hge
    -- 256 drivers are passed over, and the index starts again
    have hall : ∀ limit, findDriver drivers name nameLength limit 0 = .error .diverges := by
      intro limit
      induction limit using Nat.strong_induction_on with
      | h limit ih =>
        rcases Nat.lt_or_ge 256 limit with hlt | hle
        · obtain ⟨m, rfl⟩ := Nat.exists_eq_add_of_le hlt.le
          rw [findDriver_skip hn (not_lt.mp hge) le_rfl fun j hj => hskip j (by omega) hj]
          exact ih m (by omega)
        · exact findDriver_of_le hn (not_lt.mp hge) le_rfl (fun j hj => hskip j (by omega) hj) hle
    rw [getDriverByName, hall] at hlimit
    cases hlimit
  · intro hlength
    have hnone : drivers.findIdx? (fun d => d.HasName name nameLength.toNat) = none := by
      rw [List.findIdx?_eq_none_iff]
      intro driver hmem
      obtain ⟨j, hj, rfl⟩ := List.getElem_of_mem hmem
      simpa using fun h => hskip j hj (by omega) (Driver.HasName.beginsWith h)
    refine ⟨drivers.length + 1, ?_⟩
    rw [getDriverByName, findDriver_of_length_lt hn hlength fun j hj => hskip j hj (by omega), hnone]

/-- A first comparison of more than ten characters overruns the buffers. -/
theorem not_findsByName (hpos : 0 < drivers.length) (hn : 10 < nameLength.toNat) :
    ¬ FindsByName drivers name nameLength := by
  rintro ⟨_ | limit, hlimit⟩
  · cases show Except.error Fault.diverges = _ from hlimit
  · have hzero : (0 : UInt8).toNat < drivers.length := hpos
    rw [getDriverByName, findDriver, if_pos hzero, getDriverByIndex_of_lt hzero] at hlimit
    simp only [ok_bind, stringCompare_of_lt hn] at hlimit
    cases show Except.error Fault.outOfBounds = _ from hlimit

end Lookup

/-- **The lookup is exact** if the requested name fits the buffers, the first driver it compares
equal to has that name, and there is an end to the table otherwise. -/
theorem findsByName_iff (drivers : List Driver) (name : ℕ → UInt8) (nameLength : UInt8) :
    FindsByName drivers name nameLength ↔
      (drivers = [] ∨ nameLength.toNat ≤ 10) ∧
      (∀ driver, (drivers.take 256).find? (fun d => d.BeginsWith name nameLength.toNat) =
        some driver → driver.HasName name nameLength.toNat) ∧
      ((∀ driver ∈ drivers.take 256, ¬ driver.BeginsWith name nameLength.toNat) →
        drivers.length < 256) := by
  rcases eq_or_ne drivers [] with rfl | hne
  · exact iff_of_true ⟨1, rfl⟩ ⟨.inl rfl, fun _ h => by simp at h, fun _ => by simp⟩
  rcases Nat.lt_or_ge 10 nameLength.toNat with hgt | hn
  · exact iff_of_false (not_findsByName (List.length_pos_of_ne_nil hne) hgt)
      fun h => h.1.elim hne (not_le.mpr hgt)
  cases hfind : (drivers.take 256).find? (fun d => d.BeginsWith name nameLength.toNat) with
  | some driver =>
    obtain ⟨hbegins, i, hi, rfl, hskip⟩ := List.find?_eq_some_iff_getElem.mp hfind
    rw [List.length_take, lt_min_iff] at hi
    have hmem := List.mem_of_find?_eq_some hfind
    simp only [List.getElem_take, decide_eq_true_iff, Bool.not_eq_true', decide_eq_false_iff_not]
      at hbegins hskip hmem ⊢
    rw [findsByName_iff_hasName hn hi.2 hi.1 hbegins hskip]
    refine ⟨fun h => ⟨.inr hn, fun _ heq => ?_, fun h => absurd hbegins (h _ hmem)⟩,
      fun h => h.2.1 _ rfl⟩
    rwa [← Option.some.inj heq]
  | none =>
    have hnone : ∀ driver ∈ drivers.take 256, ¬ driver.BeginsWith name nameLength.toNat := by
      simpa using hfind
    have hskip : ∀ j (_ : j < drivers.length), j < 256 →
        ¬ drivers[j].BeginsWith name nameLength.toNat := fun j hj hj256 =>
      hnone _ (List.mem_take_iff_getElem.mpr ⟨j, lt_min hj256 hj, rfl⟩)
    rw [findsByName_iff_length_lt hn hskip]
    exact ⟨fun h => ⟨.inr hn, fun _ heq => by simp at heq, fun _ => h⟩,
      fun h => h.2.2 hnone⟩

/-- The display is found by the first letters of its name. -/
theorem exists_not_findsByName :
    ∃ drivers name nameLength, ¬ FindsByName drivers name nameLength := by
  let display : List UInt8 := ['d', 'i', 's', 'p', 'l', 'a', 'y'].map Char.toUInt8
  let device : Device := ⟨fun i => display.getD i space, 0x10, 0, 0, 0x40000, ⟨8, 8, 0⟩⟩
  refine ⟨[⟨device, 0⟩], fun i => display.getD i 0, 4, fun h => ?_⟩
  rw [findsByName_iff_hasName (i := 0) (by decide) (by decide) (by decide) (by decide)
    fun j hj => absurd hj (Nat.not_lt_zero j)] at h
  exact absurd h (by decide)

end MicroKernel.Devices
