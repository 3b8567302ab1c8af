import MicroKernel.Fs.Names
import MicroKernel.Fs.Session

/-!
# Independent header fields

A header packs seven fields into 32 bytes. Each setter writes the bytes of one of them, and each
getter reads the bytes of one: a setter updates what one getter returns, and leaves what the others
return, also of other headers.

## Main definitions

* `HeaderField`, `getField`: the fields of a header, and what their getters return
* `Setter.field`, `Setter.value`: the field a setter writes, and what it makes of it
* `Apart`: headers that share no byte

## Main results

* `getField_of_agreeOff`: a getter depends on the bytes of its field
* `getField_apply`: a setter updates its field, and nothing else
-/

namespace MicroKernel.Fs

open Store

/-! ## Fields -/

inductive HeaderField where
  | name
  | size
  | attributes
  | refCount
  | flag
  | parent
  | next
deriving DecidableEq

namespace HeaderField

def offset : HeaderField → UInt32
  | name => fileOffsetName
  | size => fileOffsetSize
  | attributes => fileOffsetAttributes
  | refCount => fileOffsetRefCount
  | flag => fileOffsetFlag
  | parent => fileOffsetParent
  | next => fileOffsetNext

/-- The number of bytes of a field. -/
def length : HeaderField → ℕ
  | name => fileNameLength
  | flag => 1
  | size | attributes | refCount | parent | next => 4

/-- What the getter of a field returns. A name is returned in a buffer, and a flag for each bit. -/
def Value : HeaderField → Type
  | name => List UInt8 → List UInt8
  | attributes => List UInt8
  | flag => Fin 8 → UInt8
  | size | refCount | parent | next => UInt32

theorem offset_add_length_le (f : HeaderField) : f.offset.toNat + f.length ≤ 32 := by
  cases f <;> decide

/-- Fields do not overlap. -/
theorem disjoint {f g : HeaderField} (hne : f ≠ g) :
    f.offset.toNat + f.length ≤ g.offset.toNat ∨ g.offset.toNat + g.length ≤ f.offset.toNat := by
  revert hne
  cases f <;> cases g <;> decide

end HeaderField

/-- What the getters of a header return. -/
def getField (part : Partition) (handle : FileHandle) (mem : Memory) : (f : HeaderField) → f.Value
  | .name => fun buffer => fsFileGetName part handle buffer mem
  | .size => fsFileGetSize part handle mem
  | .attributes => fsFileGetAttributes part handle mem
  | .refCount => fsDirectoryGetReferenceCount part handle mem
  | .flag => fun index => fsFileGetFlag part handle (UInt8.ofNat index) mem
  | .parent => fsFileGetParentAddress part handle mem
  | .next => fsFileGetNextAddress part handle mem

/-! ## Setters -/

/-- The field a setter writes. -/
def Setter.field : Setter → HeaderField
  | .name _ => .name
  | .attributes _ => .attributes
  | .flag _ _ => .flag
  | .parentAddress _ => .parent
  | .nextAddress _ => .next
  | .referenceCount _ => .refCount

/-- What a setter makes of its field: a name is cut and padded, and the other flags stay. -/
def Setter.value : (setter : Setter) → setter.field.Value → setter.field.Value
  | .name filename, _ => fun buffer => cleanName filename ++ buffer.drop fileNameLength
  | .attributes bytes, _ => bytes.take 4
  | .flag index state, flags => fun i : Fin 8 =>
    if i.val = index.toNat then (if state = 1 then 1 else 0) else flags i
  | .parentAddress parent, _ => parent
  | .nextAddress next, _ => next
  | .referenceCount count, _ => count

/-- Attributes are four bytes, and the flags of a header are eight. -/
def Setter.InRange : Setter → Prop
  | .attributes bytes => 4 ≤ bytes.length
  | .flag index _ => index.toNat < 8
  | _ => True

/-- Two headers of 32 bytes share none, in the address space of 32 bits. -/
def Apart (address address' : UInt32) : Prop :=
  32 ≤ (address' - address).toNat ∧ 32 ≤ (address - address').toNat

/-- The partition that begins with a header. -/
def Partition.atHeader (part : Partition) (handle : FileHandle) : Partition :=
  { part with blockAddress := part.blockAddress + handle }

section Fields

variable {part : Partition} {handle offset w : UInt32} {mem mem' : Memory} {f : HeaderField}
  {setter : Setter}

theorem getWord_atHeader :
    getWord part handle offset mem = getWord (part.atHeader handle) 0 offset mem := by
  rw [getWord, getWord, Partition.atHeader, UInt32.add_assoc, UInt32.zero_add]

theorem setWord_atHeader :
    setWord part handle offset w mem = setWord (part.atHeader handle) 0 offset w mem := by
  rw [setWord, setWord, Partition.atHeader, UInt32.add_assoc, UInt32.zero_add]

/-- A header is the header at the begin of its partition. -/
theorem getField_atHeader (part : Partition) (handle : FileHandle) (mem : Memory) :
    getField part handle mem = getField (part.atHeader handle) 0 mem := by
  funext f
  cases f with
  | size | refCount | parent | next => exact getWord_atHeader
  | name | attributes | flag =>
    simp only [getField, fsFileGetName, fsFileGetAttributes, fsFileGetFlag, Partition.atHeader,
      UInt32.add_assoc, UInt32.zero_add]
    rfl

theorem Setter.apply_atHeader (setter : Setter) (part : Partition) (handle : FileHandle)
    (mem : Memory) : setter.apply part handle mem = setter.apply (part.atHeader handle) 0 mem := by
  cases setter with
  | parentAddress | nextAddress | referenceCount => exact setWord_atHeader
  | name | attributes | flag =>
    simp only [Setter.apply, fsFileSetName, fsFileSetAttributes, fsFileSetFlag, Partition.atHeader,
      UInt32.add_assoc, UInt32.zero_add]

/-- A setter writes the bytes of its field. -/
theorem Setter.agreeOff_field (setter : Setter) (part : Partition) (mem : Memory) :
    AgreeOff part.blockAddress (Fs.field 0 setter.field.offset setter.field.length) mem
      (setter.apply part 0 mem) := by
  cases setter with
  | name => exact agreeOff_fsFileSetName (by decide)
  | attributes => exact agreeOff_fsFileSetAttributes (by decide)
  | flag => exact agreeOff_setFlagByte (by decide)
  | parentAddress | nextAddress | referenceCount =>
    exact agreeOff_setWord (by decide) (Nat.le_of_add_le_add_right (HeaderField.offset_add_length_le _))

theorem headerByte_of_agreeOff {S : Set ℕ} (h : AgreeOff part.blockAddress S mem mem')
    (hS : ∀ o ∈ field 0 f.offset f.length, o ∉ S) {i : ℕ} (hi : i < f.length) :
    mem' (part.blockAddress + (0 + f.offset) + UInt32.ofNat i) =
      mem (part.blockAddress + (0 + f.offset) + UInt32.ofNat i) := by
  have hle := f.offset_add_length_le
  have hzero : (0 : UInt32).toNat = 0 := rfl
  have hmem : f.offset.toNat + i ∈ field 0 f.offset f.length := ⟨by omega, by omega⟩
  have heq := h _ (by omega) (hS _ hmem)
  rwa [view, view, UInt32.ofNat_add, UInt32.ofNat_toNat, ← UInt32.add_assoc,
    ← UInt32.zero_add (a := f.offset)] at heq

/-- **A getter depends on the bytes of its field.** -/
theorem getField_of_agreeOff {S : Set ℕ} (h : AgreeOff part.blockAddress S mem mem')
    (hS : ∀ o ∈ field 0 f.offset f.length, o ∉ S) :
    getField part 0 mem' f = getField part 0 mem f := by
  have hbyte := fun {i} => headerByte_of_agreeOff h hS (i := i)
  cases f with
  | size | refCount | parent | next => exact getWord_of_agreeOff h (by decide) (by decide) hS
  | name =>
    have hstored : ((List.range fileNameLength).map fun i =>
        mem' (part.blockAddress + (0 + fileOffsetName) + UInt32.ofNat i)) =
          (List.range fileNameLength).map fun i =>
            mem (part.blockAddress + (0 + fileOffsetName) + UInt32.ofNat i) :=
      List.map_congr_left fun i hi => hbyte (List.mem_range.mp hi)
    funext buffer
    simp only [getField, fsFileGetName, hstored]
  | attributes => exact List.map_congr_left fun i hi => hbyte (List.mem_range.mp hi)
  | flag =>
    have hflag := hbyte (i := 0) (by decide)
    rw [show UInt32.ofNat 0 = 0 from rfl, UInt32.add_zero, HeaderField.offset] at hflag
    funext index
    simp only [getField, fsFileGetFlag, hflag]

end Fields

/-! ## What is set is got -/

section Values

variable {part : Partition} {mem : Memory}

/-- A name is read back as it was cut and padded. -/
theorem fsFileGetName_fsFileSetName (filename buffer : List UInt8) :
    fsFileGetName part 0 buffer (fsFileSetName part 0 filename mem) =
      cleanName filename ++ buffer.drop fileNameLength := by
  have hstored : ((List.range fileNameLength).map fun i => fsFileSetName part 0 filename mem
      (part.blockAddress + (0 + fileOffsetName) + UInt32.ofNat i)) = cleanName filename := by
    refine List.ext_getElem (by simp) fun i hi hi' => ?_
    rw [length_cleanName] at hi'
    rw [List.getElem_map, List.getElem_range, fsFileSetName,
      writeEach_range_add (n := fileNameLength) (by decide) hi']
    simp [hi']
  simp only [fsFileGetName, hstored, takeWhile_cleanName, length_cleanName, lt_irrefl, if_false]

/-- Attributes are read back. -/
theorem fsFileGetAttributes_fsFileSetAttributes {bytes : List UInt8} (h : 4 ≤ bytes.length) :
    fsFileGetAttributes part 0 (fsFileSetAttributes part 0 bytes mem) = bytes.take 4 := by
  refine List.ext_getElem (by simp [fsFileGetAttributes, h]) fun i hi hi' => ?_
  rw [List.length_take, Nat.min_eq_left h] at hi'
  simp only [fsFileGetAttributes, List.getElem_map, List.getElem_range, fsFileSetAttributes]
  rw [writeEach_range_add (by decide) hi']
  simp [show i < bytes.length by omega]

theorem flagBit_toNat {index : UInt8} (h : index.toNat < 8) : (flagBit index).toNat = 2 ^ index.toNat := by
  rw [flagBit, UInt8.toNat_ofNat']
  exact Nat.mod_eq_of_lt (Nat.pow_lt_pow_right (by decide) h)

/-- A flag is a bit of the flag byte. -/
theorem shift_and_one (n i : ℕ) : UInt8.ofNat (n / 2 ^ i) &&& 1 = if n.testBit i then 1 else 0 := by
  apply UInt8.toNat_inj.mp
  rw [UInt8.toNat_and, UInt8.toNat_ofNat', Nat.testBit_eq_decide_div_mod_eq,
    show (1 : UInt8).toNat = 1 from rfl, Nat.and_one_is_mod]
  simp only [decide_eq_true_eq]
  split
  · show _ = 1
    omega
  · show _ = 0
    omega

/-- Setting a flag sets its bit, clearing it clears the bit, and the other bits stay. -/
theorem testBit_setFlag {byte index : UInt8} (state : UInt8) (h : index.toNat < 8) {i : ℕ} (hi : i < 8) :
    (if state = 1 then byte ||| flagBit index else byte &&& ~~~ flagBit index).toNat.testBit i =
      if i = index.toNat then decide (state = 1) else byte.toNat.testBit i := by
  have hlt : 2 ^ index.toNat < 2 ^ 8 := Nat.pow_lt_pow_right (by decide) h
  by_cases hs : state = 1
  · rw [if_pos hs, UInt8.toNat_or, Nat.testBit_or, flagBit_toNat h, Nat.testBit_two_pow]
    by_cases he : i = index.toNat
    · simp [he, hs]
    · simp [he, Ne.symm he]
  · rw [if_neg hs, UInt8.toNat_and, Nat.testBit_and, UInt8.toNat_not, flagBit_toNat h,
      show UInt8.size - 1 - 2 ^ index.toNat = 2 ^ 8 - (2 ^ index.toNat + 1) by
        rw [UInt8.size]; omega,
      Nat.testBit_two_pow_sub_succ hlt, Nat.testBit_two_pow]
    by_cases he : i = index.toNat
    · simp [he, hs]
    · simp [he, Ne.symm he, hi]

/-- **Flags** are set one by one. -/
theorem fsFileGetFlag_fsFileSetFlag {index : UInt8} (state : UInt8) (h : index.toNat < 8) (i : Fin 8) :
    fsFileGetFlag part 0 (UInt8.ofNat i) (fsFileSetFlag part 0 index state mem) =
      if i.val = index.toNat then (if state = 1 then 1 else 0)
      else fsFileGetFlag part 0 (UInt8.ofNat i) mem := by
  have hi : (UInt8.ofNat i).toNat = i := by
    rw [UInt8.toNat_ofNat']
    exact Nat.mod_eq_of_lt (by omega)
  simp only [fsFileGetFlag, fsFileSetFlag, Function.update_self, hi, shift_and_one,
    testBit_setFlag state h i.isLt]
  by_cases he : i.val = index.toNat <;> simp [he]

/-- A getter returns what its setter made of the field. -/
theorem getField_apply_self (setter : Setter) (hs : setter.InRange) :
    getField part 0 (setter.apply part 0 mem) setter.field =
      setter.value (getField part 0 mem setter.field) := by
  cases setter with
  | name filename => exact funext fun buffer => fsFileGetName_fsFileSetName filename buffer
  | attributes bytes => exact fsFileGetAttributes_fsFileSetAttributes hs
  | flag index state => exact funext fun i => fsFileGetFlag_fsFileSetFlag state hs i
  | parentAddress | nextAddress | referenceCount =>
    exact getWord_setWord (by decide) (by decide)

end Values

/-! ## Independence -/

section Independence

variable {part part' : Partition} {handle handle' : FileHandle} {mem : Memory}

/-- A byte of one header lies off a header apart from it. -/
theorem Apart.offset {address address' : UInt32} (h : Apart address address') {o : ℕ} (ho : o < 32) :
    ∃ p < 2 ^ 32, 32 ≤ p ∧ address' + UInt32.ofNat o = address + UInt32.ofNat p := by
  have hlt := (address' - address).toNat_lt
  have hsum : (address' - address).toNat + (address - address').toNat = 2 ^ 32 := by
    have h₁ := h.1
    have h₂ := h.2
    have ha := address.toNat_lt
    have ha' := address'.toNat_lt
    rw [UInt32.toNat_sub] at h₁ h₂ ⊢
    rw [UInt32.toNat_sub]
    omega
  have h₂ := h.2
  refine ⟨(address' - address).toNat + o, by omega, h.1.trans (Nat.le_add_right _ _), ?_⟩
  rw [UInt32.ofNat_add, UInt32.ofNat_toNat, ← UInt32.add_assoc, UInt32.add_comm address,
    UInt32.sub_add_cancel]

/-- A setter leaves the bytes of a header apart. -/
theorem Setter.view_apply_of_apart (setter : Setter) (mem : Memory)
    (h : Apart (part.blockAddress + handle) (part'.blockAddress + handle')) {o : ℕ} (ho : o < 32) :
    view (part'.blockAddress + handle') (setter.apply part handle mem) o =
      view (part'.blockAddress + handle') mem o := by
  obtain ⟨p, hp, hle, heq⟩ := h.offset ho
  have hlen := setter.field.offset_add_length_le
  rw [view, view, heq, setter.apply_atHeader]
  refine setter.agreeOff_field (part.atHeader handle) mem p hp ?_
  rintro ⟨-, hlt⟩
  have hzero : (0 : UInt32).toNat = 0 := rfl
  omega

/-- Headers with the same bytes have the same fields. -/
theorem getField_congr {mem' : Memory} (h : ∀ o < 32, view (part.blockAddress + handle) mem' o =
    view (part.blockAddress + handle) mem o) : getField part handle mem' = getField part handle mem := by
  rw [getField_atHeader part handle mem', getField_atHeader part handle mem]
  funext f
  have hlen := f.offset_add_length_le
  have hagree : AgreeOff (part.atHeader handle).blockAddress {o | 32 ≤ o} mem mem' :=
    fun o _ ho => h o (not_le.mp ho)
  refine getField_of_agreeOff hagree ?_
  rintro o ⟨-, hlt⟩ (hle : 32 ≤ o)
  have hzero : (0 : UInt32).toNat = 0 := rfl
  omega

/-- **A setter updates its field**, and leaves the other fields of its header and every byte of the
headers apart. -/
theorem getField_apply (part : Partition) (handle : FileHandle) (mem : Memory) (setter : Setter)
    (hs : setter.InRange) :
    getField part handle (setter.apply part handle mem) =
      Function.update (getField part handle mem) setter.field
        (setter.value (getField part handle mem setter.field)) ∧
    ∀ (part' : Partition) (handle' : FileHandle),
      Apart (part.blockAddress + handle) (part'.blockAddress + handle') →
        (∀ o < 32, view (part'.blockAddress + handle') (setter.apply part handle mem) o =
          view (part'.blockAddress + handle') mem o) ∧
        getField part' handle' (setter.apply part handle mem) = getField part' handle' mem := by
  constructor
  · rw [getField_atHeader, getField_atHeader part handle mem, setter.apply_atHeader]
    funext f
    by_cases hf : f = setter.field
    · subst hf
      rw [Function.update_self]
      exact getField_apply_self setter hs
    · rw [Function.update_of_ne hf]
      refine getField_of_agreeOff (setter.agreeOff_field _ mem) fun o ho ho' => ?_
      have hdisj := HeaderField.disjoint hf
      have h₁ := ho.1
      have h₂ := ho.2
      have h₃ := ho'.1
      have h₄ := ho'.2
      omega
  · intro part' handle' h
    have hview := fun o ho => setter.view_apply_of_apart mem h (o := o) ho
    exact ⟨hview, getField_congr hview⟩

/-- The flag of bit 3 of one header, set in front of another. -/
theorem getField_apply_flag :
    getField ⟨0, 1024, 32, 32⟩ 64 (Setter.apply ⟨0, 1024, 32, 32⟩ 64 (.flag 3 1) fun _ => 0) =
      Function.update (getField ⟨0, 1024, 32, 32⟩ 64 fun _ => 0) .flag
        (fun i : Fin 8 => if i.val = 3 then 1
          else getField ⟨0, 1024, 32, 32⟩ 64 (fun _ => 0) .flag i) ∧
    getField ⟨0, 1024, 32, 32⟩ 96 (Setter.apply ⟨0, 1024, 32, 32⟩ 64 (.flag 3 1) fun _ => 0) =
      getField ⟨0, 1024, 32, 32⟩ 96 fun _ => 0 :=
  have h := getField_apply ⟨0, 1024, 32, 32⟩ 64 (fun _ => 0) (.flag 3 1) (by decide : (3 : ℕ) < 8)
  ⟨h.1, (h.2 ⟨0, 1024, 32, 32⟩ 96 ⟨by decide, by decide⟩).2⟩

end Independence

end MicroKernel.Fs
