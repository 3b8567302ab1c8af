import MicroKernel.Containers.Insert
import MicroKernel.Lib.Occurrence

/-!
# Search in a string

`string::find` for a `const char*`. The characters are compared as `int`s, of 16 bits, and whether
a `char` has a sign is left to the compiler. The number of indices to search from is computed
without a sign, so it wraps for a pattern that is longer than the string by two characters or more.

## Main definitions

* `String.find`: the search
* `Plain`: a pattern whose characters compare equal to themselves
* `FindsFirst`: the result the search should have
* `Findable`: the patterns for which it does

## Main results

* `find_eq`, `find_of_lt`: what is found
* `findsFirst_iff`: when it is the least position
-/

namespace MicroKernel.Containers

open Fs (Fault ok_bind)
open Store (toNat_add_one)
open Occurrence

variable {A M : Type} [DecidableEq A]

/-- The value of a `char` in a comparison. -/
def charToInt (signedChar : Bool) (c : UInt8) : ℤ := if signedChar then c.toInt8.toInt else c.toNat

section Find

variable (signedChar : Bool) (read : UInt32 → Except Fault UInt8)

/-- The loop of `find` over a pattern, at an index. -/
def matchFrom : UInt32 → List UInt8 → Except Fault Bool
  | _, [] => return true
  | i, c :: chars => do
    if ((← read i).toNat : ℤ) ≠ charToInt signedChar c then return false
    else matchFrom (i + 1) chars

/-- The loop of `find` over `n` indices from `i` on, with an `int` of 16 bits as its result. -/
def findFrom (substr : List UInt8) : (i n : ℕ) → Except Fault Int16
  | _, 0 => return -1
  | i, n + 1 => do
    if ← matchFrom signedChar read (UInt32.ofNat i) substr then return Int16.ofNat i
    else findFrom substr (i + 1) n

/-- `find` in a string of a size, whose bytes are read by `read`. -/
def findWith (substr : Text) (mSize : UInt32) : Except Fault Int16 :=
  findFrom signedChar read substr.chars 0 (mSize - substr.strlen + 1).toNat

end Find

namespace String

variable (store : ByteStore A M) (signedChar : Bool)

def find (substr : Text) (str : String A) (m : M) : Except Fault Int16 :=
  findWith signedChar (fun i => str.mReadBuffer store i m) substr str.mSize

/-- A read that has to lie within the characters. -/
def readInside (str : String A) (m : M) (i : UInt32) : Except Fault UInt8 :=
  if i < str.mSize then str.mReadBuffer store i m else .error .outOfBounds

end String

/-- The characters of a pattern compare equal to themselves. -/
def Plain (signedChar : Bool) (chars : List UInt8) : Prop :=
  signedChar = false ∨ ∀ c ∈ chars, c < 128

instance (signedChar : Bool) (chars : List UInt8) : Decidable (Plain signedChar chars) :=
  let _ := List.decidableBAll (· < (128 : UInt8)) chars
  inferInstanceAs (Decidable (_ ∨ _))

/-- The position of an occurrence, or -1. -/
def positionOf : Option ℕ → ℤ
  | some i => i
  | none => -1

/-- The search ends with the least position, and reads only characters of the string. -/
def FindsFirst (store : ByteStore A M) (signedChar : Bool) (p : Text) (str : String A) (m : M)
    (t : List UInt8) : Prop :=
  ∃ pos, str.find store signedChar p m = .ok pos ∧
    findWith signedChar (str.readInside store m) p str.mSize = .ok pos ∧
    pos.toInt = positionOf (leftmost p.chars t)

/-- The pattern is at most one character longer than the string, and the first occurrence is found
in an `int` and compares equal. -/
def Findable (signedChar : Bool) (p : Text) (t : List UInt8) : Prop :=
  p.chars.length ≤ t.length + 1 ∧
    ∀ i, leftmost p.chars t = some i → i < 2 ^ 15 ∧ Plain signedChar p.chars

section Matching

variable {signedChar : Bool} {read : UInt32 → Except Fault UInt8} {b c : UInt8}
  {chars t : List UInt8} {i : UInt32} {p : Text} {n : ℕ}

theorem eq_charToInt_iff :
    (b.toNat : ℤ) = charToInt signedChar c ↔ b = c ∧ (signedChar = false ∨ c < 128) := by
  cases signedChar with
  | false =>
    have hfalse : charToInt false c = c.toNat := rfl
    rw [hfalse, Int.ofNat_inj, UInt8.toNat_inj]
    exact (and_iff_left (.inl rfl)).symm
  | true =>
    have htrue : charToInt true c = if 2 * c.toNat < 2 ^ 8 then (c.toNat : ℤ) else c.toNat - 2 ^ 8 :=
      BitVec.toInt_eq_toNat_cond c.toBitVec
    have hlt : c < 128 ↔ c.toNat < 128 := UInt8.lt_iff_toNat_lt
    have hb := b.toNat_lt
    have hc := c.toNat_lt
    rw [htrue, hlt, ← UInt8.toNat_inj]
    split <;> simp <;> omega

theorem plain_cons : Plain signedChar (c :: chars) ↔
    (signedChar = false ∨ c < 128) ∧ Plain signedChar chars := by
  rw [Plain, List.forall_mem_cons, Plain]
  exact or_and_left

/-- What is read inside a list of bytes. -/
def Reads (read : UInt32 → Except Fault UInt8) (t : List UInt8) : Prop :=
  ∀ i : UInt32, i.toNat < t.length → read i = .ok (t.getD i.toNat 0)

/-- **The comparison at an index** finds out whether the pattern is there. -/
theorem matchFrom_eq (hread : Reads read t) (ht : t.length < 2 ^ 32)
    (hle : i.toNat + chars.length ≤ t.length) :
    matchFrom signedChar read i chars =
      .ok (decide (chars <+: t.drop i.toNat ∧ Plain signedChar chars)) := by
  induction chars generalizing i with
  | nil => simp [matchFrom, pure, Except.pure, Plain]
  | cons c chars ih =>
    rw [List.length_cons] at hle
    have hlt : i.toNat < t.length := by omega
    have hone : (i + 1).toNat = i.toNat + 1 := toNat_add_one (by omega)
    have hoccurs : c :: chars <+: t.drop i.toNat ↔
        c = t[i.toNat] ∧ chars <+: t.drop (i.toNat + 1) := by
      rw [List.drop_eq_getElem_cons hlt, List.cons_prefix_cons]
    rw [matchFrom, hread i hlt, ok_bind, List.getD_eq_getElem _ _ hlt, ih (by omega), hone]
    by_cases heq : (t[i.toNat].toNat : ℤ) = charToInt signedChar c
    · rw [if_neg (not_not.mpr heq)]
      have hc := eq_charToInt_iff.mp heq
      refine congrArg Except.ok (decide_eq_decide.mpr ?_)
      rw [hoccurs, plain_cons, and_iff_right hc.1.symm]
      have hsigned := hc.2
      tauto
    · rw [if_pos heq]
      refine congrArg Except.ok (decide_eq_false fun h => heq (eq_charToInt_iff.mpr ?_)).symm
      exact ⟨(hoccurs.mp h.1).1.symm, (plain_cons.mp h.2).1⟩

/-- A pattern that reaches beyond what can be read is not found. -/
theorem matchFrom_of_lt (signedChar : Bool) (hread : Reads read t) (ht : t.length < 2 ^ 32)
    (hout : ∀ i : UInt32, t.length ≤ i.toNat → read i = .error .outOfBounds)
    (hi : i.toNat ≤ t.length) (hlt : t.length < i.toNat + chars.length) :
    matchFrom signedChar read i chars = .error .outOfBounds ∨
      i.toNat < t.length ∧ matchFrom signedChar read i chars = .ok false := by
  induction chars generalizing i with
  | nil =>
    rw [List.length_nil] at hlt
    omega
  | cons c chars ih =>
    rw [List.length_cons] at hlt
    -- the next character lies inside, or is the first one behind
    rcases hi.lt_or_eq with hi | hi
    · have hone : (i + 1).toNat = i.toNat + 1 := toNat_add_one (by omega)
      rw [matchFrom, hread i hi, ok_bind]
      split
      · exact .inr ⟨hi, rfl⟩
      · rcases ih (i := i + 1) (by omega) (by omega) with herror | ⟨_, hfalse⟩
        · exact .inl herror
        · exact .inr ⟨hi, hfalse⟩
    · rw [matchFrom, hout i hi.ge]
      exact .inl rfl

/-- **The search over indices** at which the pattern fits ends with the first one where it is. -/
theorem findFrom_eq (hread : Reads read t) (ht : t.length < 2 ^ 32) {k n : ℕ}
    (hle : ∀ i < k + n, i + chars.length ≤ t.length) :
    findFrom signedChar read chars k n = .ok (match (List.range' k n).find? fun i =>
        chars <+: t.drop i ∧ Plain signedChar chars with
      | some i => Int16.ofNat i
      | none => -1) := by
  induction n generalizing k with
  | zero => rfl
  | succ n ih =>
    have hk := hle k (by omega)
    have hval : (UInt32.ofNat k).toNat = k := by
      rw [UInt32.toNat_ofNat']
      omega
    rw [findFrom, matchFrom_eq hread ht (by rwa [hval]), ok_bind, hval, List.range'_succ,
      ih fun j hj => hle j (by omega)]
    by_cases hmatch : chars <+: t.drop k ∧ Plain signedChar chars
    · rw [List.find?_cons_of_pos (by simpa using hmatch), decide_eq_true hmatch]
      rfl
    · rw [List.find?_cons_of_neg (by simpa using hmatch), decide_eq_false hmatch]
      rfl

/-- A search over more indices than can be read ends outside. -/
theorem findFrom_of_lt (hread : Reads read t) (ht : t.length < 2 ^ 32)
    (hout : ∀ i : UInt32, t.length ≤ i.toNat → read i = .error .outOfBounds)
    (hlt : t.length < chars.length) {k n : ℕ} (hk : k ≤ t.length) (hn : t.length < k + n) :
    findFrom signedChar read chars k n = .error .outOfBounds := by
  induction n generalizing k with
  | zero => omega
  | succ n ih =>
    have hval : (UInt32.ofNat k).toNat = k := by
      rw [UInt32.toNat_ofNat']
      omega
    rw [findFrom]
    rcases matchFrom_of_lt (i := UInt32.ofNat k) signedChar hread ht hout (by omega)
      (show t.length < (UInt32.ofNat k).toNat + chars.length by omega) with herror | ⟨hlt', hfalse⟩
    · rw [herror]
      rfl
    · rw [hfalse, ok_bind, if_neg Bool.false_ne_true]
      exact ih (by omega) (by omega)

/-- The first index of some at which the pattern fits is the leftmost occurrence. -/
theorem find?_range (hle : chars.length ≤ t.length) {c : Prop} [Decidable c] :
    ((List.range (t.length - chars.length + 1)).find? fun i => chars <+: t.drop i ∧ c) =
      if c then leftmost chars t else none := by
  split
  · next hc =>
    cases hleft : leftmost chars t with
    | none =>
      rw [leftmost_eq_none_iff] at hleft
      refine List.find?_range_eq_none.mpr fun i hi => ?_
      simpa using Or.inl (hleft i (by omega))
    | some i =>
      have hfits := leftmost_add_length_le hleft
      obtain ⟨_, hoccurs, hnot⟩ := leftmost_eq_some_iff.mp hleft
      refine List.find?_range_eq_some.mpr ⟨by simpa using ⟨hoccurs, hc⟩,
        List.mem_range.mpr (by omega), fun j hj => ?_⟩
      simpa using Or.inl (hnot j hj)
  · next hc =>
    exact List.find?_range_eq_none.mpr fun i _ => by simpa using Or.inr hc

end Matching

/-- The result of a search. -/
def position (signedChar : Bool) (p : Text) (t : List UInt8) : Int16 :=
  match leftmost p.chars t with
  | some i => if Plain signedChar p.chars then Int16.ofNat i else -1
  | none => -1

section Positions

variable {signedChar : Bool} {p : Text} {t : List UInt8} {i : ℕ}

theorem toInt_ofNat (hi : i < 2 ^ 15) : (Int16.ofNat i).toInt = i := Int16.toInt_ofNat_of_lt hi

/-- A position of 16 bits as an index. -/
theorem toNat_ofNat (hi : i < 2 ^ 15) : (Int16.ofNat i).toInt32.toUInt32.toNat = i := by
  have hmsb : (BitVec.ofNat 16 i).msb = false := by
    rw [BitVec.msb_eq_false_iff_two_mul_lt, BitVec.toNat_ofNat]
    omega
  show ((BitVec.ofNat 16 i).signExtend 32).toNat = i
  rw [BitVec.signExtend_eq_setWidth_of_msb_false hmsb, BitVec.toNat_setWidth, BitVec.toNat_ofNat]
  omega

theorem ofNat_ne_neg_one (hi : i < 2 ^ 15) : Int16.ofNat i ≠ -1 := by
  intro h
  have hint := toInt_ofNat hi
  have hneg : (-1 : Int16).toInt = -1 := rfl
  rw [h, hneg] at hint
  omega

theorem position_of_none (h : leftmost p.chars t = none) : position signedChar p t = -1 := by
  rw [position, h]

theorem position_of_some (h : leftmost p.chars t = some i) (hplain : Plain signedChar p.chars) :
    position signedChar p t = Int16.ofNat i := by
  rw [position, h]
  exact if_pos hplain

theorem position_of_not_plain (hplain : ¬ Plain signedChar p.chars) : position signedChar p t = -1 := by
  rw [position]
  split
  · exact if_neg hplain
  · rfl

/-- The result is the leftmost position if it is less than `2 ^ 15`, and compares equal. -/
theorem toInt_position_iff :
    (position signedChar p t).toInt = positionOf (leftmost p.chars t) ↔
      ∀ i, leftmost p.chars t = some i → i < 2 ^ 15 ∧ Plain signedChar p.chars := by
  cases h : leftmost p.chars t with
  | none =>
    rw [position_of_none h]
    exact iff_of_true rfl fun _ hnone => by cases hnone
  | some i =>
    simp only [Option.some.injEq, forall_eq']
    by_cases hplain : Plain signedChar p.chars
    · rw [position_of_some h hplain]
      refine ⟨fun heq => ⟨?_, hplain⟩, fun hi => toInt_ofNat hi.1⟩
      have hlt := Int16.toInt_lt (Int16.ofNat i)
      rw [heq] at hlt
      exact Int.ofNat_lt.mp hlt
    · rw [position_of_not_plain hplain]
      refine iff_of_false (fun heq => ?_) fun h => hplain h.2
      have hneg : (-1 : Int16).toInt = -1 := rfl
      rw [hneg, positionOf] at heq
      omega

end Positions

section Searches

variable {store : ByteStore A M} {signedChar : Bool} {read : UInt32 → Except Fault UInt8}
  {str : String A} {m : M} {p : Text} {bytes t : List UInt8} {mSize : UInt32}

/-- **What a search finds** of a pattern that is at most one character longer than the string. -/
theorem findWith_eq (hread : Reads read t) (hsize : mSize.toNat = t.length)
    (ht : t.length + 1 < 2 ^ 32) (hp : p.chars ≠ []) (hle : p.chars.length ≤ t.length + 1) :
    findWith signedChar read p mSize = .ok (position signedChar p t) := by
  have hpos := List.length_pos_of_ne_nil hp
  have hlen := p.toNat_strlen
  rcases Nat.lt_or_ge t.length p.chars.length with hlt | hge
  · -- there is no index to search from
    have hbound : (mSize - p.strlen + 1).toNat = 0 := by
      rw [UInt32.toNat_add, UInt32.toNat_sub, UInt32.toNat_one]
      omega
    have hnone : leftmost p.chars t = none :=
      leftmost_eq_none_iff.mpr fun i hi hoccurs => absurd (add_length_le hi hoccurs) (by omega)
    rw [findWith, hbound, position_of_none hnone]
    rfl
  · have hbound : (mSize - p.strlen + 1).toNat = t.length - p.chars.length + 1 := by
      rw [UInt32.toNat_add, UInt32.toNat_sub, UInt32.toNat_one]
      omega
    rw [findWith, hbound, findFrom_eq hread (by omega), ← List.range_eq_range',
      find?_range hge, position]
    · by_cases hplain : Plain signedChar p.chars
      · rw [if_pos hplain]
        cases leftmost p.chars t with
        | none => rfl
        | some i => exact congrArg Except.ok (if_pos hplain).symm
      · rw [if_neg hplain]
        cases leftmost p.chars t with
        | none => rfl
        | some i => exact congrArg Except.ok (if_neg hplain).symm
    · intro i hi
      omega

/-- The search for a longer pattern reads what cannot be read. -/
theorem findWith_of_lt (hread : Reads read t) (hsize : mSize.toNat ≤ t.length)
    (hsize' : t.length ≤ mSize.toNat + 1) (ht : t.length < 2 ^ 32)
    (hout : ∀ i : UInt32, t.length ≤ i.toNat → read i = .error .outOfBounds)
    (hlt : mSize.toNat + 1 < p.chars.length) :
    findWith signedChar read p mSize = .error .outOfBounds := by
  have hlen := p.toNat_strlen
  have hchars := p.length_lt
  have hbound : t.length < 0 + (mSize - p.strlen + 1).toNat := by
    rw [UInt32.toNat_add, UInt32.toNat_sub, UInt32.toNat_one]
    omega
  rw [findWith]
  exact findFrom_of_lt hread ht hout (by omega) (Nat.zero_le _) hbound

theorem Stored.reads (h : Stored store str m bytes) {n : ℕ} (hn : n ≤ str.mSize.toNat + 1) :
    Reads (fun i => str.mReadBuffer store i m) (bytes.take n) := by
  intro i hi
  rw [List.length_take] at hi
  show str.mReadBuffer store i m = _
  rw [h.mReadBuffer (by omega), getD_take (by omega)]

/-- **What is found** in a string. -/
theorem find_eq (signedChar : Bool) (h : Holds store str m t) (hp : p.chars ≠ [])
    (hle : p.chars.length ≤ t.length + 1) :
    str.find store signedChar p m = .ok (position signedChar p t) := by
  have hlength := h.length
  obtain ⟨bytes, hs, rfl⟩ := h
  have hsize := hs.size_le
  have hlt := hs.capacity_lt
  exact findWith_eq (hs.reads (Nat.le_succ _)) hlength.symm (by omega) hp hle

theorem find_of_lt (h : Holds store str m t) (hlt : t.length + 1 < p.chars.length) :
    str.find store signedChar p m = .error .outOfBounds := by
  have hsize' := h.length
  obtain ⟨bytes, hs, rfl⟩ := h
  have hsize := hs.size_le
  have hcapacity := hs.capacity_lt
  have hlength := hs.length
  have htaken : (bytes.take (str.mSize.toNat + 1)).length = str.mSize.toNat + 1 := by
    rw [List.length_take]
    omega
  refine findWith_of_lt (hs.reads le_rfl) (by omega) htaken.le (by omega) (fun i hi => ?_) (by omega)
  exact hs.mReadBuffer_of_lt (by omega)

/-- **The search** ends with the least position, inside the string, for these patterns. -/
theorem findsFirst_iff (h : Holds store str m t) (hp : p.chars ≠ []) :
    FindsFirst store signedChar p str m t ↔ Findable signedChar p t := by
  have hlength := h.length
  rcases Nat.lt_or_ge (t.length + 1) p.chars.length with hlt | hle
  · -- the number of indices wraps
    refine iff_of_false ?_ fun hfind => absurd hfind.1 (not_le.mpr hlt)
    rintro ⟨pos, hpos, _⟩
    rw [find_of_lt h hlt] at hpos
    cases hpos
  · have hfind := find_eq signedChar h hp hle
    have hinside : findWith signedChar (str.readInside store m) p str.mSize =
        .ok (position signedChar p t) := by
      obtain ⟨bytes, hs, rfl⟩ := h
      have hsize := hs.size_le
      have hlt := hs.capacity_lt
      refine findWith_eq (fun i hi => ?_) hlength.symm (by omega) hp hle
      rw [String.readInside, if_pos (UInt32.lt_iff_toNat_lt.mpr (by omega))]
      exact hs.reads (Nat.le_succ _) i hi
    rw [Findable, and_iff_right hle, ← toInt_position_iff]
    constructor
    · rintro ⟨pos, hpos, _, hint⟩
      rw [hfind] at hpos
      rwa [Except.ok.inj hpos]
    · exact fun hint => ⟨_, hfind, hinside, hint⟩

end Searches

end MicroKernel.Containers
