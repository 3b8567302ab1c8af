import MicroKernel.Command.Lookup
import MicroKernel.Fs.Header
import Mathlib.Data.Nat.Digits.Lemmas
import Mathlib.Data.List.GetD

/-!
# Character strings

The conversions and the comparison of `kernel/cstring.c`. A destination is the memory behind a
pointer; the local buffers have ten bytes, and an access outside of them stops the computation.

## Main definitions

* `intToString`: the decimal numeral, with its digits extracted into `revbuf`
* `intToHexString`: what is written to the string, in order
* `stringCompare`: the comparison of two padded strings
* `Numeral`: a canonical decimal numeral in memory

## Main results

* `intToString_canonical`: the numeral that is written
* `intToHexString_eq`: the eight hexadecimal digits
* `stringCompare_eq`: what is compared
-/

namespace MicroKernel.CString

open Fs (Fault ok_bind)
open Command (isNumber space)

/-! ## Decimal numerals -/

/-- The loop of `int_to_string`: the digits that are stored in `revbuf`, least significant first. -/
def extractDigits (number : UInt32) (revbuf : List UInt8) : Except Fault (List UInt8) :=
  if _hzero : number = 0 then .ok revbuf
  else if revbuf.length < 10 then
    extractDigits (number / 10) (revbuf ++ ['0'.toUInt8 + (number % 10).toUInt8])
  else .error .outOfBounds
termination_by number.toNat
decreasing_by
  rw [UInt32.toNat_div]
  exact Nat.div_lt_self (Nat.pos_of_ne_zero fun h => _hzero (UInt32.toNat_inj.mp h)) (by decide)

/-- The result, and the memory at `destination_string`. -/
def intToString (number : UInt32) (destination : ℕ → UInt8) :
    Except Fault (UInt8 × (ℕ → UInt8)) := do
  if number = 0 then return (1, Function.update destination 0 '0'.toUInt8)
  let revbuf ← extractDigits number []
  return (UInt8.ofNat revbuf.length, Store.writeEach id
    (fun i => revbuf.getD (revbuf.length - 1 - i) 0) (List.range revbuf.length) destination)

/-- The first `k` characters at `after` are the decimal numeral of `n`, without leading zeros, and
the others are those at `before`. -/
structure Numeral (n : UInt32) (k : ℕ) (before after : ℕ → UInt8) : Prop where
  pos : 1 ≤ k
  le : k ≤ 10
  isNumber : ∀ i < k, isNumber (after i) = true
  leading : after 0 = '0'.toUInt8 → n = 0 ∧ k = 1
  value : Nat.ofDigits 10 ((List.range k).map fun i => (after i).toNat - 48).reverse = n.toNat
  rest : ∀ i, k ≤ i → after i = before i

/-- The character of a digit. -/
def digitChar (d : ℕ) : UInt8 := UInt8.ofNat (48 + d)

section Decimal

variable {number : UInt32} {revbuf : List UInt8} {d : ℕ}

theorem toNat_digitChar (hd : d < 10) : (digitChar d).toNat = 48 + d := by
  rw [digitChar, UInt8.toNat_ofNat', Nat.mod_eq_of_lt (by omega)]

theorem isNumber_digitChar (hd : d < 10) : isNumber (digitChar d) = true := by
  have hall : ∀ d : Fin 10, isNumber (digitChar d) = true := by decide
  exact hall ⟨d, hd⟩

/-- **The digits** are stored if there is room for them. -/
theorem extractDigits_eq
    (hlength : revbuf.length + (Nat.digits 10 number.toNat).length ≤ 10) :
    extractDigits number revbuf = .ok (revbuf ++ (Nat.digits 10 number.toNat).map digitChar) := by
  induction number, revbuf using extractDigits.induct with
  | case1 revbuf =>
    rw [extractDigits, dif_pos rfl]
    simp
  | case2 number revbuf hne hlt ih =>
    have hpos : 0 < number.toNat := Nat.pos_of_ne_zero fun h0 => hne (UInt32.toNat_inj.mp h0)
    have hdiv : (number / 10).toNat = number.toNat / 10 := UInt32.toNat_div ..
    have hdigit : '0'.toUInt8 + (number % 10).toUInt8 = digitChar (number.toNat % 10) := by
      apply UInt8.toNat_inj.mp
      have hmod : (number % 10).toNat = number.toNat % 10 := UInt32.toNat_mod ..
      have hzero : '0'.toUInt8.toNat = 48 := rfl
      rw [toNat_digitChar (Nat.mod_lt _ (by decide)), UInt8.toNat_add, UInt32.toNat_toUInt8, hmod,
        hzero]
      omega
    rw [Nat.digits_def' (by decide) hpos, List.length_cons] at hlength
    rw [extractDigits, dif_neg hne, if_pos hlt, ih, hdiv, hdigit, Nat.digits_def' (by decide) hpos,
      List.map_cons, List.append_assoc, List.singleton_append]
    rw [hdiv, List.length_append, List.length_singleton]
    omega
  | case3 number revbuf hne hge =>
    have hpos : 0 < number.toNat := Nat.pos_of_ne_zero fun h0 => hne (UInt32.toNat_inj.mp h0)
    rw [Nat.digits_def' (by decide) hpos, List.length_cons] at hlength
    omega

/-- What is written for a number that is not zero. -/
theorem intToString_eq (hne : number ≠ 0) (destination : ℕ → UInt8) :
    intToString number destination = .ok (UInt8.ofNat (Nat.digits 10 number.toNat).length,
      fun i => ((Nat.digits 10 number.toNat).map digitChar).reverse.getD i (destination i)) := by
  obtain ⟨digits, hdigits⟩ : ∃ digits, (Nat.digits 10 number.toNat).map digitChar = digits :=
    ⟨_, rfl⟩
  have hcount : digits.length = (Nat.digits 10 number.toNat).length := by
    rw [← hdigits, List.length_map]
  have hlength : (Nat.digits 10 number.toNat).length ≤ 10 := by
    rw [Nat.digits_length_le_iff (by decide)]
    exact number.toNat_lt.trans (by decide)
  have hrevbuf : extractDigits number [] = .ok digits := by
    rw [extractDigits_eq (by rwa [List.length_nil, zero_add]), List.nil_append, hdigits]
  rw [intToString, if_neg hne, ← hcount, hdigits]
  simp only [hrevbuf, ok_bind]
  refine congrArg (fun after => Except.ok (_, after)) (funext fun i => ?_)
  -- the digits are copied back in the order of the numeral
  rcases Nat.lt_or_ge i digits.length with hlt | hge
  · refine (Store.writeEach_apply (f := id) Function.injective_id.injOn
      (List.mem_range.mpr hlt)).trans ?_
    rw [List.getD_eq_getElem _ _ (by omega), List.getD_eq_getElem _ _ (by rwa [List.length_reverse]),
      List.getElem_reverse]
  · rw [List.getD_eq_default _ _ (by rwa [List.length_reverse])]
    refine Store.writeEach_of_forall_ne fun j hj hji => ?_
    have hji' : j = i := hji
    exact absurd (List.mem_range.mp hj) (not_lt.mpr (hji' ▸ hge))

/-- The character at `i` is that of the digit `i` from the most significant one. -/
theorem getD_digits {digits : List ℕ} {i : ℕ} (hi : i < digits.reverse.length) (c : UInt8) :
    (digits.map digitChar).reverse.getD i c = digitChar digits.reverse[i] := by
  rw [← List.map_reverse, List.getD_eq_getElem _ _ (by rwa [List.length_map]), List.getElem_map]

/-- The digits of the characters are those that were written. -/
theorem map_digits {digits : List ℕ} (hlt : ∀ d ∈ digits, d < 10) (destination : ℕ → UInt8) :
    ((List.range digits.length).map fun i =>
      ((digits.map digitChar).reverse.getD i (destination i)).toNat - 48) = digits.reverse := by
  refine List.ext_getElem (by simp) fun i hi hi' => ?_
  have hdigit := hlt _ (List.mem_reverse.mp (List.getElem_mem hi'))
  rw [List.getElem_map, List.getElem_range, getD_digits hi', toNat_digitChar hdigit,
    Nat.add_sub_cancel_left]

/-- Zero is written as one digit. -/
theorem numeral_zero (destination : ℕ → UInt8) :
    Numeral 0 1 destination (Function.update destination 0 '0'.toUInt8) := by
  refine ⟨by decide, by decide, ?_, fun _ => ⟨rfl, rfl⟩, ?_, ?_⟩
  · intro i hi
    obtain rfl : i = 0 := Nat.lt_one_iff.mp hi
    rw [Function.update_self]
    decide
  · show Nat.ofDigits 10 [(Function.update destination 0 '0'.toUInt8 0).toNat - 48] = 0
    rw [Function.update_self]
    rfl
  · intro i hi
    exact Function.update_of_ne (Nat.ne_of_gt hi) ..

/-- **The numeral** of every number is canonical, and `revbuf` holds its digits. -/
theorem intToString_canonical (number : UInt32) (destination : ℕ → UInt8) :
    ∃ k after, intToString number destination = .ok (k, after) ∧
      Numeral number k.toNat destination after := by
  by_cases hzero : number = 0
  · subst hzero
    exact ⟨1, _, rfl, numeral_zero destination⟩
  have hne : number.toNat ≠ 0 := fun h0 => hzero (UInt32.toNat_inj.mp h0)
  have hlast := Nat.getLast_digit_ne_zero 10 hne
  refine ⟨_, _, intToString_eq hzero destination, ?_⟩
  obtain ⟨digits, hdigits⟩ : ∃ digits, Nat.digits 10 number.toNat = digits := ⟨_, rfl⟩
  have hlt : ∀ d ∈ digits, d < 10 := fun d hd => Nat.digits_lt_base (by decide) (hdigits ▸ hd)
  have hlength : digits.length ≤ 10 := by
    rw [← hdigits, Nat.digits_length_le_iff (by decide)]
    exact number.toNat_lt.trans (by decide)
  have hpos : 0 < digits.length := by
    rw [← hdigits]
    exact List.length_pos_of_ne_nil (Nat.digits_ne_nil_iff_ne_zero.mpr hne)
  have hcount : (UInt8.ofNat digits.length).toNat = digits.length := by
    rw [UInt8.toNat_ofNat', Nat.mod_eq_of_lt (by omega)]
  have hdigit : ∀ i (hi : i < digits.reverse.length), digits.reverse[i] < 10 := fun i hi =>
    hlt _ (List.mem_reverse.mp (List.getElem_mem _))
  rw [hdigits, hcount]
  refine ⟨hpos, hlength, fun i hi => ?_, fun hlead => ?_, ?_, fun i hi => ?_⟩
  · rw [← List.length_reverse] at hi
    rw [getD_digits hi]
    exact isNumber_digitChar (hdigit i hi)
  · -- the first character is that of the most significant digit, which is not zero
    exfalso
    have hpos' : 0 < digits.reverse.length := by rwa [List.length_reverse]
    have hnum := congrArg UInt8.toNat hlead
    have hchar : '0'.toUInt8.toNat = 48 := rfl
    have hfirst : digits.reverse[0] = digits.getLast (List.ne_nil_of_length_pos hpos) := by
      rw [List.getElem_reverse, List.getLast_eq_getElem]
      rfl
    rw [getD_digits hpos', toNat_digitChar (hdigit 0 hpos'), hchar, hfirst] at hnum
    subst hdigits
    omega
  · rw [map_digits hlt, List.reverse_reverse, ← hdigits, Nat.ofDigits_digits]
  · exact List.getD_eq_default _ _ (by rwa [List.length_reverse, List.length_map])

end Decimal

/-! ## Hexadecimal numerals -/

/-- The character of a nibble. -/
def hexCharacter (nibble : UInt8) : UInt8 :=
  if nibble < 10 then '0'.toUInt8 + nibble else 'a'.toUInt8 + (nibble - 10)

/-- The loop of `int_to_hex_string` from `i` on, with `n` nibbles to go. -/
def hexWrites : (n i : ℕ) → UInt32 → List (ℕ × UInt8)
  | 0, _, _ => []
  | n + 1, i, integer =>
    (i, hexCharacter ((integer >>> 28).toUInt8 &&& 0x0F)) :: hexWrites n (i + 1) (integer <<< 4)

/-- The writes to the string: the index, and the character. -/
def intToHexString (integer : UInt32) : List (ℕ × UInt8) := hexWrites 8 0 integer

/-- The character of a hexadecimal digit. -/
def hexDigit (d : ℕ) : UInt8 := UInt8.ofNat (if d < 10 then 48 + d else 97 + (d - 10))

/-- The eight hexadecimal digits of a word, most significant first. -/
def hexDigits (n : UInt32) : List UInt8 :=
  (List.range 8).map fun k => hexDigit (n.toNat / 16 ^ (7 - k) % 16)

section Hexadecimal

variable {integer : UInt32} {n i k x : ℕ}

/-- The nibble that is taken is the most significant digit. -/
theorem hexCharacter_shiftRight (integer : UInt32) :
    hexCharacter ((integer >>> 28).toUInt8 &&& 0x0F) = hexDigit (integer.toNat / 16 ^ 7 % 16) := by
  have hlt : integer.toNat / 16 ^ 7 < 16 := by have := integer.toNat_lt; omega
  have hnibble : (integer >>> 28).toUInt8 &&& 0x0F = UInt8.ofNat (integer.toNat / 16 ^ 7) := by
    apply UInt8.toNat_inj.mp
    have hshift : (integer >>> 28).toNat = integer.toNat / 16 ^ 7 := by
      rw [UInt32.toNat_shiftRight, Nat.shiftRight_eq_div_pow]
      rfl
    have hmask : (0x0F : UInt8).toNat = 2 ^ 4 - 1 := rfl
    rw [UInt8.toNat_and, UInt32.toNat_toUInt8, hshift, hmask, Nat.and_two_pow_sub_one_eq_mod,
      UInt8.toNat_ofNat']
    omega
  have hall : ∀ d : Fin 16, hexCharacter (UInt8.ofNat d) = hexDigit d := by decide
  rw [hnibble, Nat.mod_eq_of_lt hlt]
  exact hall ⟨_, hlt⟩

/-- A shift by one digit. -/
theorem shift_digit (hk : k < 7) :
    x * 16 % 2 ^ 32 / 16 ^ (7 - k) % 16 = x / 16 ^ (7 - (k + 1)) % 16 := by
  obtain ⟨j, hj⟩ : ∃ j, 7 - (k + 1) = j := ⟨_, rfl⟩
  obtain ⟨m, hm⟩ : ∃ m, 7 - j = m + 1 := ⟨6 - j, by omega⟩
  have hsplit : (16 : ℕ) ^ 7 = 16 ^ j * 16 ^ (m + 1) := by rw [← pow_add]; congr 1; omega
  have hpow : (16 : ℕ) ^ (7 - k) = 16 * 16 ^ j := by rw [← pow_succ']; congr 1; omega
  have htop : (2 : ℕ) ^ 32 = 16 ^ 7 * 16 := by decide
  rw [hj, hpow, htop, Nat.mul_mod_mul_right, ← Nat.div_div_eq_div_mul,
    Nat.mul_div_cancel _ (by decide), hsplit, Nat.mod_mul_right_div_self,
    Nat.mod_mod_of_dvd _ (dvd_pow_self 16 (Nat.succ_ne_zero m))]

theorem hexWrites_eq (hn : n ≤ 8) :
    hexWrites n i integer =
      (List.range n).map fun k => (i + k, hexDigit (integer.toNat / 16 ^ (7 - k) % 16)) := by
  induction n generalizing i integer with
  | zero => rfl
  | succ n ih =>
    have hshift : (integer <<< 4).toNat = integer.toNat * 16 % 2 ^ 32 := by
      rw [UInt32.toNat_shiftLeft, Nat.shiftLeft_eq]
      rfl
    rw [hexWrites, ih (by omega), List.range_succ_eq_map, List.map_cons, List.map_map,
      hexCharacter_shiftRight]
    refine List.cons_eq_cons.mpr ⟨rfl, List.map_congr_left fun k hk => ?_⟩
    have hk' : k < 7 := by have := List.mem_range.mp hk; omega
    show (i + 1 + k, _) = (i + (k + 1), _)
    rw [hshift, shift_digit hk', add_right_comm, add_assoc]

/-- **The eight digits** are written in order, from index 0. -/
theorem intToHexString_eq (integer : UInt32) :
    intToHexString integer =
      (List.range 8).map fun k => (k, hexDigit (integer.toNat / 16 ^ (7 - k) % 16)) := by
  rw [intToHexString, hexWrites_eq le_rfl]
  simp only [zero_add]

end Hexadecimal

/-! ## Comparison -/

/-- A string in one of the buffers of `StringCompare`, behind the blanks. -/
def padString (string : ℕ → UInt8) (length : ℕ) : Except Fault (Fin 10 → UInt8) :=
  (List.range length).foldlM (fun str i =>
    if h : i < 10 then .ok (Function.update str ⟨i, h⟩ (string i)) else .error .outOfBounds)
    fun _ => space

def stringCompare (stringA : ℕ → UInt8) (lengthA : UInt8) (stringB : ℕ → UInt8)
    (lengthB : UInt8) : Except Fault UInt8 := do
  let strA ← padString stringA lengthA.toNat
  let strB ← padString stringB lengthB.toNat
  if ∀ i, strA i = strB i then return 1 else return 0

section Comparison

variable {stringA stringB : ℕ → UInt8} {length : ℕ} {lengthA lengthB : UInt8}

/-- **A string is padded** if it has at most ten characters, and overruns the buffer otherwise. -/
theorem padString_eq (string : ℕ → UInt8) (length : ℕ) :
    padString string length =
      if length ≤ 10 then .ok fun i => if i < length then string i else space
      else .error .outOfBounds := by
  induction length with
  | zero => rfl
  | succ length ih =>
    rw [padString] at ih
    rw [padString, List.range_succ, List.foldlM_append, ih]
    rcases Nat.lt_or_ge length 10 with hlt | hge
    · rw [if_pos hlt.le, if_pos (Nat.succ_le_of_lt hlt), ok_bind]
      simp only [List.foldlM_cons, List.foldlM_nil, dif_pos hlt]
      refine congrArg Except.ok (funext fun i => ?_)
      rcases eq_or_ne i ⟨length, hlt⟩ with rfl | hne
      · rw [Function.update_self, if_pos (Nat.lt_succ_self _)]
      · have hval : i.val ≠ length := fun h => hne (Fin.ext h)
        rw [Function.update_of_ne hne]
        exact if_congr (by omega) rfl rfl
    · rw [if_neg (show ¬ length + 1 ≤ 10 by omega)]
      rcases hge.eq_or_lt with rfl | hgt
      · rfl
      · rw [if_neg (not_le.mpr hgt)]
        rfl

/-- **Strings of at most ten characters** are compared with spaces behind them. -/
theorem stringCompare_eq (hA : lengthA.toNat ≤ 10) (hB : lengthB.toNat ≤ 10) :
    stringCompare stringA lengthA stringB lengthB =
      .ok (if ∀ i : Fin 10, (if i < lengthA.toNat then stringA i else space) =
        (if i < lengthB.toNat then stringB i else space) then 1 else 0) := by
  rw [stringCompare, padString_eq, padString_eq, if_pos hA, if_pos hB]
  simp only [ok_bind]
  split <;> rfl

theorem stringCompare_of_lt (hA : 10 < lengthA.toNat) :
    stringCompare stringA lengthA stringB lengthB = .error .outOfBounds := by
  rw [stringCompare, padString_eq, if_neg (not_le.mpr hA)]
  rfl

end Comparison

end MicroKernel.CString
