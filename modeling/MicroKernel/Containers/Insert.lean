import MicroKernel.Containers.String
import Mathlib.Data.List.GetD

/-!
# Insertion into a string

The three overloads of `string::insert`. A byte is inserted with one more byte of room, and a
string byte by byte. A text is inserted in one pass, made while the string has its old size, so
that nothing behind it is set, and the byte at the index is moved nowhere.

## Main definitions

* `String.insertChar`, `String.insertString`, `String.insertText`: the overloads
* `String.makeRoom`: the larger capacity for a text
* `InsertsAlike`: the overloads insert into the characters

## Main results

* `Stored.insertChar`, `Stored.insertString`: two overloads insert into the characters
* `Stored.insertText`: what the third one leaves
* `insertsAlike_iff`: when all of them do
-/

namespace MicroKernel.Containers

open Fs (Fault ok_bind)
open Store (toNat_add_one)

variable {A M : Type} [DecidableEq A]

namespace String

variable (store : ByteStore A M)

/-- The loop that moves bytes up by `d`, from index `first` down to behind `last`. -/
def moveUp (first last d : UInt32) (str : String A) (m : M) : Except Fault M :=
  setEach store (fun k => first - UInt32.ofNat k)
    (fun k m => get store (first - UInt32.ofNat k - d) str m) (first.toNat - last.toNat) str m

/-- The loop that copies a text to `index`. -/
def setText (index : UInt32) (s : Text) (str : String A) (m : M) : Except Fault M :=
  setEach store (fun k => index + UInt32.ofNat k) (fun k _ => .ok (s.chars.getD k 0))
    s.strlen.toNat str m

/-- `insert(uint32_t index, uint8_t item)` -/
def insertChar (index : UInt32) (item : UInt8) (str : String A) (m : M) :
    Except Fault (String A × M) := do
  if str.mSize ≤ index then return (str, m)
  -- Resize if necessary
  let (str, m) :=
    if str.mCapacity ≤ str.mSize then reserve store (str.mCapacity + 1) str m else (str, m)
  let str := { str with mSize := str.mSize + 1 }
  let m ← moveUp store str.mSize index 1 str m
  let m ← set store index item str m
  return (str, m)

/-- One pass of `insert(uint32_t index, const string str)`: the index of `operator[]` has 16 bits. -/
def insertPass (index : UInt32) (other : String A) (s : String A × M) (i : ℕ) :
    Except Fault (String A × M) := do
  insertChar store (index + UInt32.ofNat i) (← mReadBuffer store (UInt32.ofNat (i % 2 ^ 16)) other s.2)
    s.1 s.2

/-- `insert(uint32_t index, const string str)`: the argument is a copy of `other`. -/
def insertString (index : UInt32) (str other : String A) (m : M) :
    Except Fault (String A × M) := do
  let (copied, m) := copy store other m
  let (str, m) ← (List.range copied.mSize.toNat).foldlM (insertPass store index copied) (str, m)
  return (str, destroy store copied m)

/-- The larger capacity for `strLen` more characters. -/
def makeRoom (strLen : UInt32) (str : String A) (m : M) : String A × M :=
  if str.mCapacity < str.mSize + strLen then reserve store (str.mSize + strLen) str m else (str, m)

/-- `insert(uint32_t index, const char* str)` -/
def insertText (index : UInt32) (s : Text) (str : String A) (m : M) :
    Except Fault (String A × M) := do
  if str.mSize ≤ index then return (str, m)
  let strLen := s.strlen
  -- Resize if necessary
  let (str, m) := makeRoom store strLen str m
  let m ← moveUp store (str.mSize + strLen) (index + strLen) strLen str m
  let m ← setText store index s str m
  return ({ str with mSize := str.mSize + strLen }, m)

/-- The bytes of the block once there is room for `strLen` more characters. -/
def roomBytes (strLen : UInt32) (str : String A) (m : M) : List UInt8 :=
  (store.block (makeRoom store strLen str m).2 (makeRoom store strLen str m).1.mAddress).getD []

end String

/-- Each overload inserts into the characters `t` of the string. -/
structure InsertsAlike (store : ByteStore A M) (index : UInt32) (item : UInt8) (other : String A)
    (s : Text) (str : String A) (m : M) (t : List UInt8) : Prop where
  char : ∃ str' m', str.insertChar store index item m = .ok (str', m') ∧
    Holds store str' m' (t.take index.toNat ++ [item] ++ t.drop index.toNat)
  string : ∃ str' m', str.insertString store index other m = .ok (str', m') ∧
    Holds store str' m' (t.take index.toNat ++ s.chars ++ t.drop index.toNat)
  text : ∃ str' m', str.insertText store index s m = .ok (str', m') ∧
    Holds store str' m' (t.take index.toNat ++ s.chars ++ t.drop index.toNat)

section Lists

variable {l l' s t : List UInt8} {i j n : ℕ}

theorem ext_getD (hlength : l.length = l'.length) (h : ∀ j < l.length, l.getD j 0 = l'.getD j 0) :
    l = l' := by
  refine List.ext_getElem hlength fun j hj hj' => ?_
  rw [← List.getD_eq_getElem _ 0 hj, h j hj, List.getD_eq_getElem _ 0 hj']

theorem getD_take (hj : j < i) : (l.take i).getD j 0 = l.getD j 0 := by
  rw [List.getD_eq_getElem?_getD, List.getElem?_take_of_lt hj, List.getD_eq_getElem?_getD]

/-- The bytes of a list in which some are replaced. -/
theorem getD_replace (hi : i ≤ t.length) :
    (t.take i ++ s ++ t.drop (i + n)).getD j 0 =
      if j < i then t.getD j 0
      else if j < i + s.length then s.getD (j - i) 0 else t.getD (j - s.length + n) 0 := by
  have hlength : (t.take i).length = i := by rw [List.length_take]; omega
  rw [List.append_assoc]
  split
  · next hlt => rw [List.getD_append _ _ _ _ (by omega), getD_take hlt]
  · rw [List.getD_append_right _ _ _ _ (by omega), hlength]
    split
    · rw [List.getD_append _ _ _ _ (by omega)]
    · rw [List.getD_append_right _ _ _ _ (by omega), List.getD_eq_getElem?_getD,
        List.getElem?_drop, List.getD_eq_getElem?_getD]
      congr 2
      omega

/-- The bytes of an insertion. -/
theorem getD_insert (hi : i ≤ t.length) :
    (t.take i ++ s ++ t.drop i).getD j 0 =
      if j < i then t.getD j 0
      else if j < i + s.length then s.getD (j - i) 0 else t.getD (j - s.length) 0 :=
  getD_replace hi (n := 0)

/-- A byte set in front of bytes that are moved up by one is inserted. -/
theorem take_set_insert {item : UInt8} (hi : i < n) (hn : n ≤ l.length) (hn' : n < l'.length)
    (h : ∀ j ≤ n, l'.getD j 0 = if i < j then l.getD (j - 1) 0 else l.getD j 0) :
    (l'.set i item).take (n + 1) = (l.take n).take i ++ [item] ++ (l.take n).drop i := by
  have htaken : (l.take n).length = n := by
    rw [List.length_take]
    omega
  refine ext_getD ?_ fun j hj => ?_
  · simp only [List.length_append, List.length_take, List.length_drop, List.length_singleton,
      List.length_set]
    omega
  · rw [List.length_take] at hj
    rw [getD_take (by omega), getD_set (by omega), h j (by omega), getD_insert (by omega),
      List.length_singleton]
    rcases lt_trichotomy j i with hlt | rfl | hgt
    · rw [if_neg hlt.ne, if_neg (by omega), if_pos hlt, getD_take (by omega)]
    · rw [if_pos rfl, if_neg (lt_irrefl _), if_pos (Nat.lt_succ_self _), Nat.sub_self]
      rfl
    · rw [if_neg hgt.ne', if_pos hgt, if_neg (by omega), if_neg (by omega), getD_take (by omega)]

end Lists

section Insertion

variable {store : ByteStore A M} {str other : String A} {m : M} {bytes bytes' t : List UInt8}
  {d index newSize : UInt32} {item : UInt8} {s : Text}

namespace Stored

theorem withSize (h : Stored store str m bytes) (hle : newSize.toNat ≤ str.mCapacity.toNat) :
    Becomes store str m { str with mSize := newSize } m bytes :=
  ⟨⟨h.block, h.length, h.capacity_lt, hle⟩, fun _ _ hne hb => ⟨hne, hb⟩⟩

theorem moveUp (h : Stored store str m bytes) (first last d : UInt32)
    (hd : d.toNat ≤ last.toNat + 1) :
    ∃ m' bytes', str.moveUp store first last d m = .ok m' ∧ Becomes store str m str m' bytes' ∧
      ∀ j, bytes'.getD j 0 =
        if last.toNat < j ∧ j ≤ first.toNat ∧ j < str.mSize.toNat then bytes.getD (j - d.toNat) 0
        else bytes.getD j 0 := by
  have hfirst := first.toNat_lt
  have hdst : ∀ k < first.toNat - last.toNat,
      (first - UInt32.ofNat k).toNat = first.toNat - k := by
    intro k hk
    rw [UInt32.toNat_sub, UInt32.toNat_ofNat']
    omega
  have hsrc : ∀ k < first.toNat - last.toNat,
      (first - UInt32.ofNat k - d).toNat = first.toNat - k - d.toNat := by
    intro k hk
    have hd' := d.toNat_lt
    rw [UInt32.toNat_sub, hdst k hk]
    omega
  obtain ⟨m', bytes', hm', hbecomes, hbytes'⟩ := h.setEach_eq
    (fun k => first - UInt32.ofNat k) (fun j => bytes.getD (j - d.toNat) 0)
    (fun k m => str.get store (first - UInt32.ofNat k - d) m)
    (fun j => last.toNat < j ∧ j ≤ first.toNat) (n := first.toNat - last.toNat)
    (fun j => by
      constructor
      · intro hj
        have hk : first.toNat - j < first.toNat - last.toNat := by omega
        exact ⟨_, hk, by rw [hdst _ hk]; omega⟩
      · rintro ⟨k, hk, rfl⟩
        rw [hdst k hk]
        omega)
    (fun k hk k' hk' heq => by rw [hdst k hk, hdst k' hk'] at heq; omega)
    (fun k hk m' bytes' h' hkeep => by
      refine ⟨_, h'.get _, fun hlt => ?_⟩
      rw [hdst k hk] at hlt ⊢
      rw [hsrc k hk, if_pos (by omega)]
      -- the source lies below what earlier passes have set
      refine hkeep _ fun k' hk' => ?_
      rw [hdst k' (hk'.trans hk)]
      omega)
  exact ⟨m', bytes', hm', hbecomes, fun j => by rw [hbytes']; simp only [and_assoc]⟩

theorem setText (index : UInt32) (s : Text) (h : Stored store str m bytes)
    (hlt : index.toNat + s.chars.length < 2 ^ 32) :
    ∃ m' bytes', str.setText store index s m = .ok m' ∧ Becomes store str m str m' bytes' ∧
      ∀ j, bytes'.getD j 0 =
        if index.toNat ≤ j ∧ j < index.toNat + s.chars.length ∧ j < str.mSize.toNat then
          s.chars.getD (j - index.toNat) 0
        else bytes.getD j 0 := by
  have hdst : ∀ k < s.strlen.toNat, (index + UInt32.ofNat k).toNat = index.toNat + k := by
    intro k hk
    rw [s.toNat_strlen] at hk
    rw [UInt32.toNat_add, UInt32.toNat_ofNat']
    omega
  obtain ⟨m', bytes', hm', hbecomes, hbytes'⟩ := h.setEach_eq
    (fun k => index + UInt32.ofNat k) (fun j => s.chars.getD (j - index.toNat) 0)
    (fun k _ => .ok (s.chars.getD k 0))
    (fun j => index.toNat ≤ j ∧ j < index.toNat + s.chars.length) (n := s.strlen.toNat)
    (fun j => by
      constructor
      · intro hj
        have hk : j - index.toNat < s.strlen.toNat := by rw [s.toNat_strlen]; omega
        exact ⟨_, hk, by rw [hdst _ hk]; omega⟩
      · rintro ⟨k, hk, rfl⟩
        rw [hdst k hk]
        rw [s.toNat_strlen] at hk
        omega)
    (fun k hk k' hk' heq => by rw [hdst k hk, hdst k' hk'] at heq; omega)
    (fun k hk m' bytes' h' hkeep =>
      ⟨_, rfl, fun _ => by rw [hdst k hk, Nat.add_sub_cancel_left]⟩)
  exact ⟨m', bytes', hm', hbecomes, fun j => by rw [hbytes']; simp only [and_assoc]⟩

/-- A step that reserves a larger capacity or does nothing keeps the bytes. -/
theorem reserveIf (newSize : UInt32) (h : Stored store str m bytes) (c : Prop) [Decidable c]
    (hc : c → str.mCapacity.toNat ≤ newSize.toNat ∧ newSize.toNat + 1 < 2 ^ 32) :
    ∃ str' m' fresh, (if c then str.reserve store newSize m else (str, m)) = (str', m') ∧
      Becomes store str m str' m' (bytes ++ fresh) ∧ str'.mSize = str.mSize ∧
      str'.mCapacity = if c then newSize else str.mCapacity := by
  split
  · next hif =>
    obtain ⟨fresh, -, hbecomes⟩ := h.reserve (hc hif).1 (hc hif).2
    exact ⟨_, _, fresh, rfl, hbecomes, rfl, rfl⟩
  · exact ⟨str, m, [], rfl, by rw [List.append_nil]; exact .refl h, rfl, rfl⟩

/-- There is room for one more character. -/
theorem grow (h : Stored store str m bytes) (hfits : str.mSize.toNat + 2 < 2 ^ 32) :
    ∃ str' m' fresh, (if str.mCapacity ≤ str.mSize then
        str.reserve store (str.mCapacity + 1) m else (str, m)) = (str', m') ∧
      Becomes store str m { str' with mSize := str.mSize + 1 } m' (bytes ++ fresh) ∧
      str'.mSize = str.mSize := by
  have hsize := h.size_le
  have hsize₁ := h.toNat_mSize_add_one
  have hcapacity := toNat_add_one h.capacity_lt
  obtain ⟨str', m', fresh, hroom, hbecomes, hsize', hcapacity'⟩ :=
    h.reserveIf (str.mCapacity + 1) (str.mCapacity ≤ str.mSize) fun hc => by
      have hc' := UInt32.le_iff_toNat_le.mp hc
      omega
  refine ⟨str', m', fresh, hroom, hbecomes.trans (hbecomes.stored.withSize ?_), hsize'⟩
  rw [hcapacity']
  split
  · omega
  · next hc =>
    have hc' := mt UInt32.le_iff_toNat_le.mpr hc
    omega

/-- **A byte is inserted**, with one more byte of room if there is none. -/
theorem insertChar (index : UInt32) (h : Stored store str m bytes)
    (hi : index.toNat < str.mSize.toNat) (hfits : str.mSize.toNat + 2 < 2 ^ 32) (item : UInt8) :
    ∃ str' m' bytes', str.insertChar store index item m = .ok (str', m') ∧
      Becomes store str m str' m' bytes' ∧ str'.mSize.toNat = str.mSize.toNat + 1 ∧
      bytes'.take str'.mSize.toNat = (bytes.take str.mSize.toNat).take index.toNat ++ [item] ++
        (bytes.take str.mSize.toNat).drop index.toNat := by
  have hlength := h.length
  have hsize := h.size_le
  have hsize₁ := h.toNat_mSize_add_one
  obtain ⟨str₁, m₁, fresh, hroom, hgrown, hsize_eq⟩ := h.grow hfits
  obtain ⟨str₂, hstr₂, hsize₂⟩ : ∃ s : String A, { str₁ with mSize := str.mSize + 1 } = s ∧
      s.mSize = str.mSize + 1 := ⟨_, rfl, rfl⟩
  rw [hstr₂] at hgrown
  rw [← hsize₂] at hsize₁
  obtain ⟨m₂, bytes₂, hm₂, hbecomes₂, hmove⟩ :=
    hgrown.stored.moveUp str₂.mSize index 1 (by rw [UInt32.toNat_one]; omega)
  obtain ⟨m₃, hm₃, hbecomes₃⟩ := hbecomes₂.stored.set index item
  rw [if_pos (show index.toNat < str₂.mSize.toNat by omega)] at hbecomes₃
  refine ⟨str₂, m₃, _, ?_, (hgrown.trans hbecomes₂).trans hbecomes₃, hsize₁, ?_⟩
  · rw [hsize₂] at hm₂
    rw [String.insertChar, if_neg (mt UInt32.le_iff_toNat_le.mp (not_le.mpr hi))]
    simp only [hroom, hsize_eq, hstr₂, hm₂, hm₃, ok_bind]
    rfl
  · have hlength₂ := hbecomes₂.stored.length
    have hsize₃ := hbecomes₂.stored.size_le
    rw [hsize₁]
    refine take_set_insert hi (by omega) (by omega) fun j hj => ?_
    rw [hmove, UInt32.toNat_one]
    split
    · next hmoved => rw [if_pos hmoved.1, List.getD_append _ _ _ _ (by omega)]
    · rw [if_neg (by omega), List.getD_append _ _ _ _ (by omega)]

/-- A copy of a string is another block with the characters, and the blocks there are stay. -/
theorem copy (h : Stored store str m bytes) :
    ∃ copied m' fresh, str.copy store m = (copied, m') ∧
      Stored store copied m' (bytes.take (str.mSize.toNat + 1) ++ fresh) ∧
      copied.mSize = str.mSize ∧
      ∀ b other, store.block m b = some other →
        b ≠ copied.mAddress ∧ store.block m' b = some other := by
  have hlength := h.length
  have hsize := h.size_le
  have hlt := h.capacity_lt
  have hcapacity := toNat_add_one h.capacity_lt
  obtain ⟨new, hnew, hblock, hother⟩ := store.exists_block_new m (str.mCapacity + 1).toNat
  obtain ⟨⟨a, m₁⟩, ham⟩ : ∃ am, store.new m (str.mCapacity + 1).toNat = am := ⟨_, rfl⟩
  rw [ham] at hblock hother
  have hbuffer : store.read m₁ str.mAddress (str.mSize + 1).toNat =
      bytes.take (str.mSize.toNat + 1) := by
    rw [h.toNat_mSize_add_one, ByteStore.read_eq_take (hother _ _ h.block).2 (by omega)]
  have hfits : (bytes.take (str.mSize.toNat + 1)).length ≤ new.length := by
    rw [List.length_take]
    omega
  refine ⟨{ str with mAddress := a }, _, _, ?_, ⟨ByteStore.block_write_self hblock hfits, ?_,
    hlt, hsize⟩, rfl, fun b other hb => ?_⟩
  · rw [String.copy, ham]
    simp only [hbuffer]
  · rw [List.length_append, List.length_drop]
    show _ = str.mCapacity.toNat + 1
    omega
  · have hb' := hother b other hb
    exact ⟨hb'.1, by rw [ByteStore.block_write_of_ne hblock hfits hb'.1, hb'.2]⟩

/-- **The passes over a copy** insert its first characters. -/
theorem insertPasses {copied : String A} {chars : List UInt8} (h : Stored store str m bytes)
    (hi : index.toNat < str.mSize.toNat) (hc : Stored store copied m bytes')
    (hchars : bytes'.take copied.mSize.toNat = chars) (hne : copied.mAddress ≠ str.mAddress)
    (hlt : chars.length < 2 ^ 16) (hfits : str.mSize.toNat + chars.length + 1 < 2 ^ 32) {n : ℕ}
    (hn : n ≤ chars.length) :
    ∃ str' m' bytes', (List.range n).foldlM (String.insertPass store index copied) (str, m) =
        .ok (str', m') ∧
      Becomes store str m str' m' bytes' ∧ str'.mSize.toNat = str.mSize.toNat + n ∧
      bytes'.take str'.mSize.toNat = (bytes.take str.mSize.toNat).take index.toNat ++
        chars.take n ++ (bytes.take str.mSize.toNat).drop index.toNat := by
  have hlength := h.length
  have hsize := h.size_le
  induction n with
  | zero =>
    refine ⟨str, m, bytes, rfl, .refl h, rfl, ?_⟩
    rw [List.take_zero, List.append_nil, List.take_append_drop]
  | succ n ih =>
    obtain ⟨str₁, m₁, bytes₁, hm₁, hbecomes₁, hsize₁, htake₁⟩ := ih (by omega)
    -- the copy is still there
    have hcopied := hbecomes₁.other _ _ hne hc.block
    have hc₁ : Stored store copied m₁ bytes' :=
      ⟨hcopied.2, hc.length, hc.capacity_lt, hc.size_le⟩
    have hcsize : chars.length = copied.mSize.toNat := Holds.length ⟨bytes', hc, hchars⟩
    have hofNat : (UInt32.ofNat (n % 2 ^ 16)).toNat = n := by
      rw [UInt32.toNat_ofNat']
      omega
    have hindex : (index + UInt32.ofNat n).toNat = index.toNat + n := by
      rw [UInt32.toNat_add, UInt32.toNat_ofNat']
      omega
    have hread := hc₁.mReadBuffer (i := UInt32.ofNat (n % 2 ^ 16)) (by omega)
    have hitem : bytes'.getD n 0 = chars[n] := by
      rw [← List.getD_eq_getElem _ 0, ← hchars, getD_take (by omega)]
    obtain ⟨str₂, m₂, bytes₂, hm₂, hbecomes₂, hsize₂, htake₂⟩ :=
      hbecomes₁.stored.insertChar (index + UInt32.ofNat n) (by omega) (by omega) chars[n]
    refine ⟨str₂, m₂, bytes₂, ?_, hbecomes₁.trans hbecomes₂, by omega, ?_⟩
    · rw [List.range_succ, List.foldlM_append, hm₁, ok_bind, List.foldlM_cons, String.insertPass,
        hread, hofNat, hitem]
      simp only [ok_bind, hm₂]
      rfl
    · have hfront : ((bytes.take str.mSize.toNat).take index.toNat ++ chars.take n).length =
          (index + UInt32.ofNat n).toNat := by
        rw [List.length_append, List.length_take, List.length_take, List.length_take]
        omega
      rw [htake₂, htake₁, List.take_left' hfront, List.drop_left' hfront, List.append_assoc _ _ [_],
        List.take_append_getElem]

theorem insertString (index : UInt32) (h : Stored store str m bytes)
    (ho : Holds store other m s.chars) (hi : index.toNat < str.mSize.toNat)
    (hfits : str.mSize.toNat + s.chars.length + 1 < 2 ^ 32) :
    ∃ str' m', str.insertString store index other m = .ok (str', m') ∧
      Holds store str' m' ((bytes.take str.mSize.toNat).take index.toNat ++ s.chars ++
        (bytes.take str.mSize.toNat).drop index.toNat) := by
  have hlength := ho.length
  obtain ⟨obytes, hos, hochars⟩ := ho
  obtain ⟨copied, m₁, fresh, hcopy, hc, hcsize, hother⟩ := hos.copy
  have hcopied := hother _ _ h.block
  have h₁ : Stored store str m₁ bytes := ⟨hcopied.2, h.length, h.capacity_lt, h.size_le⟩
  have hchars : (obytes.take (other.mSize.toNat + 1) ++ fresh).take copied.mSize.toNat =
      s.chars := by
    have holength := hos.length
    have hosize := hos.size_le
    rw [hcsize, List.take_append_of_le_length (by rw [List.length_take]; omega), List.take_take,
      Nat.min_eq_left (Nat.le_succ _), hochars]
  obtain ⟨str₂, m₂, bytes₂, hm₂, hbecomes₂, hsize₂, htake₂⟩ :=
    h₁.insertPasses hi hc hchars hcopied.1.symm s.length_lt hfits le_rfl
  have hlast := hbecomes₂.other _ _ hcopied.1.symm hc.block
  have hdelete := ByteStore.block_delete_of_ne hlast.2 hlast.1.symm
  refine ⟨str₂, store.delete m₂ copied.mAddress, ?_, bytes₂,
    ⟨hdelete.trans hbecomes₂.stored.block, hbecomes₂.stored.length, hbecomes₂.stored.capacity_lt,
      hbecomes₂.stored.size_le⟩, by rw [htake₂, List.take_length]⟩
  rw [String.insertString, hcopy]
  simp only [hcsize, ← hlength, hm₂, ok_bind, String.destroy,
    if_neg (ByteStore.ne_null hlast.2)]
  rfl

/-- **What the insertion of a text leaves**: the bytes behind the old size, and the byte that the
text should have moved up first, are those there were. -/
theorem insertText (index : UInt32) (s : Text) (h : Stored store str m bytes)
    (hi : index.toNat < str.mSize.toNat) (hfits : str.mSize.toNat + s.chars.length + 1 < 2 ^ 32) :
    ∃ str' m' bytes', str.insertText store index s m = .ok (str', m') ∧
      Stored store str' m' bytes' ∧ str'.mSize.toNat = str.mSize.toNat + s.chars.length ∧
      ∀ j < str.mSize.toNat + s.chars.length, bytes'.getD j 0 =
        if str.mSize.toNat ≤ j ∨ j = index.toNat + s.chars.length then
          (str.roomBytes store s.strlen m).getD j 0
        else ((bytes.take str.mSize.toNat).take index.toNat ++ s.chars ++
          (bytes.take str.mSize.toNat).drop index.toNat).getD j 0 := by
  have hlength := h.length
  have hsize := h.size_le
  have hlen := s.toNat_strlen
  have hsum : (str.mSize + s.strlen).toNat = str.mSize.toNat + s.chars.length := by
    rw [UInt32.toNat_add]
    omega
  have hlast : (index + s.strlen).toNat = index.toNat + s.chars.length := by
    rw [UInt32.toNat_add]
    omega
  obtain ⟨str₁, m₁, fresh, hroom, hbecomes₁, hsize₁, hcapacity₁⟩ :=
    h.reserveIf (str.mSize + s.strlen) (str.mCapacity < str.mSize + s.strlen)
      fun hc => by
        have hc' := UInt32.lt_iff_toNat_lt.mp hc
        omega
  replace hroom : str.makeRoom store s.strlen m = (str₁, m₁) := hroom
  have hbytes : str.roomBytes store s.strlen m = bytes ++ fresh := by
    rw [String.roomBytes, hroom, hbecomes₁.stored.block]
    rfl
  obtain ⟨m₂, bytes₂, hm₂, hbecomes₂, hmove⟩ :=
    hbecomes₁.stored.moveUp (str.mSize + s.strlen) (index + s.strlen) s.strlen (by omega)
  obtain ⟨m₃, bytes₃, hm₃, hbecomes₃, htext⟩ :=
    hbecomes₂.stored.setText index s (by omega)
  have hle : (str.mSize + s.strlen).toNat ≤ str₁.mCapacity.toNat := by
    rw [hcapacity₁]
    split
    · exact le_rfl
    · next hc =>
      have hc' := mt UInt32.lt_iff_toNat_lt.mpr hc
      omega
  refine ⟨_, m₃, bytes₃, ?_, (hbecomes₃.stored.withSize hle).stored, hsum, fun j hj => ?_⟩
  · rw [String.insertText, if_neg (mt UInt32.le_iff_toNat_le.mp (not_le.mpr hi))]
    simp only [hroom, hsize₁, hm₂, hm₃, ok_bind]
    rfl
  · rw [htext, hmove, hbytes, hsize₁, hlast, hsum, hlen]
    have htaken : (bytes.take str.mSize.toNat).length = str.mSize.toNat := by
      rw [List.length_take]
      omega
    split
    · -- a character of the text
      rw [if_neg (by omega), getD_insert (by omega), if_neg (by omega), if_pos (by omega)]
    · split
      · -- a byte that is moved up
        rw [if_neg (by omega), getD_insert (by omega), if_neg (by omega), if_neg (by omega),
          getD_take (by omega), List.getD_append _ _ _ _ (by omega)]
      · split
        · rfl
        · -- a byte in front
          rw [getD_insert (by omega), if_pos (by omega), getD_take (by omega),
            List.getD_append _ _ _ _ (by omega)]

end Stored

theorem Stored.holds_iff (h : Stored store str m bytes) :
    Holds store str m t ↔ bytes.take str.mSize.toNat = t := by
  refine ⟨fun ⟨bytes', h', ht⟩ => ?_, fun ht => ⟨bytes, h, ht⟩⟩
  rw [← ht, Option.some.inj (h.block.symm.trans h'.block)]

/-- **A text is inserted** if the bytes that are left hold what belongs there. -/
theorem insertText_iff (h : Holds store str m t) (hi : index.toNat < t.length)
    (hfits : t.length + s.chars.length + 1 < 2 ^ 32) :
    (∃ str' m', str.insertText store index s m = .ok (str', m') ∧
      Holds store str' m' (t.take index.toNat ++ s.chars ++ t.drop index.toNat)) ↔
      ∀ j < t.length + s.chars.length, (t.length ≤ j ∨ j = index.toNat + s.chars.length) →
        (str.roomBytes store s.strlen m).getD j 0 =
          (t.take index.toNat ++ s.chars ++ t.drop index.toNat).getD j 0 := by
  have hlength := h.length
  obtain ⟨bytes, hs, ht⟩ := h
  obtain ⟨str', m', bytes', hinsert, hs', hsize', hbytes'⟩ :=
    hs.insertText index s (by omega) (by omega)
  rw [ht, ← hlength] at hbytes'
  rw [← hlength] at hsize'
  have hlength' := hs'.length
  have hle' := hs'.size_le
  -- the result is compared byte by byte
  have hiff : Holds store str' m' (t.take index.toNat ++ s.chars ++ t.drop index.toNat) ↔
      ∀ j < t.length + s.chars.length, bytes'.getD j 0 =
        (t.take index.toNat ++ s.chars ++ t.drop index.toNat).getD j 0 := by
    rw [hs'.holds_iff, hsize']
    constructor
    · intro heq j hj
      rw [← heq, getD_take hj]
    · intro hall
      refine ext_getD ?_ fun j hj => ?_
      · simp only [List.length_append, List.length_take, List.length_drop]
        omega
      · rw [List.length_take] at hj
        rw [getD_take (by omega), hall j (by omega)]
  have hresult : (∃ str' m', str.insertText store index s m = .ok (str', m') ∧
      Holds store str' m' (t.take index.toNat ++ s.chars ++ t.drop index.toNat)) ↔
      Holds store str' m' (t.take index.toNat ++ s.chars ++ t.drop index.toNat) := by
    refine ⟨fun ⟨str'', m'', heq, hholds⟩ => ?_, fun hholds => ⟨str', m', hinsert, hholds⟩⟩
    rw [hinsert] at heq
    cases heq
    exact hholds
  rw [hresult, hiff]
  refine forall₂_congr fun j hj => ?_
  rw [hbytes' j hj]
  split
  · next hleft => exact ⟨fun h _ => h, fun h => h hleft⟩
  · next hset => exact iff_of_true rfl fun hleft => absurd hleft hset

end Insertion

/-- **The overloads agree with the insertion** into the characters if the result has a size, and
the bytes that the insertion of a text leaves hold what belongs there. -/
theorem insertsAlike_iff (store : ByteStore A M) (index : UInt32) (item : UInt8)
    (str other : String A) (s : Text) (m : M) (t : List UInt8) (h : Holds store str m t)
    (ho : Holds store other m s.chars) (hi : index.toNat < t.length) :
    InsertsAlike store index item other s str m t ↔
      t.length + max 1 s.chars.length + 1 < 2 ^ 32 ∧
      ∀ j < t.length + s.chars.length, (t.length ≤ j ∨ j = index.toNat + s.chars.length) →
        (str.roomBytes store s.strlen m).getD j 0 =
          (t.take index.toNat ++ s.chars ++ t.drop index.toNat).getD j 0 := by
  -- a string that is held has a capacity of 32 bits
  have hbound : ∀ {str' : String A} {m' : M} {l : List UInt8},
      Holds store str' m' (t.take index.toNat ++ l ++ t.drop index.toNat) →
        t.length + l.length + 1 < 2 ^ 32 := by
    intro str' m' l hholds
    have hlength := hholds.length
    obtain ⟨_, hs, _⟩ := hholds
    have hsize := hs.size_le
    have hlt := hs.capacity_lt
    simp only [List.length_append, List.length_take, List.length_drop] at hlength
    omega
  have hlength := h.length
  constructor
  · intro hall
    obtain ⟨_, _, _, hchar⟩ := hall.char
    obtain ⟨_, _, _, hstring⟩ := hall.string
    have hone := hbound hchar
    have hmany := hbound hstring
    rw [List.length_singleton] at hone
    exact ⟨by omega, (insertText_iff h hi hmany).mp hall.text⟩
  · rintro ⟨hfits, hleft⟩
    obtain ⟨bytes, hs, ht⟩ := h
    obtain ⟨str', m', bytes', hchar, hbecomes', _, htake'⟩ :=
      hs.insertChar index (by omega) (by omega) item
    have hstring := hs.insertString index ho (by omega) (by omega)
    rw [ht] at hstring htake'
    exact ⟨⟨str', m', hchar, bytes', hbecomes'.stored, htake'⟩, hstring,
      (insertText_iff ⟨bytes, hs, ht⟩ hi (by omega)).mpr hleft⟩

/-- Two blocks of bytes, at the addresses 1 and 2. -/
def twoBlocks (bytes bytes' : List UInt8) : ByteStore.Counting :=
  (ByteStore.Counting.empty.new bytes).new bytes'

/-- The text `"a"`. -/
def textA : Text := ⟨[0x61], by simp, by simp⟩

/-- With an `a` in the spare byte, the overloads agree that `"a"` in front of `"aa"` is `"aaa"`. -/
theorem insertsAlike_aaa :
    InsertsAlike (ByteStore.counting 0) 0 0x62 ⟨1, 1, 2⟩ textA ⟨2, 3, 1⟩
      (twoBlocks [0x61, 0x61, 0x61, 0] [0x61, 0]) [0x61, 0x61] :=
  (insertsAlike_iff _ 0 0x62 ⟨2, 3, 1⟩ ⟨1, 1, 2⟩ textA _ _
    ⟨[0x61, 0x61, 0x61, 0], ⟨rfl, rfl, by decide, by decide⟩, rfl⟩
    ⟨[0x61, 0], ⟨rfl, rfl, by decide, by decide⟩, rfl⟩ (by decide)).mpr
    ⟨by decide, by decide⟩

/-- The text `"a"` in front of `"bcd"` overwrites its first character. -/
theorem exists_not_insertsAlike :
    ∃ (store : ByteStore ℕ ByteStore.Counting) (index : UInt32) (item : UInt8)
      (str other : String ℕ) (s : Text) (m : ByteStore.Counting) (t : List UInt8),
      Holds store str m t ∧ Holds store other m s.chars ∧ index.toNat < t.length ∧
        ¬ InsertsAlike store index item other s str m t := by
  have hstr : Holds (ByteStore.counting 0) (⟨3, 3, 1⟩ : String ℕ)
      (twoBlocks [0x62, 0x63, 0x64, 0] [0x61, 0]) [0x62, 0x63, 0x64] :=
    ⟨_, ⟨rfl, rfl, by decide, by decide⟩, rfl⟩
  refine ⟨ByteStore.counting 0, 0, 0x61, ⟨3, 3, 1⟩, ⟨1, 1, 2⟩, textA, _, _, hstr,
    ⟨[0x61, 0], ⟨rfl, rfl, by decide, by decide⟩, rfl⟩, by decide, fun h => ?_⟩
  have hleft := (insertText_iff hstr (by decide) (by decide)).mp h.text 1 (by decide) (by decide)
  exact absurd hleft (by decide)

end MicroKernel.Containers
