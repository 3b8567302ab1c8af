import MicroKernel.Fs.Header
import MicroKernel.Lib.ByteStore

/-!
# The string class

The record of `kernel/string.cpp` and its access to a block of bytes, one byte longer than the
capacity. Every access copies the block up to the terminator into a temporary buffer of
`mSize + 1` bytes, and an index outside of it stops the computation. `new`, `delete`, `VirtualRead`
and `VirtualWrite` are those of any store of bytes. `operator[]` of a constant string is
`mReadBuffer`; the byte it passes on in `mDummy` is seen nowhere else.

## Main definitions

* `String`, `Text`: a string, and a zero-free text behind a `const char*`
* `String.mReadBuffer`, `String.mUpdateBuffer`, `String.set`, `String.get`, `String.reserve`
* `String.setEach`: the loops that set one byte after the other
* `Stored`, `Holds`: the block of a string, and its characters
* `Becomes`: what is stored behind an operation, with the other blocks unchanged

## Main results

* `Stored.set`, `Stored.get`, `Stored.reserve`: the operations on the block
* `Stored.setEach`, `Stored.setEach_eq`: the bytes behind a loop
-/

namespace MicroKernel.Containers

open Fs (Fault ok_bind)
open Store (toNat_add_one)

structure String (A : Type) where
  mSize : UInt32
  mCapacity : UInt32
  mAddress : A

/-- A text behind a `const char*`, in a data memory of 16 bits. -/
structure Text where
  chars : List UInt8
  ne_zero : ∀ c ∈ chars, c ≠ 0
  length_lt : chars.length < 2 ^ 16

def Text.strlen (s : Text) : UInt32 := UInt32.ofNat s.chars.length

theorem Text.toNat_strlen (s : Text) : s.strlen.toNat = s.chars.length := by
  have hlt := s.length_lt
  rw [Text.strlen, UInt32.toNat_ofNat', Nat.mod_eq_of_lt (by omega)]

variable {A M : Type} [DecidableEq A]

section Operations

variable (store : ByteStore A M)

namespace String

def mReadBuffer (index : UInt32) (str : String A) (m : M) : Except Fault UInt8 :=
  let buffer := store.read m str.mAddress (str.mSize + 1).toNat
  match buffer[index.toNat]? with
  | some byte => .ok byte
  | none => .error .outOfBounds

def mUpdateBuffer (index : UInt32) (value : UInt8) (str : String A) (m : M) : Except Fault M :=
  let buffer := store.read m str.mAddress (str.mSize + 1).toNat
  if index.toNat < buffer.length then
    .ok (store.write m str.mAddress (buffer.set index.toNat value))
  else .error .outOfBounds

def set (i : UInt32) (item : UInt8) (str : String A) (m : M) : Except Fault M :=
  if i < str.mSize then mUpdateBuffer store i item str m else .ok m

def get (i : UInt32) (str : String A) (m : M) : Except Fault UInt8 :=
  if i < str.mSize then mReadBuffer store i str m else .ok 0

def reserve (newCapacity : UInt32) (str : String A) (m : M) : String A × M :=
  let (newAddress, m) := store.new m (newCapacity + 1).toNat
  let buffer := store.read m str.mAddress (str.mCapacity + 1).toNat
  let m := store.write m newAddress buffer
  let m := store.delete m str.mAddress
  ({ str with mAddress := newAddress, mCapacity := newCapacity }, m)

def resize (newSize : UInt32) (str : String A) (m : M) : String A × M :=
  let (str, m) := reserve store newSize str m
  ({ str with mSize := newSize }, m)

/-- `string(const string& str)` -/
def copy (str : String A) (m : M) : String A × M :=
  let (newAddress, m) := store.new m (str.mCapacity + 1).toNat
  let buffer := store.read m str.mAddress (str.mSize + 1).toNat
  ({ str with mAddress := newAddress }, store.write m newAddress buffer)

/-- `~string` -/
def destroy (str : String A) (m : M) : M :=
  if str.mAddress = store.null then m else store.delete m str.mAddress

/-- A loop of `n` passes, of which pass `k` sets the byte at `dst k`. -/
def setEach (dst : ℕ → UInt32) (value : ℕ → M → Except Fault UInt8) (n : ℕ) (str : String A)
    (m : M) : Except Fault M :=
  (List.range n).foldlM (fun m k => do set store (dst k) (← value k m) str m) m

end String

/-- The bytes of the block of a string, up to its capacity and one more. -/
structure Stored (str : String A) (m : M) (bytes : List UInt8) : Prop where
  block : store.block m str.mAddress = some bytes
  length : bytes.length = str.mCapacity.toNat + 1
  capacity_lt : str.mCapacity.toNat + 1 < 2 ^ 32
  size_le : str.mSize.toNat ≤ str.mCapacity.toNat

/-- The characters of a string. -/
def Holds (str : String A) (m : M) (t : List UInt8) : Prop :=
  ∃ bytes, Stored store str m bytes ∧ bytes.take str.mSize.toNat = t

/-- The bytes that are stored behind an operation on a string. Any other block stays, and stays
another. -/
structure Becomes (str : String A) (m : M) (str' : String A) (m' : M) (bytes : List UInt8) :
    Prop where
  stored : Stored store str' m' bytes
  other : ∀ b other, b ≠ str.mAddress → store.block m b = some other →
    b ≠ str'.mAddress ∧ store.block m' b = some other

end Operations

/-- The bytes of a list with one byte set. -/
theorem getD_set {l : List UInt8} {i j : ℕ} {item : UInt8} (hi : i < l.length) :
    (l.set i item).getD j 0 = if j = i then item else l.getD j 0 := by
  split
  · next h =>
    subst h
    rw [List.getD_eq_getElem _ _ (by rwa [List.length_set]), List.getElem_set_self]
  · next h =>
    rw [List.getD_eq_getElem?_getD, List.getElem?_set_ne (Ne.symm h), List.getD_eq_getElem?_getD]

section Stored

variable {store : ByteStore A M} {str str' str'' : String A} {m m' m'' : M}
  {bytes bytes' t : List UInt8} {i newCapacity : UInt32} {item : UInt8} {n : ℕ}

theorem Becomes.refl (h : Stored store str m bytes) : Becomes store str m str m bytes :=
  ⟨h, fun _ _ hne hb => ⟨hne, hb⟩⟩

theorem Becomes.trans (h : Becomes store str m str' m' bytes)
    (h' : Becomes store str' m' str'' m'' bytes') : Becomes store str m str'' m'' bytes' :=
  ⟨h'.stored, fun b other hne hb =>
    have hb' := h.other b other hne hb
    h'.other b other hb'.1 hb'.2⟩

theorem Holds.length (h : Holds store str m t) : t.length = str.mSize.toNat := by
  obtain ⟨bytes, hs, rfl⟩ := h
  have hlength := hs.length
  have hsize := hs.size_le
  rw [List.length_take]
  omega

namespace Stored

theorem toNat_mSize_add_one (h : Stored store str m bytes) :
    (str.mSize + 1).toNat = str.mSize.toNat + 1 :=
  toNat_add_one ((Nat.succ_le_succ h.size_le).trans_lt h.capacity_lt)

/-- The temporary buffer of an access. -/
theorem read_buffer (h : Stored store str m bytes) :
    store.read m str.mAddress (str.mSize + 1).toNat = bytes.take (str.mSize.toNat + 1) := by
  have hlength := h.length
  have hsize := h.size_le
  rw [h.toNat_mSize_add_one, ByteStore.read_eq_take h.block (by omega)]

theorem mReadBuffer (h : Stored store str m bytes) (hi : i.toNat ≤ str.mSize.toNat) :
    str.mReadBuffer store i m = .ok (bytes.getD i.toNat 0) := by
  have hlength := h.length
  have hsize := h.size_le
  rw [String.mReadBuffer, h.read_buffer, List.getElem?_take_of_lt (Nat.lt_succ_of_le hi),
    List.getElem?_eq_getElem (by omega), List.getD_eq_getElem _ _ (by omega)]

theorem mReadBuffer_of_lt (h : Stored store str m bytes) (hi : str.mSize.toNat < i.toNat) :
    str.mReadBuffer store i m = .error .outOfBounds := by
  rw [String.mReadBuffer, h.read_buffer, List.getElem?_eq_none]
  rw [List.length_take]
  omega

theorem mUpdateBuffer (h : Stored store str m bytes) (hi : i.toNat ≤ str.mSize.toNat) :
    ∃ m', str.mUpdateBuffer store i item m = .ok m' ∧
      Becomes store str m str m' (bytes.set i.toNat item) := by
  have hlength := h.length
  have hsize := h.size_le
  have hbuffer : (bytes.take (str.mSize.toNat + 1)).length = str.mSize.toNat + 1 := by
    rw [List.length_take]
    omega
  have hset : (bytes.take (str.mSize.toNat + 1)).set i.toNat item ++
      bytes.drop (str.mSize.toNat + 1) = bytes.set i.toNat item := by
    rw [← List.set_append_left _ _ (by omega), List.take_append_drop]
  have hle : ((bytes.take (str.mSize.toNat + 1)).set i.toNat item).length ≤ bytes.length := by
    rw [List.length_set]
    omega
  have hupdate : str.mUpdateBuffer store i item m = .ok (store.write m str.mAddress
      ((bytes.take (str.mSize.toNat + 1)).set i.toNat item)) := by
    rw [String.mUpdateBuffer, h.read_buffer]
    exact if_pos (by omega)
  refine ⟨_, hupdate, ⟨⟨?_, by rw [List.length_set, hlength], h.capacity_lt, hsize⟩, ?_⟩⟩
  · rw [ByteStore.block_write_self h.block hle, List.length_set, hbuffer, hset]
  · intro b other hne hb
    exact ⟨hne, by rw [ByteStore.block_write_of_ne h.block hle hne, hb]⟩

/-- **A byte is set** inside the string, and nothing happens outside. -/
theorem set (h : Stored store str m bytes) (i : UInt32) (item : UInt8) :
    ∃ m', str.set store i item m = .ok m' ∧ Becomes store str m str m'
      (if i.toNat < str.mSize.toNat then bytes.set i.toNat item else bytes) := by
  by_cases hi : i < str.mSize
  · rw [String.set, if_pos hi, if_pos (UInt32.lt_iff_toNat_lt.mp hi)]
    exact h.mUpdateBuffer (UInt32.lt_iff_toNat_lt.mp hi).le
  · rw [String.set, if_neg hi, if_neg (mt UInt32.lt_iff_toNat_lt.mpr hi)]
    exact ⟨m, rfl, .refl h⟩

/-- **The byte** inside the string, and zero outside. -/
theorem get (h : Stored store str m bytes) (i : UInt32) :
    str.get store i m = .ok (if i.toNat < str.mSize.toNat then bytes.getD i.toNat 0 else 0) := by
  by_cases hi : i < str.mSize
  · rw [String.get, if_pos hi, if_pos (UInt32.lt_iff_toNat_lt.mp hi)]
    exact h.mReadBuffer (UInt32.lt_iff_toNat_lt.mp hi).le
  · rw [String.get, if_neg hi, if_neg (mt UInt32.lt_iff_toNat_lt.mpr hi)]

/-- **The block of a larger capacity** holds the bytes of the old one, and new ones behind. -/
theorem reserve (h : Stored store str m bytes) (hle : str.mCapacity.toNat ≤ newCapacity.toNat)
    (hlt : newCapacity.toNat + 1 < 2 ^ 32) :
    ∃ fresh, fresh.length = newCapacity.toNat - str.mCapacity.toNat ∧
      Becomes store str m (str.reserve store newCapacity m).1 (str.reserve store newCapacity m).2
        (bytes ++ fresh) := by
  have hlength := h.length
  obtain ⟨new, hnew, hblock, hother⟩ := store.exists_block_new m (newCapacity + 1).toNat
  obtain ⟨⟨a, m₁⟩, ham⟩ : ∃ am, store.new m (newCapacity + 1).toNat = am := ⟨_, rfl⟩
  rw [ham] at hblock hother
  rw [toNat_add_one hlt] at hnew
  have hold := hother _ _ h.block
  have hbuffer : store.read m₁ str.mAddress (str.mCapacity + 1).toNat = bytes := by
    rw [ByteStore.read_eq_take hold.2 (by rw [toNat_add_one h.capacity_lt, hlength]),
      toNat_add_one h.capacity_lt, ← hlength, List.take_length]
  have hfits : bytes.length ≤ new.length := by omega
  have hwrite := ByteStore.block_write_self hblock hfits
  have hkeep : ∀ b other, store.block m b = some other →
      b ≠ a ∧ store.block (store.write m₁ a bytes) b = some other := fun b other hb => by
    have hb' := hother b other hb
    exact ⟨hb'.1, by rw [ByteStore.block_write_of_ne hblock hfits hb'.1, hb'.2]⟩
  have hkept := hkeep _ _ h.block
  refine ⟨new.drop bytes.length, by rw [List.length_drop]; omega, ?_⟩
  rw [String.reserve, ham]
  simp only [hbuffer]
  refine ⟨⟨?_, ?_, hlt, h.size_le.trans hle⟩, fun b other hne hb => ?_⟩
  · exact (ByteStore.block_delete_of_ne hkept.2 hkept.1.symm).trans hwrite
  · show (bytes ++ new.drop bytes.length).length = newCapacity.toNat + 1
    rw [List.length_append, List.length_drop]
    omega
  · have hb' := hkeep b other hb
    exact ⟨hb'.1, (ByteStore.block_delete_of_ne hkept.2 hne).trans hb'.2⟩

/-- **A loop that sets bytes**: every byte is set to what the pass finds there, if it lies inside
the string, and the others stay. The values are given for a memory in which only bytes of earlier
passes have changed. -/
theorem setEach (h : Stored store str m bytes) (dst : ℕ → UInt32) (w : ℕ → UInt8)
    (value : ℕ → M → Except Fault UInt8)
    (hdst : ∀ k < n, ∀ k' < n, (dst k).toNat = (dst k').toNat → k = k')
    (hvalue : ∀ k < n, ∀ m' bytes', Stored store str m' bytes' →
      (∀ j, (∀ k' < k, (dst k').toNat ≠ j) → bytes'.getD j 0 = bytes.getD j 0) →
      ∃ v, value k m' = .ok v ∧ ((dst k).toNat < str.mSize.toNat → v = w k)) :
    ∃ m' bytes', str.setEach store dst value n m = .ok m' ∧ Becomes store str m str m' bytes' ∧
      (∀ k < n, (dst k).toNat < str.mSize.toNat → bytes'.getD (dst k).toNat 0 = w k) ∧
      ∀ j, (∀ k < n, (dst k).toNat = j → str.mSize.toNat ≤ j) →
        bytes'.getD j 0 = bytes.getD j 0 := by
  induction n with
  | zero => exact ⟨m, bytes, rfl, .refl h, fun k hk => absurd hk (Nat.not_lt_zero k), fun _ _ => rfl⟩
  | succ n ih =>
    obtain ⟨m₁, bytes₁, hm₁, hbecomes, hset, hkeep⟩ := ih
      (fun k hk k' hk' => hdst k (hk.trans (Nat.lt_succ_self n)) k' (hk'.trans (Nat.lt_succ_self n)))
      (fun k hk => hvalue k (hk.trans (Nat.lt_succ_self n)))
    obtain ⟨v, hv, hvw⟩ := hvalue n (Nat.lt_succ_self n) m₁ bytes₁ hbecomes.stored
      fun j hj => hkeep j fun k hk hkj => absurd hkj (hj k hk)
    obtain ⟨m₂, hm₂, hbecomes₂⟩ := hbecomes.stored.set (dst n) v
    have hlength₁ := hbecomes.stored.length
    have hsize := h.size_le
    refine ⟨m₂, _, ?_, hbecomes.trans hbecomes₂, fun k hk hlt => ?_, fun j hj => ?_⟩
    · rw [String.setEach] at hm₁
      rw [String.setEach, List.range_succ, List.foldlM_append, hm₁, ok_bind, List.foldlM_cons, hv]
      simp only [ok_bind, hm₂]
      rfl
    · rcases eq_or_ne k n with rfl | hne
      · rw [if_pos hlt, getD_set (by omega), if_pos rfl, hvw hlt]
      · -- an earlier pass, whose byte is not set again
        have hk' : k < n := lt_of_le_of_ne (Nat.le_of_lt_succ hk) hne
        rw [← hset k hk' hlt]
        split
        · rw [getD_set (by omega), if_neg fun heq => hne (hdst k hk n (Nat.lt_succ_self n) heq)]
        · rfl
    · rw [← hkeep j fun k hk => hj k (hk.trans (Nat.lt_succ_self n))]
      split
      · next hlt =>
        rw [getD_set (by omega), if_neg]
        rintro rfl
        exact absurd (hj n (Nat.lt_succ_self n) rfl) (not_le.mpr hlt)
      · rfl

/-- **The bytes behind a loop** that sets those at some positions. -/
theorem setEach_eq (h : Stored store str m bytes) (dst : ℕ → UInt32) (w : ℕ → UInt8)
    (value : ℕ → M → Except Fault UInt8) (c : ℕ → Prop) [DecidablePred c]
    (hc : ∀ j, c j ↔ ∃ k < n, (dst k).toNat = j)
    (hdst : ∀ k < n, ∀ k' < n, (dst k).toNat = (dst k').toNat → k = k')
    (hvalue : ∀ k < n, ∀ m' bytes', Stored store str m' bytes' →
      (∀ j, (∀ k' < k, (dst k').toNat ≠ j) → bytes'.getD j 0 = bytes.getD j 0) →
      ∃ v, value k m' = .ok v ∧ ((dst k).toNat < str.mSize.toNat → v = w (dst k).toNat)) :
    ∃ m' bytes', str.setEach store dst value n m = .ok m' ∧ Becomes store str m str m' bytes' ∧
      ∀ j, bytes'.getD j 0 = if c j ∧ j < str.mSize.toNat then w j else bytes.getD j 0 := by
  obtain ⟨m', bytes', hm', hbecomes, hset, hkeep⟩ :=
    h.setEach dst (fun k => w (dst k).toNat) value hdst hvalue
  refine ⟨m', bytes', hm', hbecomes, fun j => ?_⟩
  split
  · next hj =>
    obtain ⟨k, hk, rfl⟩ := (hc j).mp hj.1
    exact hset k hk hj.2
  · next hj =>
    refine hkeep j fun k hk hkj => not_lt.mp fun hlt => hj ⟨?_, hlt⟩
    exact (hc j).mpr ⟨k, hk, hkj⟩

end Stored

end Stored

end MicroKernel.Containers
