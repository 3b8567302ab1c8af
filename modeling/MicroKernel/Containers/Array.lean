import MicroKernel.Fs.Header
import MicroKernel.Lib.ByteStore

/-!
# The array class

`kernel/array.cpp`: the bytes of an array lie in a block of a store, and every access copies the
first `mSize` of them into a temporary buffer. A byte is pushed with the size the array has before,
behind the last byte of that buffer, and an indexed assignment first writes back the byte of the
last one, which at first is none.

## Main definitions

* `Array`: an array, with the byte and the index of its last indexed access
* `Array.pushBack`, `Array.set`, `Array.get`, `Array.assign`: the operations
* `ArrayOp`, `ArrayOp.contents`: an operation, and what it makes of a sequence of bytes
* `Follows`: an array follows the sequence over a run of operations

## Main results

* `Array.pushBack_eq`: a push leaves the temporary buffer of every array
* `Array.assign_eq`: so does the first indexed assignment
* `arrayFollows_iff`: when an array follows its sequence
-/

namespace MicroKernel.Containers

open Fs (Fault ok_bind)

structure Array (A : Type) where
  mSize : UInt32
  mCapacity : UInt32
  mAddress : A
  mDummyIndex : UInt32
  mDummy : UInt8

variable {A M : Type} [DecidableEq A]

namespace Array

section Operations

variable (store : ByteStore A M)

/-- `array()` -/
def empty : Array A := ⟨0, 0, store.null, -1, 0⟩

def updateBuffer (index : UInt32) (value : UInt8) (arr : Array A) (m : M) : Except Fault M :=
  let buffer := store.read m arr.mAddress arr.mSize.toNat
  if index.toNat < buffer.length then
    .ok (store.write m arr.mAddress (buffer.set index.toNat value))
  else .error .outOfBounds

def readBuffer (index : UInt32) (arr : Array A) (m : M) : Except Fault UInt8 :=
  let buffer := store.read m arr.mAddress arr.mSize.toNat
  match buffer[index.toNat]? with
  | some byte => .ok byte
  | none => .error .outOfBounds

/-- `operator[]`, up to the reference to `mDummy`. -/
def index (i : UInt16) (arr : Array A) (m : M) : Except Fault (Array A × M) := do
  let m ←
    if arr.mDummyIndex ≠ i.toUInt32 then updateBuffer store arr.mDummyIndex arr.mDummy arr m
    else pure m
  let arr := { arr with mDummyIndex := i.toUInt32 }
  return ({ arr with mDummy := ← readBuffer store i.toUInt32 arr m }, m)

/-- `a[i] = item` -/
def assign (i : UInt16) (item : UInt8) (arr : Array A) (m : M) : Except Fault (Array A × M) := do
  let (arr, m) ← index store i arr m
  return ({ arr with mDummy := item }, m)

def set (i : UInt32) (item : UInt8) (arr : Array A) (m : M) : Except Fault M :=
  if i < arr.mSize then updateBuffer store i item arr m else .ok m

def get (i : UInt32) (arr : Array A) (m : M) : Except Fault UInt8 :=
  if i < arr.mSize then readBuffer store i arr m else .ok 0

def reserve (newCapacity : UInt32) (arr : Array A) (m : M) : Array A × M :=
  let (newAddress, m) := store.new m newCapacity.toNat
  let buffer := store.read m arr.mAddress arr.mCapacity.toNat
  let m := store.write m newAddress buffer
  let m := store.delete m arr.mAddress
  ({ arr with mAddress := newAddress, mCapacity := newCapacity }, m)

/-- The larger capacity of `push_back`. -/
def makeRoom (arr : Array A) (m : M) : Array A × M :=
  if arr.mCapacity ≤ arr.mSize then
    let arr := if arr.mCapacity = 0 then { arr with mCapacity := 1 } else arr
    reserve store (arr.mCapacity * 2) arr m
  else (arr, m)

def pushBack (item : UInt8) (arr : Array A) (m : M) : Except Fault (Array A × M) := do
  let (arr, m) := makeRoom store arr m
  let m ← updateBuffer store arr.mSize item arr m
  return ({ arr with mSize := arr.mSize + 1 }, m)

end Operations

variable {store : ByteStore A M}

/-- **A push** always leaves the temporary buffer, which has the bytes of the old size. -/
theorem pushBack_eq (store : ByteStore A M) (item : UInt8) (arr : Array A) (m : M) :
    arr.pushBack store item m = .error .outOfBounds := by
  have hupdate : ∀ (arr : Array A) m,
      updateBuffer store arr.mSize item arr m = .error .outOfBounds := by
    intro arr m
    refine if_neg ?_
    rw [store.length_read]
    exact lt_irrefl _
  rw [pushBack]
  simp only [hupdate]
  rfl

/-- **The first indexed assignment** leaves the temporary buffer, whatever the size. -/
theorem assign_eq (store : ByteStore A M) (i : UInt16) (item : UInt8) (arr : Array A) (m : M)
    (hdummy : arr.mDummyIndex = -1) : arr.assign store i item m = .error .outOfBounds := by
  have hne : arr.mDummyIndex ≠ i.toUInt32 := by
    rw [hdummy]
    intro heq
    have hnat := congrArg UInt32.toNat heq
    have hlt := i.toNat_lt
    rw [UInt16.toNat_toUInt32] at hnat
    have hmax : (-1 : UInt32).toNat = 2 ^ 32 - 1 := rfl
    omega
  have hupdate : updateBuffer store arr.mDummyIndex arr.mDummy arr m = .error .outOfBounds := by
    refine if_neg ?_
    have hlt := arr.mSize.toNat_lt
    have hmax : (-1 : UInt32).toNat = 2 ^ 32 - 1 := rfl
    rw [store.length_read, hdummy, hmax]
    omega
  rw [assign, index, if_pos hne, hupdate]
  rfl

end Array

/-- An operation on an array. -/
inductive ArrayOp where
  | pushBack (item : UInt8)
  | set (i : UInt32) (item : UInt8)
  | assign (i : UInt16) (item : UInt8)
  | get (i : UInt32)

namespace ArrayOp

/-- What the operation makes of the bytes pushed and assigned so far. -/
def contents : ArrayOp → List UInt8 → List UInt8
  | pushBack item, l => l ++ [item]
  | set i item, l => l.set i.toNat item
  | assign i item, l => l.set i.toNat item
  | get _, l => l

/-- The operation on an array, with the byte that `get` returns. -/
def step (store : ByteStore A M) (arr : Array A) (m : M) :
    ArrayOp → Except Fault (Option UInt8 × Array A × M)
  | pushBack item => do
    let (arr, m) ← arr.pushBack store item m
    return (none, arr, m)
  | set i item => return (none, arr, ← arr.set store i item m)
  | assign i item => do
    let (arr, m) ← arr.assign store i item m
    return (none, arr, m)
  | get i => return (some (← arr.get store i m), arr, m)

/-- Bytes are assigned below the size. -/
def Valid (l : List UInt8) : ArrayOp → Prop
  | assign i _ => i.toNat < l.length
  | _ => True

end ArrayOp

/-- Bytes are assigned below the size in a run of operations. -/
def ValidRun : List UInt8 → List ArrayOp → Prop
  | _, [] => True
  | l, op :: ops => op.Valid l ∧ ValidRun (op.contents l) ops

/-- Over the operations no temporary buffer is left, the size is the number of bytes pushed, and
`get` returns the byte that was pushed or assigned last at its index. -/
def Follows (store : ByteStore A M) : List UInt8 → Array A → M → List ArrayOp → Prop
  | l, arr, _, [] => arr.mSize.toNat = l.length
  | l, arr, m, op :: ops => arr.mSize.toNat = l.length ∧
    ∃ result arr' m', op.step store arr m = .ok (result, arr', m') ∧
      (∀ i byte, op = .get i → l[i.toNat]? = some byte → result = some byte) ∧
      Follows store (op.contents l) arr' m' ops

section Empty

variable {store : ByteStore A M} {m : M} {op : ArrayOp} {ops : List ArrayOp} {result : Option UInt8}

/-- An operation that does nothing to the empty array may be left out. -/
theorem follows_cons_of_idle
    (hstep : op.step store (Array.empty store) m = .ok (result, Array.empty store, m))
    (hcontents : op.contents [] = []) :
    Follows store [] (Array.empty store) m (op :: ops) ↔
      Follows store [] (Array.empty store) m ops := by
  constructor
  · rintro ⟨_, _, _, _, heq, _, hfollows⟩
    rw [hstep] at heq
    cases heq
    rwa [hcontents] at hfollows
  · intro h
    refine ⟨rfl, _, _, _, hstep, fun i byte _ hbyte => ?_, by rwa [hcontents]⟩
    rw [List.getElem?_nil] at hbyte
    cases hbyte

theorem step_set_empty (i : UInt32) (item : UInt8) :
    ArrayOp.step store (Array.empty store) m (.set i item) = .ok (none, Array.empty store, m) := by
  have hset : (Array.empty store).set store i item m = .ok m := if_neg UInt32.not_lt_zero
  rw [ArrayOp.step, hset]
  rfl

theorem step_get_empty (i : UInt32) :
    ArrayOp.step store (Array.empty store) m (.get i) = .ok (some 0, Array.empty store, m) := by
  have hget : (Array.empty store).get store i m = .ok 0 := if_neg UInt32.not_lt_zero
  rw [ArrayOp.step, hget]
  rfl

theorem not_follows_pushBack (item : UInt8) {l : List UInt8} {arr : Array A} :
    ¬ Follows store l arr m (.pushBack item :: ops) := by
  rintro ⟨_, _, _, _, hstep, _⟩
  rw [ArrayOp.step, Array.pushBack_eq] at hstep
  cases hstep

end Empty

/-- **An array follows its sequence** as long as nothing is pushed. -/
theorem arrayFollows_iff (store : ByteStore A M) (m : M) (ops : List ArrayOp)
    (hvalid : ValidRun [] ops) :
    Follows store [] (Array.empty store) m ops ↔ ∀ item, .pushBack item ∉ ops := by
  induction ops with
  | nil => exact iff_of_true rfl fun _ => List.not_mem_nil
  | cons op ops ih =>
    -- the array stays empty, so that nothing can be assigned
    cases op with
    | pushBack item =>
      exact iff_of_false (not_follows_pushBack item) fun h => h item List.mem_cons_self
    | assign i item => exact absurd hvalid.1 (Nat.not_lt_zero _)
    | set i item =>
      rw [follows_cons_of_idle (step_set_empty i item) rfl, ih hvalid.2]
      exact forall_congr' fun item => by simp
    | get i =>
      rw [follows_cons_of_idle (step_get_empty i) rfl, ih hvalid.2]
      exact forall_congr' fun item => by simp

/-- `arrayFollows_iff` for a byte that is set where nothing was pushed, and for one that is pushed and
assigned. -/
theorem arrayFollows_pushAssign :
    Follows (ByteStore.counting 0) [] (Array.empty (ByteStore.counting 0)) .empty
        [.set 0 7, .get 0] ∧
      ¬ Follows (ByteStore.counting 0) [] (Array.empty (ByteStore.counting 0)) .empty
        [.pushBack 7, .assign 0 8, .get 0] :=
  ⟨(arrayFollows_iff _ _ [.set 0 7, .get 0] ⟨trivial, trivial, trivial⟩).mpr (by simp),
    fun h => (arrayFollows_iff _ _ [.pushBack 7, .assign 0 8, .get 0]
      ⟨trivial, Nat.one_pos, trivial, trivial⟩).mp h 7 List.mem_cons_self⟩

/-- The first byte that is pushed is not stored. -/
theorem exists_not_follows :
    ∃ (store : ByteStore ℕ ByteStore.Counting) (m : ByteStore.Counting) (ops : List ArrayOp),
      ValidRun [] ops ∧ ¬ Follows store [] (Array.empty store) m ops :=
  ⟨ByteStore.counting 0, .empty, [.pushBack 7], ⟨trivial, trivial⟩, not_follows_pushBack 7⟩

end MicroKernel.Containers
