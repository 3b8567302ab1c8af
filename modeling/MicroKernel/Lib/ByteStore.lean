import Mathlib.Data.List.GetD
import Mathlib.Data.UInt
import Mathlib.Logic.Function.Basic

/-!
# Stores of byte blocks

A store hands out blocks of bytes at fresh addresses, reads and writes at the start of a block, and
takes blocks back. Nothing is said about accesses that leave a block, and a new block holds any
bytes.

## Main definitions

* `ByteStore A M`: a store with addresses `A` and memories `M`
* `ByteStore.counting fill`: the store that counts its blocks, and fills new ones with one byte

## Main results

* `ByteStore.block_write_self`, `ByteStore.read_eq_take`: what is in a block
* `ByteStore.block_write_of_ne`, `ByteStore.block_delete_of_ne`: other blocks stay
* `ByteStore.exists_block_new`: a new block beside the others
-/

/-- A store of blocks of bytes. -/
structure ByteStore (A M : Type) [DecidableEq A] where
  null : A
  /-- The bytes of the block at an address. -/
  block : M → A → Option (List UInt8)
  read : M → A → ℕ → List UInt8
  write : M → A → List UInt8 → M
  new : M → ℕ → A × M
  delete : M → A → M
  block_null (m : M) : block m null = none
  length_read (m : M) (a : A) (n : ℕ) : (read m a n).length = n
  read_block (m : M) (a : A) (n : ℕ) (bytes : List UInt8) :
    block m a = some bytes → n ≤ bytes.length → read m a n = bytes.take n
  write_block (m : M) (a : A) (l bytes : List UInt8) :
    block m a = some bytes → l.length ≤ bytes.length →
      block (write m a l) = Function.update (block m) a (some (l ++ bytes.drop l.length))
  new_fresh (m : M) (n : ℕ) : block m (new m n).1 = none
  new_ne_null (m : M) (n : ℕ) : (new m n).1 ≠ null
  new_block (m : M) (n : ℕ) : ∃ bytes, bytes.length = n ∧
    block (new m n).2 = Function.update (block m) (new m n).1 (some bytes)
  delete_block (m : M) (a : A) : a ≠ null → block (delete m a) = Function.update (block m) a none
  delete_null (m : M) : delete m null = m

namespace ByteStore

variable {A M : Type} [DecidableEq A] {store : ByteStore A M} {m : M} {a b : A} {n : ℕ}
  {bytes l : List UInt8}

theorem ne_null (h : store.block m a = some bytes) : a ≠ store.null := by
  rintro rfl
  rw [store.block_null] at h
  cases h

theorem read_eq_take (h : store.block m a = some bytes) (hn : n ≤ bytes.length) :
    store.read m a n = bytes.take n := store.read_block m a n bytes h hn

theorem block_write_self (h : store.block m a = some bytes) (hl : l.length ≤ bytes.length) :
    store.block (store.write m a l) a = some (l ++ bytes.drop l.length) := by
  rw [store.write_block m a l bytes h hl, Function.update_self]

theorem block_write_of_ne (h : store.block m a = some bytes) (hl : l.length ≤ bytes.length)
    (hne : b ≠ a) : store.block (store.write m a l) b = store.block m b := by
  rw [store.write_block m a l bytes h hl, Function.update_of_ne hne]

theorem block_delete_of_ne (h : store.block m a = some bytes) (hne : b ≠ a) :
    store.block (store.delete m a) b = store.block m b := by
  rw [store.delete_block m a (ne_null h), Function.update_of_ne hne]

/-- **A new block** is none of the blocks there are, and they stay. -/
theorem exists_block_new (store : ByteStore A M) (m : M) (n : ℕ) :
    ∃ fresh, fresh.length = n ∧ store.block (store.new m n).2 (store.new m n).1 = some fresh ∧
      ∀ b bytes, store.block m b = some bytes →
        b ≠ (store.new m n).1 ∧ store.block (store.new m n).2 b = some bytes := by
  obtain ⟨fresh, hlength, hblock⟩ := store.new_block m n
  refine ⟨fresh, hlength, by rw [hblock, Function.update_self], fun b bytes hb => ?_⟩
  have hne : b ≠ (store.new m n).1 := by
    rintro rfl
    rw [store.new_fresh] at hb
    cases hb
  exact ⟨hne, by rw [hblock, Function.update_of_ne hne, hb]⟩

/-! ## A store that counts -/

/-- The memory of a store that counts: the address of the next block, and the blocks. -/
structure Counting where
  next : ℕ
  blocks : ℕ → Option (List UInt8)
  eq_none : ∀ a, a = 0 ∨ next ≤ a → blocks a = none
  next_pos : 0 < next

/-- The memory without blocks. -/
def Counting.empty : Counting := ⟨1, fun _ => none, fun _ _ => rfl, Nat.one_pos⟩

/-- The memory with other bytes in a block. -/
def Counting.write (m : Counting) (a : ℕ) (l : List UInt8) : Counting where
  next := m.next
  blocks b := if b = a then (m.blocks a).map fun bytes => l ++ bytes.drop l.length else m.blocks b
  eq_none b hb := by
    split
    · next h => subst h; rw [m.eq_none b hb]; rfl
    · exact m.eq_none b hb
  next_pos := m.next_pos

/-- The memory with one more block. -/
def Counting.new (m : Counting) (bytes : List UInt8) : Counting where
  next := m.next + 1
  blocks b := if b = m.next then some bytes else m.blocks b
  eq_none b hb := by
    have hpos := m.next_pos
    rw [if_neg (by omega)]
    exact m.eq_none b (by omega)
  next_pos := Nat.succ_pos _

/-- The memory without the block at an address. -/
def Counting.remove (m : Counting) (a : ℕ) : Counting where
  next := m.next
  blocks b := if b = a then none else m.blocks b
  eq_none b hb := by
    split
    · rfl
    · exact m.eq_none b hb
  next_pos := m.next_pos

/-- The memory behind `delete`, which does nothing at zero. -/
def Counting.delete (m : Counting) (a : ℕ) : Counting := if a = 0 then m else m.remove a

/-- The store that counts its blocks, and fills new ones with a byte. -/
def counting (fill : UInt8) : ByteStore ℕ Counting where
  null := 0
  block m := m.blocks
  read m a n := (List.range n).map fun i => ((m.blocks a).getD []).getD i 0
  write m a l := m.write a l
  new m n := (m.next, m.new (List.replicate n fill))
  delete m a := m.delete a
  block_null m := m.eq_none 0 (.inl rfl)
  length_read m a n := by rw [List.length_map, List.length_range]
  read_block m a n bytes h hn := by
    refine List.ext_getElem (by simpa using hn) fun i hi hi' => ?_
    rw [List.getElem_map, List.getElem_range, List.getElem_take, h, Option.getD_some,
      List.getD_eq_getElem _ _ (by rw [List.length_take] at hi'; omega)]
  write_block m a l bytes h _ := by
    funext b
    show (if b = a then (m.blocks a).map _ else m.blocks b) = _
    rw [Function.update_apply, h]
    rfl
  new_fresh m n := m.eq_none m.next (.inr le_rfl)
  new_ne_null m n := m.next_pos.ne'
  new_block m n := by
    refine ⟨List.replicate n fill, List.length_replicate, funext fun b => ?_⟩
    rw [Function.update_apply, Counting.new]
  delete_block m a ha := by
    funext b
    rw [Function.update_apply, Counting.delete, if_neg ha, Counting.remove]
  delete_null m := if_pos rfl

end ByteStore
