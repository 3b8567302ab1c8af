import MicroKernel.Lib.ByteDevice
import Mathlib.Data.Set.Function
import Mathlib.Data.Set.Piecewise

/-!
# Write-back caches

A write-back cache holds the bytes of a window of addresses over a memory; the addresses written
since they were fetched are dirty. Its contents are the held bytes on the window and the memory
elsewhere. Flushing stores the dirty bytes and fetches a new window: when the clean held bytes
are those of the memory, this leaves the contents as they are.

## Main definitions

* `WriteBack.Cache`: a window, its dirty addresses, the held bytes and the memory
* `Cache.contents`: the bytes the cache stands for
* `Cache.flush`, `Cache.put`: moving the window, and writing into it
* `Cache.Coherent`: the clean held bytes are those of the memory

## Main results

* `Coherent.contents_flush`, `contents_put`: the contents under the two operations
* `Coherent.flush`, `Coherent.put`: both keep the cache coherent
* `Untouched.flush`, `Untouched.put`: an address never written keeps its byte in the memory
-/

namespace WriteBack

open scoped Classical

variable {A B : Type*}

/-- A write-back cache over a memory. -/
@[ext] structure Cache (A B : Type*) where
  /-- The addresses held. -/
  window : Set A
  /-- The addresses written since they were fetched. -/
  dirty : Set A
  held : A → B
  memory : A → B
  dirty_subset : dirty ⊆ window

namespace Cache

/-- The bytes the cache stands for: the held ones on the window, the memory elsewhere. -/
noncomputable def contents (s : Cache A B) : A → B := s.window.piecewise s.held s.memory

/-- The clean held bytes are those of the memory. -/
def Coherent (s : Cache A B) : Prop := ∀ a ∈ s.window, a ∉ s.dirty → s.held a = s.memory a

/-- The memory once the dirty bytes are stored. -/
noncomputable def stored (s : Cache A B) : A → B := s.dirty.piecewise s.held s.memory

/-- Store the dirty bytes and fetch the window `w`. -/
noncomputable def flush (s : Cache A B) (w : Set A) : Cache A B where
  window := w
  dirty := ∅
  held := s.stored
  memory := s.stored
  dirty_subset := Set.empty_subset w

/-- Write `b` at the held address `a`. -/
def put [DecidableEq A] (s : Cache A B) (a : A) (b : B) (ha : a ∈ s.window) : Cache A B where
  window := s.window
  dirty := insert a s.dirty
  held := Function.update s.held a b
  memory := s.memory
  dirty_subset := Set.insert_subset ha s.dirty_subset

variable {s : Cache A B} {w : Set A} {a a' : A} {b : B}

theorem contents_of_mem (ha : a ∈ s.window) : s.contents a = s.held a :=
  Set.piecewise_eq_of_mem _ _ _ ha

theorem contents_of_notMem (ha : a ∉ s.window) : s.contents a = s.memory a :=
  Set.piecewise_eq_of_notMem _ _ _ ha

theorem stored_of_mem (ha : a ∈ s.dirty) : s.stored a = s.held a :=
  Set.piecewise_eq_of_mem _ _ _ ha

theorem stored_of_notMem (ha : a ∉ s.dirty) : s.stored a = s.memory a :=
  Set.piecewise_eq_of_notMem _ _ _ ha

/-- Storing the dirty bytes of a coherent cache makes the memory its contents. -/
theorem Coherent.stored_eq (hs : s.Coherent) : s.stored = s.contents := by
  funext a
  by_cases hd : a ∈ s.dirty
  · rw [stored_of_mem hd, contents_of_mem (s.dirty_subset hd)]
  · rw [stored_of_notMem hd]
    by_cases hw : a ∈ s.window
    · rw [contents_of_mem hw, hs a hw hd]
    · rw [contents_of_notMem hw]

/-- **Moving the window keeps the contents.** -/
theorem Coherent.contents_flush (hs : s.Coherent) : (s.flush w).contents = s.contents := by
  rw [← hs.stored_eq]
  exact Set.piecewise_same _ _

theorem coherent_flush : (s.flush w).Coherent := fun _ _ _ => rfl

theorem contents_put [DecidableEq A] (ha : a ∈ s.window) :
    (s.put a b ha).contents = Function.update s.contents a b := by
  funext x
  by_cases hx : x = a
  · subst hx
    rw [Function.update_self, contents_of_mem (show x ∈ (s.put x b ha).window from ha)]
    exact Function.update_self _ _ _
  · rw [Function.update_of_ne hx]
    by_cases hw : x ∈ s.window
    · rw [contents_of_mem hw, contents_of_mem (show x ∈ (s.put a b ha).window from hw)]
      exact Function.update_of_ne hx _ _
    · rw [contents_of_notMem hw, contents_of_notMem (show x ∉ (s.put a b ha).window from hw)]
      rfl

theorem Coherent.put [DecidableEq A] (hs : s.Coherent) (ha : a ∈ s.window) : (s.put a b ha).Coherent := by
  intro x hx hd
  obtain ⟨hxa, hxd⟩ := not_or.mp hd
  exact (Function.update_of_ne hxa _ _).trans (hs x hx hxd)

/-! ## Addresses never written -/

/-- The memory holds `b` at `a`, and the cache has no byte of its own there. -/
def Untouched (s : Cache A B) (a : A) (b : B) : Prop := a ∉ s.dirty ∧ s.memory a = b

theorem Untouched.stored (h : s.Untouched a b) : s.stored a = b :=
  (stored_of_notMem h.1).trans h.2

theorem Untouched.flush (h : s.Untouched a b) : (s.flush w).Untouched a b :=
  ⟨Set.notMem_empty a, h.stored⟩

theorem Untouched.put [DecidableEq A] {b' : B} (h : s.Untouched a b) (ha : a' ∈ s.window) (hne : a' ≠ a) :
    (s.put a' b' ha).Untouched a b :=
  ⟨fun hd => hd.elim (fun he => hne he.symm) h.1, h.2⟩

end Cache

end WriteBack
