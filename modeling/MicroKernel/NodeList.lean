import MicroKernel.Lib.Leads
import MicroKernel.Lib.Run

/-!
# Kernel lists

The singly linked lists of `kernel/list.c`. A heap has a node at each allocated address, and records
the addresses that were allocated and freed; to access an address that is not allocated, or `NULL`,
is a fault, and so is to free it. What `malloc` returns comes with the call. A loop that is still not
done after `limit` passes diverges.

## Main definitions

* `Node`, `Heap`, `ListState`: the nodes, and a list with its head
* `listAddNode`, `listRemoveNode`, `listGetSize`, `listGetNode`
* `sequence`: the sequence the operations on a list build
* `Holds`: the invariant of a list that stores a sequence
* `IsSequence`: what the functions on lists see of it

## Main results

* `holds_listAddNode`, `holds_listRemoveNode`: what an operation does to the nodes
* `exec_isSequence`: a list is the sequence that its operations build
-/

namespace MicroKernel.NodeList

/-- What the code does not survive: an access to an address that is not allocated, and a loop that
does not end. -/
inductive Fault where
  | notAllocated
  | diverges
deriving DecidableEq

structure Node (A D : Type) where
  next : Option A
  data : D
deriving DecidableEq

/-- The nodes on the heap. The addresses that were allocated and freed are recorded in order. -/
structure Heap (A D : Type) where
  node : A → Option (Node A D)
  mallocs : List A
  frees : List A

/-- The variable a list begins with, and the heap. -/
structure ListState (A D : Type) where
  heap : Heap A D
  head : Option A

variable {A D : Type}

theorem bind_of_ok {α β : Type} {x : Except Fault α} {v : α} (h : x = .ok v)
    (f : α → Except Fault β) : (x >>= f) = f v := by
  rw [h]
  rfl

/-! ## The heap -/

namespace Heap

/-- The node a pointer points to. -/
def load (heap : Heap A D) (p : Option A) : Except Fault (Node A D) :=
  match p.bind heap.node with
  | some node => .ok node
  | none => .error .notAllocated

variable [DecidableEq A]

/-- `p->next = next` -/
def setNext (heap : Heap A D) (p next : Option A) : Except Fault (Heap A D) :=
  match p with
  | some a => do
    let node ← heap.load (some a)
    return { heap with node := Function.update heap.node a (some { node with next }) }
  | none => .error .notAllocated

/-- `free` does nothing at `NULL`. -/
def free (heap : Heap A D) (p : Option A) : Except Fault (Heap A D) :=
  match p with
  | some a => do
    let _ ← heap.load (some a)
    return { heap with
      node := Function.update heap.node a none
      frees := heap.frees ++ [a] }
  | none => .ok heap

end Heap

/-! ## The operations -/

section Operations

variable [DecidableEq A]

/-- A new node, with both fields written, where `malloc` found room. -/
def listCreateNode (malloc : Option A) (data : D) (heap : Heap A D) : Option A × Heap A D :=
  match malloc with
  | some a =>
    (some a,
      { heap with
        node := Function.update heap.node a (some { next := none, data })
        mallocs := heap.mallocs ++ [a] })
  | none => (none, heap)

/-- The loop to the last node. -/
def lastNode (heap : Heap A D) : ℕ → Option A → Except Fault (Option A)
  | 0, _ => .error .diverges
  | limit + 1, temp => do
    let node ← heap.load temp
    if node.next = none then return temp
    else lastNode heap limit node.next

def listAddNode (limit : ℕ) (malloc : Option A) (data : D) (s : ListState A D) :
    Except Fault (ListState A D) := do
  let (newNode, heap) := listCreateNode malloc data s.heap
  if s.head = none then return { heap, head := newNode }
  else
    let temp ← lastNode heap limit s.head
    let heap ← heap.setNext temp newNode
    return { heap, head := s.head }

variable [DecidableEq D]

/-- The loop to the node with the data, and the one before it: `NULL` if there is none. -/
def findNode (heap : Heap A D) (data : D) :
    ℕ → (temp prev : Option A) → Except Fault (Option A × Option A)
  | 0, _, _ => .error .diverges
  | limit + 1, temp, prev => do
    if temp = none then return (temp, prev)
    else
      let node ← heap.load temp
      if node.data = data then return (temp, prev)
      else findNode heap data limit node.next temp

def listRemoveNode (limit : ℕ) (data : D) (s : ListState A D) : Except Fault (ListState A D) := do
  if s.head = none then return s
  else
    let node ← s.heap.load s.head
    if node.data = data then
      let heap ← s.heap.free s.head
      return { heap, head := node.next }
    else
      let (temp, prev) ← findNode s.heap data limit s.head none
      if temp = none then return s
      else
        let node ← s.heap.load temp
        let heap ← s.heap.setNext prev node.next
        let heap ← heap.free temp
        return { heap, head := s.head }

/-- The loop of `ListGetSize`. An `int` has 16 bits. -/
def countNodes (heap : Heap A D) : ℕ → Option A → Int16 → Except Fault Int16
  | 0, _, _ => .error .diverges
  | limit + 1, temp, size => do
    if temp = none then return size
    else
      let node ← heap.load temp
      countNodes heap limit node.next (size + 1)

def listGetSize (limit : ℕ) (heap : Heap A D) (head : Option A) : Except Fault UInt32 := do
  let size ← countNodes heap limit head 0
  return size.toInt32.toUInt32

/-- The loop of `ListGetNode`. -/
def nodeAt (heap : Heap A D) (index : Int16) :
    ℕ → (temp : Option A) → (currentIndex : Int16) → Except Fault (Option A)
  | 0, _, _ => .error .diverges
  | limit + 1, temp, currentIndex => do
    if temp = none then return none
    else if currentIndex = index then return temp
    else
      let node ← heap.load temp
      nodeAt heap index limit node.next (currentIndex + 1)

def listGetNode (limit : ℕ) (heap : Heap A D) (head : Option A) (index : Int16) :
    Except Fault (Option A) :=
  nodeAt heap index limit head 0

end Operations

/-! ## Nodes in a list -/

/-- What follows a node. -/
def Heap.next (heap : Heap A D) (a : A) : Option A := (heap.node a).bind Node.next

def Heap.data (heap : Heap A D) (a : A) : Option D := (heap.node a).map Node.data

/-- The nodes `l` lead from a pointer to `NULL`, and store the sequence `ds`. -/
structure Stores (heap : Heap A D) (p : Option A) (l : List A) (ds : List D) : Prop where
  leads : Leads heap.next p l none
  data : l.map heap.data = ds.map some

section Nodes

variable {heap heap' : Heap A D} {p q prev : Option A} {a b : A} {d : D} {l l₁ l₂ : List A}
  {ds ds₁ ds₂ : List D} {node : Node A D} {limit i : ℕ}

theorem Heap.load_some (h : heap.node a = some node) : heap.load (some a) = .ok node := by
  rw [Heap.load, Option.bind_some, h]

theorem Heap.next_congr (h : heap'.node a = heap.node a) : heap'.next a = heap.next a := by
  rw [Heap.next, Heap.next, h]

theorem Heap.data_congr (h : heap'.node a = heap.node a) : heap'.data a = heap.data a := by
  rw [Heap.data, Heap.data, h]

theorem Heap.next_of_node (h : heap.node a = some node) : heap.next a = node.next := by
  rw [Heap.next, h, Option.bind_some]

theorem Heap.data_of_node (h : heap.node a = some node) : heap.data a = some node.data := by
  rw [Heap.data, h, Option.map_some]

theorem Stores.length_eq (h : Stores heap p l ds) : l.length = ds.length := by
  simpa using congrArg List.length h.data

theorem Stores.nil (h : Stores heap p l []) : l = [] ∧ p = none := by
  have hl : l = [] := List.map_eq_nil_iff.mp h.data
  subst hl
  exact ⟨rfl, h.leads⟩

/-- **The first node of a sequence**, and the rest. -/
theorem Stores.cons (h : Stores heap p l (d :: ds)) :
    ∃ a l' node, l = a :: l' ∧ p = some a ∧ heap.node a = some node ∧ node.data = d ∧
      Stores heap node.next l' ds := by
  obtain ⟨a, l', rfl, ha, hl'⟩ := List.map_eq_cons_iff.mp h.data
  obtain ⟨hp, hrest⟩ := h.leads
  obtain ⟨node, hnode, hd⟩ := Option.map_eq_some_iff.mp ha
  rw [Heap.next_of_node hnode] at hrest
  exact ⟨a, l', node, rfl, hp, hnode, hd, hrest, hl'⟩

/-- The nodes of a sequence are allocated. -/
theorem Stores.exists_node (h : Stores heap p l ds) (ha : a ∈ l) : ∃ node, heap.node a = some node := by
  have hmem : heap.data a ∈ ds.map some := h.data ▸ List.mem_map_of_mem ha
  obtain ⟨d, -, hd⟩ := List.mem_map.mp hmem
  obtain ⟨node, hnode, -⟩ := Option.map_eq_some_iff.mp hd.symm
  exact ⟨node, hnode⟩

/-- What a heap stores depends on the nodes only. -/
theorem Stores.congr (h : Stores heap p l ds) (hn : ∀ a ∈ l, heap'.node a = heap.node a) :
    Stores heap' p l ds where
  leads := h.leads.congr fun a ha => Heap.next_congr (hn a ha)
  data := by
    rw [← h.data]
    exact List.map_congr_left fun a ha => Heap.data_congr (hn a ha)

end Nodes

/-! ## The loops -/

section Loops

variable {heap : Heap A D} {p prev : Option A} {l : List A} {ds : List D} {limit : ℕ}

/-- **The rule for loops** over a list: with more passes than nodes, what holds at its end, and of a
node if it does of what follows, holds of the list. -/
theorem Stores.loop {motive : ℕ → Option A → List A → List D → Prop} (h : Stores heap p l ds)
    (hlimit : l.length < limit) (hnil : ∀ limit, motive (limit + 1) none [] [])
    (hcons : ∀ limit a node l ds, heap.node a = some node → Stores heap node.next l ds →
      motive limit node.next l ds → motive (limit + 1) (some a) (a :: l) (node.data :: ds)) :
    motive limit p l ds := by
  induction ds generalizing p l limit with
  | nil =>
    obtain ⟨limit, rfl⟩ := Nat.exists_eq_succ_of_ne_zero (Nat.ne_zero_of_lt hlimit)
    obtain ⟨rfl, rfl⟩ := h.nil
    exact hnil limit
  | cons d ds ih =>
    obtain ⟨limit, rfl⟩ := Nat.exists_eq_succ_of_ne_zero (Nat.ne_zero_of_lt hlimit)
    obtain ⟨a, l', node, rfl, rfl, hnode, rfl, hrest⟩ := h.cons
    exact hcons limit a node l' ds hnode hrest (ih hrest (Nat.lt_of_succ_lt_succ hlimit))

/-- The loop to the last node ends there. -/
theorem lastNode_eq (h : Stores heap p l ds) (hlimit : l.length < limit) (hl : l ≠ []) :
    lastNode heap limit p = .ok l.getLast? := by
  refine h.loop (motive := fun limit p l _ => l ≠ [] → lastNode heap limit p = .ok l.getLast?) hlimit
    (fun _ hl => absurd rfl hl) ?_ hl
  intro limit a node l ds hnode hrest ih _
  rw [lastNode, Heap.load_some hnode]
  cases l with
  | nil => exact if_pos hrest.leads
  | cons b l =>
    have hne : node.next ≠ none := hrest.leads.ne_none (List.cons_ne_nil b l)
    rw [List.getLast?_cons_cons]
    exact (if_neg hne).trans (ih (List.cons_ne_nil b l))

/-- The loop of `ListGetSize` counts the nodes. -/
theorem countNodes_eq (h : Stores heap p l ds) (hlimit : l.length < limit) (size : Int16) :
    countNodes heap limit p size = .ok (size + Int16.ofNat l.length) := by
  refine h.loop (motive := fun limit p l _ => ∀ size,
    countNodes heap limit p size = .ok (size + Int16.ofNat l.length)) hlimit ?_ ?_ size
  · intro limit size
    rw [countNodes]
    exact congrArg Except.ok (Int16.add_zero size).symm
  · intro limit a node l ds hnode _ ih size
    rw [countNodes, if_neg (Option.some_ne_none a), bind_of_ok (Heap.load_some hnode), ih,
      List.length_cons, Int16.ofNat_add, Int16.add_assoc, Int16.add_comm 1]
    rfl

/-- The loop of `ListGetNode` stops at the index, counted from the nodes passed. -/
theorem nodeAt_eq (h : Stores heap p l ds) (hlimit : l.length < limit) (index : Int16) {i : ℕ}
    (hi : i + l.length < 32768) : nodeAt heap index limit p (Int16.ofNat i) =
      .ok (if (i : ℤ) ≤ index.toInt then l[(index.toInt - i).toNat]? else none) := by
  refine h.loop (motive := fun limit p l _ => ∀ i : ℕ, i + l.length < 32768 →
    nodeAt heap index limit p (Int16.ofNat i) =
      .ok (if (i : ℤ) ≤ index.toInt then l[(index.toInt - i).toNat]? else none)) hlimit ?_ ?_ i hi
  · intro limit i _
    rw [nodeAt, List.getElem?_nil, ite_self]
    rfl
  · intro limit a node l ds hnode _ ih i hi
    rw [List.length_cons] at hi
    have hint : (Int16.ofNat i).toInt = i := Int16.toInt_ofNat_of_lt (by omega)
    rw [nodeAt, if_neg (Option.some_ne_none a)]
    by_cases he : Int16.ofNat i = index
    · rw [if_pos he, ← he, hint, if_pos (Int.le_refl i), Int.sub_self]
      rfl
    · have hne : (i : ℤ) ≠ index.toInt := fun h => he (Int16.toInt_inj.mp (hint.trans h))
      have hstep := ih (i + 1) (by omega)
      rw [Int16.ofNat_add] at hstep
      rw [if_neg he, bind_of_ok (Heap.load_some hnode)]
      refine hstep.trans (congrArg Except.ok ?_)
      by_cases hle : (i : ℤ) ≤ index.toInt
      · rw [if_pos (by omega), if_pos hle,
          show (index.toInt - i).toNat = (index.toInt - (i + 1 : ℕ)).toNat + 1 by omega,
          List.getElem?_cons_succ]
      · rw [if_neg (by omega), if_neg hle]

/-- The loop to a node with the data ends at the first, or none, with the node before it. -/
theorem findNode_eq [DecidableEq D] (h : Stores heap p l ds) (hlimit : l.length < limit) (d : D)
    (prev : Option A) : findNode heap d limit p prev =
      .ok (l[ds.idxOf d]?, ((l.take (ds.idxOf d)).map some).getLastD prev) := by
  refine h.loop (motive := fun limit p l ds => ∀ prev, findNode heap d limit p prev =
    .ok (l[ds.idxOf d]?, ((l.take (ds.idxOf d)).map some).getLastD prev)) hlimit
    (fun _ _ => rfl) ?_ prev
  intro limit a node l ds hnode _ ih prev
  rw [findNode, if_neg (Option.some_ne_none a), bind_of_ok (Heap.load_some hnode)]
  by_cases hd : node.data = d
  · rw [if_pos hd, ← hd, List.idxOf_cons_self]
    rfl
  · rw [if_neg hd, ih, List.idxOf_cons_ne _ hd, List.getElem?_cons_succ, List.take_succ_cons,
      List.map_cons, List.getLastD_cons]

end Loops

/-! ## Runs -/

/-- An operation on a list, with what `malloc` returns in it. -/
inductive ListOp (A D : Type) where
  | add (data : D) (malloc : Option A)
  | remove (data : D)
deriving DecidableEq

/-- The effect of an operation on a list. -/
def listStep [DecidableEq A] [DecidableEq D] (limit : ℕ) :
    ListOp A D → ListState A D → Except Fault (ListState A D)
  | .add data malloc, s => listAddNode limit malloc data s
  | .remove data, s => listRemoveNode limit data s

/-- The sequence an operation leads to: data is appended, or its first occurrence deleted. -/
def ListOp.apply [DecidableEq D] (ds : List D) : ListOp A D → List D
  | .add data _ => ds ++ [data]
  | .remove data => ds.erase data

/-- The sequence the operations on an empty list build. -/
def sequence [DecidableEq D] (ops : List (ListOp A D)) : List D := ops.foldl ListOp.apply []

/-- `malloc` succeeds, and returns a node that is not in use. -/
def MallocFresh : ListOp A D → ListState A D → Prop
  | .add _ malloc, s => ∃ a, malloc = some a ∧ s.heap.node a = none
  | .remove _, _ => True

instance MallocFresh.decidable : ∀ (op : ListOp A D) (s : ListState A D), Decidable (MallocFresh op s)
  | .add _ (some a), s => decidable_of_iff ((s.heap.node a).isNone = true) (by simp [MallocFresh])
  | .add _ none, _ => .isFalse (by simp [MallocFresh])
  | .remove _, _ => .isTrue trivial

/-- A list that began empty in `heap` stores a sequence in the nodes `l`. Nothing else in the heap
changed, and each node that was allocated is one of them or was freed, once. -/
structure Holds (heap : Heap A D) (s : ListState A D) (l : List A) (ds : List D) : Prop where
  stores : Stores s.heap s.head l ds
  unused : ∀ a ∈ l, heap.node a = none
  frame : ∀ a ∉ l, s.heap.node a = heap.node a
  account : ∃ created removed, s.heap.mallocs = heap.mallocs ++ created ∧
    s.heap.frees = heap.frees ++ removed ∧ created.Perm (l ++ removed)

/-- A list is a sequence: it holds one, in distinct nodes that are all that can be reached, and the
functions on lists see it. -/
structure IsSequence [DecidableEq A] [DecidableEq D] (limit : ℕ) (heap : Heap A D)
    (s : ListState A D) (l : List A) (ds : List D) : Prop extends Holds heap s l ds where
  nodup : l.Nodup
  reaches : ∀ a, Reaches s.heap.next s.head a ↔ a ∈ l
  size : l.length < 32768 → listGetSize limit s.heap s.head = .ok (UInt32.ofNat ds.length)
  node : l.length < 32768 → ∀ index : Int16, listGetNode limit s.heap s.head index =
    .ok (if 0 ≤ index.toInt then l[index.toInt.toNat]? else none)
  /-- To remove absent data changes nothing. -/
  absent : ∀ d ∉ ds, listRemoveNode limit d s = .ok s
  /-- A node that is removed is freed, once, and cannot be reached. -/
  removed : ∀ d ∈ ds, ∃ a t, l[ds.idxOf d]? = some a ∧ listRemoveNode limit d s = .ok t ∧
    t.heap.frees = s.heap.frees ++ [a] ∧ t.heap.node a = none ∧ ¬ Reaches t.heap.next t.head a

section Runs

variable {heap heap₀ : Heap A D} {s : ListState A D} {a b c : A} {d : D} {l : List A} {ds : List D}
  {node : Node A D} {q : Option A} {limit : ℕ}

/-- A node linked behind the last one of a sequence. -/
theorem Stores.concat {heap' : Heap A D} {p : Option A} (h : Stores heap p (l ++ [b]) ds)
    (hnode : heap.node b = some node) (hl : ∀ c ∈ l, heap'.node c = heap.node c)
    (hb : heap'.node b = some { node with next := some a })
    (ha : heap'.node a = some { next := none, data := d }) :
    Stores heap' p (l ++ [b] ++ [a]) (ds ++ [d]) where
  leads := h.leads.concat (fun c hc => Heap.next_congr (hl c hc)) (Heap.next_of_node hb)
    (Heap.next_of_node ha)
  data := by
    have hdata : ∀ c ∈ l ++ [b], heap'.data c = heap.data c := by
      intro c hc
      rcases List.mem_append.mp hc with hc | hc
      · exact Heap.data_congr (hl c hc)
      · rw [List.mem_singleton.mp hc, Heap.data_of_node hb, Heap.data_of_node hnode]
    rw [List.map_append, List.map_congr_left hdata, h.data, List.map_singleton,
      Heap.data_of_node ha, ← List.map_singleton, ← List.map_append]

/-- A node of a sequence bypassed. -/
theorem Stores.unlink {heap' : Heap A D} {p : Option A} {l₁ l₂ : List A} {ds₁ ds₂ : List D}
    (h : Stores heap p (l₁ ++ [b] ++ a :: l₂) (ds₁ ++ d :: ds₂))
    (hlen : (l₁ ++ [b]).length = ds₁.length) (hnode : heap.node b = some node)
    (hb : heap'.node b = some { node with next := heap.next a })
    (hother : ∀ c ∈ l₁ ++ l₂, heap'.node c = heap.node c) :
    Stores heap' p (l₁ ++ [b] ++ l₂) (ds₁ ++ ds₂) where
  leads := by
    have hleads : Leads heap.next p (l₁ ++ b :: a :: l₂) none := by simpa using h.leads
    simpa using hleads.unlink (fun c hc => Heap.next_congr (hother c hc)) (Heap.next_of_node hb)
  data := by
    have hdata : (l₁ ++ [b]).map heap.data ++ (a :: l₂).map heap.data =
        ds₁.map some ++ (d :: ds₂).map some := by
      rw [← List.map_append, ← List.map_append, h.data]
    obtain ⟨h₁, h₂⟩ := List.append_inj hdata (by simpa using hlen)
    have hsame : ∀ c ∈ l₁ ++ [b] ++ l₂, heap'.data c = heap.data c := by
      intro c hc
      by_cases hcb : c = b
      · rw [hcb, Heap.data_of_node hb, Heap.data_of_node hnode]
      · exact Heap.data_congr (hother c (by simpa [hcb] using hc))
    rw [List.map_congr_left hsame, List.map_append, h₁, (List.cons.inj h₂).2, ← List.map_append]

/-- The node of a datum of a sequence. -/
theorem Stores.split {ds₁ ds₂ : List D} (h : Stores heap q l (ds₁ ++ d :: ds₂)) :
    ∃ l₁ a l₂, l = l₁ ++ a :: l₂ ∧ l₁.length = ds₁.length := by
  have hdata := h.data
  rw [List.map_append] at hdata
  obtain ⟨l₁, l', rfl, h₁, h'⟩ := List.map_eq_append_iff.mp hdata
  obtain ⟨a, l₂, rfl, -, -⟩ := List.map_eq_cons_iff.mp h'
  exact ⟨l₁, a, l₂, rfl, by simpa using congrArg List.length h₁⟩

/-- An empty list holds nothing. -/
theorem holds_nil (heap : Heap A D) : Holds heap ⟨heap, none⟩ [] [] where
  stores := ⟨rfl, rfl⟩
  unused _ ha := absurd ha List.not_mem_nil
  frame _ _ := rfl
  account := ⟨[], [], (List.append_nil _).symm, (List.append_nil _).symm, List.Perm.refl _⟩

/-- A list goes on with a node that was not in use. -/
theorem Holds.add {t : ListState A D} {ds' : List D} (h : Holds heap₀ s l ds)
    (ha : s.heap.node a = none) (hnot : a ∉ l) (hs : Stores t.heap t.head (l ++ [a]) ds')
    (hframe : ∀ c ∉ l ++ [a], t.heap.node c = s.heap.node c)
    (hm : t.heap.mallocs = s.heap.mallocs ++ [a]) (hf : t.heap.frees = s.heap.frees) :
    Holds heap₀ t (l ++ [a]) ds' where
  stores := hs
  unused := by
    intro c hc
    rcases List.mem_append.mp hc with hc | hc
    · exact h.unused c hc
    · rw [List.mem_singleton.mp hc, ← h.frame a hnot, ha]
  frame c hc := (hframe c hc).trans (h.frame c fun hmem => hc (List.mem_append_left _ hmem))
  account := by
    obtain ⟨created, removed, hcreated, hremoved, hperm⟩ := h.account
    refine ⟨created ++ [a], removed, ?_, hf.trans hremoved, ?_⟩
    · rw [hm, hcreated, List.append_assoc]
    · calc (created ++ [a]).Perm (l ++ removed ++ [a]) := hperm.append_right [a]
        _ = l ++ (removed ++ [a]) := List.append_assoc ..
        List.Perm _ (l ++ ([a] ++ removed)) := List.perm_append_comm.append_left l
        _ = l ++ [a] ++ removed := (List.append_assoc ..).symm

/-- A list goes on without a node that was freed. -/
theorem Holds.remove {t : ListState A D} {l₁ l₂ : List A} {ds' : List D}
    (h : Holds heap₀ s (l₁ ++ a :: l₂) ds) (hs : Stores t.heap t.head (l₁ ++ l₂) ds')
    (hframe : ∀ c ∉ l₁ ++ a :: l₂, t.heap.node c = s.heap.node c) (hnone : t.heap.node a = none)
    (hm : t.heap.mallocs = s.heap.mallocs) (hf : t.heap.frees = s.heap.frees ++ [a]) :
    Holds heap₀ t (l₁ ++ l₂) ds' where
  stores := hs
  unused c hc := h.unused c (by
    rw [List.mem_append, List.mem_cons]
    exact (List.mem_append.mp hc).imp_right Or.inr)
  frame := by
    intro c hc
    by_cases hca : c = a
    · rw [hca, hnone, h.unused a (List.mem_append_right _ List.mem_cons_self)]
    · have hmem : c ∉ l₁ ++ a :: l₂ := by
        rw [List.mem_append, List.mem_cons]
        rintro (hc' | hc' | hc')
        · exact hc (List.mem_append_left _ hc')
        · exact hca hc'
        · exact hc (List.mem_append_right _ hc')
      exact (hframe c hmem).trans (h.frame c hmem)
  account := by
    obtain ⟨created, removed, hcreated, hremoved, hperm⟩ := h.account
    refine ⟨created, removed ++ [a], hm.trans hcreated, ?_, hperm.trans ?_⟩
    · rw [hf, hremoved, List.append_assoc]
    · calc (l₁ ++ a :: l₂ ++ removed).Perm (a :: (l₁ ++ l₂) ++ removed) :=
          List.perm_middle.append_right removed
        List.Perm _ (l₁ ++ l₂ ++ removed ++ [a]) := (List.perm_append_singleton a _).symm
        _ = l₁ ++ l₂ ++ (removed ++ [a]) := List.append_assoc ..

variable [DecidableEq A]

/-- A node is created with its data, and ends a list. -/
theorem listCreateNode_eq (a : A) (d : D) (heap : Heap A D) :
    ∃ heap', listCreateNode (some a) d heap = (some a, heap') ∧
      heap'.node a = some { next := none, data := d } ∧
      (∀ c, c ≠ a → heap'.node c = heap.node c) ∧ heap'.mallocs = heap.mallocs ++ [a] ∧
      heap'.frees = heap.frees :=
  ⟨_, rfl, Function.update_self .., fun _ hc => Function.update_of_ne hc .., rfl, rfl⟩

theorem Heap.setNext_eq (h : heap.node a = some node) (q : Option A) :
    ∃ heap', heap.setNext (some a) q = .ok heap' ∧
      heap'.node a = some { node with next := q } ∧ (∀ c, c ≠ a → heap'.node c = heap.node c) ∧
      heap'.mallocs = heap.mallocs ∧ heap'.frees = heap.frees := by
  rw [Heap.setNext, Heap.load_some h]
  exact ⟨_, rfl, Function.update_self .., fun _ hc => Function.update_of_ne hc .., rfl, rfl⟩

theorem Heap.free_eq (h : heap.node a = some node) :
    ∃ heap', heap.free (some a) = .ok heap' ∧ heap'.node a = none ∧
      (∀ c, c ≠ a → heap'.node c = heap.node c) ∧ heap'.mallocs = heap.mallocs ∧
      heap'.frees = heap.frees ++ [a] := by
  rw [Heap.free, Heap.load_some h]
  exact ⟨_, rfl, Function.update_self .., fun _ hc => Function.update_of_ne hc .., rfl, rfl⟩

/-- **What `ListAddNode` does**: a fresh node with the data is the last one. -/
theorem holds_listAddNode (h : Holds heap₀ s l ds) (ha : s.heap.node a = none)
    (hlimit : l.length < limit) :
    ∃ t, listAddNode limit (some a) d s = .ok t ∧ Holds heap₀ t (l ++ [a]) (ds ++ [d]) := by
  have hnot : a ∉ l := fun hmem => by
    obtain ⟨node, hnode⟩ := h.stores.exists_node hmem
    exact absurd (ha.symm.trans hnode) (Option.some_ne_none node).symm
  obtain ⟨heap, hcreate, hself, hother, hm, hf⟩ := listCreateNode_eq a d s.heap
  have hstores : Stores heap s.head l ds :=
    h.stores.congr fun c hc => hother c fun hca => hnot (hca ▸ hc)
  rw [listAddNode, hcreate]
  rcases List.eq_nil_or_concat' l with rfl | ⟨l, b, rfl⟩
  · -- an empty list begins with the node
    have hhead : s.head = none := hstores.leads
    obtain rfl : ds = [] := by simpa using hstores.data.symm
    refine ⟨⟨heap, some a⟩, if_pos hhead, h.add ha hnot ⟨⟨rfl, ?_⟩, ?_⟩ (fun c hc => ?_) hm hf⟩
    · exact Heap.next_of_node hself
    · rw [List.nil_append, List.map_singleton, Heap.data_of_node hself]
      rfl
    · exact hother c fun hca => hc (hca ▸ List.mem_singleton_self a)
  · -- the last node of others points to it
    have hb : b ∈ l ++ [b] := List.mem_append_right l (List.mem_singleton_self b)
    obtain ⟨node, hnode⟩ := hstores.exists_node hb
    have hba : b ≠ a := fun hba => hnot (hba ▸ hb)
    have hbl : b ∉ l := fun hmem => by
      have hnodup := hstores.leads.nodup
      exact (List.nodup_append.mp hnodup).2.2 b hmem b (List.mem_singleton_self b) rfl
    have hhead : s.head ≠ none := hstores.leads.ne_none (List.ne_nil_of_mem hb)
    have hlast := lastNode_eq hstores hlimit (List.ne_nil_of_mem hb)
    rw [List.getLast?_concat] at hlast
    obtain ⟨heap', hset, hb', hother', hm', hf'⟩ := Heap.setNext_eq hnode (some a)
    refine ⟨⟨heap', s.head⟩, ?_, h.add ha hnot ?_ (fun c hc => ?_) (hm'.trans hm) (hf'.trans hf)⟩
    · simp only [if_neg hhead, hlast]
      exact bind_of_ok hset _
    · exact hstores.concat hnode (fun c hc => hother' c fun hcb => hbl (hcb ▸ hc)) hb'
        ((hother' a hba.symm).trans hself)
    · rw [List.mem_append, not_or] at hc
      rw [hother' c fun hcb => hc.1 (hcb ▸ hb),
        hother c fun hca => hc.2 (hca ▸ List.mem_singleton_self a)]

variable [DecidableEq D] {l₁ l₂ : List A} {ds₁ ds₂ : List D}

/-- **What `ListRemoveNode` does** with absent data: nothing. -/
theorem listRemoveNode_of_not_mem (h : Stores s.heap s.head l ds) (hlimit : l.length < limit)
    (hd : d ∉ ds) : listRemoveNode limit d s = .ok s := by
  rw [listRemoveNode]
  cases ds with
  | nil => exact if_pos h.nil.2
  | cons e ds =>
    have hfind := findNode_eq h hlimit d none
    rw [List.idxOf_eq_length hd, ← h.length_eq, List.getElem?_length] at hfind
    obtain ⟨b, l', node, rfl, hhead, hnode, rfl, -⟩ := h.cons
    rw [List.mem_cons, not_or] at hd
    rw [if_neg (hhead ▸ Option.some_ne_none b), hfind, hhead, Heap.load_some hnode]
    exact (if_neg (Ne.symm hd.1)).trans rfl

/-- `ListRemoveNode` with data behind the first node: the node before it is set, and it is freed. -/
theorem listRemoveNode_of_find {nodeA : Node A D} {heap₁ heap₂ : Heap A D} (hhead : s.head = some c)
    (hnode : s.heap.node c = some node) (hne : node.data ≠ d)
    (hfind : findNode s.heap d limit s.head none = .ok (some a, some b))
    (hnodeA : s.heap.node a = some nodeA)
    (hset : s.heap.setNext (some b) nodeA.next = .ok heap₁)
    (hfree : heap₁.free (some a) = .ok heap₂) :
    listRemoveNode limit d s = .ok ⟨heap₂, s.head⟩ := by
  have hload : s.heap.load s.head = .ok node := by
    rw [hhead]
    exact Heap.load_some hnode
  rw [listRemoveNode, if_neg (hhead ▸ Option.some_ne_none c), bind_of_ok hload, if_neg hne, hfind]
  show (if some a = none then (.ok s : Except Fault (ListState A D))
    else s.heap.load (some a) >>= fun node => s.heap.setNext (some b) node.next >>=
      fun heap => heap.free (some a) >>= fun heap => .ok { heap, head := s.head }) = _
  rw [if_neg (Option.some_ne_none a), bind_of_ok (Heap.load_some hnodeA), bind_of_ok hset,
    bind_of_ok hfree]

/-- **What `ListRemoveNode` does**: the first node with the data is bypassed, and freed. -/
theorem holds_listRemoveNode (h : Holds heap₀ s (l₁ ++ a :: l₂) (ds₁ ++ d :: ds₂))
    (hlen : l₁.length = ds₁.length) (hlimit : (l₁ ++ a :: l₂).length < limit) (hd : d ∉ ds₁) :
    ∃ t, listRemoveNode limit d s = .ok t ∧ Holds heap₀ t (l₁ ++ l₂) (ds₁ ++ ds₂) ∧
      t.heap.node a = none ∧ t.heap.frees = s.heap.frees ++ [a] := by
  have hnodup := h.stores.leads.nodup
  rcases List.eq_nil_or_concat' l₁ with rfl | ⟨l₁, b, rfl⟩
  · -- the first node: the list begins behind it
    obtain rfl : ds₁ = [] := List.length_eq_zero_iff.mp hlen.symm
    obtain ⟨c, l', node, hl, hhead, hnode, rfl, hrest⟩ := h.stores.cons
    obtain ⟨rfl, rfl⟩ := List.cons.inj hl
    obtain ⟨heap', hfree, hnone, hother, hm, hf⟩ := Heap.free_eq hnode
    have hal : a ∉ l₂ := (List.nodup_cons.mp hnodup).1
    refine ⟨⟨heap', node.next⟩, ?_, h.remove ?_ (fun c hc => hother c ?_) hnone hm hf, hnone, hf⟩
    · rw [listRemoveNode, if_neg (hhead ▸ Option.some_ne_none a), hhead, Heap.load_some hnode]
      refine (if_pos rfl).trans ?_
      rw [hfree]
      rfl
    · exact hrest.congr fun c hc => hother c fun hca => hal (hca ▸ hc)
    · exact fun hca => hc (hca ▸ List.mem_cons_self)
  · -- a node behind others: the one before it points behind it
    obtain ⟨nodeA, hnodeA⟩ := h.stores.exists_node (List.mem_append_right _ List.mem_cons_self)
    obtain ⟨nodeB, hnodeB⟩ := h.stores.exists_node (a := b) (by simp)
    obtain ⟨hnodup₁, hnodup₂, hdisj⟩ := List.nodup_append.mp hnodup
    have hba : b ≠ a := hdisj b (by simp) a List.mem_cons_self
    have hbl : b ∉ l₁ ++ l₂ := by
      intro hmem
      rcases List.mem_append.mp hmem with hmem | hmem
      · exact (List.nodup_append.mp hnodup₁).2.2 b hmem b (List.mem_singleton_self b) rfl
      · exact hdisj b (by simp) b (List.mem_cons_of_mem a hmem) rfl
    have hal : a ∉ l₁ ++ [b] ++ l₂ := by
      intro hmem
      rcases List.mem_append.mp hmem with hmem | hmem
      · exact hdisj a hmem a List.mem_cons_self rfl
      · exact (List.nodup_cons.mp hnodup₂).1 hmem
    obtain ⟨heap₁, hset, hb₁, hother₁, hm₁, hf₁⟩ := Heap.setNext_eq hnodeB nodeA.next
    have ha₁ : heap₁.node a = some nodeA := (hother₁ a hba.symm).trans hnodeA
    obtain ⟨heap₂, hfree, hnone, hother₂, hm₂, hf₂⟩ := Heap.free_eq ha₁
    have hfind := findNode_eq h.stores hlimit d none
    rw [List.idxOf_append_of_notMem hd, List.idxOf_cons_self, Nat.add_zero, ← hlen, List.take_left,
      List.getElem?_append_right le_rfl, Nat.sub_self, List.map_append, List.map_singleton,
      List.getLastD_concat] at hfind
    have hf : heap₂.frees = s.heap.frees ++ [a] := by rw [hf₂, hf₁]
    refine ⟨⟨heap₂, s.head⟩, ?_, h.remove ?_ (fun c hc => ?_) hnone (hm₂.trans hm₁) hf, hnone, hf⟩
    · obtain ⟨e, ds, rfl⟩ := List.exists_cons_of_ne_nil (l := ds₁) (by rintro rfl; simp at hlen)
      obtain ⟨c, l', node, -, hhead, hnode, rfl, -⟩ := h.stores.cons
      rw [List.mem_cons, not_or] at hd
      exact listRemoveNode_of_find hhead hnode (Ne.symm hd.1) hfind hnodeA hset hfree
    · refine h.stores.unlink hlen hnodeB ?_ fun c hc => ?_
      · rw [hother₂ b hba, hb₁, Heap.next_of_node hnodeA]
      · rw [hother₂ c fun hca => hal ?_, hother₁ c fun hcb => hbl (hcb ▸ hc)]
        rw [List.append_assoc, List.mem_append]
        exact (List.mem_append.mp (hca ▸ hc)).imp_right (List.mem_cons_of_mem b)
    · rw [hother₂ c fun hca => hc ?_, hother₁ c fun hcb => hc ?_]
      · rw [hcb]
        simp
      · rw [hca]
        simp

/-- The first occurrence of data is removed with its node. -/
theorem holds_listRemoveNode_of_mem (h : Holds heap₀ s l ds) (hlimit : l.length < limit)
    (hd : d ∈ ds) : ∃ l₁ a l₂ t, l = l₁ ++ a :: l₂ ∧ l₁.length = ds.idxOf d ∧
      listRemoveNode limit d s = .ok t ∧ Holds heap₀ t (l₁ ++ l₂) (ds.erase d) ∧
      t.heap.node a = none ∧ t.heap.frees = s.heap.frees ++ [a] := by
  obtain ⟨ds₁, ds₂, rfl, hnot⟩ := List.eq_append_cons_of_mem hd
  obtain ⟨l₁, a, l₂, rfl, hlen⟩ := h.stores.split
  obtain ⟨t, ht, hholds, hnone, hfrees⟩ := holds_listRemoveNode h hlen hlimit hnot
  refine ⟨l₁, a, l₂, t, rfl, ?_, ht, ?_, hnone, hfrees⟩
  · rw [List.idxOf_append_of_notMem hnot, List.idxOf_cons_self, hlen, Nat.add_zero]
  · rwa [List.erase_append_right _ hnot, List.erase_cons_head]

/-- **One operation** does to the list what it does to the sequence. -/
theorem holds_listStep {op : ListOp A D} (h : Holds heap₀ s l ds) (hm : MallocFresh op s)
    (hlimit : l.length < limit) : ∃ t l', listStep limit op s = .ok t ∧
      Holds heap₀ t l' (op.apply ds) ∧ l'.length ≤ l.length + 1 := by
  cases op with
  | add d malloc =>
    obtain ⟨a, rfl, ha⟩ := hm
    obtain ⟨t, ht, hholds⟩ := holds_listAddNode h ha hlimit
    exact ⟨t, l ++ [a], ht, hholds, (List.length_append ..).le⟩
  | remove d =>
    by_cases hd : d ∈ ds
    · obtain ⟨l₁, a, l₂, t, rfl, -, ht, hholds, -, -⟩ := holds_listRemoveNode_of_mem h hlimit hd
      refine ⟨t, l₁ ++ l₂, ht, hholds, ?_⟩
      rw [List.length_append, List.length_append, List.length_cons]
      omega
    · refine ⟨s, l, listRemoveNode_of_not_mem h.stores hlimit hd, ?_, Nat.le_succ _⟩
      rwa [ListOp.apply, List.erase_of_not_mem hd]

/-- **A run of operations** does to the list what it does to the sequence. -/
theorem exec_holds {ops : List (ListOp A D)} (h : Holds heap₀ s l ds)
    (hlegal : Run.Legal (listStep limit) MallocFresh ops s) (hlimit : l.length + ops.length < limit) :
    ∃ t l', Run.exec (listStep limit) ops s = .ok t ∧
      Holds heap₀ t l' (ops.foldl ListOp.apply ds) ∧ l'.length < limit := by
  induction ops generalizing s l ds with
  | nil => exact ⟨s, l, rfl, h, hlimit⟩
  | cons op ops ih =>
    rw [List.length_cons] at hlimit
    have hlt : l.length < limit := by omega
    obtain ⟨t, l', ht, hholds, hlen⟩ := holds_listStep h hlegal.1 hlt
    rw [Run.exec_cons_of_ok ht]
    exact ih hholds (hlegal.2 t ht) (by omega)

/-- The 16-bit count of fewer than 32768 nodes is not negative. -/
theorem toUInt32_ofNat {n : ℕ} (hn : n < 32768) :
    (Int16.ofNat n).toInt32.toUInt32 = UInt32.ofNat n := by
  have hmsb : (BitVec.ofNat 16 n).msb = false := by
    rw [BitVec.msb_eq_decide, BitVec.toNat_ofNat]
    simp
    omega
  apply UInt32.toBitVec_inj.mp
  show BitVec.signExtend 32 (BitVec.ofNat 16 n) = BitVec.ofNat 32 n
  rw [BitVec.signExtend_eq_setWidth_of_msb_false hmsb]
  apply BitVec.eq_of_toNat_eq
  rw [BitVec.toNat_setWidth, BitVec.toNat_ofNat, BitVec.toNat_ofNat]
  omega

/-- What a list holds is a sequence. -/
theorem Holds.isSequence (h : Holds heap₀ s l ds) (hlimit : l.length < limit) :
    IsSequence limit heap₀ s l ds where
  toHolds := h
  nodup := h.stores.leads.nodup
  reaches _ := h.stores.leads.reaches_iff
  size hlt := by
    rw [listGetSize, countNodes_eq h.stores hlimit, bind_of_ok rfl, Int16.zero_add,
      toUInt32_ofNat hlt, h.stores.length_eq]
    rfl
  node hlt index := by
    have hget := nodeAt_eq h.stores hlimit index (i := 0) (by omega)
    rw [listGetNode]
    simpa using hget
  absent _ hd := listRemoveNode_of_not_mem h.stores hlimit hd
  removed d hd := by
    obtain ⟨l₁, a, l₂, t, rfl, hlen, ht, hholds, hnone, hfrees⟩ :=
      holds_listRemoveNode_of_mem h hlimit hd
    refine ⟨a, t, ?_, ht, hfrees, hnone, fun hr => ?_⟩
    · rw [← hlen, List.getElem?_append_right le_rfl, Nat.sub_self]
      rfl
    · obtain ⟨node, hnode⟩ := hholds.stores.exists_node (hholds.stores.leads.reaches_iff.mp hr)
      exact absurd (hnone.symm.trans hnode) (Option.some_ne_none node).symm

/-- **A kernel list is a sequence**, however it is built from nothing: nodes are appended and removed as
the data is. -/
theorem exec_isSequence (heap : Heap A D) (ops : List (ListOp A D)) (hlimit : ops.length < limit)
    (hlegal : Run.Legal (listStep limit) MallocFresh ops ⟨heap, none⟩) :
    ∃ s l, Run.exec (listStep limit) ops ⟨heap, none⟩ = .ok s ∧
      IsSequence limit heap s l (sequence ops) := by
  obtain ⟨s, l, hs, hholds, hlen⟩ := exec_holds (holds_nil heap) hlegal (by simpa using hlimit)
  exact ⟨s, l, hs, hholds.isSequence hlen⟩

/-- An address that was freed is allocated again. -/
theorem exec_isSequence_reuse :
    ∃ s l, Run.exec (listStep 8) [.add 5 (some 1), .add 7 (some 2), .add 5 (some 3), .remove 5,
      .add 9 (some 1)] (⟨⟨fun _ => none, [], []⟩, none⟩ : ListState ℕ ℕ) = .ok s ∧
        IsSequence 8 ⟨fun _ => none, [], []⟩ s l [7, 5, 9] :=
  exec_isSequence ⟨fun _ => none, [], []⟩ [.add 5 (some 1), .add 7 (some 2), .add 5 (some 3),
    .remove 5, .add 9 (some 1)] (by decide) (by decide)

end Runs

end MicroKernel.NodeList
