import Mathlib.Combinatorics.SimpleGraph.Acyclic
import Mathlib.Combinatorics.SimpleGraph.Metric

/-!
# Flooding a tree

A message is flooded from a vertex of a tree: the first vertex sends it to all its neighbours, each
other vertex to all its neighbours but the one it has it from. No vertex remembers what it has handled,
and the copies arrive in any order. One vertex, the target, keeps what it handles.

## Main definitions

* `Flood.children G r v`: the neighbours of a vertex on the side away from the start
* `Flood.State`, `Flood.handle`: the vertices that have handled a copy, and the copies under way
* `Flood.Invariant`: every vertex behind a handled one is reached by one copy

## Main results

* `Flood.mem_children_iff`: in a tree, the children are the neighbours but the sender
* `Flood.Invariant.handle`: handling a copy keeps the invariant
* `Flood.Invariant.target_mem`: without copies under way, the target has handled one
-/

namespace Flood

variable {V : Type*} [Fintype V] {G : SimpleGraph V} {r t u v w : V}

open Classical in
/-- The neighbours of a vertex on the side away from `r`. -/
noncomputable def children (G : SimpleGraph V) (r v : V) : Finset V :=
  Finset.univ.filter fun w => G.Adj v w ∧ G.dist r w = G.dist r v + 1

theorem mem_children : w ∈ children G r v ↔ G.Adj v w ∧ G.dist r w = G.dist r v + 1 := by
  simp [children]

theorem children_ne_start (h : w ∈ children G r v) : w ≠ r := by
  rintro rfl
  have hdist := (mem_children.mp h).2
  rw [SimpleGraph.dist_self] at hdist
  omega

/-- A vertex of a tree is the child of one vertex only. -/
theorem eq_of_mem_children (hG : G.IsTree) (hu : w ∈ children G r u) (hv : w ∈ children G r v) :
    u = v := by
  obtain ⟨huw, hdu⟩ := mem_children.mp hu
  obtain ⟨hvw, hdv⟩ := mem_children.mp hv
  obtain ⟨p, hp⟩ := hG.connected.exists_walk_length_eq_dist r u
  obtain ⟨q, hq⟩ := hG.connected.exists_walk_length_eq_dist r v
  -- the shortest walks over `u` and over `v` are paths to `w`, so they are the same
  have hpw : (p.concat huw).IsPath :=
    SimpleGraph.Walk.isPath_of_length_eq_dist _ (by rw [SimpleGraph.Walk.length_concat]; omega)
  have hqw : (q.concat hvw).IsPath :=
    SimpleGraph.Walk.isPath_of_length_eq_dist _ (by rw [SimpleGraph.Walk.length_concat]; omega)
  have heq := (hG.isAcyclic.subsingleton_path r w).elim ⟨_, hpw⟩ ⟨_, hqw⟩
  have hpenultimate := congrArg (fun p => p.1.penultimate) heq
  simpa using hpenultimate

/-- **In a tree, the children are the neighbours but the sender.** -/
theorem mem_children_iff (hG : G.IsTree) (hv : v ∈ children G r u) :
    w ∈ children G r v ↔ G.Adj v w ∧ w ≠ u := by
  rw [mem_children]
  refine and_congr_right fun hadj => ⟨?_, fun hne => ?_⟩
  · rintro hdist rfl
    have hdv := (mem_children.mp hv).2
    omega
  · rcases hG.dist_eq_dist_add_one_of_adj r hadj with h | h
    · -- a nearer neighbour is the sender
      exact absurd (eq_of_mem_children hG (mem_children.mpr ⟨hadj.symm, h⟩) hv) hne
    · exact h

/-- The children of the start are all its neighbours. -/
theorem mem_children_start : w ∈ children G r r ↔ G.Adj r w := by
  rw [mem_children, SimpleGraph.dist_self, Nat.zero_add, SimpleGraph.dist_eq_one_iff_adj, and_self_iff]

/-- The vertices that have handled a copy, the last first, and the vertices that copies are under way
to. -/
structure State (V : Type*) where
  handled : List V
  copies : Multiset V

/-- A vertex handles a copy: the target keeps it, the others send it on. -/
noncomputable def handle [DecidableEq V] (G : SimpleGraph V) (r t v : V) (s : State V) : State V where
  handled := v :: s.handled
  copies := s.copies.erase v + if v = t then 0 else (children G r v).val

/-- The vertices that a copy has reached or is under way to. -/
def State.reached (s : State V) : Multiset V := s.handled + s.copies

/-- Every vertex is reached once at most; the start is, and so are the children of every vertex that
has sent the message on, and no others. -/
structure Invariant (G : SimpleGraph V) (r t : V) (s : State V) : Prop where
  nodup : s.reached.Nodup
  start : r ∈ s.reached
  parent : ∀ w ∈ s.reached, w ≠ r → ∃ u ∈ s.handled, u ≠ t ∧ w ∈ children G r u
  child : ∀ u ∈ s.handled, u ≠ t → ∀ w ∈ children G r u, w ∈ s.reached

/-- One copy is under way to the first vertex. -/
theorem Invariant.init (G : SimpleGraph V) (r t : V) : Invariant G r t ⟨[], {r}⟩ where
  nodup := by simp [State.reached]
  start := by simp [State.reached]
  parent := fun w hw hne => absurd (by simpa [State.reached] using hw) hne
  child := fun u hu => absurd hu List.not_mem_nil

section Steps

variable {s : State V}

/-- A vertex handles one copy at most. -/
theorem Invariant.nodup_handled (h : Invariant G r t s) : s.handled.Nodup :=
  Multiset.coe_nodup.mp (Multiset.nodup_add.mp h.nodup).1

/-- **Without copies under way, the target has handled one.** -/
theorem Invariant.target_mem (h : Invariant G r t s) (hG : G.Connected) (hcopies : s.copies = 0) :
    t ∈ s.handled := by
  have hreached : ∀ w ∈ s.reached, w ∈ s.handled := by
    intro w hw
    simpa [State.reached, hcopies] using hw
  by_contra ht
  obtain ⟨p, hp⟩ := hG.exists_walk_length_eq_dist r t
  -- every vertex on a shortest walk to the target is handled, by induction on its distance
  have hall : ∀ n ≤ p.length, p.getVert n ∈ s.handled := by
    intro n
    induction n with
    | zero => exact fun _ => by simpa using hreached r h.start
    | succ n ih =>
      intro hn
      have hmem := ih (by omega)
      have hadj := p.adj_getVert_succ (show n < p.length by omega)
      have hdist : ∀ m ≤ p.length, G.dist r (p.getVert m) = m := by
        intro m hm
        rw [← SimpleGraph.length_eq_dist_of_subwalk hp (p.isSubwalk_take m), p.take_length]
        exact min_eq_left hm
      refine hreached _ (h.child _ hmem ?_ _ (mem_children.mpr ⟨hadj, ?_⟩))
      · rintro heq
        exact ht (heq ▸ hmem)
      · rw [hdist _ hn, hdist n (by omega)]
  exact ht (by simpa using hall p.length le_rfl)

/-- The children of a vertex that a copy is under way to are not reached. -/
theorem Invariant.not_mem_of_child (h : Invariant G r t s) (hG : G.IsTree) (hv : v ∈ s.copies)
    (hw : w ∈ children G r v) : w ∉ s.reached := by
  intro hreached
  obtain ⟨u, hu, -, hwu⟩ := h.parent w hreached (children_ne_start hw)
  obtain rfl := eq_of_mem_children hG hw hwu
  have hdisjoint := (Multiset.nodup_add.mp h.nodup).2.2
  exact Multiset.disjoint_left.mp hdisjoint (Multiset.mem_coe.mpr hu) hv

variable [DecidableEq V]

theorem reached_handle (hv : v ∈ s.copies) :
    (handle G r t v s).reached = s.reached + if v = t then 0 else (children G r v).val := by
  obtain ⟨copies, hcopies⟩ := Multiset.exists_cons_of_mem hv
  simp only [State.reached, handle, hcopies, Multiset.erase_cons_head, ← Multiset.cons_coe,
    Multiset.cons_add, Multiset.add_cons, add_assoc]

/-- **Handling a copy keeps the invariant.** -/
theorem Invariant.handle (h : Invariant G r t s) (hG : G.IsTree) (hv : v ∈ s.copies) :
    Invariant G r t (handle G r t v s) := by
  have hreached := reached_handle (G := G) (r := r) (t := t) hv
  have hold : ∀ w ∈ s.reached, w ∈ (Flood.handle G r t v s).reached := by
    intro w hw
    rw [hreached]
    exact Multiset.mem_add.mpr (.inl hw)
  refine ⟨?_, hold r h.start, fun w hw hne => ?_, fun u hu hut w hw => ?_⟩
  · rw [hreached]
    split
    · rw [add_zero]
      exact h.nodup
    · refine Multiset.nodup_add.mpr ⟨h.nodup, (children G r v).nodup, ?_⟩
      exact Multiset.disjoint_left.mpr fun {w} hw hchild => h.not_mem_of_child hG hv hchild hw
  · rw [hreached] at hw
    rcases Multiset.mem_add.mp hw with hw | hw
    · obtain ⟨u, hu, hut, hwu⟩ := h.parent w hw hne
      exact ⟨u, List.mem_cons_of_mem v hu, hut, hwu⟩
    · split at hw
      · simp at hw
      · next hvt => exact ⟨v, List.mem_cons_self, hvt, hw⟩
  · rcases List.mem_cons.mp hu with rfl | hu
    · rw [hreached, if_neg hut]
      exact Multiset.mem_add.mpr (.inr hw)
    · exact hold w (h.child u hu hut w hw)

end Steps

end Flood
