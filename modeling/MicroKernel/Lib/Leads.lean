import MicroKernel.Lib.Linked
import Mathlib.Data.List.Nodup

/-!
# Singly linked nodes

Pointers are nodes or none, and `next` may hold anything off the nodes that are looked at. Nodes that
lead from a pointer to none are all that can be reached from it, and no node is met twice.

## Main definitions

* `Leads next p l q`: following `next` from the pointer `p` meets the nodes `l`, and ends at `q`
* `Reaches next p a`: following `next` from the pointer `p` meets the node `a`

## Main results

* `Leads.append_iff`: nodes are followed one part after the other
* `Leads.congr`: what is followed depends on the nodes met only
* `Leads.nodup`, `Leads.reaches_iff`: nodes that lead to none
* `Leads.concat`, `Leads.unlink`: a node is linked behind the last, or bypassed
-/

variable {A : Type*}

/-- Following `next` from `p` meets the nodes `l`, and ends at `q`. -/
def Leads (next : A → Option A) : Option A → List A → Option A → Prop
  | p, [], q => p = q
  | p, a :: l, q => p = some a ∧ Leads next (next a) l q

/-- Following `next` from a pointer meets a node. -/
inductive Reaches (next : A → Option A) : Option A → A → Prop
  | here (a : A) : Reaches next (some a) a
  | there {a b : A} (h : Reaches next (next a) b) : Reaches next (some a) b

namespace Leads

variable {next next' : A → Option A} {p q : Option A} {a b x : A} {l r : List A}

theorem append_iff : Leads next p (l ++ r) q ↔ ∃ m, Leads next p l m ∧ Leads next m r q := by
  induction l generalizing p with
  | nil => exact ⟨fun h => ⟨p, rfl, h⟩, fun ⟨_, hm, h⟩ => by rwa [hm]⟩
  | cons a l ih =>
    rw [List.cons_append]
    constructor
    · rintro ⟨hp, h⟩
      obtain ⟨m, hl, hr⟩ := ih.mp h
      exact ⟨m, ⟨hp, hl⟩, hr⟩
    · rintro ⟨m, ⟨hp, hl⟩, hr⟩
      exact ⟨hp, ih.mpr ⟨m, hl, hr⟩⟩

/-- **What is followed** depends on the nodes met only. -/
theorem congr (h : Leads next p l q) (hn : ∀ a ∈ l, next' a = next a) : Leads next' p l q := by
  induction l generalizing p with
  | nil => exact h
  | cons a l ih =>
    refine ⟨h.1, ?_⟩
    rw [hn a List.mem_cons_self]
    exact ih h.2 fun b hb => hn b (List.mem_cons_of_mem a hb)

/-- A pointer that nodes are met from is not none. -/
theorem ne_none (h : Leads next p l q) (hl : l ≠ []) : p ≠ none := by
  cases l with
  | nil => exact absurd rfl hl
  | cons a l => exact h.1 ▸ Option.some_ne_none a

/-- Nodes that lead to none are linked, forward, as pointers. -/
theorem isChain (h : Leads next p l none) :
    (l.map some ++ [none]).IsChain fun p q : Option A => p.bind next = q := by
  induction l generalizing p with
  | nil => exact List.isChain_singleton none
  | cons a l ih =>
    rw [List.map_cons, List.cons_append, List.isChain_cons]
    refine ⟨fun y hy => ?_, ih h.2⟩
    cases l with
    | nil =>
      obtain rfl : none = y := Option.some.inj hy
      exact h.2
    | cons b l =>
      obtain rfl : some b = y := Option.some.inj hy
      exact h.2.1

/-- **Nodes that lead to none** are not met twice. -/
theorem nodup (h : Leads next p l none) : l.Nodup :=
  List.Nodup.of_map some (Linked.nodup_of_forward h.isChain (by simp))

/-- **The nodes that can be reached** are those that lead to none. -/
theorem reaches_iff (h : Leads next p l none) : Reaches next p a ↔ a ∈ l := by
  constructor
  · intro hr
    induction hr generalizing l with
    | here a =>
      cases l with
      | nil => cases h
      | cons b l =>
        obtain rfl : a = b := Option.some.inj h.1
        exact List.mem_cons_self
    | there _ ih =>
      cases l with
      | nil => cases h
      | cons b l =>
        obtain ⟨hb, h⟩ := h
        cases hb
        exact List.mem_cons_of_mem _ (ih h)
  · intro ha
    induction l generalizing p with
    | nil => exact absurd ha List.not_mem_nil
    | cons b l ih =>
      obtain ⟨rfl, h⟩ := h
      rcases List.mem_cons.mp ha with rfl | ha
      · exact .here a
      · exact .there (ih h ha)

/-- **A node linked behind the last.** -/
theorem concat (h : Leads next p (l ++ [a]) q) (hn : ∀ b ∈ l, next' b = next b)
    (ha : next' a = some x) (hx : next' x = q) : Leads next' p (l ++ [a] ++ [x]) q := by
  obtain ⟨m, hl, hm, -⟩ := append_iff.mp h
  exact append_iff.mpr ⟨some x, append_iff.mpr ⟨m, hl.congr hn, hm, ha⟩, rfl, hx⟩

/-- **A node bypassed**: the one before it points to what was behind it. -/
theorem unlink (h : Leads next p (l ++ a :: b :: r) q) (hn : ∀ c ∈ l ++ r, next' c = next c)
    (ha : next' a = next b) : Leads next' p (l ++ a :: r) q := by
  obtain ⟨m, hl, hm, -, hr⟩ := append_iff.mp h
  refine append_iff.mpr ⟨m, hl.congr fun c hc => hn c (List.mem_append_left r hc), hm, ?_⟩
  rw [ha]
  exact hr.congr fun c hc => hn c (List.mem_append_right l hc)

end Leads
