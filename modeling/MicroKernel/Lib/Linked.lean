import Mathlib.Data.List.Chain

/-!
# Doubly linked lists

The nodes of a doubly linked list, in order, over two functions `next` and `prev` that may hold
anything elsewhere. The last node is followed by `nil`; what precedes the first is not looked at.

## Main definitions

* `Linked next prev nil l`: the nodes `l` are linked both ways

## Main results

* `Linked.next_eq`: what follows a node
* `Linked.congr`: links depend on the nodes only
* `Linked.nodup_of_forward`: a finite chain has no node twice
* `Linked.concat`, `Linked.unlink`: a node is linked behind the last, or bypassed
-/

variable {A : Type*}

/-- The nodes `l` are linked, forward up to `nil` and back. -/
structure Linked (next prev : A → A) (nil : A) (l : List A) : Prop where
  forward : (l ++ [nil]).IsChain fun a b => next a = b
  back : l.IsChain fun a b => prev b = a

namespace Linked

variable {next prev next' prev' : A → A} {nil a b x : A} {l r : List A}

theorem singleton (h : next a = nil) : Linked next prev nil [a] :=
  ⟨List.isChain_pair.mpr h, List.isChain_singleton a⟩

/-- **What follows a node**: the next one, or `nil`. -/
theorem next_eq (h : Linked next prev nil (l ++ a :: r)) : next a = r.headD nil := by
  have hf := h.forward
  rw [List.append_assoc, List.cons_append, List.isChain_split] at hf
  cases r with
  | nil => exact (List.isChain_cons_cons.mp hf.2).1
  | cons b r => exact (List.isChain_cons_cons.mp hf.2).1

/-- What precedes a node. -/
theorem prev_eq (h : Linked next prev nil (l ++ a :: b :: r)) : prev b = a :=
  (List.isChain_append_cons_cons.mp h.back).2.1

theorem tail (h : Linked next prev nil (l ++ r)) : Linked next prev nil r := by
  refine ⟨?_, h.back.right_of_append⟩
  have hf := h.forward
  rw [List.append_assoc] at hf
  exact hf.right_of_append

/-- **Links** depend on the nodes only. -/
theorem congr (h : Linked next prev nil l) (hn : ∀ a ∈ l, next' a = next a)
    (hp : ∀ a ∈ l.tail, prev' a = prev a) : Linked next' prev' nil l := by
  constructor
  · refine List.isChain_append.mpr ⟨?_, List.isChain_singleton nil, fun x hx y hy => ?_⟩
    · exact h.forward.left_of_append.imp_of_mem_imp fun a b ha _ hab => (hn a ha).trans hab
    · exact (hn x (List.mem_of_getLast? hx)).trans ((List.isChain_append.mp h.forward).2.2 x hx y hy)
  · exact h.back.imp_of_mem_tail_imp fun a b _ hb hab => (hp b hb).trans hab

/-- **The nodes from one on** are determined by it. -/
theorem eq_of_forward {l l' : List A} (h : ((a :: l) ++ [nil]).IsChain fun a b => next a = b)
    (h' : ((a :: l') ++ [nil]).IsChain fun a b => next a = b) (hn : nil ∉ l) (hn' : nil ∉ l') :
    l = l' := by
  induction l generalizing a l' with
  | nil =>
    cases l' with
    | nil => rfl
    | cons b l' =>
      obtain rfl : b = nil :=
        (List.isChain_cons_cons.mp h').1.symm.trans (List.isChain_cons_cons.mp h).1
      exact absurd List.mem_cons_self hn'
  | cons c l ih =>
    rw [List.mem_cons, not_or] at hn
    cases l' with
    | nil =>
      exact absurd ((List.isChain_cons_cons.mp h').1.symm.trans (List.isChain_cons_cons.mp h).1) hn.1
    | cons b l' =>
      obtain rfl : b = c :=
        (List.isChain_cons_cons.mp h').1.symm.trans (List.isChain_cons_cons.mp h).1
      rw [List.mem_cons, not_or] at hn'
      rw [ih (List.isChain_cons_cons.mp h).2 (List.isChain_cons_cons.mp h').2 hn.2 hn'.2]

/-- **A finite chain** has no node twice. -/
theorem nodup_of_forward (h : (l ++ [nil]).IsChain fun a b => next a = b) (hn : nil ∉ l) :
    l.Nodup := by
  induction l with
  | nil => exact List.nodup_nil
  | cons a l ih =>
    rw [List.mem_cons, not_or] at hn
    refine List.nodup_cons.mpr ⟨fun hmem => ?_, ih h.tail hn.2⟩
    obtain ⟨p, q, rfl⟩ := List.append_of_mem hmem
    have hq : ((a :: q) ++ [nil]).IsChain fun a b => next a = b := by
      have h' : ((a :: p) ++ ((a :: q) ++ [nil])).IsChain fun a b => next a = b := by simpa using h
      exact h'.right_of_append
    have heq := congrArg List.length (eq_of_forward h hq hn.2 fun hmem => hn.2 (by simp [hmem]))
    rw [List.length_append, List.length_cons] at heq
    omega

/-- **A node linked behind the last.** -/
theorem concat (h : Linked next prev nil (l ++ [a])) (hn : ∀ b ∈ l, next' b = next b)
    (hp : ∀ b ∈ (l ++ [a]).tail, prev' b = prev b) (ha : next' a = x) (hx : next' x = nil)
    (hxp : prev' x = a) : Linked next' prev' nil (l ++ [a, x]) := by
  constructor
  · have hf := h.forward
    rw [List.append_assoc, List.singleton_append, List.isChain_split] at hf
    rw [List.append_assoc, show [a, x] ++ [nil] = a :: [x, nil] from rfl, List.isChain_split]
    refine ⟨List.isChain_append.mpr ⟨?_, List.isChain_singleton a, fun b hb y hy => ?_⟩, ?_⟩
    · exact hf.1.left_of_append.imp_of_mem_imp fun b c hb _ hbc => (hn b hb).trans hbc
    · exact (hn b (List.mem_of_getLast? hb)).trans ((List.isChain_append.mp hf.1).2.2 b hb y hy)
    · exact List.isChain_cons_cons.mpr ⟨ha, List.isChain_pair.mpr hx⟩
  · rw [List.isChain_split]
    exact ⟨h.back.imp_of_mem_tail_imp fun b c _ hc hbc => (hp c hc).trans hbc,
      List.isChain_pair.mpr hxp⟩

/-- **A node bypassed**: the one before it points to the one behind it, and that back. -/
theorem unlink (h : Linked next prev nil (l ++ a :: b :: r)) (hn : ∀ c ∈ l ++ r, next' c = next c)
    (hp : ∀ c ∈ (l ++ [a]).tail ++ r.tail, prev' c = prev c) (ha : next' a = next b)
    (hb : ∀ c ∈ r.head?, prev' c = a) : Linked next' prev' nil (l ++ a :: r) := by
  have hrest : Linked next prev nil (b :: r) := by
    have h' : Linked next prev nil ((l ++ [a]) ++ b :: r) := by simpa using h
    exact h'.tail
  constructor
  · have hf := h.forward
    rw [List.append_assoc, List.cons_append, List.isChain_split] at hf
    rw [List.append_assoc, List.cons_append, List.isChain_split]
    refine ⟨List.isChain_append.mpr ⟨?_, List.isChain_singleton a, fun c hc y hy => ?_⟩, ?_⟩
    · exact hf.1.left_of_append.imp_of_mem_imp fun c d hc _ hcd =>
        (hn c (List.mem_append_left r hc)).trans hcd
    · exact (hn c (List.mem_append_left r (List.mem_of_getLast? hc))).trans
        ((List.isChain_append.mp hf.1).2.2 c hc y hy)
    · have hr : Linked next prev nil r := hrest.tail (l := [b])
      have hr' : Linked next' prev nil r :=
        hr.congr (fun c hc => hn c (List.mem_append_right l hc)) fun _ _ => rfl
      refine List.isChain_cons.mpr ⟨fun y hy => ?_, hr'.forward⟩
      rw [ha, hrest.next_eq (l := [])]
      cases r with
      | nil => simpa using hy
      | cons c r => simpa using hy
  · have hl := (List.isChain_split.mp h.back).1
    rw [List.isChain_split]
    refine ⟨hl.imp_of_mem_tail_imp fun c d _ hd hcd =>
      (hp d (List.mem_append_left _ hd)).trans hcd, List.isChain_cons.mpr ⟨hb, ?_⟩⟩
    exact (hrest.tail (l := [b])).back.imp_of_mem_tail_imp fun c d _ hd hcd =>
      (hp d (List.mem_append_right _ hd)).trans hcd

end Linked
