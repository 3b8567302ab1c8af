import MicroKernel.Lib.Traced

/-!
# Two computations side by side

Two computations are related when an observer who sees some of the effects sees the same from both, and
both stop for the same reason or return related values. Each way of building a computation has its
rule, so two runs of one program are compared instruction by instruction.

## Main definitions

* `Traced.Related visible R x y`: the same visible effects, and the same stop or values in `R`

## Main results

* `Related.bind_of_value`, `Related.bind`: the rule for sequences
-/

namespace Traced

universe u

variable {E S : Type*} {α β γ δ : Type u}

/-- The same visible effects, and the same reason to stop or values in `R`. -/
structure Related (visible : E → Bool) (R : α → β → Prop) (x : Traced E S α) (y : Traced E S β) :
    Prop where
  effects : x.effects.filter visible = y.effects.filter visible
  value : (∃ r, x.value = .error r ∧ y.value = .error r) ∨
    ∃ a b, x.value = .ok a ∧ y.value = .ok b ∧ R a b

namespace Related

variable {visible : E → Bool} {R R' : α → β → Prop} {Q : γ → δ → Prop} {x x' : Traced E S α}
  {y y' : Traced E S β} {f : α → Traced E S γ} {g : β → Traced E S δ}

theorem pure {a : α} {b : β} (h : R a b) :
    Related (S := S) visible R (Pure.pure a) (Pure.pure b) :=
  ⟨rfl, Or.inr ⟨a, b, rfl, rfl, h⟩⟩

theorem tell (e : E) :
    Related (S := S) visible (fun _ _ => True) (Traced.tell e) (Traced.tell e) :=
  ⟨rfl, Or.inr ⟨⟨⟩, ⟨⟩, rfl, rfl, trivial⟩⟩

theorem stop (r : S) : Related visible R (Traced.stop r) (Traced.stop r) :=
  ⟨rfl, Or.inl ⟨r, rfl, rfl⟩⟩


/-- A computation is related to itself. -/
theorem same (x : Traced E S α) : Related visible (fun a b => b = a) x x := by
  refine ⟨rfl, ?_⟩
  cases hv : x.value with
  | error r => exact Or.inl ⟨r, rfl, rfl⟩
  | ok a => exact Or.inr ⟨a, a, rfl, rfl, rfl⟩

/-- **Related sequences** are made of related parts, the second for the values of the first. -/
theorem bind_of_value (h : Related visible R x y)
    (hf : ∀ a b, x.value = .ok a → R a b → Related visible Q (f a) (g b)) :
    Related visible Q (x >>= f) (y >>= g) := by
  obtain ⟨es, v⟩ := x
  obtain ⟨es', w⟩ := y
  rcases h with ⟨heffects, ⟨r, hv, hw⟩ | ⟨a, b, hv, hw, hR⟩⟩
  · cases hv
    cases hw
    exact ⟨heffects, Or.inl ⟨r, rfl, rfl⟩⟩
  · cases hv
    cases hw
    obtain ⟨heffects', hvalue⟩ := hf a b rfl hR
    refine ⟨?_, hvalue⟩
    show (es ++ (f a).effects).filter visible = (es' ++ (g b).effects).filter visible
    rw [List.filter_append, List.filter_append, heffects', show es.filter visible = _ from heffects]

theorem bind (h : Related visible R x y) (hf : ∀ a b, R a b → Related visible Q (f a) (g b)) :
    Related visible Q (x >>= f) (y >>= g) := h.bind_of_value fun a b _ => hf a b

theorem ite {c : Prop} [Decidable c] (h : c → Related visible R x y)
    (h' : ¬ c → Related visible R x' y') :
    Related visible R (if c then x else x') (if c then y else y') := by
  split
  · next hc => exact h hc
  · next hc => exact h' hc

theorem mono (h : Related visible R x y) (hR : ∀ a b, R a b → R' a b) : Related visible R' x y :=
  ⟨h.effects, h.value.imp_right fun ⟨a, b, ha, hb, hab⟩ => ⟨a, b, ha, hb, hR a b hab⟩⟩

end Related

end Traced
