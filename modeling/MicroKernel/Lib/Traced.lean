import Mathlib.Logic.Basic
import Mathlib.Data.List.Basic

/-!
# Computations with effects

A computation has a value or stops, and records the effects it has on the way, in order. `All P`
says that every effect satisfies `P`, `Ensures Q` that the value, if there is one, satisfies `Q`,
and `Stops R` that the reason to stop, if there is one, satisfies `R`; each has a rule for each way
of building a computation.

## Main definitions

* `Traced E S α`: effects in `E`, and a value in `α` or a reason to stop in `S`
* `Traced.tell`, `Traced.stop`: recording an effect, and stopping
* `Traced.All`, `Traced.Ensures`, `Traced.Stops`: properties of the effects, the value and the
  reason to stop
* `Traced.Yields`: a computation has a value, and shows some of its effects

## Main results

* `all_bind`, `ensures_bind`, `stops_bind`, `Yields.bind`: the rules for sequences
-/

/-- A value, or a reason to stop, with the effects of computing it. -/
@[ext] structure Traced (E S α : Type*) where
  effects : List E
  value : Except S α

namespace Traced

universe u

variable {E S : Type*} {α β γ : Type u}

instance : Monad (Traced E S) where
  pure a := ⟨[], .ok a⟩
  bind x f :=
    match x.value with
    | .ok a => ⟨x.effects ++ (f a).effects, (f a).value⟩
    | .error e => ⟨x.effects, .error e⟩

/-- Record an effect. -/
def tell (e : E) : Traced E S PUnit := ⟨[e], .ok ⟨⟩⟩

/-- Stop. -/
def stop (r : S) : Traced E S α := ⟨[], .error r⟩

variable {x : Traced E S α} {f : α → Traced E S β}

/-- A sequence has a value when both its parts have. -/
theorem bind_value_eq_ok {b : β} :
    (x >>= f).value = .ok b ↔ ∃ a, x.value = .ok a ∧ (f a).value = .ok b := by
  obtain ⟨es, v⟩ := x
  cases v with
  | error e =>
    constructor
    · intro h
      cases h
    · rintro ⟨a, h, -⟩
      cases h
  | ok a =>
    refine ⟨fun h => ⟨a, rfl, h⟩, ?_⟩
    rintro ⟨_, h, hb⟩
    cases h
    exact hb

/-- A sequence stops where one of its parts does. -/
theorem bind_value_eq_error {r : S} :
    (x >>= f).value = .error r ↔
      x.value = .error r ∨ ∃ a, x.value = .ok a ∧ (f a).value = .error r := by
  obtain ⟨es, v⟩ := x
  cases v with
  | error e =>
    constructor
    · intro h
      cases h
      exact Or.inl rfl
    · rintro (h | ⟨a, h, -⟩)
      · cases h
        rfl
      · cases h
  | ok a =>
    constructor
    · exact fun h => Or.inr ⟨a, rfl, h⟩
    · rintro (h | ⟨_, h, hr⟩)
      · cases h
      · cases h
        exact hr

/-- The effects of a sequence are those of its parts. -/
theorem mem_effects_bind {e : E} :
    e ∈ (x >>= f).effects ↔ e ∈ x.effects ∨ ∃ a, x.value = .ok a ∧ e ∈ (f a).effects := by
  obtain ⟨es, v⟩ := x
  cases v with
  | error r =>
    refine ⟨Or.inl, ?_⟩
    rintro (h | ⟨a, h, -⟩)
    · exact h
    · cases h
  | ok a =>
    refine ⟨fun h => (List.mem_append.mp h).imp_right fun h => ⟨a, rfl, h⟩, ?_⟩
    rintro (h | ⟨_, h, hf⟩)
    · exact List.mem_append_left _ h
    · cases h
      exact List.mem_append_right _ hf

/-- A sequence behind a value. -/
theorem bind_eq {a : α} (h : x.value = .ok a) :
    x >>= f = ⟨x.effects ++ (f a).effects, (f a).value⟩ := by
  obtain ⟨es, v⟩ := x
  cases h
  rfl

/-- Every effect satisfies `P`. -/
def All (P : E → Prop) (x : Traced E S α) : Prop := ∀ e ∈ x.effects, P e

instance (P : E → Prop) [DecidablePred P] (x : Traced E S α) : Decidable (x.All P) :=
  inferInstanceAs (Decidable (∀ e ∈ x.effects, P e))

/-- The value, if there is one, satisfies `Q`. -/
def Ensures (Q : α → Prop) (x : Traced E S α) : Prop := ∀ a, x.value = .ok a → Q a

/-- The reason to stop, if there is one, satisfies `R`. -/
def Stops (R : S → Prop) (x : Traced E S α) : Prop := ∀ r, x.value = .error r → R r

variable {P : E → Prop} {Q : β → Prop}

@[simp] theorem all_pure (a : α) : (pure a : Traced E S α).All P :=
  fun _ h => absurd h List.not_mem_nil

@[simp] theorem all_tell (e : E) : (tell e : Traced E S PUnit).All P ↔ P e := by
  simp [All, tell]

@[simp] theorem all_stop (r : S) : (stop r : Traced E S α).All P :=
  fun _ h => absurd h List.not_mem_nil

/-- **The effects of a sequence.** -/
theorem all_bind : (x >>= f).All P ↔ x.All P ∧ x.Ensures fun a => (f a).All P := by
  simp only [All, Ensures, mem_effects_bind, or_imp, forall_and, forall_exists_index, and_imp]
  exact and_congr_right fun _ => ⟨fun h a ha e he => h e a ha he, fun h e a ha he => h a ha e he⟩

theorem all_ite {c : Prop} [Decidable c] {y z : Traced E S α} :
    (if c then y else z).All P ↔ (c → y.All P) ∧ (¬ c → z.All P) := by
  split <;> simp_all

theorem all_dite {c : Prop} [Decidable c] {y : c → Traced E S α} {z : ¬ c → Traced E S α} :
    (if h : c then y h else z h).All P ↔ (∀ h : c, (y h).All P) ∧ ∀ h : ¬ c, (z h).All P := by
  split <;> simp_all

@[simp] theorem ensures_pure {R : α → Prop} (a : α) : (pure a : Traced E S α).Ensures R ↔ R a :=
  ⟨fun h => h a rfl, fun h _ hb => by cases hb; exact h⟩

@[simp] theorem ensures_tell {R : PUnit → Prop} (e : E) :
    (tell e : Traced E S PUnit).Ensures R ↔ R ⟨⟩ :=
  ⟨fun h => h _ rfl, fun h _ _ => h⟩

@[simp] theorem ensures_stop {R : α → Prop} (r : S) : (stop r : Traced E S α).Ensures R :=
  fun _ h => nomatch h

/-- **The value of a sequence.** -/
theorem ensures_bind : (x >>= f).Ensures Q ↔ x.Ensures fun a => (f a).Ensures Q := by
  simp only [Ensures, bind_value_eq_ok, forall_exists_index, and_imp]
  exact ⟨fun h a ha b hb => h b a ha hb, fun h b a ha hb => h a ha b hb⟩

theorem ensures_ite {R : α → Prop} {c : Prop} [Decidable c] {y z : Traced E S α} :
    (if c then y else z).Ensures R ↔ (c → y.Ensures R) ∧ (¬ c → z.Ensures R) := by
  split <;> simp_all

theorem ensures_dite {R : α → Prop} {c : Prop} [Decidable c] {y : c → Traced E S α}
    {z : ¬ c → Traced E S α} :
    (if h : c then y h else z h).Ensures R ↔ (∀ h : c, (y h).Ensures R) ∧
      ∀ h : ¬ c, (z h).Ensures R := by
  split <;> simp_all

theorem ensures_of_forall {R : α → Prop} (h : ∀ a, R a) : x.Ensures R := fun a _ => h a

@[simp] theorem ensures_true : x.Ensures fun _ => True := ensures_of_forall fun _ => trivial

theorem All.mono {P' : E → Prop} (h : x.All P) (hP : ∀ e, P e → P' e) : x.All P' :=
  fun e he => hP e (h e he)

theorem Ensures.mono {R R' : α → Prop} (h : x.Ensures R) (hR : ∀ a, R a → R' a) : x.Ensures R' :=
  fun a ha => hR a (h a ha)

section Stops

variable {R : S → Prop}

@[simp] theorem stops_pure (a : α) : (pure a : Traced E S α).Stops R := fun _ h => nomatch h

@[simp] theorem stops_tell (e : E) : (tell e : Traced E S PUnit).Stops R := fun _ h => nomatch h

@[simp] theorem stops_stop (r : S) : (stop r : Traced E S α).Stops R ↔ R r :=
  ⟨fun h => h r rfl, fun h _ hr => by cases hr; exact h⟩

/-- **The reason a sequence stops.** -/
theorem stops_bind : (x >>= f).Stops R ↔ x.Stops R ∧ x.Ensures fun a => (f a).Stops R := by
  simp only [Stops, Ensures, bind_value_eq_error, or_imp, forall_and, forall_exists_index, and_imp]
  exact and_congr_right fun _ => ⟨fun h a ha r hr => h r a ha hr, fun h r a ha hr => h a ha r hr⟩

theorem stops_dite {c : Prop} [Decidable c] {y : c → Traced E S α} {z : ¬ c → Traced E S α} :
    (if h : c then y h else z h).Stops R ↔ (∀ h : c, (y h).Stops R) ∧ ∀ h : ¬ c, (z h).Stops R := by
  split <;> simp_all

end Stops

section Yields

/-- The computation has the value `a`, its effects are safe, and those that are shown are `es`. -/
structure Yields (safe : E → Prop) (shown : E → Bool) (x : Traced E S α) (es : List E) (a : α) :
    Prop where
  value : x.value = .ok a
  safe : x.All safe
  shown : x.effects.filter shown = es

variable {safe : E → Prop} {shown : E → Bool} {es es' : List E} {a : α} {b : β}

theorem yields_pure (a : α) : (pure a : Traced E S α).Yields safe shown [] a :=
  ⟨rfl, all_pure a, rfl⟩

theorem yields_tell {e : E} (he : safe e) :
    (tell e : Traced E S PUnit).Yields safe shown (if shown e then [e] else []) ⟨⟩ := by
  refine ⟨rfl, all_tell e |>.mpr he, ?_⟩
  show [e].filter shown = _
  cases h : shown e <;> simp [h]

/-- **What a sequence shows** is what its parts show. -/
theorem Yields.bind (hx : x.Yields safe shown es a) (hf : (f a).Yields safe shown es' b) :
    (x >>= f).Yields safe shown (es ++ es') b := by
  have hbind := bind_eq (f := f) hx.value
  rw [hbind]
  refine ⟨hf.value, fun e he => ?_, ?_⟩
  · rcases List.mem_append.mp he with he | he
    · exact hx.safe e he
    · exact hf.safe e he
  · show (x.effects ++ (f a).effects).filter shown = _
    rw [List.filter_append, hx.shown, hf.shown]

/-- A sequence whose first part shows nothing. -/
theorem Yields.bind_silent (hx : x.Yields safe shown [] a) (hf : (f a).Yields safe shown es b) :
    (x >>= f).Yields safe shown es b :=
  hx.bind hf

/-- A sequence whose second part shows nothing. -/
theorem Yields.bind_last (hx : x.Yields safe shown es a) (hf : (f a).Yields safe shown [] b) :
    (x >>= f).Yields safe shown es b := by
  have hbind := hx.bind hf
  rwa [List.append_nil] at hbind

end Yields

end Traced
