import Mathlib.Logic.Function.Basic
import Mathlib.Data.List.Basic

/-!
# Byte devices

A byte device answers reads and takes writes, one access after the other. The byte array is the
device whose state is its contents. A device is transparent when its replies to any accesses are
those of the byte array; this is shown by a simulation.

## Main definitions

* `Access`, `ByteDevice`: accesses, and devices answering them
* `ByteDevice.final`, `ByteDevice.replies`: the state after a list of accesses, and the bytes read
* `byteArray`: the device that is its contents
* `Simulates`: agreement of two devices along a relation of their states

## Main results

* `Simulates.replies_eq`, `Simulates.final`: simulated devices answer alike and stay related
* `byteArray_replies_eq_iff`: when two byte arrays give the same replies
* `final_induction`: a property kept by every access holds after all of them
-/

/-- A read or a write of one byte. -/
inductive Access (A B : Type*) where
  | read (address : A)
  | write (address : A) (byte : B)

namespace Access

variable {A B : Type*}

/-- The address an access goes to. -/
def address : Access A B → A
  | read a => a
  | write a _ => a

/-- The access writes at the address `a`. -/
def WritesAt (a : A) : Access A B → Prop
  | read _ => False
  | write a' _ => a' = a

/-- Some read of the address `a` comes before every write at it. -/
def ReadsFirst (a : A) : List (Access A B) → Prop
  | [] => False
  | read a' :: ops => a' = a ∨ ReadsFirst a ops
  | write a' _ :: ops => a' ≠ a ∧ ReadsFirst a ops

@[simp] theorem address_read (a : A) : (read a : Access A B).address = a := rfl

@[simp] theorem address_write (a : A) (b : B) : (write a b).address = a := rfl

@[simp] theorem not_writesAt_read (a a' : A) : ¬ (read a' : Access A B).WritesAt a := id

@[simp] theorem writesAt_write (a a' : A) (b : B) : (write a' b).WritesAt a ↔ a' = a := Iff.rfl

end Access

/-- A device with states `S` holding bytes `B` at addresses `A`. -/
structure ByteDevice (S A B : Type*) where
  read : S → A → B × S
  write : S → A → B → S

namespace ByteDevice

variable {S T A B : Type*} (d : ByteDevice S A B)

/-- The state after one access. -/
def step (s : S) : Access A B → S
  | .read a => (d.read s a).2
  | .write a b => d.write s a b

/-- The state after a list of accesses. -/
def final (s : S) (ops : List (Access A B)) : S := ops.foldl d.step s

/-- The bytes the reads of a list of accesses return, in order. -/
def replies : S → List (Access A B) → List B
  | _, [] => []
  | s, .read a :: ops => (d.read s a).1 :: replies (d.read s a).2 ops
  | s, .write a b :: ops => replies (d.write s a b) ops

@[simp] theorem final_nil (s : S) : d.final s [] = s := rfl

@[simp] theorem final_cons (s : S) (x : Access A B) (ops : List (Access A B)) :
    d.final s (x :: ops) = d.final (d.step s x) ops := rfl

theorem final_append (s : S) (ops ops' : List (Access A B)) :
    d.final s (ops ++ ops') = d.final (d.final s ops) ops' := List.foldl_append

/-- **A property kept by every access holds after all of them.** -/
theorem final_induction {Q : S → Prop} {ops : List (Access A B)} {s : S}
    (hstep : ∀ s, Q s → ∀ x ∈ ops, Q (d.step s x)) (hs : Q s) : Q (d.final s ops) := by
  induction ops generalizing s with
  | nil => exact hs
  | cons x ops ih =>
    exact ih (fun s hs y hy => hstep s hs y (List.mem_cons_of_mem _ hy))
      (hstep s hs x List.mem_cons_self)

/-! ## The byte array -/

/-- The device that is its contents. -/
def byteArray [DecidableEq A] : ByteDevice (A → B) A B where
  read m a := (m a, m)
  write m a b := Function.update m a b

section ByteArray

variable [DecidableEq A]

@[simp] theorem byteArray_step_read (m : A → B) (a : A) : byteArray.step m (.read a) = m := rfl

@[simp] theorem byteArray_step_write (m : A → B) (a : A) (b : B) :
    byteArray.step m (.write a b) = Function.update m a b := rfl

/-- The byte array keeps the bytes no access writes. -/
theorem byteArray_final_of_not_writesAt {m : A → B} {a : A} {ops : List (Access A B)}
    (h : ∀ x ∈ ops, ¬ x.WritesAt a) : byteArray.final m ops a = m a := by
  refine final_induction (Q := fun m' => m' a = m a) byteArray ?_ rfl
  rintro m' hm' (a' | ⟨a', b⟩) hx
  · exact hm'
  · rw [byteArray_step_write, Function.update_of_ne (fun he => h _ hx he.symm), hm']

/-- **Byte arrays give the same replies exactly when they agree wherever a read comes first.** -/
theorem byteArray_replies_eq_iff {m m' : A → B} {ops : List (Access A B)} :
    byteArray.replies m ops = byteArray.replies m' ops ↔
      ∀ a, Access.ReadsFirst a ops → m a = m' a := by
  induction ops generalizing m m' with
  | nil => simp [replies, Access.ReadsFirst]
  | cons x ops ih =>
    cases x with
    | read a =>
      show m a :: byteArray.replies m ops = m' a :: byteArray.replies m' ops ↔ _
      rw [List.cons.injEq, ih]
      constructor
      · rintro ⟨ha, h⟩ b (rfl | hb)
        · exact ha
        · exact h b hb
      · exact fun h => ⟨h a (Or.inl rfl), fun b hb => h b (Or.inr hb)⟩
    | write a b =>
      show byteArray.replies (Function.update m a b) ops =
        byteArray.replies (Function.update m' a b) ops ↔ _
      rw [ih]
      refine forall_congr' fun c => ?_
      by_cases hc : c = a
      · subst hc
        simp [Access.ReadsFirst]
      · simp only [Function.update_of_ne hc, Access.ReadsFirst, ne_eq, Ne.symm hc,
          not_false_eq_true, true_and]

end ByteArray

/-! ## Simulation -/

/-- Along related states, `d` and `e` return the same bytes at the addresses of `P` and stay
related. -/
structure Simulates (d : ByteDevice S A B) (e : ByteDevice T A B) (P : A → Prop)
    (R : S → T → Prop) : Prop where
  read_eq : ∀ {s t a}, R s t → P a → (d.read s a).1 = (e.read t a).1
  read : ∀ {s t a}, R s t → P a → R (d.read s a).2 (e.read t a).2
  write : ∀ {s t a} b, R s t → P a → R (d.write s a b) (e.write t a b)

namespace Simulates

variable {d : ByteDevice S A B} {e : ByteDevice T A B} {P : A → Prop} {R : S → T → Prop} {s : S}
  {t : T} {ops : List (Access A B)}

theorem step (h : Simulates d e P R) (hR : R s t) {x : Access A B} (hx : P x.address) :
    R (d.step s x) (e.step t x) := by
  cases x with
  | read a => exact h.read hR hx
  | write a b => exact h.write b hR hx

/-- Simulated devices stay related. -/
theorem final (h : Simulates d e P R) (hR : R s t) (hops : ∀ x ∈ ops, P x.address) :
    R (d.final s ops) (e.final t ops) := by
  induction ops generalizing s t with
  | nil => exact hR
  | cons x ops ih =>
    exact ih (h.step hR (hops x List.mem_cons_self))
      fun y hy => hops y (List.mem_cons_of_mem _ hy)

/-- **Simulated devices give the same replies.** -/
theorem replies_eq (h : Simulates d e P R) (hR : R s t) (hops : ∀ x ∈ ops, P x.address) :
    d.replies s ops = e.replies t ops := by
  induction ops generalizing s t with
  | nil => rfl
  | cons x ops ih =>
    have hops' : ∀ y ∈ ops, P y.address := fun y hy => hops y (List.mem_cons_of_mem _ hy)
    cases x with
    | read a =>
      have ha : P a := hops _ List.mem_cons_self
      simp only [replies, h.read_eq hR ha, ih (h.read hR ha) hops']
    | write a b =>
      have ha : P a := hops _ List.mem_cons_self
      simp only [replies, ih (h.write b hR ha) hops']

end Simulates

end ByteDevice
