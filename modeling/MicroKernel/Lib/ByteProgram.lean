import Mathlib.Logic.Function.Basic
import MicroKernel.Lib.ByteDevice
import MicroKernel.Lib.Store

/-!
# Programs over a byte device

A program reads and writes bytes one after the other, and ends with a result or fails; what it does
next depends on the bytes it has read. It runs on any byte device. On the byte array it is a function
of the contents, and a device that simulates the byte array gives every program the same result.

## Main definitions

* `ByteProgram`: programs, a monad
* `ByteProgram.run d p s`: the result of a program on a device, and the state it leaves

## Main results

* `ByteProgram.run_bind`: one program after the other
* `ByteProgram.run_forM_write`, `ByteProgram.run_mapM_read`: loops of writes and reads
* `ByteProgram.run_of_simulates`: programs on a device that simulates the byte array
-/

universe u v

/-- A program of reads and writes of bytes `B` at addresses `A`, which may fail with an `E`. -/
inductive ByteProgram (A B E : Type u) (α : Type v) where
  | done (a : α)
  | fail (e : E)
  | read (address : A) (next : B → ByteProgram A B E α)
  | write (address : A) (byte : B) (next : ByteProgram A B E α)

namespace ByteProgram

variable {A B E : Type u} {α β : Type v} {S T : Type*}

/-- One program after the other. -/
def bind : ByteProgram A B E α → (α → ByteProgram A B E β) → ByteProgram A B E β
  | done a, f => f a
  | fail e, _ => fail e
  | read a next, f => read a fun b => bind (next b) f
  | write a b next, f => write a b (bind next f)

instance : Monad (ByteProgram A B E) where
  pure := done
  bind := bind

theorem bind_done (p : ByteProgram A B E α) : bind p done = p := by
  induction p with
  | done a => rfl
  | fail e => rfl
  | read a next ih => exact congrArg (read a) (funext ih)
  | write a b next ih => exact congrArg (write a b) ih

theorem bind_assoc {γ : Type v} (p : ByteProgram A B E α) (f : α → ByteProgram A B E β)
    (g : β → ByteProgram A B E γ) : bind (bind p f) g = bind p fun a => bind (f a) g := by
  induction p with
  | done a => rfl
  | fail e => rfl
  | read a next ih => exact congrArg (read a) (funext ih)
  | write a b next ih => exact congrArg (write a b) ih

instance : LawfulMonad (ByteProgram A B E) :=
  LawfulMonad.mk' _ bind_done (fun _ _ => rfl) bind_assoc

/-- The program of a computation without accesses. -/
def lift : Except E α → ByteProgram A B E α
  | .ok a => done a
  | .error e => fail e

/-- The result of a program on a device, and the state it leaves. -/
def run (d : ByteDevice S A B) : ByteProgram A B E α → S → Except E (α × S)
  | done a, s => .ok (a, s)
  | fail e, _ => .error e
  | read a next, s => run d (next (d.read s a).1) (d.read s a).2
  | write a b next, s => run d next (d.write s a b)

section Run

variable {d : ByteDevice S A B} {p : ByteProgram A B E α} {f : α → ByteProgram A B E β} {s : S}

@[simp] theorem run_pure (a : α) : run d (pure a : ByteProgram A B E α) s = .ok (a, s) := rfl

@[simp] theorem run_lift (x : Except E α) :
    run d (lift x : ByteProgram A B E α) s = x.map fun a => (a, s) := by
  cases x <;> rfl

/-- **One program after the other.** -/
theorem run_bind : run d (p >>= f) s = run d p s >>= fun r => run d (f r.1) r.2 := by
  induction p generalizing s with
  | done a => rfl
  | fail e => rfl
  | read a next ih => exact ih (d.read s a).1
  | write a b next ih => exact ih

theorem run_bind_of_ok {a : α} {t : S} (h : run d p s = .ok (a, t)) :
    run d (p >>= f) s = run d (f a) t := by
  rw [run_bind, h]
  rfl

end Run

/-! ## Programs on the byte array -/

section ByteArray

variable [DecidableEq A] {ι : Type*} {m : A → B}

@[simp] theorem run_read (a : A) :
    run ByteDevice.byteArray (read a done : ByteProgram A B E B) m = .ok (m a, m) := rfl

@[simp] theorem run_write (a : A) (b : B) :
    run ByteDevice.byteArray (write a b (done ()) : ByteProgram A B E Unit) m =
      .ok ((), Function.update m a b) := rfl

/-- **A loop of writes.** -/
theorem run_forM_write (f : ι → A) (v : ι → B) (l : List ι) :
    run ByteDevice.byteArray
        (l.forM fun i => (write (f i) (v i) (done ⟨⟩) : ByteProgram A B E PUnit)) m =
      .ok (⟨⟩, Store.writeEach f v l m) := by
  induction l generalizing m with
  | nil => rfl
  | cons i l ih => exact ih

/-- **A loop of reads.** -/
theorem run_mapM_read (f : ι → A) (l : List ι) :
    run ByteDevice.byteArray (l.mapM fun i => (read (f i) done : ByteProgram A B E B)) m =
      .ok (l.map fun i => m (f i), m) := by
  induction l with
  | nil => rfl
  | cons i l ih =>
    rw [List.mapM_cons, run_bind_of_ok (run_read (f i)), run_bind_of_ok ih]
    rfl

end ByteArray

/-! ## Programs on other devices -/

section Simulates

variable [DecidableEq A] {m : A → B} {d : ByteDevice S A B} {R : S → (A → B) → Prop} {s : S}

/-- **A program on a device that simulates the byte array** has the same result, and leaves a related
state. -/
theorem run_of_simulates (hd : d.Simulates ByteDevice.byteArray (fun _ => True) R)
    (p : ByteProgram A B E α) (hR : R s m) :
    (∀ a m', p.run ByteDevice.byteArray m = .ok (a, m') → ∃ t, p.run d s = .ok (a, t) ∧ R t m') ∧
      ∀ e, p.run ByteDevice.byteArray m = .error e → p.run d s = .error e := by
  induction p generalizing s m with
  | done a =>
    refine ⟨fun b m' h => ?_, fun e h => by cases h⟩
    cases h
    exact ⟨s, rfl, hR⟩
  | fail e =>
    refine ⟨fun b m' h => (by cases h), fun e' h => ?_⟩
    cases h
    rfl
  | read a next ih =>
    rw [run, run, hd.read_eq hR trivial]
    exact ih (m a) (hd.read hR trivial)
  | write a b next ih => exact ih (hd.write b hR trivial)

end Simulates

end ByteProgram
