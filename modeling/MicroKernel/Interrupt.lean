import MicroKernel.Lib.Latest
import Mathlib.Order.Basic

/-!
# The interrupt vectors

`SetInterruptService` of `kernel/interrupt.c` registers a service for a timer. Its cases run on into
one another: a service registered for a timer is registered for those behind it as well.

## Main definitions

* `InterruptVectors`, `TimerVector`: the vectors, and the timers that invoke them
* `setInterruptService`, `register`: a registration, and a list of them
* `Independent`: each timer invokes what was last registered for it
* `Settled`: no later registration for an earlier timer changes what a timer invokes

## Main results

* `service_register`: what a timer invokes
* `independent_iff`: when the vectors are independent
-/

namespace MicroKernel

/-- The services of the timers. -/
structure InterruptVectors (S : Type*) where
  timerCompA : S
  timerCompB : S
  timerCompC : S

variable {S : Type*}

/-- The vectors at power-on. -/
def InterruptVectors.initial (dummyFunction : S) : InterruptVectors S where
  timerCompA := dummyFunction
  timerCompB := dummyFunction
  timerCompC := dummyFunction

/-- The result and the vectors behind a registration. -/
def setInterruptService (index : UInt8) (service : S) (v : InterruptVectors S) :
    UInt8 × InterruptVectors S :=
  let caseTwo := fun v : InterruptVectors S => { v with timerCompC := service }
  -- no case ends with `break`
  let caseOne := fun v : InterruptVectors S => caseTwo { v with timerCompB := service }
  let caseZero := fun v : InterruptVectors S => caseOne { v with timerCompA := service }
  if index = 0 then (1, caseZero v)
  else if index = 1 then (1, caseOne v)
  else if index = 2 then (1, caseTwo v)
  else (1, v)

/-- The interrupts of the timers. -/
inductive TimerVector
  | timer0 | timer1 | timer2

/-- The index under which a service is registered for a timer. -/
def TimerVector.index : TimerVector → UInt8
  | timer0 => 0
  | timer1 => 1
  | timer2 => 2

/-- The service a timer invokes. -/
def InterruptVectors.service (v : InterruptVectors S) : TimerVector → S
  | .timer0 => v.timerCompA
  | .timer1 => v.timerCompB
  | .timer2 => v.timerCompC

/-- The vectors behind a list of registrations. -/
def register (registrations : List (UInt8 × S)) (v : InterruptVectors S) : InterruptVectors S :=
  registrations.foldl (fun v r => (setInterruptService r.1 r.2 v).2) v

/-- What is registered for a timer. -/
def registeredFor (t : TimerVector) (r : UInt8 × S) : Option S :=
  if r.1 = t.index then some r.2 else none

/-- Each timer invokes the service last registered for it, or the dummy service. -/
def Independent (dummyFunction : S) (registrations : List (UInt8 × S)) : Prop :=
  ∀ t, (register registrations (.initial dummyFunction)).service t =
    (latest (registeredFor t) registrations).getD dummyFunction

/-- A registration for an earlier timer is followed by one for this timer or an earlier one, or
registers what this timer invokes already. -/
def Settled (dummyFunction : S) (registrations : List (UInt8 × S)) (t : TimerVector) : Prop :=
  ∀ before index service after, registrations = before ++ (index, service) :: after →
    index < t.index → (∀ r ∈ after, t.index < r.1) →
      service = (latest (registeredFor t) before).getD dummyFunction

section Vectors

variable {v : InterruptVectors S} {dummyFunction : S} {registrations : List (UInt8 × S)}
  {t : TimerVector}

theorem TimerVector.index_le (t : TimerVector) : t.index.toNat ≤ 2 := by cases t <;> decide

/-- A registration sets the vectors from its index on. -/
theorem service_setInterruptService (index : UInt8) (service : S) :
    (setInterruptService index service v).2.service t =
      if index ≤ t.index then service else v.service t := by
  by_cases h₀ : index = 0
  · subst h₀
    cases t <;> rfl
  by_cases h₁ : index = 1
  · subst h₁
    cases t <;> rfl
  by_cases h₂ : index = 2
  · subst h₂
    cases t <;> rfl
  -- no case
  have hindex : ¬ index ≤ t.index := by
    have h₀ : index.toNat ≠ 0 := fun h => h₀ (UInt8.toNat_inj.mp h)
    have h₁ : index.toNat ≠ 1 := fun h => h₁ (UInt8.toNat_inj.mp h)
    have h₂ : index.toNat ≠ 2 := fun h => h₂ (UInt8.toNat_inj.mp h)
    have := t.index_le
    rw [UInt8.le_iff_toNat_le]
    omega
  rw [setInterruptService, if_neg h₀, if_neg h₁, if_neg h₂, if_neg hindex]

/-- What sets the vector of a timer: a registration for it or an earlier one. -/
def reaches (t : TimerVector) (r : UInt8 × S) : Option S :=
  if r.1 ≤ t.index then some r.2 else none

/-- What is registered for a timer reaches its vector. -/
theorem registeredFor_eq_none {r : UInt8 × S} (h : reaches t r = none) :
    registeredFor t r = none := by
  rw [reaches] at h
  split_ifs at h with hreach
  exact if_neg fun heq => hreach (UInt8.le_of_eq heq)

/-- **A timer invokes** the service last registered for it or an earlier one. -/
theorem service_register : (register registrations v).service t =
    (latest (reaches t) registrations).getD (v.service t) := by
  induction registrations generalizing v with
  | nil => rfl
  | cons r registrations ih =>
    have hset : (reaches t r).getD (v.service t) =
        (setInterruptService r.1 r.2 v).2.service t := by
      rw [service_setInterruptService, reaches]
      split_ifs <;> rfl
    rw [latest_cons, Option.getD_or, hset]
    exact ih

/-- **The vector of a timer** is independent of the others when every registration is settled. -/
theorem service_eq_iff : (register registrations (.initial dummyFunction)).service t =
    (latest (registeredFor t) registrations).getD dummyFunction ↔
      Settled dummyFunction registrations t := by
  have hinitial : (InterruptVectors.initial dummyFunction).service t = dummyFunction := by
    cases t <;> rfl
  rw [service_register, hinitial]
  constructor
  · rintro h before index service after rfl hlt hafter
    have hnone : ∀ r ∈ after, reaches t r = none ∧ registeredFor t r = none := fun r hr => by
      have hgt := hafter r hr
      exact ⟨if_neg (UInt8.not_le.mpr hgt), if_neg fun heq => UInt8.lt_irrefl _ (heq ▸ hgt)⟩
    have hreaches : reaches t (index, service) = some service := if_pos (UInt8.le_of_lt hlt)
    have hother : registeredFor t (index, service) = none :=
      if_neg fun heq => UInt8.lt_irrefl _ (heq ▸ hlt)
    rw [latest_append, latest_append, latest_cons, latest_cons,
      latest_eq_none_iff.mpr fun r hr => (hnone r hr).1,
      latest_eq_none_iff.mpr fun r hr => (hnone r hr).2, hreaches, hother] at h
    exact h
  · intro h
    cases hlatest : latest (reaches t) registrations with
    | none =>
      rw [latest_eq_none_iff.mpr fun r hr =>
        registeredFor_eq_none (latest_eq_none_iff.mp hlatest r hr)]
    | some service =>
      -- the last registration that reaches the vector: for the timer, or for an earlier one
      obtain ⟨before, ⟨index, service'⟩, after, rfl, hr, hafter⟩ := latest_eq_some_iff.mp hlatest
      have hnone : latest (registeredFor t) after = none :=
        latest_eq_none_iff.mpr fun r hr => registeredFor_eq_none (hafter r hr)
      rw [latest_append, latest_cons, hnone, Option.none_or]
      obtain ⟨hle, rfl⟩ : index ≤ t.index ∧ service' = service := by
        simpa [reaches] using hr
      obtain hlt | rfl := UInt8.le_iff_lt_or_eq.mp hle
      · rw [registeredFor, if_neg fun heq => UInt8.lt_irrefl _ (heq ▸ hlt), Option.none_or]
        refine h before index service' after rfl hlt fun r hr => ?_
        have hr := hafter r hr
        rw [reaches] at hr
        split_ifs at hr with hreach
        exact UInt8.not_le.mp hreach
      · rw [registeredFor, if_pos rfl]
        rfl

end Vectors

/-- **The vectors** are independent exactly when no registration for a timer is the last to reach
the vector of a later one, or it changes nothing there: for every list of registrations. -/
theorem independent_iff (dummyFunction : S) (registrations : List (UInt8 × S)) :
    Independent dummyFunction registrations ↔ ∀ t, Settled dummyFunction registrations t :=
  forall_congr' fun _ => service_eq_iff

/-- The services the scheduler registers, and the dummy. -/
inductive Service
  | dummyFunction | isrSchedulerTimer | isrSchedulerMain
  deriving DecidableEq

/-- The registrations of `SchedulerStart`. -/
def schedulerRegistrations : List (UInt8 × Service) :=
  [(0, .isrSchedulerTimer), (1, .isrSchedulerMain)]

/-- The vectors are not always independent: behind `SchedulerStart`, the third timer invokes the
scheduler. -/
theorem not_independent : ¬ ∀ registrations : List (UInt8 × Service),
    Independent .dummyFunction registrations := by
  intro h
  exact absurd (h schedulerRegistrations .timer2) (by decide)

end MicroKernel
