import MicroKernel.Lib.Traced
import MicroKernel.Scheduler

/-!
# The watchdog of the tasks

The interrupt service routine `_ISR_SCHEDULER_TIMER__` of `kernel/scheduler.c` counts the ticks of
the timer while a task is called. Behind 100 ticks it requests the task to shut down, and returns:
the tests for 1000 and 3000 ticks come behind that return, and are never reached.

## Main definitions

* `Timer`: the globals of the timer and of the scheduler
* `isrSchedulerTimer`, `timerTicks`: a tick of the timer, and consecutive ones
* `Escalates`: a task called for too long is asked, destroyed, and stopped with the kernel

## Main results

* `timerTicks_spec`: what the ticks do while a task is called
* `escalates_iff`: how long the watchdog does what it should
-/

namespace MicroKernel

open Traced

/-- `TASK_FLAG_SHUTDOWN_RQ` -/
def taskFlagShutdownRq : UInt8 := 1

/-- `HALT_APP_HANG` -/
def haltAppHang : UInt32 := 0x10000002

/-- The globals of the timer and of the scheduler. -/
structure Timer (F : Type*) where
  systemTimerMs : UInt64
  scheduler : Scheduler F

/-- What a tick of the timer calls. -/
inductive TimerEffect where
  | taskDestroy (index : Int32)

/-- Why a tick does not return: `kThrow`, or a `proc_info` that points to no task. -/
inductive TimerStop where
  | kThrow (errorCode hardwareAddress : UInt32)
  | badPointer

variable {F : Type*}

/-- A tick of the system base timer and task watchdog. -/
def isrSchedulerTimer (s : Timer F) : Traced TimerEffect TimerStop (Timer F) :=
  let s := { s with systemTimerMs := s.systemTimerMs + 1 }
  -- Do not run if a task is not running
  if s.scheduler.flagProcActive = 0 then return s
  else match s.scheduler.processTable[s.scheduler.procInfo]? with
    | none => stop .badPointer
    | some proc =>
      -- Increment the time slice
      let timeSlice := proc.timeSlice + 1
      let s := { s with
        scheduler := s.scheduler.modifyProc fun proc => { proc with timeSlice } }
      -- Task is becoming annoying, suggest that it close gracefully
      if timeSlice > 100 then
        return { s with
          scheduler := s.scheduler.modifyProc fun proc =>
            { proc with flags := bitSet proc.flags taskFlagShutdownRq } }
      -- Task is obnoxious! Force the task to close
      else if timeSlice > 1000 then do
        tell (.taskDestroy s.scheduler.procIndex.toInt32)
        return { s with scheduler := { s.scheduler with procIndex := 0 } }
      -- The task has effectively taken over! Hang the kernel
      else if timeSlice > 3000 then stop (.kThrow haltAppHang 0x00000000)
      else return s

/-- Consecutive ticks. -/
def timerTicks : ℕ → Timer F → Traced TimerEffect TimerStop (Timer F)
  | 0, s => return s
  | t + 1, s => do
    let s ← timerTicks t s
    isrSchedulerTimer s

/-- A task called for `t` ticks is requested to shut down behind 100 of them, has been destroyed
behind 1000, and hangs the kernel behind 3000. -/
structure Escalates (s : Timer F) (t : ℕ) : Prop where
  shutdown : 100 < t → (timerTicks t s).Ensures fun u => ∃ proc,
    u.scheduler.processTable[s.scheduler.procInfo]? = some proc ∧
      bitGet proc.flags taskFlagShutdownRq = 1
  destroyed : 1000 < t →
    .taskDestroy s.scheduler.procIndex.toInt32 ∈ (timerTicks t s).effects
  hangs : 3000 < t → (timerTicks t s).value = .error (.kThrow haltAppHang 0x00000000)

/-- The task is called, for `t` ticks so far. -/
structure CalledFor (s : Timer F) (index t : ℕ) : Prop where
  active : s.scheduler.flagProcActive ≠ 0
  procInfo : s.scheduler.procInfo = index
  proc : ∃ proc, s.scheduler.processTable[index]? = some proc ∧ proc.timeSlice = UInt16.ofNat t ∧
    (100 < t → bitGet proc.flags taskFlagShutdownRq = 1)

section Ticks

variable {s : Timer F} {index t : ℕ}

/-- A bit that is set. -/
theorem bitGet_bitSet_shutdownRq (flags : UInt8) :
    bitGet (bitSet flags taskFlagShutdownRq) taskFlagShutdownRq = 1 := by
  have hall : ∀ n : Fin 256, bitGet (bitSet (UInt8.ofNat n) taskFlagShutdownRq)
      taskFlagShutdownRq = 1 := by decide +kernel
  simpa using hall ⟨flags.toNat, flags.toNat_lt⟩

/-- **A tick** while a task is called counts, and does nothing but request a shutdown. -/
theorem isrSchedulerTimer_spec (h : CalledFor s index t) (ht : t + 1 < 65536) :
    ∃ u, isrSchedulerTimer s = pure u ∧ CalledFor u index (t + 1) := by
  obtain ⟨hactive, rfl, proc, hproc, hslice, -⟩ := h
  have hnext : proc.timeSlice + 1 = UInt16.ofNat (t + 1) := by
    rw [hslice, UInt16.ofNat_add]
    rfl
  have hgt : UInt16.ofNat (t + 1) > 100 ↔ 100 < t + 1 := by
    rw [gt_iff_lt, UInt16.lt_iff_toNat_lt, UInt16.toNat_ofNat_of_lt' ht]
    rfl
  rw [isrSchedulerTimer]
  simp only [if_neg hactive, hproc, hnext, hgt]
  have hcounted := Scheduler.getElem?_modifyProc hproc fun proc =>
    { proc with timeSlice := UInt16.ofNat (t + 1) }
  by_cases h100 : 100 < t + 1
  · rw [if_pos h100]
    exact ⟨_, rfl, hactive, rfl, _, Scheduler.getElem?_modifyProc hcounted _, rfl,
      fun _ => bitGet_bitSet_shutdownRq _⟩
  · -- the tests for more ticks do not hold either
    have h1000 : ¬ UInt16.ofNat (t + 1) > 1000 := fun hlt =>
      h100 (hgt.mp (UInt16.lt_trans (show (100 : UInt16) < 1000 by decide) hlt))
    have h3000 : ¬ UInt16.ofNat (t + 1) > 3000 := fun hlt =>
      h100 (hgt.mp (UInt16.lt_trans (show (100 : UInt16) < 3000 by decide) hlt))
    rw [if_neg h100, if_neg h1000, if_neg h3000]
    exact ⟨_, rfl, hactive, rfl, _, hcounted, rfl, fun h => absurd h h100⟩

/-- **Ticks while a task is called** count, and do nothing but request a shutdown. -/
theorem timerTicks_spec (h : CalledFor s index 0) (ht : t < 65536) :
    ∃ u, timerTicks t s = pure u ∧ CalledFor u index t := by
  induction t with
  | zero => exact ⟨s, rfl, h⟩
  | succ t ih =>
    obtain ⟨u, hu, hcalled⟩ := ih (by omega)
    rw [timerTicks, hu]
    exact isrSchedulerTimer_spec hcalled ht

end Ticks

/-- **The watchdog** does what it should with a task exactly for the first 1000 ticks of a call: for
every task, from the start of a call, and any number of ticks the time slice can count. -/
theorem escalates_iff (s : Timer F) (proc : ProcessDescription F) (t : ℕ)
    (hactive : s.scheduler.flagProcActive ≠ 0)
    (hproc : s.scheduler.processTable[s.scheduler.procInfo]? = some proc)
    (hstart : proc.timeSlice = 0) (ht : t < 65536) : Escalates s t ↔ t ≤ 1000 := by
  obtain ⟨u, hu, hcalled⟩ := timerTicks_spec
    (h := ⟨hactive, rfl, proc, hproc, hstart, fun h => absurd h (by decide)⟩) ht
  constructor
  · intro h
    by_contra hlt
    have hdestroyed := h.destroyed (not_le.mp hlt)
    rw [hu] at hdestroyed
    exact absurd hdestroyed List.not_mem_nil
  · intro hle
    refine ⟨fun h100 => ?_, fun h1000 => absurd h1000 (by omega),
      fun h3000 => absurd h3000 (by omega)⟩
    rw [hu, ensures_pure]
    obtain ⟨proc, hproc, -, hflags⟩ := hcalled.proc
    exact ⟨proc, hproc, hflags h100⟩

/-- A timer with a task that is called. -/
def callingTimer : Timer Unit where
  systemTimerMs := 0
  scheduler := { waitingScheduler .initial with flagProcActive := 1 }

/-- `escalates_iff` for 500 ticks of `callingTimer`, and for 2000. -/
theorem escalates_callingTimer : Escalates callingTimer 500 ∧ ¬ Escalates callingTimer 2000 :=
  ⟨(escalates_iff callingTimer _ 500 (by decide) rfl rfl (by decide)).mpr (by decide),
    fun h => absurd ((escalates_iff callingTimer _ 2000 (by decide) rfl rfl (by decide)).mp h)
      (by decide)⟩

/-- The watchdog does not always escalate: no task is destroyed. -/
theorem not_escalates : ¬ ∀ (s : Timer Unit) (proc : ProcessDescription Unit) (t : ℕ),
    s.scheduler.flagProcActive ≠ 0 →
      s.scheduler.processTable[s.scheduler.procInfo]? = some proc → proc.timeSlice = 0 →
      t < 65536 → Escalates s t := by
  intro h
  obtain ⟨u, hu, -⟩ := @timerTicks_spec Unit callingTimer 0 1001
    ⟨by decide, rfl, _, rfl, rfl, fun h => absurd h (by decide)⟩ (by decide)
  have hdestroyed := (h callingTimer _ 1001 (by decide) rfl rfl (by decide)).destroyed (by decide)
  rw [hu] at hdestroyed
  exact absurd hdestroyed List.not_mem_nil

end MicroKernel
