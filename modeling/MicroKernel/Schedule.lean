import MicroKernel.Lib.RoundRobin
import MicroKernel.Scheduler

/-!
# The schedule of the tasks

Consecutive ticks of `_ISR_SCHEDULER_MAIN__` over a process table that nobody changes: the tasks are
visited in turn, and the counter of a task decides which of its visits call it. A task is arbitrary
code that leaves what the schedule depends on, as does the timer that interrupts it.

## Main definitions

* `Slot`, `Slot.visit`: what the schedule of a task depends on, and a visit of a tick
* `KeepsSchedule`: a task leaves what the schedule depends on
* `CallsWith`: a tick calls a task with an event
* `PrioritySchedule`: the schedule of a run of ticks

## Main results

* `isrSchedulerMain_slots`: a tick visits the next task
* `prioritySchedule_of_run`: the schedule of every run of ticks
-/

namespace MicroKernel

/-- `TASK_PRIORITY_BACKGROUND` -/
def taskPriorityBackground : UInt8 := 64

variable {F : Type*}

/-- What the schedule of a task depends on; `initiated` is its flag `TASK_FLAG_INITIATE`. -/
structure Slot (F : Type*) where
  type : UInt8
  priority : UInt8
  counter : UInt8
  initiated : UInt8
  function : F

def ProcessDescription.slot (proc : ProcessDescription F) : Slot F where
  type := proc.type
  priority := proc.priority
  counter := proc.counter
  initiated := bitGet proc.flags taskFlagInitiate
  function := proc.function

/-- A visit of a tick, which calls the task when its counter is behind its priority. -/
def Slot.visit (slot : Slot F) : Slot F :=
  if slot.counter > slot.priority then { slot with counter := 0, initiated := 1 }
  else { slot with counter := slot.counter + 1 }

theorem Slot.visit_type (slot : Slot F) : slot.visit.type = slot.type := by
  rw [visit]
  split <;> rfl

theorem Slot.visit_priority (slot : Slot F) : slot.visit.priority = slot.priority := by
  rw [visit]
  split <;> rfl

theorem Slot.visit_function (slot : Slot F) : slot.visit.function = slot.function := by
  rw [visit]
  split <;> rfl

theorem Slot.visit_of_lt {slot : Slot F} (h : slot.priority.toNat < slot.counter.toNat) :
    slot.visit = { slot with counter := 0, initiated := 1 } :=
  if_pos (UInt8.lt_iff_toNat_lt.mpr h)

theorem Slot.visit_of_not_lt {slot : Slot F} (h : ¬ slot.priority.toNat < slot.counter.toNat) :
    slot.visit = { slot with counter := slot.counter + 1 } :=
  if_neg (mt UInt8.lt_iff_toNat_lt.mp h)

/-- A task leaves what the schedule depends on. -/
structure KeepsSchedule (s t : Scheduler F) : Prop where
  slots : t.processTable.map ProcessDescription.slot = s.processTable.map ProcessDescription.slot
  procIndex : t.procIndex = s.procIndex
  procInfo : t.procInfo = s.procInfo

/-- The code of the tasks. -/
abbrev Tasks (F : Type*) : Type _ := F → UInt8 → Scheduler F → Option (Scheduler F)

/-- A tick calls a task with an event: it enters the task, and leaves it from whatever state the
task returns. -/
def CallsWith (s : Scheduler F) (function : F) (event : UInt8) : Prop :=
  ∃ (enter : Scheduler F) (leave : Scheduler F → Option (Scheduler F)), ∀ call : Tasks F,
    isrSchedulerMain call s = (call function event enter).bind leave

/-- The task a tick visits. -/
def Scheduler.nextIndex (s : Scheduler F) : ℕ :=
  if (s.procIndex + 1).toNat ≥ s.processTable.length then 0 else (s.procIndex + 1).toNat

/-- The state in which a tick visits the task. -/
def Scheduler.visiting (s : Scheduler F) : Scheduler F :=
  { s with mux := 1, procIndex := UInt32.ofNat s.nextIndex, procInfo := s.nextIndex }

section Tick

variable {call : Tasks F} {s t u : Scheduler F} {proc : ProcessDescription F} {i : ℕ}

theorem nextIndex_lt (hne : s.processTable ≠ []) : s.nextIndex < s.processTable.length := by
  rw [Scheduler.nextIndex]
  split_ifs with h
  · exact List.length_pos_of_ne_nil hne
  · exact not_le.mp h

/-- The flag of a task that is called is set, whether or not it was. -/
theorem initiated_of_called (flags : UInt8) :
    bitGet (if bitGet flags taskFlagInitiate = 0 then bitSet flags taskFlagInitiate else flags)
      taskFlagInitiate = 1 := by
  have hall : ∀ n : Fin 256, bitGet (if bitGet (UInt8.ofNat n) taskFlagInitiate = 0 then
      bitSet (UInt8.ofNat n) taskFlagInitiate else UInt8.ofNat n) taskFlagInitiate = 1 := by
    decide +kernel
  simpa using hall ⟨flags.toNat, flags.toNat_lt⟩

/-- A tick that locks the mutex visits the next task. -/
theorem isrSchedulerMain_eq (hlock : s.mux = 0) (hproc : s.processTable[s.nextIndex]? = some proc) :
    isrSchedulerMain call s = (processTask call proc (enterTask proc s.visiting)).bind
      (leaveTask (virtualAccessGetMode s.virtual)) := by
  have hlen : s.processTable.length ≠ 0 := fun hzero => by
    rw [List.length_eq_zero_iff.mp hzero] at hproc
    cases hproc
  have hindex : (if (s.procIndex + 1).toNat ≥ s.processTable.length then 0 else s.procIndex + 1) =
      UInt32.ofNat s.nextIndex := by
    rw [Scheduler.nextIndex]
    split_ifs
    · rfl
    · exact UInt32.ofNat_toNat.symm
  have htoNat : (UInt32.ofNat s.nextIndex).toNat = s.nextIndex := by
    rw [← hindex, Scheduler.nextIndex]
    split_ifs <;> rfl
  rw [isrSchedulerMain, if_neg hlen, if_neg (not_not.mpr hlock)]
  simp only [hindex, htoNat, Option.bind_eq_bind]
  rw [hproc]
  rfl

/-- Behind a task that is not volatile, the schedule goes on with the next. -/
theorem leaveTask_schedule {currentMode : Int8} {slot : Slot F}
    (h : leaveTask currentMode s = some t)
    (hslot : (s.processTable.map ProcessDescription.slot)[s.procInfo]? = some slot)
    (htype : slot.type ≠ taskTypeVolatile) :
    t.mux = 0 ∧ t.processTable = s.processTable ∧ t.procIndex = s.procIndex ∧
      t.procInfo = s.procInfo := by
  rw [leaveTask, Option.bind_eq_bind, Option.bind_eq_some_iff] at h
  obtain ⟨proc, hproc, h⟩ := h
  rw [List.getElem?_map, hproc] at hslot
  cases hslot
  have htype : ¬ proc.type = taskTypeVolatile := htype
  rw [if_neg htype] at h
  cases h
  exact ⟨rfl, rfl, rfl, rfl⟩

theorem exists_leaveTask {currentMode : Int8} (hproc : s.processTable[s.procInfo]? = some proc) :
    ∃ t, leaveTask currentMode s = some t := by
  rw [leaveTask, hproc]
  exact ⟨_, rfl⟩

/-- A change of the visited task that is a visit of its slot. -/
theorem map_modifyProc {f : ProcessDescription F → ProcessDescription F}
    (hproc : s.processTable[s.procInfo]? = some proc) (hf : (f proc).slot = proc.slot.visit) :
    (s.modifyProc f).processTable.map ProcessDescription.slot =
      (s.processTable.map ProcessDescription.slot).modify s.procInfo Slot.visit := by
  refine List.ext_getElem? fun j => ?_
  rw [Scheduler.modifyProc, List.getElem?_map, List.getElem?_modify, List.getElem?_modify,
    List.getElem?_map]
  by_cases hj : s.procInfo = j
  · rw [← hj, hproc]
    simp [hf]
  · simp [hj]

/-- Calling a task, or counting, visits its slot. -/
theorem processTask_slots (hkeeps : ∀ f e u v, call f e u = some v → KeepsSchedule u v)
    (hproc : s.processTable[s.procInfo]? = some proc) (h : processTask call proc s = some t) :
    t.processTable.map ProcessDescription.slot =
        (s.processTable.map ProcessDescription.slot).modify s.procInfo Slot.visit ∧
      t.procIndex = s.procIndex ∧ t.procInfo = s.procInfo := by
  rw [processTask] at h
  split_ifs at h with hcounter
  · rw [Option.map_eq_some_iff] at h
    obtain ⟨u, hu, rfl⟩ := h
    obtain ⟨hslots, hindex, hinfo⟩ := hkeeps _ _ _ _ hu
    refine ⟨hslots.trans (map_modifyProc hproc ?_), hindex, hinfo⟩
    rw [Slot.visit, if_pos (show proc.slot.counter > proc.slot.priority from hcounter)]
    simp only [ProcessDescription.slot, initiated_of_called]
  · cases h
    refine ⟨map_modifyProc hproc ?_, rfl, rfl⟩
    rw [Slot.visit, if_neg (show ¬ proc.slot.counter > proc.slot.priority from hcounter)]
    rfl

/-- **A tick visits** the next task: nothing else that the schedule depends on changes. -/
theorem isrSchedulerMain_slots (hkeeps : ∀ f e u v, call f e u = some v → KeepsSchedule u v)
    (hlock : s.mux = 0) (hne : s.processTable ≠ [])
    (htype : ∀ slot ∈ s.processTable.map ProcessDescription.slot, slot.type ≠ taskTypeVolatile)
    (h : isrSchedulerMain call s = some t) :
    t.processTable.map ProcessDescription.slot =
        (s.processTable.map ProcessDescription.slot).modify s.nextIndex Slot.visit ∧
      t.mux = 0 ∧ t.procIndex = UInt32.ofNat s.nextIndex ∧ t.procInfo = s.nextIndex := by
  obtain ⟨proc, hproc⟩ : ∃ proc, s.processTable[s.nextIndex]? = some proc :=
    ⟨_, List.getElem?_eq_getElem (nextIndex_lt hne)⟩
  rw [isrSchedulerMain_eq hlock hproc, Option.bind_eq_some_iff] at h
  obtain ⟨u, hu, hleave⟩ := h
  obtain ⟨hslots, hindex, hinfo⟩ := processTask_slots hkeeps hproc hu
  have hslots : u.processTable.map ProcessDescription.slot =
      (s.processTable.map ProcessDescription.slot).modify s.nextIndex Slot.visit := hslots
  have hinfo : u.procInfo = s.nextIndex := hinfo
  have hslot : (u.processTable.map ProcessDescription.slot)[u.procInfo]? =
      some proc.slot.visit := by
    rw [hslots, hinfo, List.getElem?_modify_eq, List.getElem?_map, hproc]
    rfl
  have htask : proc.slot.type ≠ taskTypeVolatile :=
    htype _ (List.mem_map_of_mem (List.mem_of_getElem? hproc))
  obtain ⟨hmux, htable, hindex', hinfo'⟩ :=
    leaveTask_schedule hleave hslot (proc.slot.visit_type ▸ htask)
  exact ⟨by rw [htable, hslots], hmux, hindex'.trans hindex, hinfo'.trans hinfo⟩

/-! ## Calls -/

/-- A tick calls a task with one event only, unless it never returns. -/
theorem CallsWith.unique {f f' : F} {e e' : UInt8} {enter : Scheduler F}
    {leave : Scheduler F → Option (Scheduler F)}
    (h : ∀ call : Tasks F, isrSchedulerMain call s = (call f e enter).bind leave)
    (hleave : leave u = some t) (h' : CallsWith s f' e') : f' = f ∧ e' = e := by
  classical
  obtain ⟨enter', leave', h'⟩ := h'
  by_contra hne
  -- a task that returns in `u`, but not from `f` with `e`
  have hnone := (h fun g a _ => if g = f ∧ a = e then none else some u).symm.trans (h' _)
  have hsome := (h fun _ _ _ => some u).symm.trans (h' _)
  rw [if_pos ⟨rfl, rfl⟩, if_neg hne] at hnone
  rw [Option.bind_some, Option.bind_some, hleave] at hsome
  rw [Option.bind_none, Option.bind_some, ← hsome] at hnone
  cases hnone

/-- **The calls of a tick**: the visited task, when its counter is behind its priority, with the
event of the first call when its flag is clear. -/
theorem callsWith_iff (hlock : s.mux = 0) (hproc : s.processTable[s.nextIndex]? = some proc) {f : F}
    {e : UInt8} : CallsWith s f e ↔ proc.counter > proc.priority ∧ f = proc.function ∧
      e = if bitGet proc.flags taskFlagInitiate = 0 then eventInitiate else eventNoMessage := by
  have hvisiting : (enterTask proc s.visiting).processTable[(enterTask proc s.visiting).procInfo]? =
      some proc := hproc
  by_cases hcounter : proc.counter > proc.priority
  · rw [and_iff_right hcounter]
    obtain ⟨enter, hproc', h⟩ : ∃ enter : Scheduler F,
        (∃ proc, enter.processTable[enter.procInfo]? = some proc) ∧
        ∀ call : Tasks F, isrSchedulerMain call s = (call proc.function
          (if bitGet proc.flags taskFlagInitiate = 0 then eventInitiate else eventNoMessage)
          enter).bind fun u => leaveTask (virtualAccessGetMode s.virtual)
            { u with flagProcActive := 0 } := by
      refine ⟨?enter, ?hproc, fun call => ?heq⟩
      case heq =>
        rw [isrSchedulerMain_eq hlock hproc, processTask, if_pos hcounter, Option.bind_map]
        rfl
      case hproc => exact ⟨_, Scheduler.getElem?_modifyProc hvisiting _⟩
    obtain ⟨proc', hproc'⟩ := hproc'
    -- the tick ends when the task returns, so that its one call is seen
    obtain ⟨t, ht⟩ := @exists_leaveTask F { enter with flagProcActive := 0 } proc'
      (virtualAccessGetMode s.virtual) hproc'
    constructor
    · exact fun h' => CallsWith.unique h ht h'
    · rintro ⟨rfl, rfl⟩
      exact ⟨enter, _, h⟩
  · refine iff_of_false ?_ fun h => hcounter h.1
    rintro ⟨enter, leave, h⟩
    obtain ⟨t, ht⟩ := @exists_leaveTask F _ _ (virtualAccessGetMode s.virtual)
      (Scheduler.getElem?_modifyProc hvisiting
        fun proc => { proc with counter := proc.counter + 1 })
    have hnone := h fun _ _ _ => none
    rw [isrSchedulerMain_eq hlock hproc, processTask, if_neg hcounter, Option.bind_some] at hnone
    exact absurd (ht.symm.trans hnone) (by simp)

end Tick

/-! ## Runs of ticks -/

/-- The tick `k` visits this task. -/
def visited (states : ℕ → Scheduler F) (k : ℕ) : ℕ := (states (k + 1)).procInfo

/-- The visits of a task in the first `k` ticks. -/
def visits (states : ℕ → Scheduler F) (i k : ℕ) : ℕ := Nat.count (fun j => visited states j = i) k

/-- The tick `k` visits a task and calls it. -/
def Called (states : ℕ → Scheduler F) (i k : ℕ) : Prop :=
  visited states k = i ∧ ∃ f e, CallsWith (states k) f e

/-- The ticks follow each other, from a process table of tasks that are not volatile, with
priorities up to that of the background and counters as the scheduler leaves them. The number of the
tasks is a `uint32_t`. -/
structure ScheduledRun (tasks : ℕ → Tasks F) (states : ℕ → Scheduler F) : Prop where
  tick : ∀ k, isrSchedulerMain (tasks k) (states k) = some (states (k + 1))
  keeps : ∀ k f e s t, tasks k f e s = some t → KeepsSchedule s t
  unlocked : (states 0).mux = 0
  nonempty : (states 0).processTable ≠ []
  size : (states 0).processTable.length < 2 ^ 32
  resident : ∀ proc ∈ (states 0).processTable, proc.type ≠ taskTypeVolatile
  priority : ∀ proc ∈ (states 0).processTable, proc.priority ≤ taskPriorityBackground
  counter : ∀ proc ∈ (states 0).processTable, proc.counter.toNat ≤ proc.priority.toNat + 1

/-- The tasks of a process table are visited in rotation, and called at every visit behind as many
visits as their priority says; only the first call of a task without the flag is its initiation. -/
structure PrioritySchedule (table : List (ProcessDescription F)) (states : ℕ → Scheduler F) :
    Prop where
  below : ∀ k, visited states k < table.length
  once : ∀ start, ∀ i < table.length,
    ∃! k, start ≤ k ∧ k < start + table.length ∧ visited states k = i
  first : ∀ i proc, table[i]? = some proc →
    ∃ k, Called states i k ∧ visits states i k < proc.priority.toNat + 2
  between : ∀ i proc, table[i]? = some proc → ∀ k k', k < k' → Called states i k →
    Called states i k' → (∀ j, k < j → j < k' → ¬ Called states i j) →
      visits states i k' = visits states i (k + 1) + (proc.priority.toNat + 1)
  event : ∀ i proc, table[i]? = some proc → ∀ k f e, visited states k = i →
    CallsWith (states k) f e → f = proc.function ∧
      (e = eventInitiate ∧ bitGet proc.flags taskFlagInitiate = 0 ∧ (∀ j < k, ¬ Called states i j) ∨
        e = eventNoMessage ∧
          ¬ (bitGet proc.flags taskFlagInitiate = 0 ∧ ∀ j < k, ¬ Called states i j))

/-- What ticks keep: the mutex is free, and there are tasks, none of them volatile. -/
structure Steady (s : Scheduler F) : Prop where
  unlocked : s.mux = 0
  nonempty : s.processTable ≠ []
  resident : ∀ slot ∈ s.processTable.map ProcessDescription.slot, slot.type ≠ taskTypeVolatile

section Steady

variable {call : Tasks F} {s t : Scheduler F}

/-- A tick keeps the schedule steady. -/
theorem Steady.next (h : Steady s) (hkeeps : ∀ f e u v, call f e u = some v → KeepsSchedule u v)
    (ht : isrSchedulerMain call s = some t) : Steady t := by
  obtain ⟨hslots, hmux, -⟩ := isrSchedulerMain_slots hkeeps h.unlocked h.nonempty h.resident ht
  refine ⟨hmux, fun hnil => ?_, fun slot hslot => ?_⟩
  · have hlen := congrArg List.length hslots
    rw [hnil, List.map_nil, List.length_modify, List.length_map] at hlen
    exact h.nonempty (List.length_eq_zero_iff.mp hlen.symm)
  · rw [hslots] at hslot
    obtain ⟨j, hj⟩ := List.mem_iff_getElem?.mp hslot
    rw [List.getElem?_modify] at hj
    obtain ⟨slot', hslot', rfl⟩ := Option.map_eq_some_iff.mp hj
    split_ifs
    · rw [Slot.visit_type]
      exact h.resident slot' (List.mem_of_getElem? hslot')
    · exact h.resident slot' (List.mem_of_getElem? hslot')

/-- A tick returns when the tasks do. -/
theorem Steady.exists_next (h : Steady s) (hreturns : ∀ f e u, ∃ v, call f e u = some v)
    (hkeeps : ∀ f e u v, call f e u = some v → KeepsSchedule u v) :
    ∃ t, isrSchedulerMain call s = some t := by
  obtain ⟨proc, hproc⟩ : ∃ proc, s.processTable[s.nextIndex]? = some proc :=
    ⟨_, List.getElem?_eq_getElem (nextIndex_lt h.nonempty)⟩
  obtain ⟨u, hu⟩ : ∃ u, processTask call proc (enterTask proc s.visiting) = some u := by
    rw [processTask]
    split_ifs
    · obtain ⟨v, hv⟩ := hreturns _ _ _
      exact ⟨_, Option.map_eq_some_iff.mpr ⟨v, hv, rfl⟩⟩
    · exact ⟨_, rfl⟩
  have hproc' : (enterTask proc s.visiting).processTable[(enterTask proc s.visiting).procInfo]? =
      some proc := hproc
  obtain ⟨hslots, -, hinfo⟩ := processTask_slots hkeeps hproc' hu
  have hslot : (u.processTable.map ProcessDescription.slot)[u.procInfo]? = some proc.slot.visit := by
    rw [hslots, hinfo, List.getElem?_modify_eq, List.getElem?_map, hproc']
    rfl
  rw [List.getElem?_map, Option.map_eq_some_iff] at hslot
  obtain ⟨proc', hproc', -⟩ := hslot
  rw [isrSchedulerMain_eq h.unlocked hproc, hu]
  exact exists_leaveTask hproc'

/-- **Ticks go on** for ever when the tasks return. -/
theorem Steady.exists_run (h : Steady s) (hreturns : ∀ f e u, ∃ v, call f e u = some v)
    (hkeeps : ∀ f e u v, call f e u = some v → KeepsSchedule u v) :
    ∃ states : ℕ → Scheduler F, states 0 = s ∧
      ∀ k, isrSchedulerMain call (states k) = some (states (k + 1)) := by
  have hnext : ∀ u : { u : Scheduler F // Steady u }, ∃ v : { v : Scheduler F // Steady v },
      isrSchedulerMain call u.1 = some v.1 := by
    rintro ⟨u, hu⟩
    obtain ⟨v, hv⟩ := hu.exists_next hreturns hkeeps
    exact ⟨⟨v, hu.next hkeeps hv⟩, hv⟩
  choose next hnext using hnext
  refine ⟨fun k => (next^[k] ⟨s, h⟩).1, rfl, fun k => ?_⟩
  show isrSchedulerMain call (next^[k] ⟨s, h⟩).1 = some (next^[k + 1] ⟨s, h⟩).1
  rw [Function.iterate_succ_apply']
  exact hnext _

end Steady

namespace ScheduledRun

variable {tasks : ℕ → Tasks F} {states : ℕ → Scheduler F} {proc : ProcessDescription F} {i k : ℕ}

theorem steady (h : ScheduledRun tasks states) (k : ℕ) : Steady (states k) := by
  induction k with
  | zero =>
    refine ⟨h.unlocked, h.nonempty, fun slot hslot => ?_⟩
    obtain ⟨proc, hproc, rfl⟩ := List.mem_map.mp hslot
    exact h.resident proc hproc
  | succ k ih => exact ih.next (h.keeps k) (h.tick k)

theorem slots (h : ScheduledRun tasks states) (k : ℕ) :
    (states (k + 1)).processTable.map ProcessDescription.slot =
      ((states k).processTable.map ProcessDescription.slot).modify (visited states k) Slot.visit ∧
      (states (k + 1)).procIndex = UInt32.ofNat (visited states k) ∧
      visited states k = (states k).nextIndex := by
  have hs := h.steady k
  obtain ⟨hslots, -, hindex, hinfo⟩ :=
    isrSchedulerMain_slots (h.keeps k) hs.unlocked hs.nonempty hs.resident (h.tick k)
  have hinfo : visited states k = (states k).nextIndex := hinfo
  exact ⟨hinfo ▸ hslots, hinfo ▸ hindex, hinfo⟩

theorem length_eq (h : ScheduledRun tasks states) (k : ℕ) :
    (states k).processTable.length = (states 0).processTable.length := by
  induction k with
  | zero => rfl
  | succ k ih =>
    have hlen := congrArg List.length (h.slots k).1
    rw [List.length_map, List.length_modify, List.length_map] at hlen
    exact hlen.trans ih

/-- **The visits** go round the table. -/
theorem rotates (h : ScheduledRun tasks states) :
    RoundRobin.Rotates (states 0).processTable.length (visited states) where
  lt k := by
    rw [(h.slots k).2.2, ← h.length_eq k]
    exact nextIndex_lt (h.steady k).nonempty
  next k := by
    have hlt : visited states k < (states 0).processTable.length := by
      rw [(h.slots k).2.2, ← h.length_eq k]
      exact nextIndex_lt (h.steady k).nonempty
    have hsize := h.size
    have hone : (1 : UInt32).toNat = 1 := rfl
    have hnext : ((states (k + 1)).procIndex + 1).toNat = visited states k + 1 := by
      rw [(h.slots k).2.1, UInt32.toNat_add, UInt32.toNat_ofNat_of_lt' (hlt.trans hsize), hone]
      exact Nat.mod_eq_of_lt (by omega)
    rw [(h.slots (k + 1)).2.2, Scheduler.nextIndex, hnext, h.length_eq]
    split_ifs <;> omega

/-- The slot of a task before the tick `k`. -/
def slotAt (states : ℕ → Scheduler F) (proc : ProcessDescription F) (i k : ℕ) : Slot F :=
  ((states k).processTable.map ProcessDescription.slot)[i]?.getD proc.slot

theorem getElem?_slotAt (h : ScheduledRun tasks states)
    (hproc : (states 0).processTable[i]? = some proc) :
    ((states k).processTable.map ProcessDescription.slot)[i]? = some (slotAt states proc i k) := by
  obtain ⟨hi, -⟩ := List.getElem?_eq_some_iff.mp hproc
  rw [slotAt, List.getElem?_eq_getElem (by rwa [List.length_map, h.length_eq]), Option.getD_some]

/-- A tick visits the slot of one task. -/
theorem slotAt_succ (h : ScheduledRun tasks states)
    (hproc : (states 0).processTable[i]? = some proc) : slotAt states proc i (k + 1) =
      if visited states k = i then (slotAt states proc i k).visit else slotAt states proc i k := by
  have hnext := h.getElem?_slotAt (k := k + 1) hproc
  rw [(h.slots k).1, List.getElem?_modify, h.getElem?_slotAt hproc] at hnext
  exact (Option.some.inj hnext).symm

/-- The priority and the function of a task stay. -/
theorem slotAt_eq (h : ScheduledRun tasks states)
    (hproc : (states 0).processTable[i]? = some proc) :
    (slotAt states proc i k).priority = proc.priority ∧
      (slotAt states proc i k).function = proc.function := by
  induction k with
  | zero =>
    have hzero := h.getElem?_slotAt (k := 0) hproc
    rw [List.getElem?_map, hproc] at hzero
    rw [← Option.some.inj hzero]
    exact ⟨rfl, rfl⟩
  | succ k ih =>
    rw [h.slotAt_succ hproc]
    split_ifs
    · rwa [Slot.visit_priority, Slot.visit_function]
    · exact ih

/-- **The counter of a task** counts its visits. -/
theorem counts (h : ScheduledRun tasks states) (hproc : (states 0).processTable[i]? = some proc) :
    RoundRobin.Counts proc.priority.toNat (fun k => visited states k = i)
      fun k => (slotAt states proc i k).counter.toNat where
  start := by
    have hzero := h.getElem?_slotAt (k := 0) hproc
    rw [List.getElem?_map, hproc] at hzero
    rw [← Option.some.inj hzero]
    exact h.counter proc (List.mem_of_getElem? hproc)
  visited k hk := by
    have hle : proc.priority.toNat ≤ 64 := h.priority proc (List.mem_of_getElem? hproc)
    have hone : (1 : UInt8).toNat = 1 := rfl
    have hpriority := (h.slotAt_eq hproc (k := k)).1
    rw [h.slotAt_succ hproc, if_pos hk, ← hpriority]
    split_ifs with hcounter
    · rw [Slot.visit_of_lt hcounter]
      rfl
    · rw [Slot.visit_of_not_lt hcounter]
      show (_ + 1 : UInt8).toNat = _
      rw [UInt8.toNat_add, hone]
      rw [hpriority] at hcounter
      exact Nat.mod_eq_of_lt (by omega)
  skipped k hk := by rw [h.slotAt_succ hproc, if_neg hk]

/-- A task that is visited has the slot it should have. -/
theorem exists_slot_eq (h : ScheduledRun tasks states)
    (hproc : (states 0).processTable[i]? = some proc) (hk : visited states k = i) :
    ∃ proc', (states k).processTable[(states k).nextIndex]? = some proc' ∧
      proc'.slot = slotAt states proc i k := by
  have hslot := h.getElem?_slotAt (k := k) hproc
  rw [List.getElem?_map, Option.map_eq_some_iff] at hslot
  rwa [← (h.slots k).2.2, hk]

/-- A task is called when its counter starts again. -/
theorem called_iff (h : ScheduledRun tasks states)
    (hproc : (states 0).processTable[i]? = some proc) : Called states i k ↔
      RoundRobin.Fires proc.priority.toNat (fun k => visited states k = i)
        (fun k => (slotAt states proc i k).counter.toNat) k := by
  refine and_congr_right fun hk => ?_
  obtain ⟨proc', hproc', hslot⟩ := h.exists_slot_eq hproc hk
  have hcounter : proc'.counter > proc'.priority ↔
      (slotAt states proc i k).counter.toNat > proc.priority.toNat := by
    rw [← (h.slotAt_eq hproc (k := k)).1, ← hslot, gt_iff_lt, UInt8.lt_iff_toNat_lt]
    rfl
  rw [← hcounter]
  constructor
  · rintro ⟨f, e, hcalls⟩
    exact ((callsWith_iff (h.steady k).unlocked hproc').mp hcalls).1
  · exact fun hlt => ⟨_, _, (callsWith_iff (h.steady k).unlocked hproc').mpr ⟨hlt, rfl, rfl⟩⟩

/-- The flag of a task is clear up to its first call, if it was. -/
theorem initiated_iff (h : ScheduledRun tasks states)
    (hproc : (states 0).processTable[i]? = some proc) : (slotAt states proc i k).initiated = 0 ↔
      bitGet proc.flags taskFlagInitiate = 0 ∧ ∀ j < k, ¬ Called states i j := by
  induction k with
  | zero =>
    have hzero := h.getElem?_slotAt (k := 0) hproc
    rw [List.getElem?_map, hproc] at hzero
    rw [← Option.some.inj hzero]
    exact (and_iff_left fun j hj => absurd hj (Nat.not_lt_zero j)).symm
  | succ k ih =>
    have hsplit : (∀ j < k + 1, ¬ Called states i j) ↔
        (∀ j < k, ¬ Called states i j) ∧ ¬ Called states i k := by
      simp only [Nat.lt_succ_iff_lt_or_eq, or_imp, forall_and, forall_eq]
    rw [hsplit, ← and_assoc, ← ih, h.slotAt_succ hproc, h.called_iff hproc, RoundRobin.Fires]
    by_cases hk : visited states k = i
    · rw [if_pos hk, ← (h.slotAt_eq hproc (k := k)).1]
      by_cases hcounter : (slotAt states proc i k).priority.toNat <
          (slotAt states proc i k).counter.toNat
      · rw [Slot.visit_of_lt hcounter]
        exact iff_of_false (show ¬ (1 : UInt8) = 0 by decide) fun hr => hr.2 ⟨hk, hcounter⟩
      · rw [Slot.visit_of_not_lt hcounter]
        exact (and_iff_left fun hr => hcounter hr.2).symm
    · rw [if_neg hk]
      exact (and_iff_left fun hr => hk hr.1).symm

end ScheduledRun

/-- **The schedule** of every run of ticks that are not nested, over a process table that nobody
changes: each task is visited once in as many ticks as there are tasks, called for the first time
within one visit more than its counter needs, and then with `priority + 1` visits in between. -/
theorem prioritySchedule_of_run (tasks : ℕ → Tasks F) (states : ℕ → Scheduler F)
    (h : ScheduledRun tasks states) : PrioritySchedule (states 0).processTable states where
  below := h.rotates.lt
  once start i hi := h.rotates.existsUnique start hi
  first i proc hproc := by
    obtain ⟨hi, -⟩ := List.getElem?_eq_some_iff.mp hproc
    obtain ⟨k, hk, -, hlt⟩ := (h.counts hproc).exists_fires (h.rotates.infinite hi) 0
    exact ⟨k, (h.called_iff hproc).mpr hk, by rwa [Nat.zero_add] at hlt⟩
  between i proc hproc k k' hlt hk hk' hnone := by
    obtain ⟨hi, -⟩ := List.getElem?_eq_some_iff.mp hproc
    exact (h.counts hproc).count_between (h.rotates.infinite hi) ((h.called_iff hproc).mp hk)
      ((h.called_iff hproc).mp hk') hlt fun j hj hj' hfires =>
        hnone j hj hj' ((h.called_iff hproc).mpr hfires)
  event i proc hproc k f e hk hcalls := by
    obtain ⟨proc', hproc', hslot⟩ := h.exists_slot_eq hproc hk
    obtain ⟨-, rfl, rfl⟩ := (callsWith_iff (h.steady k).unlocked hproc').mp hcalls
    have hinitiated : bitGet proc'.flags taskFlagInitiate = 0 ↔
        bitGet proc.flags taskFlagInitiate = 0 ∧ ∀ j < k, ¬ Called states i j := by
      rw [← h.initiated_iff hproc, ← hslot]
      rfl
    refine ⟨?_, ?_⟩
    · rw [← (h.slotAt_eq hproc (k := k)).2, ← hslot]
      rfl
    · by_cases hclear : bitGet proc'.flags taskFlagInitiate = 0
      · exact Or.inl ⟨if_pos hclear, hinitiated.mp hclear⟩
      · exact Or.inr ⟨if_neg hclear, mt hinitiated.mpr hclear⟩

/-- A scheduler with two tasks, of which one is called more often. -/
def twoTasks : Scheduler Unit :=
  { waitingScheduler .initial with
    processTable := (waitingScheduler .initial).processTable ++
      (waitingScheduler .initial).processTable.map fun proc => { proc with priority := 3, counter := 4 } }

/-- `prioritySchedule_of_run` for two tasks. -/
theorem prioritySchedule_twoTasks : ∃ states : ℕ → Scheduler Unit,
    states 0 = twoTasks ∧ ScheduledRun (fun _ _ _ => some) states ∧
      PrioritySchedule (states 0).processTable states := by
  have hkeeps : ∀ (f : Unit) (e : UInt8) (u v : Scheduler Unit), some u = some v →
      KeepsSchedule u v := by
    rintro f e u _ ⟨⟩
    exact ⟨rfl, rfl, rfl⟩
  have hsteady : Steady twoTasks := ⟨rfl, List.cons_ne_nil _ _, by
    simp [twoTasks, waitingScheduler, ProcessDescription.slot, taskTypeVolatile]⟩
  obtain ⟨states, hstart, htick⟩ := @Steady.exists_run Unit (fun _ _ => some) _ hsteady
    (fun _ _ u => ⟨u, rfl⟩) hkeeps
  have hrun : ScheduledRun (fun _ _ _ => some) states := by
    refine ⟨htick, fun _ => hkeeps, ?_, ?_, ?_, ?_, ?_, ?_⟩ <;> rw [hstart]
    · rfl
    · exact List.cons_ne_nil _ _
    · decide
    · simp [twoTasks, waitingScheduler, taskTypeVolatile]
    · simp only [twoTasks, waitingScheduler, List.map_cons, List.map_nil, List.cons_append,
        List.nil_append, List.forall_mem_cons]
      exact ⟨by decide, by decide, by simp⟩
    · simp only [twoTasks, waitingScheduler, List.map_cons, List.map_nil, List.cons_append,
        List.nil_append, List.forall_mem_cons]
      exact ⟨by decide, by decide, by simp⟩
  exact ⟨states, hstart, hrun, prioritySchedule_of_run _ states hrun⟩

end MicroKernel
