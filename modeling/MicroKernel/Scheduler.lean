import MicroKernel.X4.Segmentation

/-!
# The scheduler tick

The interrupt service routine `_ISR_SCHEDULER_MAIN__` of `kernel/scheduler.c`, which interrupts the
code in the foreground to run the next task. A task is arbitrary code, so calling one is a
parameter: whatever it does, with the interrupts that come while it runs, unless it never returns.
The tick keeps the access mode of the code it interrupts and sets the heap range and the super block
to the kernel's.

## Main definitions

* `ProcessDescription`, `Scheduler`: a task, and the globals of the scheduler
* `isrSchedulerMain`: a tick
* `TickTransparent`, `KernelRange`: a tick leaves its context, and the contexts it leaves

## Main results

* `isrSchedulerMain_spec`: the context behind a tick
* `tickTransparent_iff`: when a tick is transparent to the code it interrupts
-/

namespace MicroKernel

/-! ## Tasks -/

/-- `TASK_TYPE_VOLATILE` -/
def taskTypeVolatile : UInt8 := 2

/-- `TASK_PRIVILEGE_KERNEL` -/
def taskPrivilegeKernel : UInt8 := 'k'.toUInt8

/-- `TASK_FLAG_INITIATE` -/
def taskFlagInitiate : UInt8 := 0

/-- `EVENT_NOMESSAGE` -/
def eventNoMessage : UInt8 := 0

/-- `EVENT_INITIATE` -/
def eventInitiate : UInt8 := 1

/-- `bit_get` -/
def bitGet (value bit : UInt8) : UInt8 := (value >>> bit) &&& 1

/-- `bit_set` -/
def bitSet (value bit : UInt8) : UInt8 := value ||| (1 <<< bit)

/-- `struct ProcessDescription`, with the entry points of the tasks in `F`. -/
structure ProcessDescription (F : Type*) where
  type : UInt8
  privilege : UInt8
  priority : UInt8
  counter : UInt8
  flags : UInt8
  heapBegin : UInt32
  heapEnd : UInt32
  block : UInt32
  timeSlice : UInt16
  function : F

/-- The globals of the scheduler, with the ranges and the super block of the running code. The
pointer `proc_info` is an index into the process table. -/
structure Scheduler (F : Type*) where
  processTable : List (ProcessDescription F)
  procIndex : UInt32
  flagProcActive : UInt8
  procInfo : ℕ
  mux : UInt8
  procSuperBlock : UInt32
  virtual : Virtual

variable {F : Type*}

/-- Change the task `proc_info` points to. -/
def Scheduler.modifyProc (f : ProcessDescription F → ProcessDescription F) (s : Scheduler F) :
    Scheduler F :=
  { s with processTable := s.processTable.modify s.procInfo f }

/-- The task `proc_info` points to, when it is changed. -/
theorem Scheduler.getElem?_modifyProc {s : Scheduler F} {proc : ProcessDescription F}
    (h : s.processTable[s.procInfo]? = some proc) (f : ProcessDescription F → ProcessDescription F) :
    (s.modifyProc f).processTable[s.procInfo]? = some (f proc) := by
  rw [modifyProc, List.getElem?_modify_eq, h]
  rfl

/-- Call a task whose turn it is; `call` is the code of the tasks. -/
def processTask (call : F → UInt8 → Scheduler F → Option (Scheduler F))
    (proc : ProcessDescription F) (s : Scheduler F) : Option (Scheduler F) :=
  -- Process task priority
  if proc.counter > proc.priority then
    -- Check initial run
    let initial := bitGet proc.flags taskFlagInitiate = 0
    let event := if initial then eventInitiate else eventNoMessage
    let s := s.modifyProc fun proc =>
      { proc with
        counter := 0
        flags := if initial then bitSet proc.flags taskFlagInitiate else proc.flags
        -- Reset the time slice
        timeSlice := 0 }
    (call proc.function event { s with flagProcActive := 1 }).map fun s =>
      { s with flagProcActive := 0 }
  else
    -- Increment the priority counter
    some (s.modifyProc fun proc => { proc with counter := proc.counter + 1 })

/-- The globals while a task runs. -/
def enterTask (proc : ProcessDescription F) (s : Scheduler F) : Scheduler F :=
  -- Set privilege level
  let mode := if proc.privilege = taskPrivilegeKernel then virtualAccessModeKernel
    else virtualAccessModeUser
  { s with
    procSuperBlock := proc.block
    virtual := { virtualAccessSetMode mode s.virtual with
      heapBegin := proc.heapBegin
      heapEnd := proc.heapEnd } }

/-- Behind a task. `TaskDestroy` does nothing. -/
def leaveTask (currentMode : Int8) (s : Scheduler F) : Option (Scheduler F) := do
  let proc ← s.processTable[s.procInfo]?
  let s := if proc.type = taskTypeVolatile then { s with procIndex := 0 } else s
  -- Reset the heap access range
  let virtual := { s.virtual with heapBegin := 0x00000000, heapEnd := 0xffffffff }
  return { s with
    -- Free the super block allocation reference
    procSuperBlock := 0
    virtual := virtualAccessSetMode currentMode.toUInt8 virtual
    mux := 0 }

/-- A tick, or none if the task does not return. -/
def isrSchedulerMain (call : F → UInt8 → Scheduler F → Option (Scheduler F)) (s : Scheduler F) :
    Option (Scheduler F) :=
  -- Check no tasks running
  if s.processTable.length = 0 then some s
  -- Lock the mutex
  else if s.mux ≠ 0 then some s
  else do
    let procIndex := s.procIndex + 1
    -- Check process counter index overflow
    let procIndex := if procIndex.toNat ≥ s.processTable.length then 0 else procIndex
    let s := { s with mux := 1, procIndex, procInfo := procIndex.toNat }
    let proc ← s.processTable[s.procInfo]?
    let currentMode := virtualAccessGetMode s.virtual
    let s ← processTask call proc (enterTask proc s)
    leaveTask currentMode s

/-! ## The interrupted context -/

/-- The access mode, the heap range and the super block are those at entry. -/
structure TickTransparent (s t : Scheduler F) : Prop where
  mode : virtualAccessGetMode t.virtual = virtualAccessGetMode s.virtual
  heapBegin : t.virtual.heapBegin = s.virtual.heapBegin
  heapEnd : t.virtual.heapEnd = s.virtual.heapEnd
  procSuperBlock : t.procSuperBlock = s.procSuperBlock

/-- The whole heap without a super block, in the access range of one of the two modes. -/
structure KernelRange (s : Scheduler F) : Prop where
  virtualAddressBegin : s.virtual.virtualAddressBegin = kernelVirtualAccessBegin ∨
    s.virtual.virtualAddressBegin = userVirtualAccessBegin
  heapBegin : s.virtual.heapBegin = 0x00000000
  heapEnd : s.virtual.heapEnd = 0xffffffff
  procSuperBlock : s.procSuperBlock = 0

section Mode

variable {v w : Virtual}

/-- Setting the mode of a range again sets its mode, if the range has one. -/
theorem virtualAccessGetMode_setMode :
    virtualAccessGetMode (virtualAccessSetMode (virtualAccessGetMode v).toUInt8 w) =
      virtualAccessGetMode v ↔
    v.virtualAddressBegin = kernelVirtualAccessBegin ∨
      v.virtualAddressBegin = userVirtualAccessBegin := by
  by_cases hk : v.virtualAddressBegin = kernelVirtualAccessBegin
  · have hmode : virtualAccessGetMode v = virtualAccessModeKernel.toInt8 := if_pos hk
    rw [hmode]
    exact iff_of_true rfl (Or.inl hk)
  · by_cases hu : v.virtualAddressBegin = userVirtualAccessBegin
    · have hmode : virtualAccessGetMode v = virtualAccessModeUser.toInt8 :=
        (if_neg hk).trans (if_pos hu)
      rw [hmode]
      exact iff_of_true rfl (Or.inr hu)
    · -- without a mode, that of the kernel is set
      have hmode : virtualAccessGetMode v = -1 := (if_neg hk).trans (if_neg hu)
      rw [hmode]
      refine iff_of_false ?_ (not_or.mpr ⟨hk, hu⟩)
      show ¬ virtualAccessModeKernel.toInt8 = -1
      decide

@[simp] theorem heapBegin_virtualAccessSetMode (mode : UInt8) :
    (virtualAccessSetMode mode v).heapBegin = v.heapBegin := by
  rw [virtualAccessSetMode]
  split <;> rfl

@[simp] theorem heapEnd_virtualAccessSetMode (mode : UInt8) :
    (virtualAccessSetMode mode v).heapEnd = v.heapEnd := by
  rw [virtualAccessSetMode]
  split <;> rfl

end Mode

section Tick

variable {call : F → UInt8 → Scheduler F → Option (Scheduler F)} {s t : Scheduler F}

/-- What a tick leaves behind a task. -/
theorem leaveTask_spec {currentMode : Int8} (h : leaveTask currentMode s = some t) :
    (∃ v, t.virtual = virtualAccessSetMode currentMode.toUInt8 v) ∧
      t.virtual.heapBegin = 0x00000000 ∧ t.virtual.heapEnd = 0xffffffff ∧
        t.procSuperBlock = 0 := by
  rw [leaveTask, Option.bind_eq_bind, Option.bind_eq_some_iff] at h
  obtain ⟨proc, -, h⟩ := h
  obtain rfl := Option.some.inj h
  refine ⟨⟨_, rfl⟩, ?_, ?_, rfl⟩
  · exact heapBegin_virtualAccessSetMode _
  · exact heapEnd_virtualAccessSetMode _

/-- **The context behind a tick** that locks the mutex and runs a task: the access mode of the
entry, the whole heap, and no super block, whatever the task did. -/
theorem isrSchedulerMain_spec (hne : s.processTable ≠ []) (hlock : s.mux = 0)
    (h : isrSchedulerMain call s = some t) :
    (∃ v, t.virtual = virtualAccessSetMode (virtualAccessGetMode s.virtual).toUInt8 v) ∧
      t.virtual.heapBegin = 0x00000000 ∧ t.virtual.heapEnd = 0xffffffff ∧
        t.procSuperBlock = 0 := by
  rw [isrSchedulerMain, if_neg (mt List.length_eq_zero_iff.mp hne), if_neg (not_not.mpr hlock)]
    at h
  simp only [Option.bind_eq_bind, Option.bind_eq_some_iff] at h
  obtain ⟨proc, -, u, -, hleave⟩ := h
  exact leaveTask_spec hleave

/-- **A tick is transparent** to the code it interrupts exactly when that code runs on the whole
heap without a super block, in the access range of a mode: for every process table with a task,
every scheduler with the mutex free, and every task. -/
theorem tickTransparent_iff (hne : s.processTable ≠ []) (hlock : s.mux = 0)
    (h : isrSchedulerMain call s = some t) : TickTransparent s t ↔ KernelRange s := by
  obtain ⟨⟨v, hv⟩, hbegin, hend, hblock⟩ := isrSchedulerMain_spec hne hlock h
  have hmode : virtualAccessGetMode t.virtual = virtualAccessGetMode s.virtual ↔
      s.virtual.virtualAddressBegin = kernelVirtualAccessBegin ∨
        s.virtual.virtualAddressBegin = userVirtualAccessBegin := by
    rw [hv]
    exact virtualAccessGetMode_setMode
  constructor
  · intro ht
    exact ⟨hmode.mp ht.mode, ht.heapBegin.symm.trans hbegin, ht.heapEnd.symm.trans hend,
      ht.procSuperBlock.symm.trans hblock⟩
  · intro hs
    exact ⟨hmode.mpr hs.virtualAddressBegin, hbegin.trans hs.heapBegin.symm,
      hend.trans hs.heapEnd.symm, hblock.trans hs.procSuperBlock.symm⟩

end Tick

/-! ## A tick in a run of the emulator -/

/-- A scheduler with one task that waits for its turn. -/
def waitingScheduler (virtual : Virtual) : Scheduler Unit where
  processTable := [{
    type := 1, privilege := taskPrivilegeKernel, priority := 16, counter := 0, flags := 0,
    heapBegin := 0x4000, heapEnd := 0x4400, block := 0, timeSlice := 0, function := () }]
  procIndex := 0
  flagProcActive := 0
  procInfo := 0
  mux := 0
  procSuperBlock := 0
  virtual := virtual

/-- A scheduler with one task whose turn it is. -/
def dueScheduler : Scheduler Unit :=
  { waitingScheduler .initial with
    processTable := (waitingScheduler .initial).processTable.map fun proc =>
      { proc with counter := proc.priority + 1 } }

/-- `tickTransparent_iff` for a tick that calls a task. -/
theorem tickTransparent_due : ∃ t, isrSchedulerMain (fun _ _ => some) dueScheduler = some t ∧
    t.processTable.map ProcessDescription.counter = [0] ∧ TickTransparent dueScheduler t := by
  obtain ⟨t, ht, hcounter⟩ : ∃ t, isrSchedulerMain (fun _ _ => some) dueScheduler = some t ∧
      t.processTable.map ProcessDescription.counter = [0] := ⟨_, rfl, rfl⟩
  have hrange : KernelRange dueScheduler := ⟨.inl rfl, rfl, rfl, rfl⟩
  exact ⟨t, ht, hcounter, (tickTransparent_iff (List.cons_ne_nil _ _) rfl ht).mpr hrange⟩

/-- Not every tick is transparent: one in a run of the emulator resets its heap range. -/
theorem not_tickTransparent : ¬ ∀ (call : Unit → UInt8 → Scheduler Unit → Option (Scheduler Unit))
    (s t : Scheduler Unit), s.processTable ≠ [] → s.mux = 0 →
      isrSchedulerMain call s = some t → TickTransparent s t := by
  intro h
  obtain ⟨t, ht, hbegin⟩ : ∃ t,
      isrSchedulerMain (fun _ _ => some) (waitingScheduler X4.userRanges) = some t ∧
        t.virtual.heapBegin = 0 := ⟨_, rfl, rfl⟩
  have hkept := (h _ _ t (List.cons_ne_nil _ _) rfl ht).heapBegin
  rw [hbegin] at hkept
  exact absurd hkept (by decide)

end MicroKernel
