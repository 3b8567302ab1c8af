import MicroKernel.Lib.Transition
import MicroKernel.Scheduler

/-!
# Nested scheduler interrupts

The statements of `_ISR_SCHEDULER_MAIN__` one by one. An entry enables the interrupts before it
calls a task, so that further entries come on top of it, at any depth. What keeps them apart is the
mutex of `kernel/mutex.c`.

## Main definitions

* `Point`, `Entry`: an active entry of the interrupt service routine, at one of its statements
* `Entry.step`: the statements
* `Nested`, `Nested.step`: the scheduler with its active entries, and what can happen next
* `Exclusive`: the entries do not interfere

## Main results

* `reachable_isrSchedulerMain`: an entry that is not interrupted is a tick
* `exclusive_of_reachable`: the entries never interfere
-/

namespace MicroKernel

open Transition

/-! ## The mutex -/

/-- `MutexLock`: the result and the lock behind it. -/
def mutexLock (lock : UInt8) : UInt8 × UInt8 :=
  if lock = 0 then (0, 1) else (1, lock)

/-- `MutexUnlock` -/
def mutexUnlock (_lock : UInt8) : UInt8 := 0

/-! ## The entries -/

/-- The statements of `_ISR_SCHEDULER_MAIN__`. -/
inductive Point
  | start | lock | select | mode | enter | priority | activate | task | returned | type | range
  | block | restore | unlock | leave
  deriving DecidableEq

/-- The statements between taking and releasing the mutex. -/
def Point.holds : Point → Bool
  | .start | .lock | .leave => false
  | _ => true

/-- An entry of the interrupt service routine with its local variables. -/
structure Entry where
  point : Point
  numberOfTasks : ℕ
  currentMode : Int8
  event : UInt8
  /-- The entry has enabled the interrupts. -/
  enabled : Bool

/-- An entry as the interrupt makes it, with the interrupts disabled. -/
def Entry.start : Entry where
  point := .start
  numberOfTasks := 0
  currentMode := 0
  event := eventNoMessage
  enabled := false

variable {F : Type*}

/-- A statement of an entry, which goes on at another, or returns. At `task` the task returns. -/
def Entry.step (e : Entry) (s : Scheduler F) : Option (Option Entry × Scheduler F) :=
  match e.point with
  | .start =>
    -- Check no tasks running
    if s.processTable.length = 0 then some (none, s)
    else some (some { e with point := .lock, numberOfTasks := s.processTable.length }, s)
  | .lock =>
    -- Lock the mutex
    if (mutexLock s.mux).1 = 1 then some (none, { s with mux := (mutexLock s.mux).2 })
    else some (some { e with point := .select }, { s with mux := (mutexLock s.mux).2 })
  | .select =>
    let procIndex := s.procIndex + 1
    -- Check process counter index overflow
    let procIndex := if procIndex.toNat ≥ e.numberOfTasks then 0 else procIndex
    some (some { e with point := .mode }, { s with procIndex, procInfo := procIndex.toNat })
  | .mode =>
    some (some { e with point := .enter, currentMode := virtualAccessGetMode s.virtual }, s)
  | .enter =>
    -- Set privilege level, super block and heap range
    s.processTable[s.procInfo]?.map fun proc =>
      (some { e with point := .priority }, enterTask proc s)
  | .priority =>
    -- Process task priority
    s.processTable[s.procInfo]?.map fun proc =>
      if proc.counter > proc.priority then
        -- Check initial run
        let initial := bitGet proc.flags taskFlagInitiate = 0
        let event := if initial then eventInitiate else eventNoMessage
        let s := s.modifyProc fun proc =>
          { proc with
            counter := 0
            flags := if initial then bitSet proc.flags taskFlagInitiate else proc.flags
            -- Reset the time slice
            timeSlice := 0 }
        (some { e with point := .activate, event, enabled := true }, s)
      else
        -- Increment the priority counter
        (some { e with point := .type },
          s.modifyProc fun proc => { proc with counter := proc.counter + 1 })
  | .activate => some (some { e with point := .task }, { s with flagProcActive := 1 })
  | .task => some (some { e with point := .returned }, s)
  | .returned => some (some { e with point := .type }, { s with flagProcActive := 0 })
  | .type =>
    -- Process task type
    s.processTable[s.procInfo]?.map fun proc =>
      (some { e with point := .range },
        if proc.type = taskTypeVolatile then { s with procIndex := 0 } else s)
  | .range =>
    -- Reset the heap access range
    some (some { e with point := .block },
      { s with virtual := { s.virtual with heapBegin := 0x00000000, heapEnd := 0xffffffff } })
  | .block =>
    -- Free the super block allocation reference
    some (some { e with point := .restore }, { s with procSuperBlock := 0 })
  | .restore =>
    some (some { e with point := .unlock },
      { s with virtual := virtualAccessSetMode e.currentMode.toUInt8 s.virtual })
  | .unlock => some (some { e with point := .leave }, { s with mux := mutexUnlock s.mux })
  | .leave => some (none, s)

/-! ## The nesting -/

/-- The scheduler and the active entries, the latest first. -/
structure Nested (F : Type*) where
  scheduler : Scheduler F
  stack : List Entry

/-- What can happen: an interrupt, the next statement of the latest entry, or a step of other code,
which is the task, another interrupt service routine, or the code in the foreground. -/
inductive Act (F : Type*)
  | interrupt
  | next
  | other (s : Scheduler F)

/-- The interrupts are enabled: the latest entry has enabled them, or none is active. -/
def Nested.Enabled (n : Nested F) : Prop := ∀ e ∈ n.stack.head?, e.enabled = true

instance (n : Nested F) : Decidable n.Enabled :=
  inferInstanceAs (Decidable (∀ e ∈ n.stack.head?, e.enabled = true))

/-- The state behind an interrupt. -/
def Nested.enter (n : Nested F) : Nested F := { n with stack := Entry.start :: n.stack }

/-- Other code runs only while the interrupts are enabled. -/
def Nested.step : Act F → Nested F → Option (Nested F)
  | .interrupt, n => if n.Enabled then some n.enter else none
  | .next, ⟨_, []⟩ => none
  | .next, ⟨s, e :: es⟩ => (e.step s).map fun r => ⟨r.2, r.1.toList ++ es⟩
  | .other s, n => if n.Enabled then some { n with scheduler := s } else none

/-- The mutex of the scheduler is its own: no other code writes it. -/
def Act.Allowed : Act F → Nested F → Prop
  | .other s, n => s.mux = n.scheduler.mux
  | _, _ => True

/-- The task functions that are active. -/
def Nested.tasks (n : Nested F) : ℕ := n.stack.countP (·.point = .task)

/-- The entries between taking and releasing the mutex. -/
def Nested.holders (n : Nested F) : ℕ := n.stack.countP (·.point.holds)

/-- An interrupt now returns with the scheduler and the tasks as they were all the way. -/
def Nested.Returns (n : Nested F) : Prop :=
  Leads Nested.step Act.Allowed
    (fun m => m.scheduler = n.scheduler ∧ m.tasks = n.tasks) n n.enter

/-- The entries do not interfere. -/
structure Exclusive (n : Nested F) : Prop where
  tasks_le : n.tasks ≤ 1
  returns : (∃ e ∈ n.stack, e.point.holds = true) → n.Enabled → n.Returns
  unlocked : n.stack = [] → n.scheduler.mux = 0

/-! ## A tick -/

section Tick

variable {call : F → UInt8 → Scheduler F → Option (Scheduler F)} {s t : Scheduler F}

/-- The statements of the latest entry, without an interrupt. -/
def passes : ℕ → Nested F → Option (Nested F)
  | 0, n => some n
  | k + 1, n => (n.step .next).bind (passes k)

theorem reachable_of_passes {n n' : Nested F} {k : ℕ} (h : passes k n = some n') :
    Reachable Nested.step Act.Allowed n n' := by
  induction k generalizing n with
  | zero =>
    obtain rfl := Option.some.inj h
    exact .start
  | succ k ih =>
    obtain ⟨m, hm, hrest⟩ := Option.bind_eq_some_iff.mp h
    exact (Reachable.start.next trivial hm).trans (ih hrest)

/-- Behind a task. -/
theorem passes_leaveTask {e : Entry} (hp : e.point = .type)
    (h : leaveTask e.currentMode s = some t) (es : List Entry) :
    passes 6 ⟨s, e :: es⟩ = some ⟨t, es⟩ := by
  rw [leaveTask, Option.bind_eq_bind, Option.bind_eq_some_iff] at h
  obtain ⟨proc, hproc, h⟩ := h
  obtain rfl := Option.some.inj h
  rw [passes, Nested.step, Entry.step, hp]
  simp only [hproc]
  rfl

/-- The priority of a task, and the task when it is its turn. -/
theorem reachable_processTask {e : Entry} (hp : e.point = .priority) {proc : ProcessDescription F}
    (hcall : ∀ f event u v, call f event u = some v → v.mux = u.mux)
    (hproc : s.processTable[s.procInfo]? = some proc) (h : processTask call proc s = some t)
    (es : List Entry) : ∃ e' : Entry, e'.point = .type ∧ e'.currentMode = e.currentMode ∧
      Reachable Nested.step Act.Allowed ⟨s, e :: es⟩ ⟨t, e' :: es⟩ := by
  rw [processTask] at h
  by_cases hc : proc.counter > proc.priority
  · rw [if_pos hc] at h
    obtain ⟨u, hu, rfl⟩ := Option.map_eq_some_iff.mp h
    -- two statements lead to the task, which runs with the interrupts enabled
    obtain ⟨e', v, he', henabled, hmode, hu, hrun⟩ : ∃ (e' : Entry) (v : Scheduler F),
        e'.point = .task ∧ e'.enabled = true ∧ e'.currentMode = e.currentMode ∧
          call proc.function e'.event v = some u ∧
            passes 2 ⟨s, e :: es⟩ = some ⟨v, e' :: es⟩ := by
      let event := if bitGet proc.flags taskFlagInitiate = 0 then eventInitiate else eventNoMessage
      refine ⟨{ e with point := .task, event, enabled := true }, _, rfl, rfl, rfl, hu, ?_⟩
      rw [passes, Nested.step, Entry.step, hp]
      simp only [hproc, Option.map_some, if_pos hc]
      rfl
    have htask : Reachable Nested.step Act.Allowed ⟨v, e' :: es⟩ ⟨u, e' :: es⟩ := by
      have hallowed : Act.Allowed (.other u) (Nested.mk v (e' :: es)) := hcall _ _ _ _ hu
      refine Reachable.start.next hallowed (if_pos ?_)
      rintro e'' ⟨⟩
      exact henabled
    have hback : passes 2 ⟨u, e' :: es⟩ =
        some ⟨{ u with flagProcActive := 0 }, { e' with point := .type } :: es⟩ := by
      rw [passes, Nested.step, Entry.step, he']
      rfl
    exact ⟨{ e' with point := .type }, rfl, hmode,
      ((reachable_of_passes hrun).trans htask).trans (reachable_of_passes hback)⟩
  · rw [if_neg hc] at h
    obtain rfl := Option.some.inj h
    refine ⟨{ e with point := .type }, rfl, rfl, reachable_of_passes (k := 1) ?_⟩
    rw [passes, Nested.step, Entry.step, hp]
    simp only [hproc, Option.map_some, if_neg hc]
    rfl

/-- **An entry that is not interrupted** is a tick, when its task does what `call` says. -/
theorem reachable_isrSchedulerMain
    (hcall : ∀ f event u v, call f event u = some v → v.mux = u.mux)
    (h : isrSchedulerMain call s = some t) (es : List Entry) :
    Reachable Nested.step Act.Allowed ⟨s, Entry.start :: es⟩ ⟨t, es⟩ := by
  rw [isrSchedulerMain] at h
  by_cases h0 : s.processTable.length = 0
  · -- no processes: the entry returns at once
    rw [if_pos h0] at h
    obtain rfl := Option.some.inj h
    refine reachable_of_passes (k := 1) ?_
    rw [passes, Nested.step, Entry.step]
    simp only [Entry.start, if_pos h0]
    rfl
  rw [if_neg h0] at h
  by_cases hmux : s.mux = 0
  · -- five passes up to the task, the task, and the passes that leave it
    rw [if_neg (not_not.mpr hmux)] at h
    simp only [Option.bind_eq_bind, Option.bind_eq_some_iff] at h
    obtain ⟨proc, hproc, u, hu, hleave⟩ := h
    have hlock : mutexLock s.mux = (0, 1) := if_pos hmux
    obtain ⟨e, he, hmode, hrun⟩ : ∃ e : Entry, e.point = .priority ∧
        e.currentMode = virtualAccessGetMode s.virtual ∧
          passes 5 ⟨s, Entry.start :: es⟩ = some ⟨_, e :: es⟩ := by
      refine ⟨⟨.priority, s.processTable.length, virtualAccessGetMode s.virtual, eventNoMessage,
        false⟩, rfl, rfl, ?_⟩
      have hne : ¬ (0 : UInt8) = 1 := by decide
      simp only [passes, Nested.step, Entry.step, Entry.start, if_neg h0, Option.map_some,
        Option.bind_some, Option.toList_some, List.singleton_append, hlock, if_neg hne, hproc]
      rfl
    obtain ⟨e', he', hmode', htask⟩ := reachable_processTask he hcall hproc hu es
    rw [← hmode, ← hmode'] at hleave
    exact ((reachable_of_passes hrun).trans htask).trans
      (reachable_of_passes (passes_leaveTask he' hleave es))
  · -- the mutex is held: the entry returns once it has tried
    rw [if_pos hmux] at h
    obtain rfl := Option.some.inj h
    have hlock : mutexLock s.mux = (1, s.mux) := if_neg hmux
    refine reachable_of_passes (k := 2) ?_
    simp only [passes, Nested.step, Entry.step, Entry.start, if_neg h0, Option.map_some,
      Option.bind_some, Option.toList_some, List.singleton_append, hlock]
    rfl

end Tick

/-! ## The mutex over a run -/

section Mutex

variable {e : Entry} {s t : Scheduler F} {r : Option Entry} {n n' : Nested F}

/-- **What a statement does to the mutex**: outside of it nothing, taking it, holding it, or
releasing it. -/
theorem Entry.step_cases (h : e.step s = some (r, t)) :
    (e.point.holds = false ∧ (∀ e' ∈ r, e'.point.holds = false) ∧ t.mux = s.mux) ∨
      (e.point.holds = false ∧ s.mux = 0 ∧ t.mux ≠ 0 ∧ ∃ e', r = some e' ∧ e'.point.holds = true) ∨
      (e.point.holds = true ∧ t.mux = s.mux ∧ ∃ e', r = some e' ∧ e'.point.holds = true) ∨
      (e.point.holds = true ∧ t.mux = 0 ∧ ∃ e', r = some e' ∧ e'.point.holds = false) := by
  cases hp : e.point
  case start =>
    rw [Entry.step, hp] at h
    refine Or.inl ⟨rfl, ?_⟩
    by_cases h0 : s.processTable.length = 0
    · obtain ⟨rfl, rfl⟩ := Prod.mk.inj (Option.some.inj ((if_pos h0).symm.trans h))
      exact ⟨fun e' he => absurd he (Option.not_mem_none _), rfl⟩
    · obtain ⟨rfl, rfl⟩ := Prod.mk.inj (Option.some.inj ((if_neg h0).symm.trans h))
      exact ⟨fun e' he => Option.some.inj he ▸ rfl, rfl⟩
  case lock =>
    rw [Entry.step, hp] at h
    by_cases hmux : s.mux = 0
    · rw [mutexLock, if_pos hmux] at h
      obtain ⟨rfl, rfl⟩ := Prod.mk.inj (Option.some.inj h)
      exact Or.inr (Or.inl ⟨rfl, hmux, (by decide : (1 : UInt8) ≠ 0), _, rfl, rfl⟩)
    · rw [mutexLock, if_neg hmux] at h
      obtain ⟨rfl, rfl⟩ := Prod.mk.inj (Option.some.inj h)
      exact Or.inl ⟨rfl, fun e' he => absurd he (Option.not_mem_none _), rfl⟩
  case leave =>
    rw [Entry.step, hp] at h
    obtain ⟨rfl, rfl⟩ := Prod.mk.inj (Option.some.inj h)
    exact Or.inl ⟨rfl, fun e' he => absurd he (Option.not_mem_none _), rfl⟩
  case unlock =>
    rw [Entry.step, hp] at h
    obtain ⟨rfl, rfl⟩ := Prod.mk.inj (Option.some.inj h)
    exact Or.inr (Or.inr (Or.inr ⟨rfl, rfl, _, rfl, rfl⟩))
  case enter | type =>
    rw [Entry.step, hp] at h
    obtain ⟨proc, -, h⟩ := Option.map_eq_some_iff.mp h
    obtain ⟨rfl, rfl⟩ := Prod.mk.inj h
    refine Or.inr (Or.inr (Or.inl ⟨rfl, ?_, _, rfl, rfl⟩))
    first | rfl | (split <;> rfl)
  case priority =>
    rw [Entry.step, hp] at h
    obtain ⟨proc, -, h⟩ := Option.map_eq_some_iff.mp h
    refine Or.inr (Or.inr (Or.inl ⟨rfl, ?_⟩))
    by_cases hc : proc.counter > proc.priority
    · obtain ⟨rfl, rfl⟩ := Prod.mk.inj ((if_pos hc).symm.trans h)
      exact ⟨rfl, _, rfl, rfl⟩
    · obtain ⟨rfl, rfl⟩ := Prod.mk.inj ((if_neg hc).symm.trans h)
      exact ⟨rfl, _, rfl, rfl⟩
  -- the others neither test nor write it
  all_goals
    rw [Entry.step, hp] at h
    obtain ⟨rfl, rfl⟩ := Prod.mk.inj (Option.some.inj h)
    exact Or.inr (Or.inr (Or.inl ⟨rfl, rfl, _, rfl, rfl⟩))

/-- Exactly the entries that took the mutex and did not release it keep it locked, and there is at
most one. -/
structure Nested.Locked (n : Nested F) : Prop where
  holders_le : n.holders ≤ 1
  holders_eq_zero_iff : n.holders = 0 ↔ n.scheduler.mux = 0

theorem holders_cons (s : Scheduler F) (e : Entry) (es : List Entry) :
    (Nested.mk s (e :: es)).holders =
      (Nested.mk s es).holders + if e.point.holds = true then 1 else 0 := by
  rw [Nested.holders, List.countP_cons]
  rfl

/-- Whatever happens, the mutex is kept. -/
theorem Nested.Locked.step {a : Act F} (hn : n.Locked) (ha : a.Allowed n)
    (h : n.step a = some n') : n'.Locked := by
  cases a with
  | interrupt =>
    -- a new entry holds nothing yet
    rw [Nested.step] at h
    split at h
    · obtain rfl := Option.some.inj h
      refine ⟨?_, ?_⟩
      · rw [Nested.enter, holders_cons]
        exact hn.holders_le
      · rw [Nested.enter, holders_cons]
        exact hn.holders_eq_zero_iff
    · cases h
  | other s =>
    rw [Nested.step] at h
    split at h
    · obtain rfl := Option.some.inj h
      exact ⟨hn.holders_le, hn.holders_eq_zero_iff.trans (iff_of_eq (congrArg (· = 0) ha.symm))⟩
    · cases h
  | next =>
    obtain ⟨s, _ | ⟨e, es⟩⟩ := n
    · cases h
    obtain ⟨⟨r, t⟩, hr, rfl⟩ := Option.map_eq_some_iff.mp h
    obtain ⟨hle, hzero⟩ := hn
    rw [holders_cons] at hle hzero
    have hsame : (Nested.mk t es).holders = (Nested.mk s es).holders := rfl
    rcases Entry.step_cases hr with ⟨he, hr', hmux⟩ | ⟨he, hmux, hmux', e', rfl, he'⟩ |
      ⟨he, hmux, e', rfl, he'⟩ | ⟨he, hmux, e', rfl, he'⟩
    · -- a statement outside of the mutex
      rw [he, if_neg (by decide), Nat.add_zero] at hle hzero
      have hsame : (Nested.mk t (r.toList ++ es)).holders = (Nested.mk s es).holders := by
        cases r with
        | none => rfl
        | some e' =>
          rw [Option.toList_some, List.singleton_append, holders_cons, hr' e' rfl,
            if_neg (by decide)]
          rfl
      exact ⟨hsame ▸ hle, hsame ▸ hmux ▸ hzero⟩
    · -- the mutex was free, so there are no others
      rw [he, if_neg (by decide), Nat.add_zero] at hle hzero
      refine ⟨?_, ?_⟩ <;> rw [Option.toList_some, List.singleton_append, holders_cons, he',
        if_pos rfl, hsame, hzero.mpr hmux]
      exact iff_of_false (by decide) hmux'
    · -- the holder goes on
      rw [he, if_pos rfl] at hle hzero
      refine ⟨?_, ?_⟩ <;> rw [Option.toList_some, List.singleton_append, holders_cons, he',
        if_pos rfl, hsame]
      · exact hle
      · exact hzero.trans (iff_of_eq (congrArg (· = 0) hmux.symm))
    · -- it was the only one
      rw [he, if_pos rfl] at hle
      refine ⟨?_, ?_⟩ <;> rw [Option.toList_some, List.singleton_append, holders_cons, he',
        if_neg (by decide), hsame]
      · omega
      · exact iff_of_true (by omega) hmux

/-- An entry that has not enabled the interrupts is not interrupted. -/
theorem Nested.step_of_disabled {a : Act F} {es : List Entry} (he : e.enabled = false)
    (h : Nested.step a ⟨s, e :: es⟩ = some n') :
    Nested.step .next ⟨s, e :: es⟩ = some n' := by
  have hn : ¬ (Nested.mk s (e :: es)).Enabled := fun hn =>
    Bool.false_ne_true (he.symm.trans (hn e rfl))
  cases a with
  | interrupt => rw [Nested.step, if_neg hn] at h; cases h
  | next => exact h
  | other s' => rw [Nested.step, if_neg hn] at h; cases h

/-- **An entry that finds the mutex locked** returns, and changes nothing on its way. -/
theorem Nested.returns_of_locked (hmux : n.scheduler.mux ≠ 0) : n.Returns := by
  obtain ⟨s, es⟩ := n
  have hunique : ∀ (e : Entry) (u : Nested F), e.enabled = false →
      Nested.step .next ⟨s, e :: es⟩ = some u →
        ∀ (k : Act F) (v : Nested F), Nested.step k ⟨s, e :: es⟩ = some v → v = u :=
    fun e u he hu k v hv => Option.some.inj ((Nested.step_of_disabled he hv).symm.trans hu)
  by_cases h0 : s.processTable.length = 0
  · -- no tasks
    have hstep : Nested.step .next ⟨s, Entry.start :: es⟩ = some ⟨s, es⟩ :=
      congrArg (Option.map _) (if_pos h0)
    exact .of_unique (l := .next) ⟨rfl, rfl⟩ trivial hstep (hunique _ _ rfl hstep) (.here ⟨rfl, rfl⟩)
  · obtain ⟨e, he, hp, htasks⟩ : ∃ e : Entry, e.enabled = false ∧ e.point = .lock ∧
        Nested.step .next ⟨s, Entry.start :: es⟩ = some ⟨s, e :: es⟩ :=
      ⟨_, rfl, rfl, congrArg (Option.map _) (if_neg h0)⟩
    have hstep : Nested.step .next ⟨s, e :: es⟩ = some ⟨s, es⟩ := by
      rw [Nested.step, Entry.step, hp]
      simp only [mutexLock, if_neg hmux]
      rfl
    have htasks' : (Nested.mk s (e :: es)).tasks = (Nested.mk s es).tasks := by
      rw [Nested.tasks, List.countP_cons_of_neg]
      · rfl
      · rw [hp]
        decide
    exact .of_unique (l := .next) ⟨rfl, rfl⟩ trivial htasks (hunique _ _ rfl htasks)
      (.of_unique (l := .next) ⟨rfl, htasks'⟩ trivial hstep (hunique _ _ he hstep) (.here ⟨rfl, rfl⟩))

/-- A locked mutex keeps the entries apart. -/
theorem Nested.Locked.exclusive (hn : n.Locked) : Exclusive n := by
  refine ⟨?_, fun ⟨e, he, hp⟩ _ => ?_, fun hnil => ?_⟩
  · refine le_trans (List.countP_mono_left fun e _ h => ?_) hn.holders_le
    rw [of_decide_eq_true h]
    rfl
  · refine Nested.returns_of_locked fun hmux => ?_
    have hzero := hn.holders_eq_zero_iff.mpr hmux
    exact List.countP_eq_zero.mp hzero e he hp
  · refine hn.holders_eq_zero_iff.mp ?_
    rw [Nested.holders, hnil]
    rfl

/-- **The entries of the scheduler interrupt do not interfere**, for every process table, at every
depth of their nesting, and whatever the tasks, the code in the foreground and other interrupts do
to everything but the mutex: at most one task function is active; an entry made between taking and
releasing the mutex returns with the scheduler as it was; and without an active entry the mutex is
unlocked. -/
theorem exclusive_of_reachable (hmux : s.mux = 0)
    (h : Reachable Nested.step Act.Allowed ⟨s, []⟩ n) : Exclusive n := by
  have hlocked : n.Locked := by
    refine h.invariant ⟨Nat.zero_le _, iff_of_true rfl hmux⟩ ?_
    exact fun a m m' hm ha hstep => hm.step ha hstep
  exact hlocked.exclusive

end Mutex

/-- `exclusive_of_reachable` for an entry made while a task runs. -/
theorem exclusive_of_reachable_due : ∃ n, passes 7 ⟨dueScheduler, [Entry.start]⟩ = some n ∧
    n.tasks = 1 ∧ n.Enabled ∧ Exclusive n.enter := by
  obtain ⟨n, hn, htasks, henabled⟩ : ∃ n, passes 7 ⟨dueScheduler, [Entry.start]⟩ = some n ∧
      n.tasks = 1 ∧ n.Enabled := ⟨_, rfl, by decide, by decide⟩
  have hfirst : Reachable Nested.step Act.Allowed ⟨dueScheduler, []⟩
      ⟨dueScheduler, [Entry.start]⟩ :=
    Reachable.start.next (l := Act.interrupt) trivial rfl
  have hsecond : Reachable Nested.step Act.Allowed ⟨dueScheduler, []⟩ n.enter :=
    (hfirst.trans (reachable_of_passes hn)).next (l := Act.interrupt) trivial (if_pos henabled)
  exact ⟨n, hn, htasks, henabled, exclusive_of_reachable rfl hsecond⟩

end MicroKernel
