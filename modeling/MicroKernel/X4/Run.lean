import MicroKernel.X4.Segmentation

/-!
# Runs of the X4 emulator

A call of `EmulateX4` as a whole: the entry, the passes of the loop, and the way it returns. A run
leaves the loop behind the end of the program buffer, where `emulateExit` restores the kernel's
access mode and heap range, or through interrupt `0x20`, which returns from inside the loop and
leaves those of the user mode.

## Main definitions

* `emulateX4`: a call, with the environments of its passes
* `KernelContext`: the access mode and the heap range of the kernel
* `ReturnsToSystem`: the pass executes interrupt `0x20`

## Main results

* `Reachable.emulateX4`: a call keeps reachability
* `returned_iff`: which pass leaves the loop from inside
* `kernelContext_iff`: when a call restores the kernel's context
-/

namespace MicroKernel.X4

open Traced

/-- The loop, and the end behind it. Without an environment for a further pass, it has not returned
yet. -/
def emulateLoop : List Environment → Machine → Emulator (Option Machine)
  | [], s =>
    if s.pc.toNat < maxProgramSize then return none
    else do
      let s ← emulateExit s
      return some s
  | env :: envs, s =>
    if s.pc.toNat < maxProgramSize then do
      match ← emulateStep env s with
      | .next s => emulateLoop envs s
      | .returned s => return some s
    else do
      let s ← emulateExit s
      return some s

def emulateX4 (envs : List Environment) (s : Machine) : Emulator (Option Machine) :=
  emulateLoop envs (emulateEnter s)

/-- A loop that returns leaves from a pass or behind one. -/
theorem exists_of_emulateLoop {envs : List Environment} {s t : Machine}
    (hpc : s.pc.toNat < maxProgramSize) (h : (emulateLoop envs s).value = .ok (some t)) :
    ∃ p ∈ passes envs s, (emulateStep p.1 p.2).value = .ok (.returned t) ∨
      ∃ u, (emulateStep p.1 p.2).value = .ok (.next u) ∧ ¬ u.pc.toNat < maxProgramSize ∧
        (emulateExit u).value = .ok t := by
  induction envs generalizing s with
  | nil =>
    rw [emulateLoop, if_pos hpc] at h
    cases h
  | cons env envs ih =>
    rw [emulateLoop, if_pos hpc, bind_value_eq_ok] at h
    obtain ⟨c, hc, h⟩ := h
    rw [passes, if_pos hpc, hc]
    cases c with
    | returned u =>
      cases h
      exact ⟨_, List.mem_cons_self, Or.inl hc⟩
    | next u =>
      have h : (emulateLoop envs u).value = .ok (some t) := h
      by_cases hu : u.pc.toNat < maxProgramSize
      · obtain ⟨p, hp, hleave⟩ := ih hu h
        exact ⟨p, List.mem_cons_of_mem _ hp, hleave⟩
      · -- the program counter has left the program
        have hexit : ∃ v, (emulateExit u).value = .ok v ∧
            (pure (some v) : Emulator (Option Machine)).value = .ok (some t) := by
          cases envs <;> rwa [emulateLoop, if_neg hu, bind_value_eq_ok] at h
        obtain ⟨v, hv, ht⟩ := hexit
        cases ht
        exact ⟨_, List.mem_cons_self, Or.inr ⟨u, hc, hu, hv⟩⟩

/-- **A call that returns** from a reachable machine returns a reachable one. -/
theorem Reachable.emulateX4 {envs : List Environment} {s t : Machine} (hs : Reachable s)
    (h : (emulateX4 envs s).value = .ok (some t)) : Reachable t := by
  obtain ⟨p, hp, hret | ⟨u, hu, hpc, hexit⟩⟩ := exists_of_emulateLoop
    (show (emulateEnter s).pc.toNat < maxProgramSize by show 0 < 256; decide) h
  · exact hs.returned hp hret
  · exact hs.exit hp hu hpc hexit

/-- The access mode and the heap range are the kernel's. -/
structure KernelContext (s : Machine) : Prop where
  mode : virtualAccessGetMode s.virtual = virtualAccessModeKernel.toInt8
  heapBegin : s.virtual.heapBegin = 0x00000000
  heapEnd : s.virtual.heapEnd = 0xffffffff

/-- The pass executes the interrupt that returns control to the operating system. -/
def ReturnsToSystem (env : Environment) (s : Machine) : Prop :=
  (programByte env s s.pc = 0xCC ∨ programByte env s s.pc = 0xCD) ∧
    programByte env s (s.pc + 1) = 0x20

instance (env : Environment) (s : Machine) : Decidable (ReturnsToSystem env s) := instDecidableAnd

section Returned

variable {env : Environment} {s : Machine}

theorem ensures_interrupt (argA : UInt8) :
    (interrupt env s argA).Ensures fun c => (∃ t, c = .returned t) ↔ argA = 0x20 := by
  rw [interrupt, ensures_bind]
  refine ensures_of_forall fun t => ?_
  rw [ensures_ite]
  constructor
  · intro h
    simp only [ensures_bind, ensures_ite, ensures_tell, ensures_pure]
    exact ⟨fun _ => iff_of_true ⟨_, rfl⟩ h, fun _ => iff_of_true ⟨_, rfl⟩ h⟩
  · intro h
    rw [ensures_pure]
    exact iff_of_false (by rintro ⟨_, ht⟩; cases ht) h

/-- **A pass leaves the loop** from inside when it executes interrupt `0x20`. -/
theorem returned_iff : (emulateStep env s).Ensures fun c =>
    (∃ t, c = .returned t) ↔ ReturnsToSystem env s := by
  rw [ensures_emulateStep, dispatch]
  split
  · next op hop =>
    -- the opcodes of the `switch` are none of the interrupts'
    have hne : ¬ ReturnsToSystem env s := by
      have hcc : OpCode.ofByte 0xCC = none := by decide
      have hcd : OpCode.ofByte 0xCD = none := by decide
      rintro ⟨h | h, -⟩
      · rw [h, hcc] at hop
        cases hop
      · rw [h, hcd] at hop
        cases hop
    rw [ensures_bind]
    refine ensures_of_forall fun t => ?_
    rw [ensures_pure]
    exact iff_of_false (by rintro ⟨_, ht⟩; cases ht) hne
  · rw [ensures_ite]
    constructor
    · intro h
      exact (ensures_interrupt _).mono fun c hc => hc.trans (and_iff_right h).symm
    · intro h
      rw [ensures_pure]
      exact iff_of_false (by rintro ⟨_, ht⟩; cases ht) fun hr => h hr.1

end Returned

/-- The end behind the loop restores the kernel's context. -/
theorem kernelContext_emulateExit (s : Machine) : (emulateExit s).Ensures KernelContext := by
  simp only [emulateExit, ensures_bind, ensures_ite, ensures_tell, ensures_pure]
  exact ⟨fun _ => ⟨rfl, rfl, rfl⟩, fun _ => ⟨rfl, rfl, rfl⟩⟩

/-- The user ranges are not the kernel's. -/
theorem not_kernelContext {s : Machine} (hs : s.virtual = userRanges) : ¬ KernelContext s := by
  rintro ⟨h, -, -⟩
  rw [hs] at h
  exact absurd h (by decide)

/-- The loop restores the kernel's context when no pass executes interrupt `0x20`. -/
theorem kernelContext_emulateLoop (envs : List Environment) {s : Machine}
    (hs : s.virtual = userRanges) : (emulateLoop envs s).Ensures fun r => ∀ t ∈ r,
      (KernelContext t ↔ ∀ p ∈ passes envs s, ¬ ReturnsToSystem p.1 p.2) := by
  induction envs generalizing s with
  | nil =>
    -- no pass is left: the run does not return, or it has left the loop
    rw [emulateLoop, ensures_ite]
    refine ⟨fun _ => by simp, fun _ => ?_⟩
    rw [ensures_bind]
    refine (kernelContext_emulateExit s).mono fun t ht => ?_
    rw [ensures_pure]
    rintro _ ⟨⟩
    exact iff_of_true ht fun p hp => absurd hp List.not_mem_nil
  | cons env envs ih =>
    rw [emulateLoop, passes, ensures_ite]
    refine ⟨fun hpc => ?_, fun hpc => ?_⟩
    · -- a pass returns exactly when it executes the interrupt
      rw [if_pos hpc, ensures_bind]
      intro c hc
      have hret := returned_iff c hc
      have hsame := (sameProgram_emulateStep c hc).virtual.trans hs
      rw [hc]
      cases c with
      | next t =>
        have hnot : ¬ ReturnsToSystem env s := fun h => by
          obtain ⟨_, ht⟩ := hret.mpr h
          cases ht
        refine (ih hsame).mono fun r hr u hu => (hr u hu).trans ?_
        simp [hnot]
      | returned t =>
        rw [ensures_pure]
        rintro _ ⟨⟩
        exact iff_of_false (not_kernelContext hsame) fun h =>
          h _ List.mem_cons_self (hret.mp ⟨t, rfl⟩)
    · -- the loop ends, and there are no more passes
      rw [if_neg hpc, ensures_bind]
      refine (kernelContext_emulateExit s).mono fun t ht => ?_
      rw [ensures_pure]
      rintro _ ⟨⟩
      exact iff_of_true ht fun p hp => absurd hp List.not_mem_nil

/-- **Leaving the emulator** restores the kernel's context exactly when the run does not leave
through interrupt `0x20`: for every program and every run that returns. -/
theorem kernelContext_iff (envs : List Environment) (s t : Machine)
    (h : (emulateX4 envs s).value = .ok (some t)) :
    KernelContext t ↔ ∀ p ∈ passes envs (emulateEnter s), ¬ ReturnsToSystem p.1 p.2 :=
  kernelContext_emulateLoop envs (virtual_emulateEnter s) _ h t rfl

/-- A jump behind the program buffer. -/
def jumpOut : List UInt8 := [0xFE, 0x00, 0x01, 0x00, 0x00]

/-- `kernelContext_iff` for `jumpOut`. -/
theorem kernelContext_jumpOut : ∃ s t, emulatorSetProgram jumpOut (.powerOn fun _ => 0) = .ok s ∧
    (emulateX4 [quiet] s).value = .ok (some t) ∧
      KernelContext t := by
  obtain ⟨s, t, hs, ht, hpasses⟩ : ∃ s t, emulatorSetProgram jumpOut (.powerOn fun _ => 0) = .ok s ∧
      (emulateX4 [quiet] s).value = .ok (some t) ∧
      ∀ p ∈ passes [quiet] (emulateEnter s), ¬ ReturnsToSystem p.1 p.2 :=
    ⟨_, _, rfl, rfl, by decide⟩
  exact ⟨s, t, hs, ht, (kernelContext_iff _ s t ht).mpr hpasses⟩

/-- Not every way out restores the kernel's context: a program of interrupt `0x20` leaves in user
mode. -/
theorem not_kernelContext_returned : ¬ ∀ (bytes : List UInt8) (envs : List Environment)
    (s t : Machine), emulatorSetProgram bytes (.powerOn fun _ => 0) = .ok s →
      (emulateX4 envs s).value = .ok (some t) → KernelContext t := by
  intro h
  obtain ⟨s, hs⟩ : ∃ s, emulatorSetProgram [0xCD, 0x20] (.powerOn fun _ => 0) = .ok s := ⟨_, rfl⟩
  obtain ⟨t, ht, hv⟩ : ∃ t, (emulateX4 [quiet] s).value = .ok (some t) ∧
      t.virtual = userRanges := by
    cases hs
    exact ⟨_, rfl, rfl⟩
  exact not_kernelContext hv (h _ _ s t hs ht)

end MicroKernel.X4
