import MicroKernel.Lib.Brackets
import MicroKernel.X4.Run

/-!
# What the branches of the X4 depend on

A conditional jump decodes the two flags of the last comparison, and a `RET` the one return address
of the last `CALL` or `RET`: over the passes of a run, both are the value of the latest pass that
decides it. `JL` jumps when the first operand is not greater, also when both are equal. The return
address is overwritten by a further `CALL` and cleared by a `RET`, so the `RET` of a call that made
another call goes on at address 0.

## Main definitions

* `ContinuesAt`: the loop goes on at an address
* `comparedAt`, `returnAddressAt`: what a pass compares, and the return address it leaves
* `FollowsComparison`: the conditional jumps decode a comparison, the rest keep the flags
* `IsCall`, `IsRet`: the passes that call and return

## Main results

* `passes_history`: the invariant rule for the passes of a run with those before them
* `followsComparison_iff`: when a pass follows the last comparison
* `continuesAt_of_matching`: where a `RET` goes on
-/

namespace MicroKernel.X4

open Traced

/-- A pass: the machine it starts from, and the environment of the pass. -/
abbrev Pass : Type := Environment × Machine

/-- The case of the `switch` a pass executes. -/
def opCodeAt (p : Pass) : Option OpCode := OpCode.ofByte (programByte p.1 p.2 p.2.pc)

/-- The target of a pass that jumps or calls. -/
def targetAt (p : Pass) : UInt32 := (operandsAt p.1 p.2).target

/-- The loop goes on at an address. -/
def ContinuesAt (p : Pass) (pc : UInt32) : Prop :=
  ∃ t, (emulateStep p.1 p.2).value = .ok (.next t) ∧ t.pc = pc

/-- A pass goes on at one address only. -/
theorem ContinuesAt.unique {p : Pass} {pc pc' : UInt32} (h : ContinuesAt p pc)
    (h' : ContinuesAt p pc') : pc = pc' := by
  obtain ⟨t, ht, rfl⟩ := h
  obtain ⟨u, hu, rfl⟩ := h'
  cases ht.symm.trans hu
  rfl

/-- The value of a pass is that of its instruction. -/
theorem emulateStep_value (p : Pass) : (emulateStep p.1 p.2).value =
    (dispatch p.1 { p.2 with pc := p.2.pc + 1 } (programByte p.1 p.2 p.2.pc)
      (operandsAt p.1 p.2)).value := rfl

/-- A pass of an opcode that only assigns goes on with what it assigns. -/
theorem emulateStep_value_of_pure {p : Pass} {op : OpCode} {t : Machine}
    (hop : opCodeAt p = some op)
    (ht : execute { p.2 with pc := p.2.pc + 1 } (operandsAt p.1 p.2) op = pure t) :
    (emulateStep p.1 p.2).value = .ok (.next t) := by
  have hop : OpCode.ofByte (programByte p.1 p.2 p.2.pc) = some op := hop
  rw [emulateStep_value, dispatch, hop]
  show (execute { p.2 with pc := p.2.pc + 1 } (operandsAt p.1 p.2) op >>= fun s =>
    pure (Control.next s)).value = .ok (.next t)
  rw [ht]
  rfl

theorem ensures_emulateStep_of_opCode {p : Pass} {op : OpCode} {Q : Control → Prop}
    (hop : opCodeAt p = some op) : (emulateStep p.1 p.2).Ensures Q ↔
      (execute { p.2 with pc := p.2.pc + 1 } (operandsAt p.1 p.2) op).Ensures fun t =>
        Q (.next t) := by
  have hop : OpCode.ofByte (programByte p.1 p.2 p.2.pc) = some op := hop
  rw [ensures_emulateStep, dispatch, hop]
  simp only [ensures_bind, ensures_pure]

/-- **The invariant rule** for the passes of a run with those before them. -/
theorem passes_history {Q : List Pass → Machine → Prop}
    (hstep : ∀ before (p : Pass) t, Q before p.2 →
      (emulateStep p.1 p.2).value = .ok (.next t) → Q (before ++ [p]) t)
    {envs : List Environment} {s : Machine} (hs : Q [] s) {before after : List Pass} {p : Pass}
    (h : passes envs s = before ++ p :: after) : Q before p.2 := by
  suffices hrun : ∀ envs s past before, Q past s → passes envs s = before ++ p :: after →
      Q (past ++ before) p.2 from hrun envs s [] before hs h
  intro envs
  induction envs with
  | nil => exact fun s past before _ h => absurd h.symm (by simp [passes])
  | cons env envs ih =>
    intro s past before hs h
    rw [passes] at h
    split_ifs at h with hpc
    · obtain ⟨rfl, hcons⟩ | ⟨before, rfl, htail⟩ := List.cons_eq_append_iff.mp h
      · cases hcons
        rwa [List.append_nil]
      · split at htail
        · next t ht =>
          have := ih t (past ++ [(env, s)]) before (hstep past (env, s) t hs ht) htail
          rwa [List.append_assoc] at this
        · exact absurd htail.symm (by simp)
    · exact absurd h.symm (by simp)

/-! ## What the passes leave -/

/-- All but the registers, the stack, the memory, the program counter and the console's flag are
the same. -/
def Moves (s t : Machine) : Prop := ∃ reg stack stackPtr pc flagConsoleDirty memory,
  t = { s with reg, stack, stackPtr, pc, flagConsoleDirty, memory }

section Frame

variable {env : Environment} {s t : Machine} {index : ℕ} {byte : UInt8}

theorem Moves.refl (s : Machine) : Moves s s := ⟨_, _, _, _, _, _, rfl⟩

theorem Moves.trans {u : Machine} (h : Moves s t) (h' : Moves t u) : Moves s u := by
  obtain ⟨_, _, _, _, _, _, rfl⟩ := h
  obtain ⟨_, _, _, _, _, _, rfl⟩ := h'
  exact ⟨_, _, _, _, _, _, rfl⟩

theorem moves_pc (pc : UInt32) : Moves s { s with pc } := ⟨_, _, _, _, _, _, rfl⟩

theorem moves_writeReg : (writeReg s index byte).Ensures (Moves s) := by
  rw [ensures_writeReg]
  exact fun _ => ⟨_, _, _, _, _, _, rfl⟩

/-- The instructions that neither compare nor call nor return. -/
theorem moves_execute (a : Operands) {op : OpCode} (hop : op ∉ [.cmp, .cmpr, .call, .ret]) :
    (execute s a op).Ensures (Moves s) := by
  cases op with
  | cmp | cmpr | call | ret => exact absurd hop (by decide)
  | inc | dec | not =>
    simp only [execute, unary, ensures_bind, ensures_readReg, ensures_writeReg, ensures_pure]
    exact fun _ _ => ⟨_, _, _, _, _, _, rfl⟩
  | add | sub | and | or | xor =>
    simp only [execute, binary, ensures_bind, ensures_readReg, ensures_writeReg, ensures_pure]
    exact fun _ _ _ => ⟨_, _, _, _, _, _, rfl⟩
  | movmr | movmw =>
    simp only [execute, ensures_ite, ensures_stop, ensures_bind, ensures_tell, ensures_readReg,
      ensures_writeReg, ensures_pure, implies_true, true_and]
    exact fun _ _ => ⟨_, _, _, _, _, _, rfl⟩
  | _ =>
    simp only [execute, ensures_bind, ensures_readReg, ensures_writeReg, ensures_readStack,
      ensures_writeStack, ensures_divide, ensures_tell, ensures_pure]
    intros
    exact ⟨_, _, _, _, _, _, rfl⟩

theorem moves_interruptRoutine (argA : UInt8) :
    (interruptRoutine env s argA).Ensures (Moves s) := by
  have hw : ∀ index byte, (writeReg s index byte).Ensures (Moves s) := fun _ _ => moves_writeReg
  simp only [interruptRoutine, iscDisplayRoutine, iscFileSystemRoutine, iscNetworkRoutine,
    iscOperatingSystem, ensures_ite, ensures_bind, ensures_readReg, ensures_tell, ensures_pure,
    Moves.refl, hw, implies_true, and_true, true_and]
  refine ⟨fun _ _ => ⟨fun _ _ _ => ensures_of_forall fun _ => ⟨_, _, _, _, _, _, rfl⟩,
    fun _ _ => ⟨_, _, _, _, _, _, rfl⟩⟩, ?_⟩
  exact fun _ _ _ _ _ _ _ _ _ _ _ => ⟨fun _ => ensures_true, fun _ _ => ensures_true⟩

theorem moves_interrupt (argA : UInt8) :
    (interrupt env s argA).Ensures fun c => Moves s c.machine := by
  rw [interrupt, ensures_bind]
  refine (moves_interruptRoutine argA).mono fun t ht => ?_
  have ht' : Moves s t := (moves_pc _).trans ht
  simp only [ensures_ite, ensures_bind, ensures_tell, ensures_pure, Control.machine_returned,
    Control.machine_next, ht', implies_true, and_self]

/-- **A pass** compares, calls or returns, or leaves all but what it moves. -/
theorem moves_emulateStep (p : Pass) :
    ((emulateStep p.1 p.2).Ensures fun c => Moves p.2 c.machine) ∨ opCodeAt p = some .cmp ∨
      opCodeAt p = some .cmpr ∨ opCodeAt p = some .call ∨ opCodeAt p = some .ret := by
  by_cases hp : ∀ op ∈ opCodeAt p, op ∉ ([.cmp, .cmpr, .call, .ret] : List OpCode)
  · left
    rw [ensures_emulateStep, dispatch]
    split
    · next op hop =>
      rw [ensures_bind]
      refine (moves_execute _ (hp op hop)).mono fun t ht => ?_
      rw [ensures_pure]
      exact (moves_pc _).trans ht
    · rw [ensures_ite]
      constructor
      · exact fun _ => (moves_interrupt _).mono fun c hc => (moves_pc _).trans hc
      · exact fun _ => (ensures_pure _).mpr (moves_pc _)
  · right
    obtain ⟨op, hop, hmem⟩ : ∃ op, opCodeAt p = some op ∧
        op ∈ ([.cmp, .cmpr, .call, .ret] : List OpCode) := by
      simpa only [not_forall, not_not, exists_prop, Option.mem_def] using hp
    simpa only [hop, Option.some.injEq, List.mem_cons, List.not_mem_nil, or_false] using hmem

end Frame

/-! ## Comparisons -/

/-- The operands a pass compares, when it executes `CMP` or `CMPR`. -/
def comparedAt (p : Pass) : Option (UInt8 × UInt8) :=
  let a := operandsAt p.1 p.2
  match opCodeAt p with
  | some .cmp => some (regAt p.2 a.argA.toNat, a.argB)
  | some .cmpr => some (regAt p.2 a.argA.toNat, regAt p.2 a.argB.toNat)
  | _ => none

/-- The flags encode the comparison of two bytes. -/
structure Encodes (s : Machine) (x y : UInt8) : Prop where
  flagCompare : s.flagCompare = if x = y then 1 else 0
  flagGreater : s.flagGreater = if x > y then 1 else 0

/-- Two machines have the same flags of a comparison. -/
structure SameFlags (s t : Machine) : Prop where
  flagCompare : t.flagCompare = s.flagCompare
  flagGreater : t.flagGreater = s.flagGreater

/-- The conditional jumps follow the comparison of two bytes, and what compares nothing keeps the
flags. -/
structure FollowsComparison (p : Pass) (x y : UInt8) : Prop where
  je : opCodeAt p = some .je → ContinuesAt p (if x = y then targetAt p else p.2.pc + 5)
  jne : opCodeAt p = some .jne → ContinuesAt p (if x ≠ y then targetAt p else p.2.pc + 5)
  jg : opCodeAt p = some .jg → ContinuesAt p (if x > y then targetAt p else p.2.pc + 5)
  jl : opCodeAt p = some .jl → ContinuesAt p (if x < y then targetAt p else p.2.pc + 5)
  keeps : comparedAt p = none → (emulateStep p.1 p.2).Ensures fun c => SameFlags p.2 c.machine

theorem encodes_compare (s : Machine) (x y : UInt8) : Encodes (compare s x y) x y := by
  rw [compare]
  split
  · next h =>
    subst h
    exact ⟨(if_pos rfl).symm, (if_neg (UInt8.lt_irrefl _)).symm⟩
  · next h => exact ⟨(if_neg h).symm, rfl⟩

/-- Two machines with the same flags encode the same comparison. -/
theorem Encodes.sameFlags {s t : Machine} {x y : UInt8} (h : Encodes s x y) (hs : SameFlags s t) :
    Encodes t x y :=
  ⟨hs.flagCompare.trans h.flagCompare, hs.flagGreater.trans h.flagGreater⟩

section Flags

variable {p : Pass} {x y : UInt8}

/-- A pass that compares encodes what it compares. -/
theorem encodes_emulateStep (h : comparedAt p = some (x, y)) :
    (emulateStep p.1 p.2).Ensures fun c => Encodes c.machine x y := by
  rw [comparedAt] at h
  split at h
  · next hop =>
    cases h
    rw [ensures_emulateStep_of_opCode hop]
    simp only [execute, ensures_bind, ensures_readReg, ensures_pure, Control.machine_next]
    intro hx
    rw [regAt_of_lt hx]
    exact (encodes_compare _ _ _).sameFlags ⟨rfl, rfl⟩
  · next hop =>
    cases h
    rw [ensures_emulateStep_of_opCode hop]
    simp only [execute, ensures_bind, ensures_readReg, ensures_pure, Control.machine_next]
    intro hx hy
    rw [regAt_of_lt hx, regAt_of_lt hy]
    exact (encodes_compare _ _ _).sameFlags ⟨rfl, rfl⟩
  · cases h

/-- A pass that compares nothing keeps the flags. -/
theorem sameFlags_emulateStep (h : comparedAt p = none) :
    (emulateStep p.1 p.2).Ensures fun c => SameFlags p.2 c.machine := by
  obtain hmoves | hop | hop | hop | hop := moves_emulateStep p
  · refine hmoves.mono fun c hc => ?_
    obtain ⟨_, _, _, _, _, _, hc⟩ := hc
    rw [hc]
    exact ⟨rfl, rfl⟩
  · rw [comparedAt, hop] at h
    cases h
  · rw [comparedAt, hop] at h
    cases h
  · rw [ensures_emulateStep_of_opCode hop]
    exact (ensures_pure _).mpr ⟨rfl, rfl⟩
  · rw [ensures_emulateStep_of_opCode hop]
    exact (ensures_pure _).mpr ⟨rfl, rfl⟩

/-- **The flags** encode the last comparison of a run. -/
theorem encodes_of_passes {envs : List Environment} {s : Machine} {before after : List Pass}
    (h : passes envs s = before ++ p :: after) (hxy : latest comparedAt before = some (x, y)) :
    Encodes p.2 x y := by
  refine passes_history (Q := fun before s => ∀ x y, latest comparedAt before = some (x, y) →
    Encodes s x y) ?_ (fun _ _ h => absurd h (by simp)) h x y hxy
  intro before q t hs ht x y hxy
  rw [latest_append, latest_singleton] at hxy
  cases hq : comparedAt q with
  | some xy =>
    rw [hq] at hxy
    cases hxy
    exact encodes_emulateStep hq _ ht
  | none =>
    rw [hq, Option.none_or] at hxy
    exact (hs x y hxy).sameFlags (sameFlags_emulateStep hq _ ht)

/-- A conditional jump goes on at its target when the flags say so. -/
theorem continuesAt_jumpIf {op : OpCode} {c : Prop} [Decidable c] (hop : opCodeAt p = some op)
    (h : execute { p.2 with pc := p.2.pc + 1 } (operandsAt p.1 p.2) op =
      pure (jumpIf c (operandsAt p.1 p.2) { p.2 with pc := p.2.pc + 1 })) :
    ContinuesAt p (if c then targetAt p else p.2.pc + 5) := by
  refine ⟨_, emulateStep_value_of_pure hop h, ?_⟩
  show (if c then targetAt p else p.2.pc + 1 + 4) = _
  rw [UInt32.add_assoc]
  rfl

/-- **The conditional jumps** follow the comparison the flags encode, except that `JL` also jumps
on equal operands. -/
theorem Encodes.follows_iff (h : Encodes p.2 x y) : FollowsComparison p x y ↔
    (opCodeAt p = some .jl → x = y → targetAt p = p.2.pc + 5) := by
  have hcompare : ∀ byte, p.2.flagCompare = byte ↔ (if x = y then 1 else 0) = byte := fun _ => by
    rw [h.flagCompare]
  have hgreater : ∀ byte, p.2.flagGreater = byte ↔ (if x > y then 1 else 0) = byte := fun _ => by
    rw [h.flagGreater]
  have hjl : opCodeAt p = some .jl →
      ContinuesAt p (if x ≤ y then targetAt p else p.2.pc + 5) := fun hop => by
    have := continuesAt_jumpIf (c := p.2.flagGreater = 0) hop rfl
    simpa [hgreater, UInt8.not_lt] using this
  constructor
  · rintro hf hop rfl
    have := (hf.jl hop).unique (hjl hop)
    simpa using this.symm
  · intro hcond
    refine ⟨fun hop => ?_, fun hop => ?_, fun hop => ?_, fun hop => ?_, sameFlags_emulateStep⟩
    · have := continuesAt_jumpIf (c := p.2.flagCompare = 1) hop rfl
      simpa [hcompare] using this
    · have := continuesAt_jumpIf (c := p.2.flagCompare = 0) hop rfl
      simpa [hcompare] using this
    · have := continuesAt_jumpIf (c := p.2.flagGreater = 1) hop rfl
      simpa [hgreater] using this
    · by_cases hxy : x = y
      · have := hjl hop
        rw [hcond hop hxy, ite_self] at this ⊢
        exact this
      · have hle : x ≤ y ↔ x < y := UInt8.le_iff_lt_or_eq.trans (or_iff_left hxy)
        simpa only [hle] using hjl hop

end Flags

/-- **The conditional jumps of a run** follow its last comparison, with operands `x` and `y`,
exactly when the pass is no `JL` on equal operands, or jumps to the next instruction anyway. -/
theorem followsComparison_iff (envs : List Environment) (s : Machine) (before after : List Pass)
    (p : Pass) (x y : UInt8) (hrun : passes envs (emulateEnter s) = before ++ p :: after)
    (hlast : latest comparedAt before = some (x, y)) : FollowsComparison p x y ↔
      (opCodeAt p = some .jl → x = y → targetAt p = p.2.pc + 5) :=
  (encodes_of_passes hrun hlast).follows_iff

/-- `CMP` of register 0 with `byte`, and `JL` to address 32. -/
def compareThenJumpLess (byte : UInt8) : List UInt8 :=
  [0x38, 0x00, byte, 0xF1, 0x20, 0x00, 0x00, 0x00]

/-- `followsComparison_iff` for the jump of `compareThenJumpLess`. -/
theorem followsComparison_compareThenJumpLess : ∃ s before p,
    emulatorSetProgram (compareThenJumpLess 1) (.powerOn fun _ => 0) = .ok s ∧
      passes [quiet, quiet] (emulateEnter s) = before ++ [p] ∧
      latest comparedAt before = some (0, 1) ∧
      opCodeAt p = some .jl ∧ FollowsComparison p 0 1 := by
  obtain ⟨s, hs⟩ : ∃ s, emulatorSetProgram (compareThenJumpLess 1) (.powerOn fun _ => 0) = .ok s :=
    ⟨_, rfl⟩
  obtain ⟨before, p, hrun, hlast, hop⟩ : ∃ before p,
      passes [quiet, quiet] (emulateEnter s) = before ++ [p] ∧
        latest comparedAt before = some (0, 1) ∧ opCodeAt p = some .jl := by
    cases hs
    exact ⟨[_], _, rfl, rfl, rfl⟩
  exact ⟨s, before, p, hs, hrun, hlast, hop,
    (followsComparison_iff _ s before [] p 0 1 hrun hlast).mpr fun _ heq => absurd heq (by decide)⟩

/-- The jumps do not always follow the last comparison: `JL` jumps on equal operands. -/
theorem not_followsComparison : ¬ ∀ (bytes : List UInt8) (envs : List Environment) (s : Machine)
    (before after : List Pass) (p : Pass) (x y : UInt8),
    emulatorSetProgram bytes (.powerOn fun _ => 0) = .ok s →
      passes envs (emulateEnter s) = before ++ p :: after →
      latest comparedAt before = some (x, y) → FollowsComparison p x y := by
  intro h
  obtain ⟨s, hs⟩ : ∃ s, emulatorSetProgram (compareThenJumpLess 0) (.powerOn fun _ => 0) = .ok s :=
    ⟨_, rfl⟩
  obtain ⟨before, p, hrun, hlast, hop, hgoes⟩ : ∃ before p,
      passes [quiet, quiet] (emulateEnter s) = before ++ [p] ∧
        latest comparedAt before = some (0, 0) ∧ opCodeAt p = some .jl ∧ ContinuesAt p 32 ∧
          p.2.pc + 5 ≠ 32 := by
    cases hs
    exact ⟨[_], _, rfl, rfl, rfl, ⟨_, rfl, rfl⟩, by decide⟩
  have hfollow := ((h _ _ s before [] p 0 0 hs hrun hlast).jl hop).unique hgoes.1
  exact hgoes.2 hfollow

/-! ## Calls -/

/-- The pass executes `CALL`. -/
def IsCall (p : Pass) : Prop := opCodeAt p = some .call

/-- The pass executes `RET`. -/
def IsRet (p : Pass) : Prop := opCodeAt p = some .ret

instance : DecidablePred IsCall := fun p => inferInstanceAs (Decidable (opCodeAt p = some .call))

instance : DecidablePred IsRet := fun p => inferInstanceAs (Decidable (opCodeAt p = some .ret))

/-- The return address a call or a return leaves. -/
def returnAddressAt (p : Pass) : Option UInt32 :=
  if IsCall p then some (p.2.pc + 5) else if IsRet p then some 0 else none

section Calls

variable {p : Pass}

theorem not_isRet_of_isCall (h : IsCall p) : ¬ IsRet p := fun hr => by
  cases h.symm.trans hr

/-- A pass that neither calls nor returns keeps the return address. -/
theorem pcRet_emulateStep (h : returnAddressAt p = none) :
    (emulateStep p.1 p.2).Ensures fun c => c.machine.pcRet = p.2.pcRet := by
  rw [returnAddressAt] at h
  split_ifs at h with hcall hret
  obtain hmoves | hop | hop | hop | hop := moves_emulateStep p
  · refine hmoves.mono fun c hc => ?_
    obtain ⟨_, _, _, _, _, _, hc⟩ := hc
    rw [hc]
  · rw [ensures_emulateStep_of_opCode hop]
    simp only [execute, compare, ensures_bind, ensures_readReg, ensures_pure]
    intro _
    split <;> rfl
  · rw [ensures_emulateStep_of_opCode hop]
    simp only [execute, compare, ensures_bind, ensures_readReg, ensures_pure]
    intro _ _
    split <;> rfl
  · exact absurd hop hcall
  · exact absurd hop hret

/-- A call or a return leaves its return address. -/
theorem pcRet_emulateStep_of_some {pc : UInt32} (h : returnAddressAt p = some pc) :
    (emulateStep p.1 p.2).Ensures fun c => c.machine.pcRet = pc := by
  rw [returnAddressAt] at h
  split_ifs at h with hcall hret
  · cases h
    rw [ensures_emulateStep_of_opCode hcall]
    refine (ensures_pure _).mpr ?_
    show p.2.pc + 1 + 4 = p.2.pc + 5
    rw [UInt32.add_assoc]
    rfl
  · cases h
    rw [ensures_emulateStep_of_opCode hret]
    exact (ensures_pure _).mpr rfl

/-- **The return address** is that of the last call or return of a run. -/
theorem pcRet_of_passes {envs : List Environment} {s : Machine} {before after : List Pass}
    (h : passes envs s = before ++ p :: after) (hs : s.pcRet = 0) :
    p.2.pcRet = (latest returnAddressAt before).getD 0 := by
  refine passes_history (Q := fun before s => s.pcRet = (latest returnAddressAt before).getD 0)
    ?_ hs h
  intro before q t hs ht
  rw [latest_append, latest_singleton]
  cases hq : returnAddressAt q with
  | some pc => exact pcRet_emulateStep_of_some hq _ ht
  | none =>
    rw [Option.none_or, ← hs]
    exact pcRet_emulateStep hq _ ht

/-- A return goes on at the return address. -/
theorem continuesAt_of_isRet (h : IsRet p) : ContinuesAt p p.2.pcRet :=
  ⟨_, emulateStep_value_of_pure h rfl, rfl⟩

/-- **Where a return goes on** that matches a call: behind the call when it made no further call,
else at address 0. -/
theorem continuesAt_of_matching {envs : List Environment} {s : Machine}
    {before after body : List Pass} {call : Pass}
    (h : passes envs s = before ++ p :: after) (hs : s.pcRet = 0) (hret : IsRet p)
    (hm : Matching IsCall IsRet before call body) :
    ContinuesAt p (if ∃ q ∈ body, IsCall q then 0 else call.2.pc + 5) := by
  obtain ⟨outer, rfl, hcall, hbody⟩ := hm
  have hother : ∀ q, ¬ IsCall q → ¬ IsRet q → returnAddressAt q = none := fun q hc hr => by
    rw [returnAddressAt, if_neg hc, if_neg hr]
  have hcloses : ∀ q, IsRet q → returnAddressAt q = some 0 := fun q hr => by
    rw [returnAddressAt, if_neg fun hc => not_isRet_of_isCall hc hr, if_pos hr]
  have hpc := pcRet_of_passes h hs
  rw [latest_append, latest_cons, returnAddressAt, if_pos hcall] at hpc
  have hgoes := continuesAt_of_isRet hret
  rw [hpc] at hgoes
  obtain ⟨hlatest, hnone⟩ | ⟨hlatest, hsome⟩ := hbody.latest_eq hother hcloses
  · rw [if_neg (by rintro ⟨q, hq, hcq⟩; exact hnone q hq hcq)]
    rwa [hlatest] at hgoes
  · rw [if_pos hsome]
    rwa [hlatest] at hgoes

end Calls

/-- The address behind a call of a run is not 0. -/
theorem behind_ne_zero {envs : List Environment} {s : Machine} {p : Pass} (hp : p ∈ passes envs s) :
    p.2.pc + 5 ≠ 0 := by
  have hpc : p.2.pc.toNat < 256 := (passes_induction (Q := fun _ => True)
    (fun _ _ _ => ensures_true) envs trivial p hp).1
  have hfive : (5 : UInt32).toNat = 5 := rfl
  intro h
  have := congrArg UInt32.toNat h
  rw [UInt32.toNat_add, hfive, UInt32.toNat_zero] at this
  omega

/-- **The returns of a run**, in any segment in which calls and returns are properly nested: each
matches a call, goes on behind that call exactly when no further call was made between the two, and
at address 0 otherwise. -/
theorem returns_of_balanced (envs : List Environment) (s : Machine)
    (before segment after : List Pass)
    (hrun : passes envs (emulateEnter s) = before ++ (segment ++ after))
    (hseg : Bracketed IsCall IsRet segment) (pre post : List Pass) (ret : Pass)
    (hsplit : segment = pre ++ ret :: post) (hret : IsRet ret) :
    (∃ call body, Matching IsCall IsRet pre call body) ∧
      ∀ call body, Matching IsCall IsRet pre call body →
        (ContinuesAt ret (call.2.pc + 5) ↔ ∀ q ∈ body, ¬ IsCall q) ∧
          ((∃ q ∈ body, IsCall q) → ContinuesAt ret 0) := by
  refine ⟨hseg.exists_matching (fun _ => not_isRet_of_isCall) hsplit hret, fun call body hm => ?_⟩
  rw [hsplit, List.append_assoc, List.cons_append, ← List.append_assoc] at hrun
  have hgoes := continuesAt_of_matching hrun rfl hret (hm.append before)
  have hbehind : call.2.pc + 5 ≠ 0 := by
    obtain ⟨outer, rfl, -⟩ := hm
    exact @behind_ne_zero envs (emulateEnter s) call (by rw [hrun]; simp)
  by_cases hcalls : ∃ q ∈ body, IsCall q
  · rw [if_pos hcalls] at hgoes
    refine ⟨iff_of_false (fun h => hbehind (h.unique hgoes)) fun h => ?_, fun _ => hgoes⟩
    obtain ⟨q, hq, hcq⟩ := hcalls
    exact h q hq hcq
  · rw [if_neg hcalls] at hgoes
    refine ⟨iff_of_true hgoes fun q hq hcq => hcalls ⟨q, hq, hcq⟩, fun h => absurd h hcalls⟩

/-- A call at address 0 of a procedure at 8 that calls one at 16. -/
def nestedCalls : List UInt8 :=
  [0x9A, 0x08, 0x00, 0x00, 0x00, 0x90, 0x90, 0x90, 0x9A, 0x10, 0x00, 0x00, 0x00, 0xCB, 0x90, 0x90,
    0xCB]

/-- The passes of `nestedCalls` up to its second return. -/
theorem passes_nestedCalls : ∃ s c₁ c₂ r₂ r₁,
    emulatorSetProgram nestedCalls (.powerOn fun _ => 0) = .ok s ∧
      passes [quiet, quiet, quiet, quiet] (emulateEnter s) = [c₁, c₂, r₂, r₁] ∧
      IsCall c₁ ∧ IsCall c₂ ∧ IsRet r₂ ∧ IsRet r₁ ∧ c₁.2.pc = 0 ∧ ContinuesAt r₁ 0 := by
  obtain ⟨s, hs⟩ : ∃ s, emulatorSetProgram nestedCalls (.powerOn fun _ => 0) = .ok s := ⟨_, rfl⟩
  refine ⟨s, ?_⟩
  cases hs
  exact ⟨_, _, _, _, rfl, rfl, rfl, rfl, rfl, rfl, rfl, _, rfl, rfl⟩

/-- `returns_of_balanced` for the outer return of `nestedCalls`. -/
theorem returns_of_nestedCalls : ∃ s c₁ c₂ r₂ r₁,
    emulatorSetProgram nestedCalls (.powerOn fun _ => 0) = .ok s ∧
      passes [quiet, quiet, quiet, quiet] (emulateEnter s) = [c₁, c₂, r₂, r₁] ∧ IsRet r₁ ∧
      (∃ call body, Matching IsCall IsRet [c₁, c₂, r₂] call body) ∧
        ∀ call body, Matching IsCall IsRet [c₁, c₂, r₂] call body →
          (ContinuesAt r₁ (call.2.pc + 5) ↔ ∀ q ∈ body, ¬ IsCall q) ∧
            ((∃ q ∈ body, IsCall q) → ContinuesAt r₁ 0) := by
  obtain ⟨s, c₁, c₂, r₂, r₁, hs, hrun, h₁, h₂, hr₂, hr₁, -⟩ := passes_nestedCalls
  have hseg : Bracketed IsCall IsRet [c₁, c₂, r₂, r₁] := .nested (l := [c₂, r₂]) h₁
    (.nested (l := []) h₂ .nil hr₂ .nil) hr₁ .nil
  exact ⟨s, c₁, c₂, r₂, r₁, hs, hrun, hr₁,
    returns_of_balanced _ s [] _ [] (by rw [hrun]; rfl) hseg [c₁, c₂, r₂] [] r₁ rfl hr₁⟩

/-- Calls do not always return to their caller: the outer return of `nestedCalls` does not. -/
theorem not_returns : ¬ ∀ (bytes : List UInt8) (envs : List Environment) (s : Machine)
    (before segment after : List Pass), emulatorSetProgram bytes (.powerOn fun _ => 0) = .ok s →
      passes envs (emulateEnter s) = before ++ (segment ++ after) →
      Bracketed IsCall IsRet segment → ∀ pre ret post, segment = pre ++ ret :: post → IsRet ret →
        ∀ call body, Matching IsCall IsRet pre call body → ContinuesAt ret (call.2.pc + 5) := by
  intro h
  obtain ⟨s, c₁, c₂, r₂, r₁, hs, hrun, h₁, h₂, hr₂, hr₁, hpc, hgoes⟩ := passes_nestedCalls
  have hbody : Bracketed IsCall IsRet [c₂, r₂] := .nested (l := []) h₂ .nil hr₂ .nil
  have hreturns := h _ _ s [] _ [] hs (by rw [hrun]; rfl) (.nested h₁ hbody hr₁ .nil) [c₁, c₂, r₂]
    r₁ [] rfl hr₁ c₁ [c₂, r₂] ⟨[], rfl, h₁, hbody⟩
  have := hreturns.unique hgoes
  rw [hpc] at this
  exact absurd this (by decide)

end MicroKernel.X4
