import MicroKernel.Lib.Related
import MicroKernel.X4.Run
import Mathlib.Data.Fintype.Pi

/-!
# What earlier programs leave in the emulator

Loading a program copies its bytes over the front of the program buffer, and entering the emulator
resets the counters and the flags. The rest of the buffer, the registers, the stack and the
parameter string stay as earlier programs left them. A run of a program is compared with the run of
the same program over other leftovers: it is the same as long as it completes its passes, uses only
bytes of its own image, reads only registers it has written, and uses no parameters of others. The
stack needs no more: what a run pops inside its array, it has pushed.

## Main definitions

* `Leftover`, `Machine.leave`: what earlier programs leave, and a machine with other leftovers
* `Agrees`: the leftovers agree with a machine in what the run has written
* `Effect.visible`: the bus accesses and the services
* `DefinedPass`, `DefinedRun`: the pass, and the run, use nothing that was left

## Main results

* `related_execute`, `related_interruptRoutine`, `related_emulateStep`: a defined pass is the same
  over other leftovers
* `emulateX4_independent`: a defined run does not depend on the programs before it
-/

namespace MicroKernel.X4

open Traced

/-- What loading and entering a program leave as they were. -/
structure Leftover where
  programBuffer : Fin maxProgramSize → UInt8
  paramString : Fin 32 → UInt8
  paramLength : UInt32
  reg : Fin 8 → UInt8
  stack : Fin 100 → UInt8

/-- The machine with other leftovers. -/
def Machine.leave (s : Machine) (l : Leftover) : Machine :=
  { s with
    programBuffer := l.programBuffer
    paramString := l.paramString
    paramLength := l.paramLength
    reg := l.reg
    stack := l.stack }

/-- The leftovers agree with a machine in the image of its program, in the registers written, on
its stack, and in the parameters when these are `shared`. -/
structure Agrees (shared : Prop) (size : ℕ) (written : List ℕ) (s : Machine) (l : Leftover) :
    Prop where
  program : ∀ i : Fin maxProgramSize, i.val < size → l.programBuffer i = s.programBuffer i
  param : shared → l.paramString = s.paramString ∧ l.paramLength = s.paramLength
  reg : ∀ r : Fin 8, r.val ∈ written → l.reg r = s.reg r
  stack : ∀ i : Fin 100, i.val < s.stackPtr.toNat → l.stack i = s.stack i

/-- Two machines that differ in leftovers only. -/
def SameUpTo (shared : Prop) (size : ℕ) (written : List ℕ) (s t : Machine) : Prop :=
  ∃ l, t = s.leave l ∧ Agrees shared size written s l

/-- The effects seen outside of the emulator. -/
def Effect.visible : Effect → Bool
  | .programBuffer _ | .paramString _ | .reg _ | .stack _ | .divide _ => false
  | _ => true

/-! ## Defined passes -/

/-- The byte at an index is one of the program's. -/
def InImage (size : ℕ) (index : UInt32) : Prop := index.toNat < size

instance (size : ℕ) (index : UInt32) : Decidable (InImage size index) :=
  inferInstanceAs (Decidable (index.toNat < size))

/-- A fetch of a service is of a byte in the image, or inside the parameter string. -/
def Effect.FetchesImage (size : ℕ) : Effect → Prop
  | .programBuffer index => InImage size index
  | .paramString index => index.toNat < 32
  | _ => True

instance (size : ℕ) : (e : Effect) → Decidable (e.FetchesImage size)
  | .programBuffer index => inferInstanceAs (Decidable (InImage size index))
  | .paramString index => inferInstanceAs (Decidable (index.toNat < 32))
  | .reg _ | .stack _ | .divide _ | .busReadMemory _ | .busWriteMemory _ _
  | .printChar _ | .printLn | .consoleClearScreen | .consoleSetCursor _ _ | .ntInit
  | .ntCheckInitiated | .ntSend _ | .loadLibrary | .cli | .sei => isTrue trivial

/-- The operand bytes an instruction uses; a jump that is not taken uses none. -/
def operandCount (s : Machine) : OpCode → ℕ
  | .nop | .ret | .cli | .sti => 0
  | .inc | .dec | .not | .pop | .push => 1
  | .movr | .movb | .add | .sub | .and | .or | .xor | .cmp | .cmpr => 2
  | .mova | .mul | .div => 3
  | .jmp | .call => 4
  | .je => if s.flagCompare = 1 then 4 else 0
  | .jne => if s.flagCompare = 0 then 4 else 0
  | .jg => if s.flagGreater = 1 then 4 else 0
  | .jl => if s.flagGreater = 0 then 4 else 0
  | .movmr | .movmw => 5

/-- The registers an instruction reads. -/
def OpCode.reads (a : Operands) : OpCode → List ℕ
  | .movmw | .inc | .dec | .not | .push | .cmp => [a.argA.toNat]
  | .movr => [a.argB.toNat]
  | .add | .sub | .and | .or | .xor | .cmpr => [a.argA.toNat, a.argB.toNat]
  | .mul | .div => [a.argB.toNat, a.argC.toNat]
  | _ => []

/-- The registers an instruction writes. -/
def OpCode.writes (a : Operands) : OpCode → List ℕ
  | .movmr | .movr | .movb | .inc | .dec | .not | .add | .sub | .and | .or | .xor | .mul | .div
  | .pop => [a.argA.toNat]
  | .mova => [a.argA.toNat + 1, a.argA.toNat]
  | _ => []

/-- The message of a send of the network routine lies in the program. -/
def MessageInBounds (s : Machine) : Prop :=
  ¬ (pointer (s.reg 6) (s.reg 7) 0 0 ≥ s.programSize ∨
    pointer (s.reg 6) (s.reg 7) 0 0 + (s.reg 4).toUInt32 ≥ s.programSize)

instance (s : Machine) : Decidable (MessageInBounds s) := instDecidableNot

/-- The registers an interrupt routine reads. -/
def routineReads (s : Machine) (argA : UInt8) : List ℕ :=
  if argA = 0x10 then rAH :: if s.reg 1 = 0x09 then [rDH, rDL] else []
  else if argA = 0x14 then
    rAH :: if s.reg 1 = 0x0C then rDH :: rDL :: rCL :: if MessageInBounds s then [rAL] else []
      else []
  else if argA = 0x47 then [rAH]
  else []

/-- The registers an interrupt routine writes. -/
def routineWrites (env : Environment) (s : Machine) (argA : UInt8) : List ℕ :=
  if argA = 0x10 then if s.reg 1 = 0x09 ∨ s.reg 1 = 0x03 then [] else [rBL]
  else if argA = 0x13 then [rBL]
  else if argA = 0x14 then [rBL]
  else if argA = 0x47 then
    if s.reg 1 = 0x0A ∧ (env.loadLibrary = -1 ∨ env.loadLibrary = -2 ∨ env.loadLibrary = -3 ∨
      env.loadLibrary ≥ 0) then [rBL] else []
  else []

/-- The network routine sends the parameter string, or the operating system loads the library it
names. -/
def UsesParameters (s : Machine) (argA : UInt8) : Prop :=
  argA = 0x14 ∧ s.reg 1 = 0x0C ∧ MessageInBounds s ∧ s.reg 0 = 0x01 ∨ argA = 0x47 ∧ s.reg 1 = 0x0A

instance (s : Machine) (argA : UInt8) : Decidable (UsesParameters s argA) := instDecidableOr

/-- An interrupt routine uses nothing that was left. -/
structure DefinedRoutine (shared : Prop) (size : ℕ) (written : List ℕ) (env : Environment)
    (s : Machine) (argA : UInt8) : Prop where
  reads : ∀ r ∈ routineReads s argA, r ∈ written
  fetches : (interruptRoutine env s argA).All (Effect.FetchesImage size)
  param : UsesParameters s argA → shared

/-- What a pass executes uses nothing that was left. -/
def DefinedInstruction (shared : Prop) (size : ℕ) (written : List ℕ) (env : Environment)
    (s : Machine) : Option OpCode → Prop
  | some op =>
    (∀ k ∈ [1, 2, 3, 4, 5].take (operandCount s op), InImage size (s.pc + k)) ∧
      ∀ r ∈ op.reads (operandsAt env s), r ∈ written
  | none =>
    programByte env s s.pc = 0xCC ∨ programByte env s s.pc = 0xCD →
      InImage size (s.pc + 1) ∧
        DefinedRoutine shared size written env { s with pc := s.pc + 1 + 1 }
          (programByte env s (s.pc + 1))

/-- A pass uses nothing that was left. -/
def DefinedPass (shared : Prop) (size : ℕ) (written : List ℕ) (env : Environment) (s : Machine) :
    Prop :=
  InImage size s.pc ∧
    DefinedInstruction shared size written env s (OpCode.ofByte (programByte env s s.pc))

/-- The registers a pass writes. -/
def passWrites (env : Environment) (s : Machine) : List ℕ :=
  match OpCode.ofByte (programByte env s s.pc) with
  | some op => op.writes (operandsAt env s)
  | none =>
    if programByte env s s.pc = 0xCC ∨ programByte env s s.pc = 0xCD then
      routineWrites env { s with pc := s.pc + 1 + 1 } (programByte env s (s.pc + 1))
    else []

/-- Every register is written: so are then those a run returns. -/
def AllWritten (written : List ℕ) : Prop := ∀ r < 8, r ∈ written

/-- What holds behind a pass: `next` when the loop goes on, and every register is written when it
is left. A pass that does not complete, as an access outside of an array does not, is behind none. -/
def BehindPass (next : Machine → Prop) (written : List ℕ) : Except Stop Control → Prop
  | .ok (.next t) => next t
  | .ok (.returned _) => AllWritten written
  | .error _ => False

/-- Every pass of a run completes and uses nothing that was left, and a run that returns has written
every register. -/
def DefinedRun (shared : Prop) (size : ℕ) : List Environment → List ℕ → Machine → Prop
  | [], written, s => s.pc.toNat < maxProgramSize ∨ AllWritten written
  | env :: envs, written, s =>
    if s.pc.toNat < maxProgramSize then
      DefinedPass shared size written env s ∧
        BehindPass (DefinedRun shared size envs (passWrites env s ++ written))
          (passWrites env s ++ written) (emulateStep env s).value
    else AllWritten written

section Decidable

variable (shared : Prop) [Decidable shared] (size : ℕ) (written : List ℕ) (env : Environment)
  (s : Machine)

instance (argA : UInt8) : Decidable (DefinedRoutine shared size written env s argA) :=
  decidable_of_iff ((∀ r ∈ routineReads s argA, r ∈ written) ∧
      (interruptRoutine env s argA).All (Effect.FetchesImage size) ∧
        (UsesParameters s argA → shared))
    ⟨fun ⟨h₁, h₂, h₃⟩ => ⟨h₁, h₂, h₃⟩, fun ⟨h₁, h₂, h₃⟩ => ⟨h₁, h₂, h₃⟩⟩

instance : (op : Option OpCode) → Decidable (DefinedInstruction shared size written env s op)
  -- over the list of operands: not over all of `UInt32`
  | some _ => @instDecidableAnd _ _ (List.decidableBAll _ _) inferInstance
  | none => inferInstanceAs (Decidable (_ → _ ∧ _))

instance : Decidable (DefinedPass shared size written env s) := instDecidableAnd

instance : Decidable (AllWritten written) := inferInstanceAs (Decidable (∀ r < 8, r ∈ written))

instance (next : Machine → Prop) [DecidablePred next] :
    (c : Except Stop Control) → Decidable (BehindPass next written c)
  | .ok (.next t) => inferInstanceAs (Decidable (next t))
  | .ok (.returned _) => inferInstanceAs (Decidable (AllWritten written))
  | .error _ => isFalse id

instance DefinedRun.decidable : (envs : List Environment) → (written : List ℕ) → (s : Machine) →
    Decidable (DefinedRun shared size envs written s)
  | [], _, _ => instDecidableOr
  | env :: envs, written, s =>
    have : DecidablePred (DefinedRun shared size envs (passWrites env s ++ written)) :=
      DefinedRun.decidable envs (passWrites env s ++ written)
    inferInstanceAs (Decidable (if s.pc.toNat < maxProgramSize then
      DefinedPass shared size written env s ∧
        BehindPass (DefinedRun shared size envs (passWrites env s ++ written))
          (passWrites env s ++ written) (emulateStep env s).value
      else AllWritten written))

end Decidable

/-! ## Array accesses -/

section Accesses

variable {shared : Prop} {size : ℕ} {written written' : List ℕ} {env : Environment} {s t : Machine}
  {l : Leftover} {index : ℕ}

theorem Agrees.mono (h : Agrees shared size written s l) (hw : ∀ r ∈ written', r ∈ written) :
    Agrees shared size written' s l :=
  ⟨h.program, h.param, fun r hr => h.reg r (hw r hr), h.stack⟩

/-- Moving the program counter keeps what the leftovers agree in. -/
theorem SameUpTo.pc (h : SameUpTo shared size written s t) (n : UInt32) :
    SameUpTo shared size written { s with pc := s.pc + n } { t with pc := t.pc + n } := by
  obtain ⟨l, rfl, hl⟩ := h
  exact ⟨l, rfl, hl.program, hl.param, hl.reg, hl.stack⟩

/-- A byte in the image is the same over other leftovers. -/
theorem programByte_leave (h : Agrees shared size written s l) {i : UInt32} (hi : InImage size i) :
    programByte env (s.leave l) i = programByte env s i := by
  rw [programByte, programByte]
  split
  · exact h.program _ hi
  · rfl

theorem related_fetch (h : Agrees shared size written s l) {i : UInt32} (hi : InImage size i) :
    Related Effect.visible (fun x y => x = programByte env s i ∧ y = programByte env s i)
      (fetch env s i) (fetch env (s.leave l) i) :=
  ⟨rfl, Or.inr ⟨_, _, rfl, rfl, rfl, programByte_leave h hi⟩⟩

theorem related_readReg (h : Agrees shared size written s l) (hr : index ∈ written) :
    Related Effect.visible (fun x y => y = x) (readReg s index) (readReg (s.leave l) index) := by
  rw [readReg, readReg]
  by_cases hlt : index < 8
  · rw [dif_pos hlt, dif_pos hlt]
    exact (Related.tell _).bind fun _ _ _ => Related.pure (h.reg ⟨index, hlt⟩ hr)
  · rw [dif_neg hlt, dif_neg hlt]
    exact (Related.tell _).bind fun _ _ _ => Related.stop _

theorem related_writeReg (h : Agrees shared size written s l) (index : ℕ) (byte : UInt8) :
    Related Effect.visible
      (fun u v => SameUpTo shared size (index :: written) u v ∧ u.stackPtr = s.stackPtr)
      (writeReg s index byte) (writeReg (s.leave l) index byte) := by
  rw [writeReg, writeReg]
  by_cases hlt : index < 8
  · rw [dif_pos hlt, dif_pos hlt]
    refine (Related.tell _).bind fun _ _ _ => Related.pure
      ⟨⟨{ l with reg := Function.update l.reg ⟨index, hlt⟩ byte }, rfl, h.program, h.param, ?_,
        h.stack⟩, rfl⟩
    intro r hr
    show Function.update l.reg ⟨index, hlt⟩ byte r = Function.update s.reg ⟨index, hlt⟩ byte r
    by_cases heq : r = ⟨index, hlt⟩
    · rw [heq, Function.update_self, Function.update_self]
    · rw [Function.update_of_ne heq, Function.update_of_ne heq]
      refine h.reg r ((List.mem_cons.mp hr).resolve_left fun hri => heq (Fin.ext hri))
  · rw [dif_neg hlt, dif_neg hlt]
    exact (Related.tell _).bind fun _ _ _ => Related.stop _

/-- What is popped was pushed. -/
theorem related_pop (h : Agrees shared size written s l) :
    Related Effect.visible (fun x y => y = x ∧ (s.stackPtr - 1).toNat < s.stackPtr.toNat)
      (readStack s (s.stackPtr - 1)) (readStack (s.leave l) (s.stackPtr - 1)) := by
  rw [readStack, readStack]
  by_cases hlt : (s.stackPtr - 1).toNat < 100
  · rw [dif_pos hlt, dif_pos hlt]
    have hptr : (s.stackPtr - 1).toNat < s.stackPtr.toNat := by
      have hone : (1 : UInt32).toNat = 1 := rfl
      have hsize := s.stackPtr.toNat_lt
      rw [UInt32.toNat_sub, hone] at hlt ⊢
      omega
    exact (Related.tell _).bind fun _ _ _ => Related.pure ⟨h.stack ⟨_, hlt⟩ hptr, hptr⟩
  · rw [dif_neg hlt, dif_neg hlt]
    exact (Related.tell _).bind fun _ _ _ => Related.stop _

/-- Pushing a byte. -/
theorem related_push (h : Agrees shared size written s l) (byte : UInt8) :
    Related Effect.visible
      (fun u v => SameUpTo shared size written { u with stackPtr := u.stackPtr + 1 }
        { v with stackPtr := v.stackPtr + 1 })
      (writeStack s s.stackPtr byte) (writeStack (s.leave l) s.stackPtr byte) := by
  rw [writeStack, writeStack]
  by_cases hlt : s.stackPtr.toNat < 100
  · rw [dif_pos hlt, dif_pos hlt]
    refine (Related.tell _).bind fun _ _ _ => Related.pure
      ⟨{ l with stack := Function.update l.stack ⟨_, hlt⟩ byte }, rfl, h.program, h.param, h.reg,
        ?_⟩
    intro i hi
    show Function.update l.stack ⟨_, hlt⟩ byte i = Function.update s.stack ⟨_, hlt⟩ byte i
    by_cases heq : i = ⟨s.stackPtr.toNat, hlt⟩
    · rw [heq, Function.update_self, Function.update_self]
    · rw [Function.update_of_ne heq, Function.update_of_ne heq]
      have hone : (1 : UInt32).toNat = 1 := rfl
      have hne : i.val ≠ s.stackPtr.toNat := fun h => heq (Fin.ext h)
      have hi : i.val < (s.stackPtr + 1).toNat := hi
      rw [UInt32.toNat_add, hone] at hi
      exact h.stack i (by omega)
  · rw [dif_neg hlt, dif_neg hlt]
    exact (Related.tell _).bind fun _ _ _ => Related.stop _

end Accesses

/-! ## Instructions -/

/-- The first operands are the same. -/
def Operands.AgreesUpTo (n : ℕ) (a b : Operands) : Prop :=
  (0 < n → b.argA = a.argA) ∧ (1 < n → b.argB = a.argB) ∧ (2 < n → b.argC = a.argC) ∧
    (3 < n → b.argD = a.argD) ∧ (4 < n → b.argE = a.argE)

section Instructions

variable {shared : Prop} {size : ℕ} {written : List ℕ} {env : Environment} {s : Machine}
  {l : Leftover} {a b : Operands} {op : OpCode}

/-- An instruction depends on the operands it uses only. -/
theorem execute_congr (h : a.AgreesUpTo (operandCount s op) b) :
    execute s b op = execute s a op := by
  obtain ⟨hA, hB, hC, hD, hE⟩ := h
  cases op with
  | je | jne | jg | jl =>
    simp only [execute, jumpIf]
    split
    · next hc =>
      simp only [operandCount, hc, if_true] at hA hB hC hD
      rw [Operands.target, Operands.target, hA (by decide), hB (by decide), hC (by decide),
        hD (by decide)]
    · rfl
  | nop | ret | cli | sti => rfl
  | inc | dec | not | pop | push => simp only [execute, unary, hA (by decide : 0 < 1)]
  | jmp | call =>
    simp only [execute, Operands.target, hA (by decide : 0 < 4), hB (by decide : 1 < 4),
      hC (by decide : 2 < 4), hD (by decide : 3 < 4)]
  | movmr | movmw =>
    have hoffset : b.offset = a.offset := by
      rw [Operands.offset, Operands.offset, hB (by decide : 1 < 5), hC (by decide : 2 < 5),
        hD (by decide : 3 < 5), hE (by decide : 4 < 5)]
    rw [execute, execute, hoffset, hA (by decide : 0 < 5)]
  | mova | mul | div =>
    simp only [execute, hA (by decide : 0 < 3), hB (by decide : 1 < 3), hC (by decide : 2 < 3)]
  | _ => simp only [execute, binary, hA (by decide : 0 < 2), hB (by decide : 1 < 2)]

theorem sameUpTo_compare (h : Agrees shared size written s l) (x y : UInt8) :
    SameUpTo shared size written (compare s x y) (compare (s.leave l) x y) := by
  rw [compare, compare]
  split <;> exact ⟨l, rfl, h.1, h.2, h.3, h.4⟩

theorem related_binary (h : Agrees shared size written s l) (f : UInt8 → UInt8 → UInt8)
    (hA : a.argA.toNat ∈ written) (hB : a.argB.toNat ∈ written) :
    Related Effect.visible (SameUpTo shared size (a.argA.toNat :: written)) (binary f a s)
      (binary f a (s.leave l)) := by
  refine (related_readReg h hA).bind fun x _ hx => ?_
  subst hx
  refine (related_readReg h hB).bind fun y _ hy => ?_
  subst hy
  exact (related_writeReg h _ _).bind fun u v huv => Related.pure (huv.1.pc 2)

theorem related_unary (h : Agrees shared size written s l) (f : UInt8 → UInt8) (length : UInt32)
    (hA : a.argA.toNat ∈ written) :
    Related Effect.visible (SameUpTo shared size (a.argA.toNat :: written)) (unary f length a s)
      (unary f length a (s.leave l)) := by
  refine (related_readReg h hA).bind fun x _ hx => ?_
  subst hx
  exact (related_writeReg h _ _).bind fun u v huv => Related.pure (huv.1.pc length)

/-- **An instruction** whose registers are written is the same over other leftovers. -/
theorem related_execute (h : Agrees shared size written s l)
    (hr : ∀ r ∈ op.reads a, r ∈ written) :
    Related Effect.visible (SameUpTo shared size (op.writes a ++ written)) (execute s a op)
      (execute (s.leave l) a op) := by
  have hself : SameUpTo shared size written s (s.leave l) := ⟨l, rfl, h⟩
  -- each register that is read is the same, and what is written joins the written ones
  cases op with
  | nop => exact Related.pure hself
  | movmr =>
    refine Related.ite (fun _ => Related.stop _) fun _ => ?_
    refine (Related.tell _).bind fun _ _ _ => ?_
    exact (related_writeReg h _ _).bind fun u v huv => Related.pure (huv.1.pc 5)
  | movmw =>
    refine Related.ite (fun _ => Related.stop _) fun _ => ?_
    refine (related_readReg h (hr _ (by simp [OpCode.reads]))).bind fun x _ hx => ?_
    subst hx
    exact (Related.tell _).bind fun _ _ _ => Related.pure ⟨l, rfl, h.1, h.2, h.3, h.4⟩
  | movr =>
    refine (related_readReg h (hr _ (by simp [OpCode.reads]))).bind fun x _ hx => ?_
    subst hx
    exact (related_writeReg h _ _).bind fun u v huv => Related.pure (huv.1.pc 2)
  | movb => exact (related_writeReg h _ _).bind fun u v huv => Related.pure (huv.1.pc 2)
  | mova =>
    refine (related_writeReg h _ _).bind fun u v huv => ?_
    obtain ⟨⟨l', rfl, h'⟩, -⟩ := huv
    exact (related_writeReg h' _ _).bind fun u v huv => Related.pure (huv.1.pc 5)
  | inc | dec | not => exact related_unary h _ _ (hr _ (by simp [OpCode.reads]))
  | add | sub | and | or | xor =>
    exact related_binary h _ (hr _ (by simp [OpCode.reads])) (hr _ (by simp [OpCode.reads]))
  | mul =>
    refine (related_readReg h (hr _ (by simp [OpCode.reads]))).bind fun x _ hx => ?_
    subst hx
    refine (related_readReg h (hr _ (by simp [OpCode.reads]))).bind fun y _ hy => ?_
    subst hy
    exact (related_writeReg h _ _).bind fun u v huv => Related.pure (huv.1.pc 3)
  | div =>
    refine (related_readReg h (hr _ (by simp [OpCode.reads]))).bind fun x _ hx => ?_
    subst hx
    refine (related_readReg h (hr _ (by simp [OpCode.reads]))).bind fun y _ hy => ?_
    subst hy
    refine (Related.same _).bind fun q _ hq => ?_
    subst hq
    exact (related_writeReg h _ _).bind fun u v huv => Related.pure (huv.1.pc 3)
  | pop =>
    -- what lies above the new stack pointer no longer counts
    refine (related_pop h).bind fun x _ hx => ?_
    obtain ⟨rfl, hptr⟩ := hx
    refine (related_writeReg h _ _).bind fun u v huv => ?_
    obtain ⟨⟨l', rfl, h'⟩, hu⟩ := huv
    refine Related.pure ⟨l', rfl, h'.program, h'.param, h'.reg, fun i hi => h'.stack i ?_⟩
    have hi : i.val < (u.stackPtr - 1).toNat := hi
    rw [hu] at hi ⊢
    omega
  | push =>
    refine (related_readReg h (hr _ (by simp [OpCode.reads]))).bind fun x _ hx => ?_
    subst hx
    exact (related_push h _).bind fun u v huv => Related.pure (huv.pc 1)
  | cmp =>
    refine (related_readReg h (hr _ (by simp [OpCode.reads]))).bind fun x _ hx => ?_
    subst hx
    exact Related.pure ((sameUpTo_compare h _ _).pc 2)
  | cmpr =>
    refine (related_readReg h (hr _ (by simp [OpCode.reads]))).bind fun x _ hx => ?_
    subst hx
    refine (related_readReg h (hr _ (by simp [OpCode.reads]))).bind fun y _ hy => ?_
    subst hy
    exact Related.pure ((sameUpTo_compare h _ _).pc 2)
  | jmp | je | jne | jg | jl | call | ret => exact Related.pure ⟨l, rfl, h.1, h.2, h.3, h.4⟩
  | cli | sti => exact (Related.tell _).bind fun _ _ _ => Related.pure hself

end Instructions

/-! ## Interrupt routines -/

section Routines

variable {shared : Prop} {size : ℕ} {written : List ℕ} {env : Environment} {s : Machine}
  {l : Leftover} {argA : UInt8}

/-- A written register read by its name. -/
theorem related_reg (h : Agrees shared size written s l) (r : Fin 8) (hr : r.val ∈ written) :
    Related Effect.visible (fun x y => x = s.reg r ∧ y = s.reg r) (readReg s r)
      (readReg (s.leave l) r) := by
  rw [readReg, readReg, dif_pos r.isLt, dif_pos r.isLt]
  exact (Related.tell _).bind fun _ _ _ => Related.pure ⟨rfl, h.reg r hr⟩

/-- Printing a string of the image. -/
theorem related_displayString (h : Agrees shared size written s l) {offset : UInt32} (left : ℕ)
    (i : UInt32) (hin : (displayString env s offset left i).All (Effect.FetchesImage size)) :
    Related Effect.visible (fun _ _ => True) (displayString env s offset left i)
      (displayString env (s.leave l) offset left i) := by
  induction left generalizing i with
  | zero => exact Related.pure trivial
  | succ left ih =>
    simp only [displayString, all_bind, all_fetch, ensures_fetch, all_ite, all_tell,
      ensures_tell] at hin
    obtain ⟨hfetch, -, hrest⟩ := hin
    refine (related_fetch h hfetch).bind fun x y hxy => ?_
    obtain ⟨rfl, rfl⟩ := hxy
    refine Related.ite (fun _ => Related.pure trivial) fun h0 => ?_
    refine Related.ite (fun h10 => ?_) fun h10 => ?_
    · exact (Related.tell _).bind fun _ _ _ => ih _ ((hrest h0).1 h10).2
    · exact (Related.tell _).bind fun _ _ _ => ih _ ((hrest h0).2 h10).2

/-- Sending bytes of the image. -/
theorem related_ntSend (h : Agrees shared size written s l) {offset : UInt32} (left : ℕ)
    (i : UInt32) (hin : (ntSend env s offset left i).All (Effect.FetchesImage size)) :
    Related Effect.visible (fun _ _ => True) (ntSend env s offset left i)
      (ntSend env (s.leave l) offset left i) := by
  induction left generalizing i with
  | zero => exact Related.pure trivial
  | succ left ih =>
    simp only [ntSend, all_bind, all_fetch, ensures_fetch, all_tell, ensures_tell] at hin
    obtain ⟨hfetch, -, hrest⟩ := hin
    refine (related_fetch h hfetch).bind fun x y hxy => ?_
    obtain ⟨rfl, rfl⟩ := hxy
    exact (Related.tell _).bind fun _ _ _ => ih _ hrest

/-- Sending shared parameters. -/
theorem related_ntSendParam (hparam : l.paramString = s.paramString) (left : ℕ) (i : UInt32) :
    Related Effect.visible (fun _ _ => True) (ntSendParam env s left i)
      (ntSendParam env (s.leave l) left i) := by
  induction left generalizing i with
  | zero => exact Related.pure trivial
  | succ left ih =>
    have hfetch : fetchParam env (s.leave l) i = fetchParam env s i := by
      rw [fetchParam, fetchParam]
      show (do tell _; Pure.pure (if h : _ then l.paramString _ else _)) = _
      rw [hparam]
    rw [ntSendParam, ntSendParam, hfetch]
    refine (Related.same _).bind fun x y hxy => ?_
    obtain rfl := hxy
    exact (Related.tell _).bind fun _ _ _ => ih _

/-- Writing a result to BL. -/
theorem related_writeBL (h : Agrees shared size written s l) (byte : UInt8) :
    Related Effect.visible (SameUpTo shared size (rBL :: written)) (writeReg s rBL byte)
      (writeReg (s.leave l) rBL byte) :=
  (related_writeReg h rBL byte).mono fun _ _ huv => huv.1

theorem related_iscDisplayRoutine (h : Agrees shared size written s l)
    (hd : DefinedRoutine shared size written env s 0x10) :
    Related Effect.visible (SameUpTo shared size (routineWrites env s 0x10 ++ written))
      (iscDisplayRoutine env s) (iscDisplayRoutine env (s.leave l)) := by
  have hreads := hd.reads
  have hfetches : (iscDisplayRoutine env s).All (Effect.FetchesImage size) := hd.fetches
  simp only [iscDisplayRoutine, all_bind, all_readReg, ensures_readReg, all_ite, all_tell,
    ensures_tell] at hfetches
  rw [routineReads, if_pos rfl] at hreads
  rw [routineWrites, if_pos rfl]
  refine (related_reg h 1 (hreads rAH (by simp))).bind fun ah ah' hah => ?_
  obtain ⟨rfl, rfl⟩ := hah
  refine Related.ite (fun h9 => ?_) fun h9 => Related.ite (fun h3 => ?_) fun h3 => ?_
  · -- function 9 shows a string of the program
    rw [if_pos h9] at hreads
    rw [if_pos (Or.inl h9)]
    refine (related_reg h 7 (hreads rDH (by simp))).bind fun dh dh' hdh => ?_
    obtain ⟨rfl, rfl⟩ := hdh
    refine (related_reg h 6 (hreads rDL (by simp))).bind fun dl dl' hdl => ?_
    obtain ⟨rfl, rfl⟩ := hdl
    have hstring := ((((hfetches.2 (by decide)).1 h9).2 (by decide)).2 (by decide)).1
    exact (related_displayString h _ _ hstring).bind fun _ _ _ =>
      Related.pure ⟨l, rfl, h.1, h.2, h.3, h.4⟩
  · -- function 3 clears the display
    rw [if_pos (Or.inr h3)]
    refine (Related.tell _).bind fun _ _ _ => (Related.tell _).bind fun _ _ _ => ?_
    exact Related.pure ⟨l, rfl, h.1, h.2, h.3, h.4⟩
  · rw [if_neg (not_or.mpr ⟨h9, h3⟩)]
    exact related_writeBL h 1

theorem related_iscNetworkRoutine (h : Agrees shared size written s l)
    (hd : DefinedRoutine shared size written env s 0x14) :
    Related Effect.visible (SameUpTo shared size (rBL :: written))
      (iscNetworkRoutine env s) (iscNetworkRoutine env (s.leave l)) := by
  have hreads := hd.reads
  have hfetches : (iscNetworkRoutine env s).All (Effect.FetchesImage size) := hd.fetches
  simp only [iscNetworkRoutine, all_bind, all_readReg, ensures_readReg, all_ite, all_tell,
    ensures_tell] at hfetches
  rw [routineReads, if_neg (by decide), if_pos rfl] at hreads
  refine (related_reg h 1 (hreads rAH (by simp))).bind fun ah ah' hah => ?_
  obtain ⟨rfl, rfl⟩ := hah
  refine Related.ite (fun _ => ?_) fun hA => Related.ite (fun hC => ?_) fun _ => related_writeBL h 1
  · -- the initiation, whose answer depends on the device alone
    refine (Related.tell _).bind fun _ _ _ => Related.ite (fun _ => related_writeBL h 1) fun _ => ?_
    refine (Related.tell _).bind fun _ _ _ => ?_
    exact Related.ite (fun _ => related_writeBL h 2) fun _ => related_writeBL h 0
  · -- a message sent, whose bounds and kind are in registers
    rw [if_pos hC] at hreads
    refine (related_reg h 7 (hreads rDH (by simp))).bind fun dh dh' hdh => ?_
    obtain ⟨rfl, rfl⟩ := hdh
    refine (related_reg h 6 (hreads rDL (by simp))).bind fun dl dl' hdl => ?_
    obtain ⟨rfl, rfl⟩ := hdl
    refine (related_reg h 4 (hreads rCL (by simp))).bind fun cl cl' hcl => ?_
    obtain ⟨rfl, rfl⟩ := hcl
    refine Related.ite (fun _ => related_writeBL h 1) fun hin => ?_
    have hbounds : MessageInBounds s := hin
    rw [if_pos hbounds] at hreads
    refine (related_reg h 0 (hreads rAL (by simp))).bind fun al al' hal => ?_
    obtain ⟨rfl, rfl⟩ := hal
    refine Related.ite (fun hsend => ?_) fun _ => Related.ite (fun hparam => ?_) fun _ =>
      related_writeBL h 0
    · -- a message of the program
      have hmessage := ((((((((hfetches.2 (by decide)).2 hA).1 hC).2 (by decide)).2
        (by decide)).2 (by decide)).2 hin).2 (by decide)).1 hsend
      exact (related_ntSend h _ _ hmessage.1).bind fun _ _ _ => related_writeBL h 0
    · -- the parameters, which are the same where the run may send them
      obtain ⟨hstring, hlength⟩ := h.param (hd.param (Or.inl ⟨rfl, hC, hbounds, hparam⟩))
      have hsend : Related Effect.visible (fun _ _ => True)
          (ntSendParam env s s.paramLength.toUInt8.toNat 0)
          (ntSendParam env (s.leave l) l.paramLength.toUInt8.toNat 0) := by
        rw [hlength]
        exact related_ntSendParam hstring _ _
      exact hsend.bind fun _ _ _ => related_writeBL h 0

theorem related_iscOperatingSystem (h : Agrees shared size written s l)
    (hd : DefinedRoutine shared size written env s 0x47) :
    Related Effect.visible (SameUpTo shared size (routineWrites env s 0x47 ++ written))
      (iscOperatingSystem env s) (iscOperatingSystem env (s.leave l)) := by
  have hreads := hd.reads
  rw [routineReads, if_neg (by decide), if_neg (by decide), if_pos rfl] at hreads
  rw [routineWrites, if_neg (by decide), if_neg (by decide), if_neg (by decide), if_pos rfl]
  refine (related_reg h 1 (hreads rAH (by simp))).bind fun ah ah' hah => ?_
  obtain ⟨rfl, rfl⟩ := hah
  refine Related.ite (fun hA => ?_) fun hA => ?_
  · refine (Related.tell _).bind fun _ _ _ => ?_
    by_cases hstatus : env.loadLibrary = -1 ∨ env.loadLibrary = -2 ∨ env.loadLibrary = -3 ∨
        env.loadLibrary ≥ 0
    · rw [if_pos ⟨hA, hstatus⟩]
      refine Related.ite (fun _ => related_writeBL h 1) fun h1 => ?_
      refine Related.ite (fun _ => related_writeBL h 2) fun h2 => ?_
      refine Related.ite (fun _ => related_writeBL h 3) fun h3 => ?_
      refine Related.ite (fun _ => related_writeBL h 0) fun h4 => ?_
      rcases hstatus with hs | hs | hs | hs
      · exact absurd hs h1
      · exact absurd hs h2
      · exact absurd hs h3
      · exact absurd hs h4
    · -- a status below -3 leaves the registers
      obtain ⟨h1, h2, h3, h4⟩ : env.loadLibrary ≠ -1 ∧ env.loadLibrary ≠ -2 ∧
          env.loadLibrary ≠ -3 ∧ ¬ env.loadLibrary ≥ 0 := by
        simpa only [not_or] using hstatus
      rw [if_neg fun hand => hstatus hand.2, if_neg h1, if_neg h2, if_neg h3, if_neg h4, if_neg h1,
        if_neg h2, if_neg h3, if_neg h4]
      exact Related.pure ⟨l, rfl, h⟩
  · rw [if_neg fun hand => hA hand.1]
    exact Related.pure ⟨l, rfl, h⟩

/-- **An interrupt routine** that uses nothing left is the same over other leftovers. -/
theorem related_interruptRoutine (h : Agrees shared size written s l)
    (hd : DefinedRoutine shared size written env s argA) :
    Related Effect.visible (SameUpTo shared size (routineWrites env s argA ++ written))
      (interruptRoutine env s argA) (interruptRoutine env (s.leave l) argA) := by
  rw [interruptRoutine, interruptRoutine]
  by_cases h10 : argA = 0x10
  · subst h10
    exact related_iscDisplayRoutine h hd
  by_cases h13 : argA = 0x13
  · subst h13
    exact related_writeBL h 1
  by_cases h14 : argA = 0x14
  · subst h14
    exact related_iscNetworkRoutine h hd
  by_cases h47 : argA = 0x47
  · subst h47
    exact related_iscOperatingSystem h hd
  · rw [routineWrites, if_neg h10, if_neg h13, if_neg h14, if_neg h47, if_neg h10, if_neg h13,
      if_neg h14, if_neg h47, if_neg h10, if_neg h13, if_neg h14, if_neg h47]
    exact Related.pure ⟨l, rfl, h⟩

end Routines

/-! ## Passes and runs -/

/-- Both passes go on, or both leave the loop, with machines in `R`. -/
inductive ControlRel (R : Machine → Machine → Prop) : Control → Control → Prop
  | next {s t : Machine} (h : R s t) : ControlRel R (.next s) (.next t)
  | returned {s t : Machine} (h : R s t) : ControlRel R (.returned s) (.returned t)

section Passes

variable {shared : Prop} {size : ℕ} {written : List ℕ} {env : Environment} {s : Machine}
  {l : Leftover}

theorem related_interrupt (h : Agrees shared size written s l) {argA : UInt8}
    (hd : DefinedRoutine shared size written env { s with pc := s.pc + 1 } argA) :
    Related Effect.visible
      (ControlRel (SameUpTo shared size
        (routineWrites env { s with pc := s.pc + 1 } argA ++ written)))
      (interrupt env s argA) (interrupt env (s.leave l) argA) := by
  have h' : Agrees shared size written { s with pc := s.pc + 1 } l := ⟨h.1, h.2, h.3, h.4⟩
  refine (related_interruptRoutine h' hd).bind fun u v huv => ?_
  obtain ⟨l', rfl, hl'⟩ := huv
  refine Related.ite (fun _ => ?_) fun _ => Related.pure (.next ⟨l', rfl, hl'⟩)
  refine Related.ite (fun _ => ?_) fun _ => Related.pure (.returned ⟨l', rfl, hl'⟩)
  exact (Related.tell _).bind fun _ _ _ => Related.pure (.returned ⟨l', rfl, hl'⟩)

/-- The operands in the image are the same over other leftovers. -/
theorem agreesUpTo_operandsAt (h : Agrees shared size written s l) {n : ℕ}
    (hin : ∀ k ∈ [1, 2, 3, 4, 5].take n, InImage size (s.pc + k)) :
    (operandsAt env s).AgreesUpTo n (operandsAt env (s.leave l)) := by
  have hbyte : ∀ k ∈ [1, 2, 3, 4, 5].take n,
      programByte env (s.leave l) (s.pc + k) = programByte env s (s.pc + k) :=
    fun k hk => programByte_leave h (hin k hk)
  have hmem : ∀ i (hi : i < [1, 2, 3, 4, 5].length), i < n →
      [1, 2, 3, 4, 5][i] ∈ ([1, 2, 3, 4, 5] : List UInt32).take n := by
    intro i hi hn
    exact List.mem_take_iff_getElem.mpr ⟨i, lt_min hn hi, rfl⟩
  exact ⟨fun hn => hbyte 1 (hmem 0 (by decide) hn), fun hn => hbyte 2 (hmem 1 (by decide) hn),
    fun hn => hbyte 3 (hmem 2 (by decide) hn), fun hn => hbyte 4 (hmem 3 (by decide) hn),
    fun hn => hbyte 5 (hmem 4 (by decide) hn)⟩

theorem related_fetchOperands (env : Environment) (s : Machine) (l : Leftover) :
    Related Effect.visible (fun a b => a = operandsAt env s ∧ b = operandsAt env (s.leave l))
      (fetchOperands env s) (fetchOperands env (s.leave l)) :=
  ⟨rfl, Or.inr ⟨_, _, rfl, rfl, rfl, rfl⟩⟩

/-- **A pass** that uses nothing left is the same over other leftovers. -/
theorem related_emulateStep (h : Agrees shared size written s l)
    (hd : DefinedPass shared size written env s) :
    Related Effect.visible (ControlRel (SameUpTo shared size (passWrites env s ++ written)))
      (emulateStep env s) (emulateStep env (s.leave l)) := by
  obtain ⟨hopCode, hd⟩ := hd
  have h' : Agrees shared size written { s with pc := s.pc + 1 } l := ⟨h.1, h.2, h.3, h.4⟩
  refine (related_fetch h hopCode).bind fun opCode opCode' hop => ?_
  obtain ⟨rfl, rfl⟩ := hop
  refine (related_fetchOperands env s l).bind fun a b hab => ?_
  obtain ⟨rfl, rfl⟩ := hab
  rw [passWrites, dispatch, dispatch]
  cases hcase : OpCode.ofByte (programByte env s s.pc) with
  | some op =>
    rw [hcase] at hd
    obtain ⟨hoperands, hreads⟩ := hd
    -- the operands the instruction does not use may differ
    have hcongr : execute (Machine.leave { s with pc := s.pc + 1 } l)
        (operandsAt env (s.leave l)) op =
          execute (Machine.leave { s with pc := s.pc + 1 } l) (operandsAt env s) op :=
      execute_congr (agreesUpTo_operandsAt h hoperands)
    show Related _ _ (_ >>= _) (execute (Machine.leave { s with pc := s.pc + 1 } l)
      (operandsAt env (s.leave l)) op >>= _)
    rw [hcongr]
    exact (related_execute h' hreads).bind fun u v huv => Related.pure (.next huv)
  | none =>
    rw [hcase] at hd
    refine Related.ite (fun hint => ?_) fun hint => ?_
    · -- an interrupt, whose number is a byte of the program
      obtain ⟨hargA, hroutine⟩ := hd hint
      have hbyte : (operandsAt env (s.leave l)).argA = programByte env s (s.pc + 1) :=
        programByte_leave h hargA
      rw [if_pos hint, hbyte]
      exact related_interrupt h' hroutine
    · rw [if_neg hint]
      exact Related.pure (.next ⟨l, rfl, h.1, h.2, h.3, h.4⟩)

theorem related_emulateExit (hw : AllWritten written) (h : Agrees shared size written s l) :
    Related Effect.visible (fun u v => v.reg = u.reg) (emulateExit s) (emulateExit (s.leave l)) := by
  have hreg : l.reg = s.reg := funext fun r => h.reg r (hw r r.isLt)
  rw [emulateExit, emulateExit]
  refine Related.ite (fun _ => ?_) fun _ => Related.pure hreg
  exact (Related.tell _).bind fun _ _ _ => Related.pure hreg

/-- **A run** that uses nothing left is the same over other leftovers, and returns the same
registers. -/
theorem related_emulateLoop (envs : List Environment) (h : Agrees shared size written s l)
    (hd : DefinedRun shared size envs written s) :
    Related Effect.visible (fun r r' => r'.map Machine.reg = r.map Machine.reg)
      (emulateLoop envs s) (emulateLoop envs (s.leave l)) := by
  have hexit : ∀ {s : Machine} {l : Leftover} {written : List ℕ}, AllWritten written →
      Agrees shared size written s l →
        Related Effect.visible (fun r r' => r'.map Machine.reg = r.map Machine.reg)
          (do let s ← emulateExit s; return some s)
          (do let s ← emulateExit (s.leave l); return some s) := fun hw h =>
    (related_emulateExit hw h).bind fun u v huv => Related.pure (congrArg some huv)
  -- induction on the passes: each leaves the machines the same up to what is not written yet
  induction envs generalizing s l written with
  | nil =>
    rw [emulateLoop, emulateLoop]
    refine Related.ite (fun _ => Related.pure rfl) fun hpc => ?_
    exact hexit (hd.resolve_left hpc) h
  | cons env envs ih =>
    rw [DefinedRun] at hd
    rw [emulateLoop, emulateLoop]
    refine Related.ite (fun hpc => ?_) fun hpc => ?_
    · rw [if_pos hpc] at hd
      obtain ⟨hpass, hbehind⟩ := hd
      refine (related_emulateStep h hpass).bind_of_value fun c d hc hcd => ?_
      rw [hc] at hbehind
      cases hcd with
      | next huv =>
        obtain ⟨l', rfl, hl'⟩ := huv
        exact ih hl' hbehind
      | returned huv =>
        obtain ⟨l', rfl, hl'⟩ := huv
        exact Related.pure (congrArg some (funext fun r => hl'.reg r (hbehind r r.isLt)))
    · rw [if_neg hpc] at hd
      exact hexit hd h

end Passes

/-- The parameters of two machines are the same. -/
def SameParameters (s t : Machine) : Prop :=
  t.paramString = s.paramString ∧ t.paramLength = s.paramLength

instance (s t : Machine) : Decidable (SameParameters s t) := instDecidableAnd

/-- A program is loaded over the leftovers of the programs before it. -/
theorem agrees_emulatorSetProgram {bytes : List UInt8} {s₁ s₂ t₁ t₂ : Machine}
    (hmem : s₂.memory = s₁.memory) (h₁ : emulatorSetProgram bytes s₁ = .ok t₁)
    (h₂ : emulatorSetProgram bytes s₂ = .ok t₂) :
    ∃ l, emulateEnter t₂ = (emulateEnter t₁).leave l ∧
      Agrees (SameParameters s₁ s₂) bytes.length [] (emulateEnter t₁) l := by
  simp only [emulatorSetProgram, copyInto] at h₁ h₂
  split at h₁
  · next hlen =>
    rw [if_pos hlen] at h₂
    cases h₁
    cases h₂
    refine ⟨⟨fun i => bytes.getD i (s₂.programBuffer i), s₂.paramString, s₂.paramLength, s₂.reg,
      s₂.stack⟩, ?_, fun i hi => ?_, fun h => h, fun r hr => absurd hr List.not_mem_nil,
      fun i hi => absurd hi (Nat.not_lt_zero _)⟩
    · simp only [emulateEnter, Machine.leave, hmem]
      rfl
    · show bytes.getD i _ = bytes.getD i _
      rw [List.getD_eq_getElem?_getD, List.getD_eq_getElem?_getD, List.getElem?_eq_getElem hi]
      rfl
  · cases h₁

/-- **A run does not depend on the programs before it** when it uses nothing they left: for every
program and any two machines it is loaded on with the same memory, the bus accesses and services are
the same, in order, and so are the registers it returns. -/
theorem emulateX4_independent (envs : List Environment) {bytes : List UInt8}
    {s₁ s₂ t₁ t₂ : Machine} (hmem : s₂.memory = s₁.memory)
    (h₁ : emulatorSetProgram bytes s₁ = .ok t₁) (h₂ : emulatorSetProgram bytes s₂ = .ok t₂)
    (hd : DefinedRun (SameParameters s₁ s₂) bytes.length envs [] (emulateEnter t₁)) :
    (emulateX4 envs t₂).effects.filter Effect.visible =
        (emulateX4 envs t₁).effects.filter Effect.visible ∧
      (emulateX4 envs t₂).value.map (Option.map Machine.reg) =
        (emulateX4 envs t₁).value.map (Option.map Machine.reg) := by
  obtain ⟨l, hl, hagrees⟩ := agrees_emulatorSetProgram hmem h₁ h₂
  have hrun := related_emulateLoop envs hagrees hd
  rw [← hl] at hrun
  refine ⟨hrun.effects.symm, ?_⟩
  rcases hrun.value with ⟨r, hv, hw⟩ | ⟨a, b, hv, hw, hab⟩
  · rw [emulateX4, emulateX4, hv, hw]
  · rw [emulateX4, emulateX4, hv, hw]
    exact congrArg Except.ok hab

/-! ## Two programs -/

/-- A program that sets all registers, takes one through the stack to another, writes that one to
the heap and returns. -/
def setRegisters : List UInt8 :=
  [0x83, 0, 1, 2, 0, 0, 0x83, 2, 3, 4, 0, 0, 0x83, 4, 5, 6, 0, 0, 0x83, 6, 7, 8, 0, 0, 0xF0, 0, 0x0F,
    2, 0x82, 2, 0, 0, 0, 0, 0xCD, 0x20]

/-- The machine at power-on, and one with leftovers in the program buffer, the registers and on the
stack. -/
def cleanMachine : Machine := .powerOn fun _ => 0
def dirtyMachine : Machine :=
  { cleanMachine with programBuffer := fun _ => 0xCD, reg := fun _ => 7, stack := fun _ => 9 }

/-- `emulateX4_independent` for `setRegisters`, whose run writes to the heap and returns. -/
theorem emulateX4_independent_setRegisters : ∃ t₁ t₂,
    emulatorSetProgram setRegisters cleanMachine = .ok t₁ ∧
      emulatorSetProgram setRegisters dirtyMachine = .ok t₂ ∧
        (emulateX4 (List.replicate 8 quiet) t₁).effects.filter Effect.visible =
          [.busWriteMemory 0x4000 1, .printLn] ∧
        (emulateX4 (List.replicate 8 quiet) t₂).effects.filter Effect.visible =
            (emulateX4 (List.replicate 8 quiet) t₁).effects.filter Effect.visible ∧
          (emulateX4 (List.replicate 8 quiet) t₂).value.map (Option.map Machine.reg) =
            (emulateX4 (List.replicate 8 quiet) t₁).value.map (Option.map Machine.reg) := by
  obtain ⟨t₁, h₁, hd, heffects⟩ : ∃ t₁, emulatorSetProgram setRegisters cleanMachine = .ok t₁ ∧
      DefinedRun (SameParameters cleanMachine dirtyMachine) setRegisters.length
        (List.replicate 8 quiet) [] (emulateEnter t₁) ∧
      (emulateX4 (List.replicate 8 quiet) t₁).effects.filter Effect.visible =
        [.busWriteMemory 0x4000 1, .printLn] := ⟨_, rfl, by decide +kernel, by decide +kernel⟩
  obtain ⟨t₂, h₂⟩ : ∃ t₂, emulatorSetProgram setRegisters dirtyMachine = .ok t₂ := ⟨_, rfl⟩
  have hmem : dirtyMachine.memory = cleanMachine.memory := rfl
  exact ⟨t₁, t₂, h₁, h₂, heffects, emulateX4_independent _ hmem h₁ h₂ hd⟩

/-- A program that leaves 7 in register 0. -/
def leaveSeven : List UInt8 := [0x89, 0x00, 0x07, 0xCD, 0x20]

/-- A program that writes register 0 to the heap. -/
def writeRegister : List UInt8 := [0x82, 0x00, 0x00, 0x00, 0x00, 0x00, 0xCD, 0x20]

/-- Not every run is independent of the programs before it: a register left by one is written to
the heap by the next. -/
theorem not_emulateX4_independent : ¬ ∀ (bytes : List UInt8) (envs : List Environment)
    (s₁ s₂ t₁ t₂ : Machine), Reachable s₁ → Reachable s₂ → s₂.memory = s₁.memory →
      emulatorSetProgram bytes s₁ = .ok t₁ → emulatorSetProgram bytes s₂ = .ok t₂ →
        (emulateX4 envs t₂).effects.filter Effect.visible =
            (emulateX4 envs t₁).effects.filter Effect.visible ∧
          (emulateX4 envs t₂).value.map (Option.map Machine.reg) =
            (emulateX4 envs t₁).value.map (Option.map Machine.reg) := by
  intro h
  obtain ⟨u, hu⟩ : ∃ u, emulatorSetProgram leaveSeven cleanMachine = .ok u := ⟨_, rfl⟩
  obtain ⟨s₂, hs₂, hmem, t₂, h₂, heffects⟩ : ∃ s₂,
      (emulateX4 [quiet, quiet] u).value = .ok (some s₂) ∧ s₂.memory = cleanMachine.memory ∧
        ∃ t₂, emulatorSetProgram writeRegister s₂ = .ok t₂ ∧
          (emulateX4 [quiet, quiet] t₂).effects.filter Effect.visible =
            [.busWriteMemory 0x4000 7, .printLn] := by
    cases hu
    exact ⟨_, rfl, rfl, _, rfl, by decide +kernel⟩
  obtain ⟨t₁, h₁, heffects₁⟩ : ∃ t₁, emulatorSetProgram writeRegister cleanMachine = .ok t₁ ∧
      (emulateX4 [quiet, quiet] t₁).effects.filter Effect.visible =
        [.busWriteMemory 0x4000 0, .printLn] := ⟨_, rfl, by decide +kernel⟩
  have hreach : Reachable s₂ := (Reachable.setProgram (.powerOn _) hu).emulateX4 hs₂
  have hsame := (h _ [quiet, quiet] _ _ _ _ (.powerOn _) hreach hmem h₁ h₂).1
  rw [heffects, heffects₁] at hsame
  exact absurd hsame (by decide)

end MicroKernel.X4
