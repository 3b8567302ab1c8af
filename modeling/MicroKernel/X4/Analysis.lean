import MicroKernel.X4.Bounds
import MicroKernel.X4.Known
import MicroKernel.X4.Run

/-!
# Analysis of X4 programs

What every run of a program does, computed from its bytes: the descriptions of `Known` are sound. Each
pass of the emulator does one of the things that its description says, so that the runs of a program that
is explored stay inside the arrays, end, and show what is found.

## Main definitions

* `Effect.InArrays`: an access inside its array, the parameter string among them
* `Shows`: a computation accesses its arrays inside their bounds, and shows effects
* `Goes`, `Serves`, `Passes`: an instruction, a routine and a pass as described

## Main results

* `Known.execute_sound`, `Known.interrupt_sound`: the instructions and the interrupts
* `Known.step_sound`: a pass does one of the things that its description says
* `yields_emulateX4`: every run of an explored program stays inside the arrays, returns to the system,
  and shows one of the lists that are found
-/

namespace MicroKernel.X4

open Traced Explore

/-! ## What the accesses show -/

/-- An access is inside its array, which may be the parameter string, and a division has a non-zero
divisor. -/
def Effect.InArrays : Effect → Prop
  | .paramString index => index.toNat < 32
  | e => e.Safe

/-- The computation accesses its arrays inside their bounds, has a value, and shows the effects
`es`. -/
abbrev Shows {α : Type} (x : Emulator α) (es : List Effect) (a : α) : Prop :=
  x.Yields Effect.InArrays Effect.shown es a

section Accesses

variable {env : Environment} {s : Machine} {index : ℕ} {i : UInt32} {byte : UInt8}

theorem shows_fetch (h : i.toNat < maxProgramSize) :
    Shows (fetch env s i) [] (programByte env s i) :=
  (yields_tell (show Effect.InArrays (.programBuffer i) from h)).bind (yields_pure _)

theorem shows_fetchParam (h : i.toNat < 32) :
    Shows (fetchParam env s i) [] (s.paramString ⟨i.toNat, h⟩) := by
  refine (yields_tell (show Effect.InArrays (.paramString i) from h)).bind ?_
  rw [dif_pos h]
  exact yields_pure _

theorem shows_readReg (h : index < 8) : Shows (readReg s index) [] (s.reg ⟨index, h⟩) := by
  refine (yields_tell (show Effect.InArrays (.reg index) from h)).bind ?_
  rw [dif_pos h]
  exact yields_pure _

theorem shows_writeReg (h : index < 8) : Shows (writeReg s index byte) []
    { s with reg := Function.update s.reg ⟨index, h⟩ byte } := by
  refine (yields_tell (show Effect.InArrays (.reg index) from h)).bind ?_
  rw [dif_pos h]
  exact yields_pure _

theorem shows_readStack (h : i.toNat < 100) :
    Shows (readStack s i) [] (s.stack ⟨i.toNat, h⟩) := by
  refine (yields_tell (show Effect.InArrays (.stack i) from h)).bind ?_
  rw [dif_pos h]
  exact yields_pure _

theorem shows_writeStack (h : i.toNat < 100) : Shows (writeStack s i byte) []
    { s with stack := Function.update s.stack ⟨i.toNat, h⟩ byte } := by
  refine (yields_tell (show Effect.InArrays (.stack i) from h)).bind ?_
  rw [dif_pos h]
  exact yields_pure _

theorem shows_divide {x y : UInt8} (h : y ≠ 0) : Shows (divide x y) [] (x / y) := by
  refine (yields_tell (show Effect.InArrays (.divide y) from h)).bind ?_
  rw [if_neg h]
  exact yields_pure _

end Accesses

/-! ## Descriptions that fit -/

section Fits

variable {g : Setting} {k k' : Known} {s : Machine} {index : ℕ} {v : Option UInt8}

theorem Setting.Loaded.frame {t : Machine} (h : g.Loaded s)
    (hbuffer : t.programBuffer = s.programBuffer) (hsize : t.programSize = s.programSize)
    (hparam : t.paramString = s.paramString) (hlength : t.paramLength = s.paramLength) :
    g.Loaded t := by
  refine ⟨h.program_le, ?_, ?_, h.param_le, ?_, ?_⟩
  · rw [hsize]
    exact h.programSize
  · rw [hbuffer]
    exact h.programBuffer
  · rw [hlength]
    exact h.paramLength
  · rw [hparam]
    exact h.paramString

/-- The description with another program counter. -/
theorem Known.Fits.setPc (h : k.Fits g s) (pc : UInt32) :
    { k with pc }.Fits g { s with pc } :=
  ⟨h.loaded.frame rfl rfl rfl rfl, h.virtual, rfl, h.pcRet, h.reg, h.stack_le, h.stackPtr, h.stack,
    h.flagCompare, h.flagGreater, h.flagConsoleDirty⟩

/-- The program counter moves on by a length. -/
theorem Known.Fits.movePc (h : k.Fits g s) (length : UInt32) :
    { k with pc := k.pc + length }.Fits g { s with pc := s.pc + length } := by
  rw [h.pc]
  exact h.setPc _

theorem Known.Fits.get (h : k.Fits g s) (hget : k.get index = some v) :
    ∃ hi : index < 8, ∀ byte, v = some byte → s.reg ⟨index, hi⟩ = byte := by
  unfold Known.get at hget
  split at hget
  · next hi =>
    obtain rfl := Option.some.inj hget
    exact ⟨hi, h.reg ⟨index, hi⟩⟩
  · cases hget

theorem Known.Fits.set (h : k.Fits g s) (hset : k.set index v = some k') :
    ∃ hi : index < 8, ∀ byte, (∀ b, v = some b → byte = b) →
      k'.Fits g { s with reg := Function.update s.reg ⟨index, hi⟩ byte } := by
  unfold Known.set at hset
  split at hset
  · next hi =>
    obtain rfl := Option.some.inj hset
    refine ⟨hi, fun byte hbyte => ⟨h.loaded.frame rfl rfl rfl rfl, h.virtual, h.pc, h.pcRet,
      fun i b hb => ?_, h.stack_le, h.stackPtr, h.stack, h.flagCompare, h.flagGreater,
      h.flagConsoleDirty⟩⟩
    change Function.update k.reg ⟨index, hi⟩ v i = some b at hb
    show Function.update s.reg ⟨index, hi⟩ byte i = b
    rcases eq_or_ne i ⟨index, hi⟩ with rfl | hne
    · rw [Function.update_self] at hb ⊢
      exact hbyte b hb
    · rw [Function.update_of_ne hne] at hb ⊢
      exact h.reg i b hb
  · cases hset

/-- The description of a comparison. -/
theorem Known.Fits.compare (h : k.Fits g s) {x y : UInt8} {u v : Option UInt8}
    (hu : ∀ b, u = some b → x = b) (hv : ∀ b, v = some b → y = b) :
    (k.compare u v).Fits g (X4.compare s x y) := by
  have hflags : ∀ (c d : UInt8) (u v : Option UInt8), (∀ b, u = some b → c = b) →
      (∀ b, v = some b → d = b) → { k with flagCompare := u, flagGreater := v }.Fits g
        { s with flagCompare := c, flagGreater := d } := fun c d u v hu hv =>
    ⟨h.loaded.frame rfl rfl rfl rfl, h.virtual, h.pc, h.pcRet, h.reg, h.stack_le, h.stackPtr,
      h.stack, hu, hv, h.flagConsoleDirty⟩
  have hself : ∀ c b : UInt8, some c = some b → c = b := fun _ _ => Option.some.inj
  have hnone : ∀ c b : UInt8, none = some b → c = b := fun _ _ hb => by cases hb
  cases u with
  | none =>
    rw [X4.compare]
    split <;> exact hflags _ _ none none (hnone _) (hnone _)
  | some b =>
    cases v with
    | none =>
      rw [X4.compare]
      split <;> exact hflags _ _ none none (hnone _) (hnone _)
    | some c =>
      obtain rfl := hu b rfl
      obtain rfl := hv c rfl
      rw [X4.compare, Known.compare]
      split
      · exact hflags 1 0 _ _ (hself 1) (hself 0)
      · exact hflags 0 _ _ _ (hself 0) (hself _)

/-- The operands of a pass are those that are known. -/
structure KnownOperands.Fits (a : KnownOperands) (x : Operands) : Prop where
  argA : ∀ byte, a.argA = some byte → x.argA = byte
  argB : ∀ byte, a.argB = some byte → x.argB = byte
  argC : ∀ byte, a.argC = some byte → x.argC = byte
  argD : ∀ byte, a.argD = some byte → x.argD = byte
  argE : ∀ byte, a.argE = some byte → x.argE = byte

theorem KnownOperands.Fits.target {a : KnownOperands} {x : Operands} (h : a.Fits x)
    {target : UInt32} (htarget : a.target = some target) : x.target = target := by
  simp only [KnownOperands.target, Option.bind_eq_bind, Option.bind_eq_some_iff, Option.pure_def,
    Option.some.injEq] at htarget
  obtain ⟨b₀, h₀, b₁, h₁, b₂, h₂, b₃, h₃, rfl⟩ := htarget
  rw [Operands.target, h.argA b₀ h₀, h.argB b₁ h₁, h.argC b₂ h₂, h.argD b₃ h₃]

theorem KnownOperands.Fits.offset {a : KnownOperands} {x : Operands} (h : a.Fits x)
    {offset : UInt32} (hoffset : a.offset = some offset) : x.offset = offset := by
  simp only [KnownOperands.offset, Option.bind_eq_bind, Option.bind_eq_some_iff, Option.pure_def,
    Option.some.injEq] at hoffset
  obtain ⟨b₀, h₀, b₁, h₁, b₂, h₂, b₃, h₃, rfl⟩ := hoffset
  rw [Operands.offset, h.argB b₀ h₀, h.argC b₁ h₁, h.argD b₂ h₂, h.argE b₃ h₃]

end Fits

/-! ## Instructions -/

/-- A computation of the emulator does one of the things that are described. -/
def Goes (g : Setting) (x : Emulator Machine) (outcomes : List (Outcome Effect Known)) : Prop :=
  ∃ o ∈ outcomes, ∃ k t, o.next = some k ∧ Shows x o.shown t ∧ k.Fits g t

section Instructions

variable {g : Setting} {k k' : Known} {s t : Machine} {a : KnownOperands} {x : Operands}
  {outcomes : List (Outcome Effect Known)} {y : Emulator Machine} {es : List Effect}

theorem goes_one (hy : Shows y es t) (hk : k.Fits g t) : Goes g y [⟨es, some k⟩] :=
  ⟨_, List.mem_cons_self, k, t, rfl, hy, hk⟩

theorem Known.unary_sound {f : UInt8 → UInt8} {length : UInt32} (h : k.Fits g s) (ha : a.Fits x)
    (hexec : k.unary a f length = some outcomes) : Goes g (X4.unary f length x s) outcomes := by
  simp only [Known.unary, Option.bind_eq_bind, Option.bind_eq_some_iff, Option.pure_def,
    Option.some.injEq] at hexec
  obtain ⟨argA, hA, u, hu, k', hk', rfl⟩ := hexec
  obtain ⟨hi, hval⟩ := h.get hu
  obtain ⟨_, hset⟩ := h.set hk'
  rw [X4.unary, ha.argA argA hA]
  refine goes_one ((shows_readReg hi).bind_silent ((shows_writeReg hi).bind_silent (yields_pure _)))
    ((hset _ fun b hb => ?_).movePc length)
  obtain ⟨c, hc, rfl⟩ := Option.map_eq_some_iff.mp hb
  rw [hval c hc]

theorem Known.binary_sound {f : UInt8 → UInt8 → UInt8} (h : k.Fits g s) (ha : a.Fits x)
    (hexec : k.binary a f = some outcomes) : Goes g (X4.binary f x s) outcomes := by
  simp only [Known.binary, Option.bind_eq_bind, Option.bind_eq_some_iff, Option.pure_def,
    Option.some.injEq] at hexec
  obtain ⟨argA, hA, u, hu, argB, hB, v, hv, k', hk', rfl⟩ := hexec
  obtain ⟨hi, hx⟩ := h.get hu
  obtain ⟨hj, hy⟩ := h.get hv
  obtain ⟨_, hset⟩ := h.set hk'
  rw [X4.binary, ha.argA argA hA, ha.argB argB hB]
  refine goes_one ((shows_readReg hi).bind_silent ((shows_readReg hj).bind_silent
    ((shows_writeReg hi).bind_silent (yields_pure _)))) ((hset _ fun b hb => ?_).movePc 2)
  obtain ⟨c, d, hc, hd, rfl⟩ := Option.map₂_eq_some_iff.mp hb
  rw [hx c hc, hy d hd]

/-- A jump whose flag is known, or may have either value. -/
theorem Known.jumpIf_sound {flag : Option UInt8} {value byte : UInt8} {target : UInt32}
    (h : k.Fits g s) (hflag : ∀ b, flag = some b → byte = b) (htarget : x.target = target) :
    Goes g (return X4.jumpIf (byte = value) x s) (k.jumpIf flag value target) := by
  have hpc : (if byte = value then x.target else s.pc + 4) =
      if byte = value then target else k.pc + 4 := by rw [htarget, h.pc]
  cases flag with
  | some b =>
    obtain rfl := hflag b rfl
    refine goes_one (yields_pure _) ?_
    rw [X4.jumpIf, hpc]
    exact h.setPc _
  | none =>
    by_cases hvalue : byte = value
    · refine ⟨_, List.mem_cons_self, _, _, rfl, yields_pure _, ?_⟩
      rw [X4.jumpIf, hpc, if_pos hvalue]
      exact h.setPc _
    · refine ⟨_, List.mem_cons_of_mem _ List.mem_cons_self, _, _, rfl, yields_pure _, ?_⟩
      rw [X4.jumpIf, hpc, if_neg hvalue]
      exact h.setPc _

/-- The byte on top of the stack is read, and taken off. -/
theorem Known.Fits.pop (h : k.Fits g s) {v : Option UInt8} (hv : k.stack.getLast? = some v) :
    ∃ hi : (s.stackPtr - 1).toNat < 100,
      (∀ b, v = some b → s.stack ⟨(s.stackPtr - 1).toNat, hi⟩ = b) ∧
      { k with stack := k.stack.dropLast }.Fits g { s with stackPtr := s.stackPtr - 1 } := by
  have hne : k.stack ≠ [] := by
    intro hnil
    rw [hnil] at hv
    cases hv
  have hpos := List.length_pos_iff.mpr hne
  have hle := h.stack_le
  have hptr : (s.stackPtr - 1).toNat = k.stack.length - 1 := by
    have hlt := s.stackPtr.toNat_lt
    rw [UInt32.toNat_sub]
    show (2 ^ 32 - 1 + s.stackPtr.toNat) % 2 ^ 32 = _
    rw [h.stackPtr]
    omega
  refine ⟨by omega, fun b hb => ?_, h.loaded.frame rfl rfl rfl rfl, h.virtual, h.pc, h.pcRet, h.reg,
    ?_, ?_, fun i b hb => ?_, h.flagCompare, h.flagGreater, h.flagConsoleDirty⟩
  · refine h.stack _ b ?_ _
    rw [hptr, ← List.getLast?_eq_getElem?, hv, hb]
  · show k.stack.dropLast.length ≤ 100
    rw [List.length_dropLast]
    omega
  · show (s.stackPtr - 1).toNat = k.stack.dropLast.length
    rw [List.length_dropLast, hptr]
  · refine h.stack i b ?_
    rw [List.getElem?_dropLast] at hb
    split at hb
    · exact hb
    · cases hb

theorem Known.Fits.push (h : k.Fits g s) {v : Option UInt8} {byte : UInt8}
    (hv : ∀ b, v = some b → byte = b) (hlt : k.stack.length < 100) :
    ∃ hi : s.stackPtr.toNat < 100, { k with stack := k.stack ++ [v] }.Fits g
      { s with
        stack := Function.update s.stack ⟨s.stackPtr.toNat, hi⟩ byte
        stackPtr := s.stackPtr + 1 } := by
  have hptr := h.stackPtr
  refine ⟨by omega, h.loaded.frame rfl rfl rfl rfl, h.virtual, h.pc, h.pcRet, h.reg,
    ?_, ?_, fun i b hb hi => ?_, h.flagCompare, h.flagGreater, h.flagConsoleDirty⟩
  · show (k.stack ++ [v]).length ≤ 100
    rw [List.length_append, List.length_singleton]
    omega
  · show (s.stackPtr + 1).toNat = (k.stack ++ [v]).length
    rw [List.length_append, List.length_singleton, ← hptr, UInt32.toNat_add]
    show (s.stackPtr.toNat + 1) % 2 ^ 32 = _
    omega
  · show Function.update s.stack ⟨s.stackPtr.toNat, _⟩ byte ⟨i, hi⟩ = b
    rcases Nat.lt_trichotomy i k.stack.length with hbelow | rfl | habove
    · rw [Function.update_of_ne (by simp [Fin.ext_iff]; omega)]
      refine h.stack i b ?_ hi
      rwa [List.getElem?_append_left hbelow] at hb
    · have htop : (⟨k.stack.length, hi⟩ : Fin 100) = ⟨s.stackPtr.toNat, by omega⟩ :=
        Fin.ext hptr.symm
      rw [htop, Function.update_self]
      refine hv b ?_
      simpa using hb
    · rw [List.getElem?_eq_none (by simp; omega)] at hb
      cases hb

/-- **An instruction** does one of the things that are described. -/
theorem Known.execute_sound {op : OpCode} (h : k.Fits g s) (ha : a.Fits x)
    (hexec : k.execute a op = some outcomes) : Goes g (X4.execute s x op) outcomes := by
  cases op with
  | inc | dec | not => exact Known.unary_sound h ha hexec
  | add | sub | and | or | xor => exact Known.binary_sound h ha hexec
  | nop =>
    obtain rfl := Option.some.inj hexec
    exact goes_one (yields_pure s) h
  | cli | sti =>
    obtain rfl := Option.some.inj hexec
    exact goes_one ((yields_tell trivial).bind (yields_pure s)) h
  | ret =>
    obtain rfl := Option.some.inj hexec
    refine goes_one (yields_pure _) ?_
    rw [h.pcRet]
    exact ⟨h.loaded.frame rfl rfl rfl rfl, h.virtual, rfl, rfl, h.reg, h.stack_le, h.stackPtr, h.stack,
      h.flagCompare, h.flagGreater, h.flagConsoleDirty⟩
  | jmp =>
    obtain ⟨target, htarget, hout⟩ := Option.bind_eq_some_iff.mp hexec
    obtain rfl := Option.some.inj hout
    refine goes_one (yields_pure _) ?_
    rw [ha.target htarget]
    exact h.setPc target
  | call =>
    obtain ⟨target, htarget, hout⟩ := Option.bind_eq_some_iff.mp hexec
    obtain rfl := Option.some.inj hout
    refine goes_one (yields_pure _) ?_
    rw [ha.target htarget, h.pc]
    exact ⟨h.loaded.frame rfl rfl rfl rfl, h.virtual, rfl, rfl, h.reg, h.stack_le, h.stackPtr, h.stack,
      h.flagCompare, h.flagGreater, h.flagConsoleDirty⟩
  | je | jne =>
    obtain ⟨target, htarget, hout⟩ := Option.bind_eq_some_iff.mp hexec
    obtain rfl := Option.some.inj hout
    exact Known.jumpIf_sound h h.flagCompare (ha.target htarget)
  | jg | jl =>
    obtain ⟨target, htarget, hout⟩ := Option.bind_eq_some_iff.mp hexec
    obtain rfl := Option.some.inj hout
    exact Known.jumpIf_sound h h.flagGreater (ha.target htarget)
  | movmr =>
    simp only [Known.execute, Option.bind_eq_bind, Option.bind_eq_some_iff, Option.pure_def,
      Option.some.injEq] at hexec
    obtain ⟨offset, hoffset, argA, hA, k', hk', rfl⟩ := hexec
    obtain ⟨hi, hset⟩ := h.set hk'
    rw [X4.execute, h.virtual, if_neg (not_gt_heapEnd _), ha.offset hoffset, ha.argA argA hA]
    exact goes_one ((yields_tell trivial).bind ((shows_writeReg hi).bind_silent (yields_pure _)))
      ((hset _ fun _ hb => by cases hb).movePc 5)
  | movmw =>
    simp only [Known.execute, Option.bind_eq_bind, Option.bind_eq_some_iff, Option.pure_def,
      Option.some.injEq] at hexec
    obtain ⟨offset, hoffset, argA, hA, u, hu, byte, rfl, rfl⟩ := hexec
    obtain ⟨hi, hval⟩ := h.get hu
    rw [X4.execute, h.virtual, if_neg (not_gt_heapEnd _), ha.offset hoffset, ha.argA argA hA]
    -- the byte that is written is known
    obtain rfl := hval byte rfl
    refine goes_one ((shows_readReg hi).bind_silent (Yields.bind (a := PUnit.unit)
      (yields_tell trivial) (yields_pure _))) ?_
    exact ⟨h.loaded.frame rfl rfl rfl rfl, rfl, congrArg (· + 5) h.pc, h.pcRet, h.reg, h.stack_le,
      h.stackPtr, h.stack, h.flagCompare, h.flagGreater, h.flagConsoleDirty⟩
  | movr =>
    simp only [Known.execute, Option.bind_eq_bind, Option.bind_eq_some_iff, Option.pure_def,
      Option.some.injEq] at hexec
    obtain ⟨argB, hB, v, hv, argA, hA, k', hk', rfl⟩ := hexec
    obtain ⟨hi, hval⟩ := h.get hv
    obtain ⟨hj, hset⟩ := h.set hk'
    rw [X4.execute, ha.argA argA hA, ha.argB argB hB]
    exact goes_one ((shows_readReg hi).bind_silent ((shows_writeReg hj).bind_silent (yields_pure _)))
      ((hset _ hval).movePc 2)
  | movb =>
    simp only [Known.execute, Option.bind_eq_bind, Option.bind_eq_some_iff, Option.pure_def,
      Option.some.injEq] at hexec
    obtain ⟨argA, hA, argB, hB, k', hk', rfl⟩ := hexec
    obtain ⟨hi, hset⟩ := h.set hk'
    rw [X4.execute, ha.argA argA hA, ha.argB argB hB]
    exact goes_one ((shows_writeReg hi).bind_silent (yields_pure _))
      ((hset argB fun b hb => Option.some.inj hb).movePc 2)
  | mova =>
    simp only [Known.execute, Option.bind_eq_bind, Option.bind_eq_some_iff, Option.pure_def,
      Option.some.injEq] at hexec
    obtain ⟨argA, hA, argB, hB, k₁, hk₁, argC, hC, k₂, hk₂, rfl⟩ := hexec
    obtain ⟨hi, hset⟩ := h.set hk₁
    obtain ⟨hj, hset'⟩ := (hset argB fun b hb => Option.some.inj hb).set hk₂
    rw [X4.execute, ha.argA argA hA, ha.argB argB hB, ha.argC argC hC]
    exact goes_one ((shows_writeReg hi).bind_silent ((shows_writeReg hj).bind_silent (yields_pure _)))
      ((hset' argC fun b hb => Option.some.inj hb).movePc 5)
  | mul =>
    simp only [Known.execute, Option.bind_eq_bind, Option.bind_eq_some_iff, Option.pure_def,
      Option.some.injEq] at hexec
    obtain ⟨argB, hB, u, hu, argC, hC, v, hv, argA, hA, k', hk', rfl⟩ := hexec
    obtain ⟨hi, hx⟩ := h.get hu
    obtain ⟨hj, hy⟩ := h.get hv
    obtain ⟨hl, hset⟩ := h.set hk'
    rw [X4.execute, ha.argA argA hA, ha.argB argB hB, ha.argC argC hC]
    refine goes_one ((shows_readReg hi).bind_silent ((shows_readReg hj).bind_silent
      ((shows_writeReg hl).bind_silent (yields_pure _)))) ((hset _ fun b hb => ?_).movePc 3)
    obtain ⟨c, d, hc, hd, rfl⟩ := Option.map₂_eq_some_iff.mp hb
    rw [hx c hc, hy d hd]
  | div =>
    simp only [Known.execute, Option.bind_eq_bind, Option.bind_eq_some_iff] at hexec
    obtain ⟨argB, hB, u, hu, argC, hC, v, hv, y, rfl, hexec⟩ := hexec
    split at hexec
    · cases hexec
    · next hy =>
      simp only [Option.bind_eq_some_iff, Option.pure_def, Option.some.injEq] at hexec
      obtain ⟨argA, hA, k', hk', rfl⟩ := hexec
      obtain ⟨hi, hx⟩ := h.get hu
      obtain ⟨hj, hdivisor⟩ := h.get hv
      obtain ⟨hl, hset⟩ := h.set hk'
      obtain rfl := hdivisor y rfl
      rw [X4.execute, ha.argA argA hA, ha.argB argB hB, ha.argC argC hC]
      refine goes_one ((shows_readReg hi).bind_silent ((shows_readReg hj).bind_silent
        ((shows_divide hy).bind_silent ((shows_writeReg hl).bind_silent (yields_pure _)))))
        ((hset _ fun b hb => ?_).movePc 3)
      obtain ⟨c, hc, rfl⟩ := Option.map_eq_some_iff.mp hb
      rw [hx c hc]
  | pop =>
    simp only [Known.execute, Option.bind_eq_bind, Option.bind_eq_some_iff, Option.pure_def,
      Option.some.injEq] at hexec
    obtain ⟨v, hv, argA, hA, k', hk', rfl⟩ := hexec
    obtain ⟨hi, hval, hpop⟩ := h.pop hv
    obtain ⟨hj, hset⟩ := hpop.set hk'
    rw [X4.execute, ha.argA argA hA]
    exact goes_one ((shows_readStack hi).bind_silent ((shows_writeReg hj).bind_silent (yields_pure _)))
      ((hset _ hval).movePc 1)
  | push =>
    simp only [Known.execute, Option.bind_eq_bind, Option.bind_eq_some_iff] at hexec
    obtain ⟨argA, hA, v, hv, hexec⟩ := hexec
    split at hexec
    · next hlt =>
      obtain rfl := Option.some.inj hexec
      obtain ⟨hi, hval⟩ := h.get hv
      obtain ⟨hj, hpush⟩ := h.push hval hlt
      rw [X4.execute, ha.argA argA hA]
      exact goes_one ((shows_readReg hi).bind_silent ((shows_writeStack hj).bind_silent
        (yields_pure _))) (hpush.movePc 1)
    · cases hexec
  | cmp =>
    simp only [Known.execute, Option.bind_eq_bind, Option.bind_eq_some_iff, Option.pure_def,
      Option.some.injEq] at hexec
    obtain ⟨argA, hA, u, hu, argB, hB, rfl⟩ := hexec
    obtain ⟨hi, hval⟩ := h.get hu
    rw [X4.execute, ha.argA argA hA, ha.argB argB hB]
    exact goes_one ((shows_readReg hi).bind_silent (yields_pure _))
      ((h.compare hval fun b hb => Option.some.inj hb).movePc 2)
  | cmpr =>
    simp only [Known.execute, Option.bind_eq_bind, Option.bind_eq_some_iff, Option.pure_def,
      Option.some.injEq] at hexec
    obtain ⟨argA, hA, u, hu, argB, hB, v, hv, rfl⟩ := hexec
    obtain ⟨hi, hx⟩ := h.get hu
    obtain ⟨hj, hy⟩ := h.get hv
    rw [X4.execute, ha.argA argA hA, ha.argB argB hB]
    exact goes_one ((shows_readReg hi).bind_silent ((shows_readReg hj).bind_silent (yields_pure _)))
      ((h.compare hx hy).movePc 2)

end Instructions

/-! ## Interrupts -/

section Loops

variable {g : Setting} {env : Environment} {s : Machine} {offset i : UInt32} {left : ℕ}

/-- A byte of the program that is loaded. -/
theorem Setting.Loaded.programByte (h : g.Loaded s) (env : Environment) {index : UInt32} {byte : UInt8}
    (hbyte : g.program[index.toNat]? = some byte) :
    index.toNat < maxProgramSize ∧ X4.programByte env s index = byte := by
  have hlt : index.toNat < maxProgramSize :=
    (List.getElem?_eq_some_iff.mp hbyte).1.trans_le h.program_le
  refine ⟨hlt, ?_⟩
  rw [X4.programByte, dif_pos hlt]
  exact h.programBuffer _ byte hbyte hlt

/-- The byte at an index behind an offset. -/
theorem Setting.Loaded.index (h : g.Loaded s) (env : Environment) {bytes : List UInt8} {byte : UInt8}
    (hdrop : g.program.drop (offset.toNat + i.toNat) = byte :: bytes) :
    (offset + i).toNat < maxProgramSize ∧ X4.programByte env s (offset + i) = byte ∧
      g.program.drop (offset.toNat + (i + 1).toNat) = bytes := by
  have hbyte : g.program[offset.toNat + i.toNat]? = some byte := by
    rw [← List.head?_drop, hdrop]
    rfl
  have hlt := (List.getElem?_eq_some_iff.mp hbyte).1
  have hle := h.program_le
  have hmax : maxProgramSize = 256 := rfl
  have hsum : (offset + i).toNat = offset.toNat + i.toNat := by
    rw [UInt32.toNat_add]
    omega
  rw [← hsum] at hbyte
  obtain ⟨hindex, hvalue⟩ := h.programByte env hbyte
  refine ⟨hindex, hvalue, ?_⟩
  rw [Store.toNat_add_one (by omega), ← Nat.add_assoc, ← List.drop_drop, hdrop]
  rfl

/-- The display routine prints the characters up to the zero byte. -/
theorem shows_displayString (h : g.Loaded s) {bytes : List UInt8}
    (hdrop : g.program.drop (offset.toNat + i.toNat) = bytes) (hzero : 0 ∈ bytes)
    (hleft : bytes.length ≤ left) : Shows (displayString env s offset left i)
      ((bytes.takeWhile (· ≠ 0)).map Known.character) ⟨⟩ := by
  induction bytes generalizing i left with
  | nil => cases hzero
  | cons byte bytes ih =>
    obtain ⟨left, rfl⟩ : ∃ n, left = n + 1 := Nat.exists_eq_succ_of_ne_zero (by simp at hleft; omega)
    obtain ⟨hindex, hbyte, hrest⟩ := h.index env hdrop
    have hfetch : Shows (fetch env s (offset + i)) [] byte := hbyte ▸ shows_fetch hindex
    refine hfetch.bind_silent ?_
    by_cases hb : byte = 0
    · subst hb
      exact yields_pure _
    · rw [if_neg hb, List.takeWhile_cons_of_pos (by simpa using hb), List.map_cons]
      have hlater := ih hrest (List.mem_of_ne_of_mem (Ne.symm hb) hzero)
        (Nat.le_of_succ_le_succ hleft)
      by_cases hline : byte = 10
      · rw [if_pos hline, Known.character, if_pos hline]
        exact (yields_tell trivial).bind hlater
      · rw [if_neg hline, Known.character, if_neg hline]
        exact (yields_tell trivial).bind hlater

theorem shows_ntSend (h : g.Loaded s) (hle : offset.toNat + i.toNat + left ≤ g.program.length) :
    Shows (ntSend env s offset left i)
      (((g.program.drop (offset.toNat + i.toNat)).take left).map .ntSend) ⟨⟩ := by
  induction left generalizing i with
  | zero => exact yields_pure _
  | succ left ih =>
    obtain ⟨byte, bytes, hdrop⟩ :
        ∃ byte bytes, g.program.drop (offset.toNat + i.toNat) = byte :: bytes := by
      refine List.exists_cons_of_ne_nil fun hnil => ?_
      have hlength := List.drop_eq_nil_iff.mp hnil
      omega
    obtain ⟨hindex, hbyte, hrest⟩ := h.index env hdrop
    have hmax : g.program.length ≤ 256 := h.program_le
    have hfetch : Shows (fetch env s (offset + i)) [] byte := hbyte ▸ shows_fetch hindex
    have hlater := ih (i := i + 1) (by rw [Store.toNat_add_one (by omega)]; omega)
    rw [hrest] at hlater
    rw [hdrop]
    exact hfetch.bind_silent ((yields_tell trivial).bind hlater)

theorem shows_ntSendParam (h : g.Loaded s) (hle : i.toNat + left ≤ g.param.length) :
    Shows (ntSendParam env s left i) (((g.param.drop i.toNat).take left).map .ntSend) ⟨⟩ := by
  induction left generalizing i with
  | zero => exact yields_pure _
  | succ left ih =>
    have hmax := h.param_le
    obtain ⟨byte, bytes, hdrop⟩ : ∃ byte bytes, g.param.drop i.toNat = byte :: bytes := by
      refine List.exists_cons_of_ne_nil fun hnil => ?_
      have hlength := List.drop_eq_nil_iff.mp hnil
      omega
    have hbyte : g.param[i.toNat]? = some byte := by
      rw [← List.head?_drop, hdrop]
      rfl
    have hlt : i.toNat < 32 := by omega
    have hfetch : Shows (fetchParam env s i) [] byte :=
      h.paramString _ byte hbyte hlt ▸ shows_fetchParam hlt
    have hlater := ih (i := i + 1) (by rw [Store.toNat_add_one (by omega)]; omega)
    rw [Store.toNat_add_one (by omega), ← List.drop_drop, hdrop] at hlater
    rw [hdrop]
    exact hfetch.bind_silent ((yields_tell trivial).bind hlater)

end Loops

/-- A routine shows what is described, and leaves a machine that is described. -/
def Serves (g : Setting) (x : Emulator Machine) (r : List Effect × Known) : Prop :=
  ∃ t, Shows x r.1 t ∧ r.2.Fits g t

/-- A pass does one of the things that are described. -/
def Passes (g : Setting) (x : Emulator Control) (outcomes : List (Outcome Effect Known)) : Prop :=
  ∃ o ∈ outcomes, ∃ c, Shows x o.shown c ∧ match o.next with
    | none => ∃ t, c = .returned t
    | some k => ∃ t, c = .next t ∧ k.Fits g t

section Interrupts

variable {g : Setting} {k : Known} {env : Environment} {s : Machine} {es : List Effect} {byte : UInt8}
  {r : List Effect × Known}

/-- The status in BL. -/
theorem Known.answer_sound (h : k.Fits g s) (hanswer : k.answer es (some byte) = some r) :
    r.1 = es ∧ Serves g (writeReg s rBL byte) ([], r.2) := by
  obtain ⟨k', hk', rfl⟩ := Option.map_eq_some_iff.mp hanswer
  obtain ⟨hi, hset⟩ := h.set hk'
  exact ⟨rfl, _, shows_writeReg hi, hset byte fun b hb => Option.some.inj hb⟩

/-- A routine that shows effects before it sets the status. -/
theorem Known.serves_answer {x : Emulator PUnit} (h : k.Fits g s) (hx : Shows x es ⟨⟩)
    (hanswer : k.answer es (some byte) = some r) :
    Serves g (x >>= fun _ => writeReg s rBL byte) r := by
  obtain ⟨rfl, t, ht, hfits⟩ := Known.answer_sound h hanswer
  exact ⟨t, hx.bind_last ht, hfits⟩

/-- The value of a register that is known. -/
theorem Known.Fits.readReg (h : k.Fits g s) (index : ℕ) (hi : index < 8)
    (hk : k.reg ⟨index, hi⟩ = some byte) : Shows (readReg s index) [] byte := by
  have hread := shows_readReg (s := s) hi
  rwa [h.reg _ byte hk] at hread

theorem Known.display_sound (h : k.Fits g s) (hserves : Known.display g k = some r) :
    Serves g (iscDisplayRoutine env s) r := by
  obtain ⟨ah, hah, hserves⟩ := Option.bind_eq_some_iff.mp hserves
  have hreadAH := h.readReg rAH (by decide) hah
  -- what AH asks for: a string, a clear screen, or nothing known
  split at hserves
  · next hprint =>
    simp only [Option.bind_eq_bind, Option.bind_eq_some_iff, Option.pure_def,
      Option.some.injEq] at hserves
    obtain ⟨dl, hdl, dh, hdh, es, hstring, rfl⟩ := hserves
    unfold Known.string at hstring
    split at hstring
    · next hzero =>
      obtain rfl := Option.some.inj hstring
      have hdisplay : Shows (displayString env s (pointer dl dh 0 0) s.programSize.toNat 0) _ ⟨⟩ :=
        shows_displayString h.loaded rfl hzero (by
          rw [h.loaded.programSize, List.length_drop]
          exact Nat.sub_le _ _)
      refine ⟨{ s with flagConsoleDirty := 1 }, hreadAH.bind_silent ?_,
        h.loaded.frame rfl rfl rfl rfl, h.virtual, h.pc, h.pcRet, h.reg, h.stack_le, h.stackPtr,
        h.stack, h.flagCompare, h.flagGreater, rfl⟩
      rw [if_pos hprint]
      exact (h.readReg rDH (by decide) hdh).bind_silent
        ((h.readReg rDL (by decide) hdl).bind_silent (hdisplay.bind_last (yields_pure _)))
    · cases hstring
  · next hprint =>
    split at hserves
    · next hclear =>
      obtain rfl := Option.some.inj hserves
      refine ⟨{ s with flagConsoleDirty := 0 }, hreadAH.bind_silent ?_,
        h.loaded.frame rfl rfl rfl rfl, h.virtual, h.pc, h.pcRet, h.reg, h.stack_le, h.stackPtr,
        h.stack, h.flagCompare, h.flagGreater, rfl⟩
      rw [if_neg hprint, if_pos hclear]
      exact (yields_tell trivial).bind ((yields_tell trivial).bind (yields_pure _))
    · next hclear =>
      obtain ⟨hnil, t, ht, hfits⟩ := Known.answer_sound h hserves
      refine ⟨t, ?_, hfits⟩
      rw [hnil]
      refine hreadAH.bind_silent ?_
      rw [if_neg hprint, if_neg hclear]
      exact ht

/-- The bounds that the network routine checks, as those of the program. -/
theorem Setting.Loaded.bounds_iff (h : g.Loaded s) (dl dh cl : UInt8) :
    (pointer dl dh 0 0 ≥ s.programSize ∨ pointer dl dh 0 0 + cl.toUInt32 ≥ s.programSize) ↔
      (pointer dl dh 0 0).toNat ≥ g.program.length ∨
        (pointer dl dh 0 0).toNat + cl.toNat ≥ g.program.length := by
  have hlt := pointer_low_toNat_lt dl dh
  have hcl := cl.toNat_lt
  have hsum : (pointer dl dh 0 0 + cl.toUInt32).toNat = (pointer dl dh 0 0).toNat + cl.toNat := by
    rw [UInt32.toNat_add, UInt8.toNat_toUInt32]
    omega
  rw [ge_iff_le, ge_iff_le, UInt32.le_iff_toNat_le, UInt32.le_iff_toNat_le, hsum,
    h.programSize]

/-- The parameters are sent whole. -/
theorem shows_ntSendParam_all (h : g.Loaded s) :
    Shows (ntSendParam env s s.paramLength.toUInt8.toNat 0) (g.param.map .ntSend) ⟨⟩ := by
  have hle := h.param_le
  have hlength : s.paramLength.toUInt8.toNat = g.param.length := by
    rw [UInt32.toNat_toUInt8, h.paramLength]
    omega
  have hsend : Shows (ntSendParam env s g.param.length 0)
      (((g.param.drop (0 : UInt32).toNat).take g.param.length).map .ntSend) ⟨⟩ :=
    shows_ntSendParam h (show 0 + _ ≤ _ by omega)
  rw [hlength]
  rwa [UInt32.toNat_zero, List.drop_zero, List.take_length] at hsend

/-- A routine that reads a register first. -/
theorem serves_bind {x : Emulator UInt8} {f : UInt8 → Emulator Machine} (hx : Shows x [] byte)
    (hf : Serves g (f byte) r) : Serves g (x >>= f) r := by
  obtain ⟨t, ht, hfits⟩ := hf
  exact ⟨t, hx.bind_silent ht, hfits⟩

/-- A routine that sets the status and shows nothing. -/
theorem Known.serves_status (h : k.Fits g s) (hanswer : k.answer [] (some byte) = some r) :
    Serves g (writeReg s rBL byte) r := by
  obtain ⟨hnil, t, ht, hfits⟩ := Known.answer_sound h hanswer
  refine ⟨t, ?_, hfits⟩
  rw [hnil]
  exact ht

theorem Known.network_sound (h : k.Fits g s) (henv : g.Answers env)
    (hserves : Known.network g k = some r) : Serves g (iscNetworkRoutine env s) r := by
  obtain ⟨ah, hah, hserves⟩ := Option.bind_eq_some_iff.mp hserves
  refine serves_bind (h.readReg rAH (by decide) hah) ?_
  -- what the register AH asks for: the initiation, a message, or nothing known
  split at hserves
  · next hinit =>
    rw [if_pos hinit]
    -- the setting says what the device answers
    by_cases habsent : env.ntInit = 0
    · rw [henv.ntInit, decide_eq_false (not_not_intro habsent)] at hserves
      rw [if_pos habsent]
      exact Known.serves_answer h (yields_tell trivial) hserves
    · rw [henv.ntInit, decide_eq_true habsent, if_pos rfl, henv.ntCheckInitiated] at hserves
      obtain ⟨hshown, t, ht, hfits⟩ := Known.answer_sound h hserves
      rw [if_neg habsent]
      refine ⟨t, ?_, hfits⟩
      rw [hshown]
      by_cases hfailed : env.ntCheckInitiated = 0
      · rw [decide_eq_false (not_not_intro hfailed)] at ht
        rw [if_pos hfailed]
        exact (yields_tell trivial).bind ((yields_tell trivial).bind ht)
      · rw [decide_eq_true hfailed] at ht
        rw [if_neg hfailed]
        exact (yields_tell trivial).bind ((yields_tell trivial).bind ht)
  · next hinit =>
    rw [if_neg hinit]
    split at hserves
    · next hsend =>
      rw [if_pos hsend]
      simp only [Option.bind_eq_bind, Option.bind_eq_some_iff] at hserves
      obtain ⟨dl, hdl, dh, hdh, cl, hcl, hserves⟩ := hserves
      refine serves_bind (h.readReg rDH (by decide) hdh) (serves_bind (h.readReg rDL (by decide) hdl)
        (serves_bind (h.readReg rCL (by decide) hcl) ?_))
      have hbounds := h.loaded.bounds_iff dl dh cl
      split at hserves
      · next hout =>
        rw [if_pos (hbounds.mpr hout)]
        exact Known.serves_status h hserves
      · next hin =>
        rw [if_neg (hbounds.not.mpr hin)]
        obtain ⟨al, hal, hserves⟩ := Option.bind_eq_some_iff.mp hserves
        refine serves_bind (h.readReg rAL (by decide) hal) ?_
        -- the message is in the program, or it is the parameter string
        by_cases hprogram : al = 0x00
        · rw [if_pos hprogram] at hserves
          have hsent : Shows (ntSend env s (pointer dl dh 0 0) cl.toNat 0)
              (Known.message g ((pointer dl dh 0 0).toNat + (0 : UInt32).toNat) cl.toNat) ⟨⟩ :=
            shows_ntSend h.loaded (by
              rw [UInt32.toNat_zero]
              omega)
          rw [UInt32.toNat_zero, Nat.add_zero] at hsent
          dsimp only
          rw [if_pos hprogram]
          exact Known.serves_answer h hsent hserves
        · rw [if_neg hprogram] at hserves
          dsimp only
          rw [if_neg hprogram]
          by_cases hparam : al = 0x01
          · rw [if_pos hparam] at hserves ⊢
            exact Known.serves_answer h (shows_ntSendParam_all h.loaded) hserves
          · rw [if_neg hparam] at hserves ⊢
            exact Known.serves_status h hserves
    · next hsend =>
      rw [if_neg hsend]
      exact Known.serves_status h hserves

theorem Known.operatingSystem_sound (h : k.Fits g s) (henv : g.Answers env)
    (hserves : Known.operatingSystem g k = some r) : Serves g (iscOperatingSystem env s) r := by
  obtain ⟨ah, hah, hserves⟩ := Option.bind_eq_some_iff.mp hserves
  refine serves_bind (h.readReg rAH (by decide) hah) ?_
  split at hserves
  · next hload =>
    rw [if_pos hload]
    rw [henv.library, libraryStatus] at hserves
    have htell : Shows (tell Effect.loadLibrary) [.loadLibrary] ⟨⟩ := yields_tell trivial
    by_cases h₁ : env.loadLibrary = -1
    · rw [if_pos h₁] at hserves ⊢
      exact Known.serves_answer h htell hserves
    · rw [if_neg h₁] at hserves ⊢
      by_cases h₂ : env.loadLibrary = -2
      · rw [if_pos h₂] at hserves ⊢
        exact Known.serves_answer h htell hserves
      · rw [if_neg h₂] at hserves ⊢
        by_cases h₃ : env.loadLibrary = -3
        · rw [if_pos h₃] at hserves ⊢
          exact Known.serves_answer h htell hserves
        · rw [if_neg h₃] at hserves ⊢
          by_cases h₀ : env.loadLibrary ≥ 0
          · rw [if_pos h₀] at hserves ⊢
            exact Known.serves_answer h htell hserves
          · -- the register is left as it was
            rw [if_neg h₀] at hserves ⊢
            obtain rfl := Option.some.inj hserves
            exact ⟨s, htell.bind_last (yields_pure s), h⟩
  · next hload =>
    obtain rfl := Option.some.inj hserves
    rw [if_neg hload]
    exact ⟨s, yields_pure s, h⟩

theorem Known.interruptRoutine_sound {argA : UInt8} (h : k.Fits g s) (henv : g.Answers env)
    (hserves : Known.interruptRoutine g k argA = some r) :
    Serves g (X4.interruptRoutine env s argA) r := by
  unfold Known.interruptRoutine at hserves
  unfold X4.interruptRoutine
  by_cases h10 : argA = 0x10
  · rw [if_pos h10] at hserves ⊢
    exact Known.display_sound h hserves
  · rw [if_neg h10] at hserves ⊢
    by_cases h13 : argA = 0x13
    · rw [if_pos h13] at hserves ⊢
      exact Known.serves_status h hserves
    · rw [if_neg h13] at hserves ⊢
      by_cases h14 : argA = 0x14
      · rw [if_pos h14] at hserves ⊢
        exact Known.network_sound h henv hserves
      · rw [if_neg h14] at hserves ⊢
        by_cases h47 : argA = 0x47
        · rw [if_pos h47] at hserves ⊢
          exact Known.operatingSystem_sound h henv hserves
        · rw [if_neg h47] at hserves ⊢
          obtain rfl := Option.some.inj hserves
          exact ⟨s, yields_pure s, h⟩

theorem Known.interrupt_sound {argA : UInt8} {outcomes : List (Outcome Effect Known)}
    (h : k.Fits g s) (henv : g.Answers env) (hpass : Known.interrupt g k argA = some outcomes) :
    Passes g (X4.interrupt env s argA) outcomes := by
  obtain ⟨⟨es, k'⟩, hroutine, hpass⟩ := Option.bind_eq_some_iff.mp hpass
  obtain ⟨t, ht, hfits⟩ := Known.interruptRoutine_sound (h.movePc 1) henv hroutine
  dsimp only at hpass
  split at hpass
  · next hreturn =>
    obtain rfl := Option.some.inj hpass
    refine ⟨_, List.mem_cons_self, .returned t, ht.bind ?_, t, rfl⟩
    rw [if_pos hreturn, hfits.flagConsoleDirty]
    by_cases hdirty : k'.flagConsoleDirty = 1
    · rw [if_pos hdirty, if_pos hdirty]
      exact (yields_tell trivial).bind_last (yields_pure _)
    · rw [if_neg hdirty, if_neg hdirty]
      exact yields_pure _
  · next hreturn =>
    obtain rfl := Option.some.inj hpass
    refine ⟨_, List.mem_cons_self, .next t, ht.bind_last ?_, t, rfl, hfits⟩
    rw [if_neg hreturn]
    exact yields_pure _

end Interrupts

/-! ## Passes and runs -/

section Runs

variable {g : Setting} {k : Known} {env : Environment} {s t u : Machine}
  {outcomes : List (Outcome Effect Known)}

/-- The operands of a pass are bytes of the program, as far as they are known. -/
theorem Known.Fits.operands (h : k.Fits g s) (env : Environment) : (k.operands g).Fits (operandsAt env s) := by
  have hbyte : ∀ i : UInt32, ∀ byte, g.byteAt (k.pc + i) = some byte →
      programByte env s (s.pc + i) = byte := by
    intro i byte hbyte
    rw [h.pc]
    exact (h.loaded.programByte env hbyte).2
  exact ⟨hbyte 1, hbyte 2, hbyte 3, hbyte 4, hbyte 5⟩

/-- The six bytes of a pass are fetched from the buffer. -/
theorem shows_fetchOperands (hpc : s.pc.toNat + 5 < maxProgramSize) :
    Shows (fetchOperands env s) [] (operandsAt env s) := by
  have hmax : maxProgramSize = 256 := rfl
  have hfetch : ∀ i : UInt32, i.toNat ≤ 5 →
      Shows (fetch env s (s.pc + i)) [] (programByte env s (s.pc + i)) := by
    intro i hi
    refine shows_fetch ?_
    rw [UInt32.toNat_add]
    omega
  exact (hfetch 1 (by decide)).bind_silent ((hfetch 2 (by decide)).bind_silent
    ((hfetch 3 (by decide)).bind_silent ((hfetch 4 (by decide)).bind_silent
      ((hfetch 5 (by decide)).bind_silent (yields_pure _)))))

/-- **A pass** does one of the things that its description says. -/
theorem Known.step_sound (h : k.Fits g s) (henv : g.Answers env)
    (hstep : Known.step g k = some outcomes) : Passes g (emulateStep env s) outcomes := by
  unfold Known.step at hstep
  split at hstep
  · next hpc =>
    obtain ⟨opCode, hopCode, hstep⟩ := Option.bind_eq_some_iff.mp hstep
    have hpc' : s.pc.toNat + 5 < maxProgramSize := by
      rw [h.pc]
      exact hpc
    -- the passes fetch the opcode and the operands
    have hfetch : Shows (fetch env s s.pc) [] opCode := by
      rw [← h.pc] at hopCode
      obtain ⟨hlt, hbyte⟩ := h.loaded.programByte env hopCode
      rw [← hbyte]
      exact shows_fetch hlt
    have hpass : Passes g (dispatch env { s with pc := s.pc + 1 } opCode (operandsAt env s))
        outcomes := by
      unfold dispatch
      cases hop : OpCode.ofByte opCode with
      | some op =>
        rw [hop] at hstep
        obtain ⟨o, ho, k', t, hnext, ht, hfits⟩ :=
          Known.execute_sound (h.movePc 1) (h.operands env) hstep
        refine ⟨o, ho, .next t, ht.bind_last (yields_pure _), ?_⟩
        rw [hnext]
        exact ⟨t, rfl, hfits⟩
      | none =>
        rw [hop] at hstep
        dsimp only at hstep ⊢
        split at hstep
        · next hint =>
          obtain ⟨argA, hA, hstep⟩ := Option.bind_eq_some_iff.mp hstep
          rw [if_pos hint, (h.operands env).argA argA hA]
          exact Known.interrupt_sound (h.movePc 1) henv hstep
        · next hint =>
          obtain rfl := Option.some.inj hstep
          rw [if_neg hint]
          exact ⟨_, List.mem_cons_self, _, yields_pure _, _, rfl, h.movePc 1⟩
    obtain ⟨o, ho, c, hc, hnext⟩ := hpass
    exact ⟨o, ho, c, hfetch.bind_silent ((shows_fetchOperands hpc').bind_silent hc), hnext⟩
  · cases hstep

theorem copyInto_spec {n : ℕ} {buffer buffer' : Fin n → UInt8} {bytes : List UInt8}
    (h : copyInto buffer bytes = .ok buffer') : bytes.length ≤ n ∧
      ∀ i byte, bytes[i]? = some byte → ∀ hi : i < n, buffer' ⟨i, hi⟩ = byte := by
  unfold copyInto at h
  split at h
  · next hle =>
    obtain rfl := Except.ok.inj h
    refine ⟨hle, fun i byte hbyte hi => ?_⟩
    dsimp only
    rw [List.getD_eq_getElem?_getD, hbyte, Option.getD_some]
  · cases h

/-- A program and its parameters are loaded. -/
theorem Setting.loaded_of_set (hprogram : emulatorSetProgram g.program s = .ok t)
    (hparam : emulatorSetParameters g.param t = .ok u) : g.Loaded u := by
  cases hbuffer : copyInto s.programBuffer g.program with
  | error e =>
    rw [emulatorSetProgram, hbuffer] at hprogram
    cases hprogram
  | ok buffer =>
    rw [emulatorSetProgram, hbuffer] at hprogram
    obtain rfl := Except.ok.inj hprogram
    cases hstring : copyInto s.paramString g.param with
    | error e =>
      rw [emulatorSetParameters, hstring] at hparam
      cases hparam
    | ok string =>
      rw [emulatorSetParameters, hstring] at hparam
      obtain rfl := Except.ok.inj hparam
      obtain ⟨hprogramLe, hprogramBytes⟩ := copyInto_spec hbuffer
      obtain ⟨hparamLe, hparamBytes⟩ := copyInto_spec hstring
      have hmax : maxProgramSize = 256 := rfl
      refine ⟨hprogramLe, ?_, hprogramBytes, hparamLe, ?_, hparamBytes⟩
      · exact UInt32.toNat_ofNat_of_lt' (hprogramLe.trans_lt (by decide))
      · exact UInt32.toNat_ofNat_of_lt' (hparamLe.trans_lt (by decide))

/-- The description of the entry. -/
theorem Setting.Loaded.fits_enter (h : g.Loaded s) : Known.enter.Fits g (emulateEnter s) where
  loaded := h.frame rfl rfl rfl rfl
  virtual := virtual_emulateEnter s
  pc := rfl
  pcRet := rfl
  reg _ _ hb := by cases hb
  stack_le := Nat.zero_le _
  stackPtr := rfl
  stack _ _ hb := by cases hb
  flagCompare _ := Option.some.inj
  flagGreater _ := Option.some.inj
  flagConsoleDirty := rfl

/-- The loop returns within `n` passes, if there are as many, and shows `es`. -/
def Ends (n : ℕ) (p : List Environment × Machine) (es : List Effect) : Prop :=
  n ≤ p.1.length → ∃ t, Shows (emulateLoop p.1 p.2) es (some t)

/-- The description fits the machine, and the services of the passes to come answer as the setting
says. -/
def Known.FitsRun (g : Setting) (k : Known) (p : List Environment × Machine) : Prop :=
  k.Fits g p.2 ∧ ∀ env ∈ p.1, g.Answers env

/-- The rest of a run goes as an outcome of its next pass says. -/
theorem Known.run_sound (henv : g.Answers env) (n : ℕ) (k : Known) (p : List Environment × Machine)
    (outcomes : List (Outcome Effect Known)) (hstep : Known.step g k = some outcomes)
    (hfits : k.FitsRun g p) : ∃ o ∈ outcomes, o.Describes (Known.FitsRun g) Ends n p := by
  obtain ⟨envs, s⟩ := p
  obtain ⟨hk, hanswers⟩ := hfits
  have hpc : s.pc.toNat < maxProgramSize := by
    have hpc := hk.pc
    unfold Known.step at hstep
    split at hstep
    · next hlt =>
      rw [hpc]
      exact (Nat.le_add_right _ _).trans_lt hlt
    · cases hstep
  cases envs with
  | nil =>
    -- without a further pass nothing is said
    have hend : ∀ es, Ends (n + 1) (([] : List Environment), s) es :=
      fun es hn => absurd hn (Nat.not_succ_le_zero n)
    obtain ⟨⟨shown, - | k'⟩, ho, c, -, hnext⟩ := Known.step_sound hk henv hstep
    · exact ⟨_, ho, hend shown⟩
    · obtain ⟨t, -, ht⟩ := hnext
      exact ⟨_, ho, ([], t), ⟨ht, hanswers⟩, fun es _ => hend _⟩
  | cons env' envs =>
    obtain ⟨⟨shown, - | k'⟩, ho, c, hc, hnext⟩ :=
      Known.step_sound hk (hanswers env' List.mem_cons_self) hstep
    · obtain ⟨t, rfl⟩ := hnext
      refine ⟨_, ho, fun _ => ⟨t, ?_⟩⟩
      dsimp only
      rw [emulateLoop, if_pos hpc]
      exact hc.bind_last (yields_pure _)
    · obtain ⟨t, rfl, ht⟩ := hnext
      refine ⟨_, ho, (envs, t), ⟨ht, fun e he => hanswers e (List.mem_cons_of_mem _ he)⟩,
        fun es hends hn => ?_⟩
      obtain ⟨u, hu⟩ := hends (Nat.le_of_succ_le_succ hn)
      refine ⟨u, ?_⟩
      dsimp only
      rw [emulateLoop, if_pos hpc]
      exact hc.bind hu

/-- A run of an explored program that was loaded shows one of the lists that are found. -/
theorem Known.shows_emulateX4 {n : ℕ} {traces : List (List Effect)}
    (hexplore : Known.explore g n = some traces) (hloaded : g.Loaded s) {envs : List Environment}
    (hn : n ≤ envs.length) (henvs : ∀ env ∈ envs, g.Answers env) :
    ∃ es ∈ traces, ∃ t, Shows (emulateX4 envs s) es (some t) := by
  obtain ⟨env, henv⟩ : ∃ env, env ∈ envs := by
    refine List.exists_mem_of_ne_nil _ fun hnil => ?_
    rw [hnil, List.length_nil, Nat.le_zero] at hn
    rw [hn] at hexplore
    cases hexplore
  have henter : Known.enter.FitsRun g (envs, emulateEnter s) := ⟨hloaded.fits_enter, henvs⟩
  obtain ⟨es, hes, hends⟩ := explore_sound (Known.run_sound (henvs env henv)) hexplore henter
  exact ⟨es, hes, hends hn⟩

/-- **Every run of an explored program** accesses its arrays inside their bounds, returns to the system
within the passes explored, and shows one of the lists that are found, whatever the machine held before the program and its parameters
were loaded. -/
theorem yields_emulateX4 {n : ℕ} {traces : List (List Effect)}
    (hexplore : Known.explore g n = some traces) (hload : emulatorSetProgram g.program s = .ok t)
    (hparam : emulatorSetParameters g.param t = .ok u) {envs : List Environment}
    (hn : n ≤ envs.length) (henvs : ∀ env ∈ envs, g.Answers env) :
    ∃ es ∈ traces, ∃ v, Shows (emulateX4 envs u) es (some v) :=
  Known.shows_emulateX4 hexplore (Setting.loaded_of_set hload hparam) hn henvs

/-- A loop that counts AL down from 3, and prints nothing but the line at its end. -/
def countDown : Setting := ⟨[0x89, 0x00, 0x03, 0xFC, 0x00, 0x38, 0x00, 0x00, 0xF3, 0x03, 0x00, 0x00, 0x00,
  0xCD, 0x20], [], false, false, some 0⟩

theorem explore_countDown : Known.explore countDown 11 = some [[.printLn]] := by cbv

/-- `yields_emulateX4` for `countDown`. -/
theorem yields_countDown : ∃ t u,
    emulatorSetProgram countDown.program (.powerOn fun _ => 0) = .ok t ∧
    emulatorSetParameters countDown.param t = .ok u ∧
    ∃ es ∈ [[Effect.printLn]], ∃ v,
      Shows (emulateX4 (List.replicate 11 quiet) u) es (some v) := by
  obtain ⟨t, ht⟩ : ∃ t, emulatorSetProgram countDown.program (.powerOn fun _ => 0) = .ok t :=
    ⟨_, rfl⟩
  obtain ⟨u, hu⟩ : ∃ u, emulatorSetParameters countDown.param t = .ok u := ⟨_, rfl⟩
  exact ⟨t, u, ht, hu, yields_emulateX4 explore_countDown ht hu (by decide) fun env henv =>
    List.eq_of_mem_replicate henv ▸ ⟨rfl, rfl, rfl⟩⟩

end Runs

end MicroKernel.X4
