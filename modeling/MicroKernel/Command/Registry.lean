import MicroKernel.Command.Lookup
import MicroKernel.Lib.Run

/-!
# The full command table

Sequences of calls of `ConsoleRegisterCommand` of `kernel/command/cli.c`, with names of any length.
The search for a free entry leaves index 0 when there is none, so a registration into a full table
goes to the first entry, and writes over as many characters of its name as it copies.

## Main definitions

* `RegisterCall`, `registerCalls`: a call, and the registry behind calls from `cliInit` on
* `TableKept`: the registry stays as it is once it is full
* `RegisterCall.Repeats`: a call that writes what the entry of another holds

## Main results

* `registerCalls_eq`: the registry behind at most `CONSOLE_FUNCTION_TABLE_SIZE` calls
* `tableKept_iff`: the table is kept by calls that repeat the first
-/

namespace MicroKernel.Command

variable {F : Type*}

/-- A call of `ConsoleRegisterCommand`: the bytes at `name`, `nameLength` and `functionPtr`. -/
structure RegisterCall (F : Type*) where
  name : List UInt8
  nameLength : UInt8
  functionPtr : F

namespace RegisterCall

/-- The number of characters of the name that are copied. -/
def copyLength (call : RegisterCall F) : ℕ :=
  min call.nameLength.toNat consoleFunctionNameLength - 1

/-- The characters of the name that are copied. -/
def copied (call : RegisterCall F) : List UInt8 := call.name.take call.copyLength

/-- The name starts with a letter, and the bytes that are copied are there. -/
structure LetterInitial (call : RegisterCall F) : Prop where
  letter : isLetter (call.copied.headD 0) = true
  length : call.copyLength ≤ call.name.length

/-- The entry of a call that takes a blank entry. -/
def entry (call : RegisterCall F) : ConsoleCommand F where
  name := call.copied ++ List.replicate (consoleFunctionNameLength - call.copied.length) space
  function := some call.functionPtr

def perform (registry : List (ConsoleCommand F)) (call : RegisterCall F) :
    List (ConsoleCommand F) :=
  consoleRegisterCommand call.name call.nameLength call.functionPtr registry

/-- What the call copies is there already in the entry of the call `first`. -/
def Repeats (call first : RegisterCall F) : Prop :=
  call.functionPtr = first.functionPtr ∧ call.copied <+: first.entry.name

end RegisterCall

/-- `cliInit`, and the calls in order. -/
def registerCalls (calls : List (RegisterCall F)) : List (ConsoleCommand F) :=
  calls.foldl RegisterCall.perform cliInit

/-- Once the table is full, no further call changes a name or a function of it. -/
def TableKept (calls : List (RegisterCall F)) : Prop :=
  ∀ k, consoleFunctionTableSize ≤ k →
    registerCalls (calls.take k) = registerCalls (calls.take consoleFunctionTableSize)

/-! ## The table while it has room -/

section Room

variable {call first : RegisterCall F} {calls : List (RegisterCall F)}

theorem RegisterCall.LetterInitial.length_copied (hcall : call.LetterInitial) :
    call.copied.length = call.copyLength := by
  rw [RegisterCall.copied, List.length_take, Nat.min_eq_left hcall.length]

theorem RegisterCall.LetterInitial.isFree_entry (hcall : call.LetterInitial) :
    isFree call.entry = false := by
  have hhead : call.entry.name.headD 0 = call.copied.headD 0 := by
    have hletter := hcall.letter
    rw [entry]
    cases hc : call.copied with
    | nil =>
      rw [hc] at hletter
      exact absurd hletter (by decide)
    | cons c copied => rfl
  rw [isFree, hhead, hcall.letter]
  rfl

theorem isFree_entries (hcalls : ∀ call ∈ calls, call.LetterInitial) :
    ∀ c ∈ calls.map RegisterCall.entry, isFree c = false := by
  intro c hc
  obtain ⟨call, hcall, rfl⟩ := List.mem_map.mp hc
  exact (hcalls call hcall).isFree_entry

/-- **The registry** behind calls that find room: their entries in order, and free entries. -/
theorem registerCalls_eq (hlength : calls.length ≤ consoleFunctionTableSize)
    (hcalls : ∀ call ∈ calls, call.LetterInitial) :
    registerCalls calls = calls.map RegisterCall.entry ++
      List.replicate (consoleFunctionTableSize - calls.length) freeCommand := by
  induction calls using List.reverseRecOn with
  | nil => rfl
  | append_singleton calls call ih =>
    rw [List.length_append, List.length_singleton] at hlength ⊢
    have hbefore : ∀ c ∈ calls, c.LetterInitial := fun c hc => hcalls c (List.mem_append_left _ hc)
    have hcall := hcalls call (List.mem_append_right _ (List.mem_singleton_self _))
    obtain ⟨k, hk⟩ : ∃ k, consoleFunctionTableSize - calls.length = k + 1 :=
      ⟨consoleFunctionTableSize - calls.length - 1, by omega⟩
    have hentry : (⟨call.copied ++ (List.replicate consoleFunctionNameLength space).drop
        call.copyLength, some call.functionPtr⟩ : ConsoleCommand F) = call.entry := by
      rw [List.drop_replicate, ← hcall.length_copied]
      rfl
    rw [registerCalls, List.foldl_append, ← registerCalls, ih (by omega) hbefore, hk,
      List.replicate_succ, show consoleFunctionTableSize - (calls.length + 1) = k by omega,
      List.map_append, List.append_assoc, List.map_singleton, ← hentry]
    exact consoleRegisterCommand_of_isFree (isFree_entries hbefore) rfl ..

end Room

/-! ## The full table -/

section Full

variable {call first : RegisterCall F} {calls : List (RegisterCall F)}

/-- **A registration into a full table** goes to the first entry. -/
theorem perform_full {registry : List (ConsoleCommand F)}
    (hfull : ∀ c ∈ first.entry :: registry, isFree c = false) (call : RegisterCall F) :
    call.perform (first.entry :: registry) =
      ⟨call.copied ++ first.entry.name.drop call.copyLength, some call.functionPtr⟩ ::
        registry := by
  rw [RegisterCall.perform, consoleRegisterCommand, List.findIdx?_eq_none_iff.mpr hfull]
  rfl

/-- The table is left by a call that repeats the first, and by no other. -/
theorem perform_full_eq_iff {registry : List (ConsoleCommand F)}
    (hfull : ∀ c ∈ first.entry :: registry, isFree c = false) (hcall : call.LetterInitial) :
    call.perform (first.entry :: registry) = first.entry :: registry ↔ call.Repeats first := by
  rw [perform_full hfull, List.cons_eq_cons, and_iff_left rfl, RegisterCall.Repeats,
    List.prefix_iff_eq_append, hcall.length_copied]
  constructor
  · intro h
    obtain ⟨hname, hfunction⟩ := ConsoleCommand.mk.inj h
    exact ⟨Option.some.inj hfunction, hname⟩
  · rintro ⟨hfunction, hname⟩
    rw [hname, hfunction]
    rfl

/-- **The table is kept** if and only if the calls behind the first eight repeat the first call. -/
theorem tableKept_iff (hcalls : ∀ call ∈ calls, call.LetterInitial) :
    TableKept calls ↔ ∀ first ∈ calls.head?, ∀ call ∈ calls.drop consoleFunctionTableSize,
      call.Repeats first := by
  rcases Nat.le_total calls.length consoleFunctionTableSize with hle | hle
  · -- the table is not yet full, or just full
    refine iff_of_true (fun k hk => ?_) fun first _ call hcall => ?_
    · rw [List.take_of_length_le hle, List.take_of_length_le (hle.trans hk)]
    · rw [List.drop_eq_nil_of_le hle] at hcall
      exact absurd hcall List.not_mem_nil
  obtain ⟨first, rest, hfirst⟩ : ∃ first rest, calls.take consoleFunctionTableSize = first :: rest :=
    List.exists_cons_of_length_pos (by rw [List.length_take, Nat.min_eq_left hle]; decide)
  have hhead : calls.head? = some first := by
    rw [← List.take_append_drop consoleFunctionTableSize calls, hfirst]
    rfl
  have htake : ∀ c ∈ first :: rest, c.LetterInitial := fun c hc =>
    hcalls c (List.mem_of_mem_take (hfirst ▸ hc))
  have hregistry : registerCalls (calls.take consoleFunctionTableSize) =
      first.entry :: rest.map RegisterCall.entry := by
    have hlength : (first :: rest).length = consoleFunctionTableSize := by
      rw [← hfirst, List.length_take, Nat.min_eq_left hle]
    rw [hfirst, registerCalls_eq hlength.le htake, hlength, Nat.sub_self, List.replicate_zero,
      List.append_nil, List.map_cons]
  have hfull : ∀ c ∈ first.entry :: rest.map RegisterCall.entry, isFree c = false :=
    isFree_entries htake
  -- the calls behind the eighth start from the full table
  have hbehind : ∀ j, registerCalls (calls.take (consoleFunctionTableSize + j)) =
      ((calls.drop consoleFunctionTableSize).take j).foldl RegisterCall.perform
        (first.entry :: rest.map RegisterCall.entry) := by
    intro j
    rw [List.take_add, registerCalls, List.foldl_append, ← registerCalls, hregistry]
  rw [hhead]
  simp only [Option.mem_some_iff, forall_eq']
  have hkept : TableKept calls ↔ ∀ j, ((calls.drop consoleFunctionTableSize).take j).foldl
      RegisterCall.perform (first.entry :: rest.map RegisterCall.entry) =
        first.entry :: rest.map RegisterCall.entry := by
    refine ⟨fun h j => ?_, fun h k hk => ?_⟩
    · rw [← hbehind, h _ (Nat.le_add_right _ _), hregistry]
    · obtain ⟨j, rfl⟩ := Nat.exists_eq_add_of_le hk
      rw [hbehind, h j, hregistry]
  rw [hkept, Run.foldl_take_eq_iff]
  exact forall₂_congr fun call hcall =>
    perform_full_eq_iff hfull (hcalls call (List.mem_of_mem_drop hcall))

/-- Commands `a`, `b`, …, each with its number for a function. -/
def letterCall (i : ℕ) : RegisterCall ℕ := ⟨[0x61 + UInt8.ofNat i, 0], 2, i⟩

theorem letterInitial_letterCall : ∀ i < 9, (letterCall i).LetterInitial := by
  have hall : ∀ i : Fin 9, isLetter ((letterCall i).copied.headD 0) = true ∧
      (letterCall i).copyLength ≤ (letterCall i).name.length := by decide
  intro i hi
  obtain ⟨hletter, hlength⟩ := hall ⟨i, hi⟩
  exact ⟨hletter, hlength⟩

/-- `tableKept_iff` for eight commands, and the first of them again. -/
theorem tableKept_repeated : TableKept (((List.range 8) ++ [0]).map letterCall) := by
  have hletters : ∀ call ∈ ((List.range 8) ++ [0]).map letterCall, call.LetterInitial := by
    intro call hcall
    obtain ⟨i, hi, rfl⟩ := List.mem_map.mp hcall
    have hall : ∀ i ∈ List.range 8 ++ [0], i < 9 := by decide
    exact letterInitial_letterCall i (hall i hi)
  refine (tableKept_iff hletters).mpr fun first hfirst call hcall => ?_
  obtain rfl : letterCall 0 = first := Option.some.inj hfirst
  obtain rfl : call = letterCall 0 := List.mem_singleton.mp hcall
  exact ⟨rfl, by decide⟩

/-- A ninth command takes the entry of the first. -/
theorem exists_not_tableKept : ¬ ∀ calls : List (RegisterCall ℕ),
    (∀ call ∈ calls, call.LetterInitial) → TableKept calls := by
  intro h
  have hkept := h ((List.range 9).map letterCall) fun call hcall => by
    obtain ⟨i, hi, rfl⟩ := List.mem_map.mp hcall
    exact letterInitial_letterCall i (List.mem_range.mp hi)
  have hfunctions := congrArg (List.map ConsoleCommand.function) (hkept 9 (by decide))
  exact absurd hfunctions (by decide)

end Full

end MicroKernel.Command
