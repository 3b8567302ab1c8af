import Mathlib.Logic.Function.Basic
import Mathlib.Data.Set.Function
import Mathlib.Order.CompletePartialOrder
import Mathlib.Order.Interval.Set.Defs
import Mathlib.Tactic.Ring
import Mathlib.Tactic.IntervalCases

/-!
# Byte stores

A store maps addresses to bytes. A loop that writes one byte per pass is `writeEach`: the store
after writing `v i` at `f i` for every `i` of a list. Over 32-bit addresses a store holds words,
lowest byte first, and is seen from a base address by its offsets, which are natural numbers below
`2 ^ 32`.

## Main definitions

* `writeEach f v l m`: the store after a loop of writes
* `wordByte`, `wordOf`: the bytes of a word, and the word of four bytes
* `readWord a m`, `writeWord a w m`: words in a store
* `view base m o`: the byte at offset `o` from `base`
* `AgreeOff base S m m'`: the stores agree at the offsets from `base` outside `S`

## Main results

* `writeEach_of_forall_ne`, `writeEach_apply`: what a loop of writes leaves and what it stores
* `wordOf_wordByte`: a word is the word of its bytes
* `view_update`, `view_writeWord`: a write, seen from a base address
* `readWord_congr`, `readWord_writeWord`: reading a word back
* `agreeOff_writeEach`, `AgreeOff.readWord`: a loop of writes leaves what lies elsewhere
-/

namespace Store

variable {A B ι : Type*}

/-! ## Loops of writes -/

section Loops

variable [DecidableEq A]

/-- The store after writing `v i` at `f i` for each `i` of `l`, in order. -/
def writeEach (f : ι → A) (v : ι → B) (l : List ι) (m : A → B) : A → B :=
  l.foldl (fun m i => Function.update m (f i) (v i)) m

variable {f : ι → A} {v : ι → B} {l : List ι} {m : A → B} {a : A}

@[simp] theorem writeEach_nil : writeEach f v [] m = m := rfl

@[simp] theorem writeEach_cons (i : ι) :
    writeEach f v (i :: l) m = writeEach f v l (Function.update m (f i) (v i)) := rfl

theorem writeEach_append (l' : List ι) :
    writeEach f v (l ++ l') m = writeEach f v l' (writeEach f v l m) := List.foldl_append

/-- An address where every pass stores the byte that is there keeps it. -/
theorem writeEach_of_forall_eq (h : ∀ i ∈ l, f i = a → v i = m a) : writeEach f v l m a = m a := by
  induction l generalizing m with
  | nil => rfl
  | cons i l ih =>
    have hupdate : Function.update m (f i) (v i) a = m a := by
      rw [Function.update_apply]
      split
      · next heq => exact h i List.mem_cons_self heq.symm
      · rfl
    rw [writeEach_cons, ih fun j hj hfj => ?_, hupdate]
    rw [hupdate]
    exact h j (List.mem_cons_of_mem _ hj) hfj

/-- An address no pass writes keeps its byte. -/
theorem writeEach_of_forall_ne (h : ∀ i ∈ l, f i ≠ a) : writeEach f v l m a = m a :=
  writeEach_of_forall_eq fun i hi hfi => absurd hfi (h i hi)

/-- A loop that writes no address twice stores the byte of each pass. -/
theorem writeEach_apply (hf : Set.InjOn f {i | i ∈ l}) {i : ι} (hi : i ∈ l) :
    writeEach f v l m (f i) = v i := by
  induction l generalizing m with
  | nil => exact absurd hi List.not_mem_nil
  | cons j l ih =>
    rw [writeEach_cons]
    by_cases hil : i ∈ l
    · exact ih (hf.mono fun k hk => List.mem_cons_of_mem _ hk) hil
    · obtain rfl : i = j := (List.mem_cons.mp hi).resolve_right hil
      rw [writeEach_of_forall_ne fun k hk he => hil ?_, Function.update_self]
      exact hf (List.mem_cons_of_mem _ hk) List.mem_cons_self he ▸ hk

/-- A loop that writes one byte stores it wherever it writes. -/
theorem writeEach_const {b : B} (h : ∃ i ∈ l, f i = a) : writeEach f (fun _ => b) l m a = b := by
  induction l generalizing m with
  | nil => simp at h
  | cons j l ih =>
    rw [writeEach_cons]
    by_cases hl : ∃ i ∈ l, f i = a
    · exact ih hl
    · push Not at hl
      obtain ⟨i, hi, rfl⟩ := h
      obtain rfl : i = j := (List.mem_cons.mp hi).resolve_right fun hil => hl i hil rfl
      rw [writeEach_of_forall_ne hl, Function.update_self]

/-- The last pass that writes an address, if one does. -/
theorem exists_last_pass (f : ℕ → A) (n : ℕ) (a : A) :
    (∃ j < n, f j = a ∧ ∀ k, j < k → k < n → f k ≠ a) ∨ ∀ j < n, f j ≠ a := by
  induction n with
  | zero => exact Or.inr fun j hj => absurd hj (Nat.not_lt_zero j)
  | succ n ih =>
    by_cases hn : f n = a
    · exact Or.inl ⟨n, Nat.lt_succ_self n, hn, fun k hk hkn => by omega⟩
    · rcases ih with ⟨j, hj, hfj, hlast⟩ | hnone
      · refine Or.inl ⟨j, Nat.lt_succ_of_lt hj, hfj, fun k hk hkn => ?_⟩
        rcases Nat.lt_succ_iff_lt_or_eq.mp hkn with hlt | rfl
        · exact hlast k hk hlt
        · exact hn
      · refine Or.inr fun j hj => ?_
        rcases Nat.lt_succ_iff_lt_or_eq.mp hj with hlt | rfl
        · exact hnone j hlt
        · exact hn

/-- An address holds what the last pass that writes it stores. -/
theorem writeEach_range_of_last {f : ℕ → A} {v : ℕ → B} {n j : ℕ} (hj : j < n)
    (hlast : ∀ k, j < k → k < n → f k ≠ f j) : writeEach f v (List.range n) m (f j) = v j := by
  induction n with
  | zero => exact absurd hj (Nat.not_lt_zero j)
  | succ n ih =>
    rw [List.range_succ, writeEach_append, writeEach_cons, writeEach_nil]
    rcases Nat.lt_succ_iff_lt_or_eq.mp hj with hlt | rfl
    · rw [Function.update_of_ne (hlast n hlt (Nat.lt_succ_self n)).symm]
      exact ih hlt fun k hk hkn => hlast k hk (Nat.lt_succ_of_lt hkn)
    · exact Function.update_self ..

/-- **A loop changes nothing** if and only if every byte it stores last is there already. -/
theorem writeEach_range_eq_self {f : ℕ → A} {v : ℕ → B} {n : ℕ} :
    writeEach f v (List.range n) m = m ↔
      ∀ j < n, (∀ k, j < k → k < n → f k ≠ f j) → m (f j) = v j := by
  constructor
  · intro h j hj hlast
    rw [← writeEach_range_of_last (v := v) (m := m) hj hlast, h]
  · intro h
    funext a
    rcases exists_last_pass f n a with ⟨j, hj, rfl, hlast⟩ | hnone
    · rw [writeEach_range_of_last hj hlast, h j hj hlast]
    · exact writeEach_of_forall_ne fun i hi => hnone i (List.mem_range.mp hi)

end Loops

/-! ## Words -/

/-- Byte `k` of a word, the lowest first. -/
def wordByte (w : UInt32) (k : ℕ) : UInt8 := UInt8.ofNat (w.toNat / 256 ^ k)

/-- The next word, which is not above the last one. -/
theorem toNat_add_one {w : UInt32} (h : w.toNat + 1 < 2 ^ 32) : (w + 1).toNat = w.toNat + 1 := by
  rw [UInt32.toNat_add, UInt32.toNat_one]
  omega

/-- The word of four bytes, the lowest first. -/
def wordOf (b : ℕ → UInt8) : UInt32 :=
  UInt32.ofNat ((b 0).toNat + 256 * (b 1).toNat + 65536 * (b 2).toNat + 16777216 * (b 3).toNat)

theorem wordOf_congr {b c : ℕ → UInt8} (h : ∀ k < 4, b k = c k) : wordOf b = wordOf c := by
  simp only [wordOf, h 0 (by omega), h 1 (by omega), h 2 (by omega), h 3 (by omega)]

/-- A word is the word of its bytes. -/
theorem wordOf_wordByte (w : UInt32) : wordOf (wordByte w) = w := by
  have hw := w.toNat_lt
  apply UInt32.toNat_inj.mp
  simp only [wordOf, wordByte, UInt32.toNat_ofNat', UInt8.toNat_ofNat']
  omega

/-- The bytes of a word of four bytes are those bytes. -/
theorem wordByte_wordOf (b : ℕ → UInt8) {k : ℕ} (hk : k < 4) : wordByte (wordOf b) k = b k := by
  have h₀ := (b 0).toNat_lt
  have h₁ := (b 1).toNat_lt
  have h₂ := (b 2).toNat_lt
  have h₃ := (b 3).toNat_lt
  apply UInt8.toNat_inj.mp
  simp only [wordOf, wordByte, UInt32.toNat_ofNat', UInt8.toNat_ofNat']
  interval_cases k <;> omega

/-- The word stored at `a`. -/
def readWord (a : UInt32) (m : UInt32 → UInt8) : UInt32 := wordOf fun k => m (a + UInt32.ofNat k)

/-- The store after writing the word `w` at `a`. -/
def writeWord (a w : UInt32) (m : UInt32 → UInt8) : UInt32 → UInt8 :=
  writeEach (fun k => a + UInt32.ofNat k) (wordByte w) (List.range 4) m

/-! ## A store seen from a base address -/

/-- The byte at offset `o` from `base`. -/
def view (base : UInt32) (m : UInt32 → UInt8) (o : ℕ) : UInt8 := m (base + UInt32.ofNat o)

section View

variable {base a w : UInt32} {m m' : UInt32 → UInt8} {o : ℕ}

/-- Stores that look the same from a base address are equal. -/
theorem view_ext (base : UInt32) (h : ∀ o < 2 ^ 32, view base m' o = view base m o) : m' = m := by
  funext x
  have hx := h (x - base).toNat (x - base).toNat_lt
  rwa [view, view, UInt32.ofNat_toNat, UInt32.add_comm, UInt32.sub_add_cancel] at hx

theorem view_toNat : view base m a.toNat = m (base + a) := by
  rw [view, UInt32.ofNat_toNat]

theorem add_ofNat_inj (ho : o < 2 ^ 32) : base + UInt32.ofNat o = base + a ↔ o = a.toNat := by
  rw [UInt32.add_right_inj]
  constructor
  · rintro rfl
    rw [UInt32.toNat_ofNat', Nat.mod_eq_of_lt ho]
  · rintro rfl
    exact UInt32.ofNat_toNat

/-- A write, seen from the base address. -/
theorem view_update (b : UInt8) (ho : o < 2 ^ 32) :
    view base (Function.update m (base + a) b) o = if o = a.toNat then b else view base m o := by
  simp only [view, Function.update_apply, add_ofNat_inj ho]

/-- A loop of writes leaves the offsets it does not write. -/
theorem view_writeEach_of_forall_ne {f : ι → UInt32} {v : ι → UInt8} {l : List ι}
    (ho : o < 2 ^ 32) (h : ∀ i ∈ l, o ≠ (f i).toNat) :
    view base (writeEach (fun i => base + f i) v l m) o = view base m o :=
  writeEach_of_forall_ne fun i hi he => h i hi ((add_ofNat_inj ho).mp he.symm)

/-- A loop of writes at consecutive offsets from `a`. -/
theorem view_writeEach_range {n : ℕ} (v : ℕ → UInt8) (hn : a.toNat + n ≤ 2 ^ 32)
    (ho : o < 2 ^ 32) :
    view base (writeEach (fun k => base + a + UInt32.ofNat k) v (List.range n) m) o =
      if a.toNat ≤ o ∧ o < a.toNat + n then v (o - a.toNat) else view base m o := by
  induction n generalizing m with
  | zero =>
    rw [if_neg (by omega)]
    rfl
  | succ n ih =>
    have hk : (a + UInt32.ofNat n).toNat = a.toNat + n := by
      rw [UInt32.toNat_add, UInt32.toNat_ofNat']
      omega
    rw [List.range_succ, writeEach_append, writeEach_cons, writeEach_nil, UInt32.add_assoc,
      view_update _ ho, hk, ih (by omega)]
    by_cases h : o = a.toNat + n
    · rw [if_pos h, if_pos (by omega), h, Nat.add_sub_cancel_left]
    · rw [if_neg h]
      exact if_congr (by omega) rfl rfl

/-- A loop of writes at consecutive addresses stores the byte of each pass. -/
theorem writeEach_range_add {n i : ℕ} {v : ℕ → UInt8} (hn : n ≤ 2 ^ 32) (hi : i < n) :
    writeEach (fun k => a + UInt32.ofNat k) v (List.range n) m (a + UInt32.ofNat i) = v i := by
  refine writeEach_range_of_last hi fun k hik hk heq => ?_
  have hnat := congrArg UInt32.toNat ((UInt32.add_right_inj a).mp heq)
  rw [UInt32.toNat_ofNat', UInt32.toNat_ofNat'] at hnat
  omega

theorem view_writeWord (hn : a.toNat + 4 ≤ 2 ^ 32) (ho : o < 2 ^ 32) :
    view base (writeWord (base + a) w m) o =
      if a.toNat ≤ o ∧ o < a.toNat + 4 then wordByte w (o - a.toNat) else view base m o :=
  view_writeEach_range _ hn ho

theorem readWord_eq_wordOf_view : readWord (base + a) m = wordOf fun k => view base m (a.toNat + k) := by
  simp only [readWord, view, UInt32.ofNat_add, UInt32.ofNat_toNat, UInt32.add_assoc]

/-- Stores that agree on the four bytes of a word hold the same word. -/
theorem readWord_congr
    (h : ∀ o, a.toNat ≤ o → o < a.toNat + 4 → view base m' o = view base m o) :
    readWord (base + a) m' = readWord (base + a) m := by
  rw [readWord_eq_wordOf_view, readWord_eq_wordOf_view]
  exact wordOf_congr fun k hk => h _ (by omega) (by omega)

/-- The words of two stores are equal if and only if their bytes are. -/
theorem readWord_eq_iff : readWord (base + a) m' = readWord (base + a) m ↔
    ∀ o, a.toNat ≤ o → o < a.toNat + 4 → view base m' o = view base m o := by
  refine ⟨fun h o h₁ h₂ => ?_, readWord_congr⟩
  rw [readWord_eq_wordOf_view, readWord_eq_wordOf_view] at h
  have hbyte : ∀ k < 4, view base m' (a.toNat + k) = view base m (a.toNat + k) := fun k hk => by
    rw [← wordByte_wordOf (fun k => view base m' (a.toNat + k)) hk, h, wordByte_wordOf _ hk]
  have := hbyte (o - a.toNat) (by omega)
  rwa [Nat.add_sub_cancel' h₁] at this

/-- A word is read back where its four bytes stand. -/
theorem readWord_of_view
    (h : ∀ k < 4, view base m (a.toNat + k) = wordByte w k) : readWord (base + a) m = w := by
  rw [readWord_eq_wordOf_view, wordOf_congr h, wordOf_wordByte]

theorem readWord_writeWord (hn : a.toNat + 4 ≤ 2 ^ 32) :
    readWord (base + a) (writeWord (base + a) w m) = w :=
  readWord_of_view fun k hk => by
    rw [view_writeWord hn (by omega), if_pos (by omega), Nat.add_sub_cancel_left]

end View

/-! ## Frames -/

/-- The stores agree at every offset from `base` outside `S`. -/
def AgreeOff (base : UInt32) (S : Set ℕ) (m m' : UInt32 → UInt8) : Prop :=
  ∀ o < 2 ^ 32, o ∉ S → view base m' o = view base m o

section Frames

variable {base a w : UInt32} {m m' m'' : UInt32 → UInt8} {S T : Set ℕ}

theorem AgreeOff.refl (S : Set ℕ) (m : UInt32 → UInt8) : AgreeOff base S m m := fun _ _ _ => rfl

theorem AgreeOff.trans (h : AgreeOff base S m m') (h' : AgreeOff base S m' m'') :
    AgreeOff base S m m'' :=
  fun o ho hS => (h' o ho hS).trans (h o ho hS)

theorem AgreeOff.mono (h : AgreeOff base S m m') (hST : S ⊆ T) : AgreeOff base T m m' :=
  fun o ho hT => h o ho fun hS => hT (hST hS)

/-- Of two changes of disjoint bytes, one after the other, none shows if and only if each does
nothing. -/
theorem AgreeOff.eq_iff_of_disjoint (h : AgreeOff base S m m') (h' : AgreeOff base T m' m'')
    (hST : Disjoint S T) : m'' = m ↔ m' = m ∧ m'' = m' := by
  constructor
  · intro heq
    suffices hm : m' = m from ⟨hm, heq.trans hm.symm⟩
    refine view_ext base fun o ho => ?_
    by_cases hS : o ∈ S
    · rw [← h' o ho (Set.disjoint_left.mp hST hS), heq]
    · exact h o ho hS
  · rintro ⟨rfl, rfl⟩
    rfl

theorem agreeOff_update (b : UInt8) (h : a.toNat ∈ S) :
    AgreeOff base S m (Function.update m (base + a) b) := by
  intro o ho hS
  rw [view_update b ho, if_neg]
  rintro rfl
  exact hS h

theorem agreeOff_writeEach {f : ι → UInt32} {v : ι → UInt8} {l : List ι}
    (h : ∀ i ∈ l, (f i).toNat ∈ S) : AgreeOff base S m (writeEach (fun i => base + f i) v l m) := by
  intro o ho hS
  apply view_writeEach_of_forall_ne ho
  rintro i hi rfl
  exact hS (h i hi)

theorem agreeOff_writeEach_range {n : ℕ} (v : ℕ → UInt8) (hn : a.toNat + n ≤ 2 ^ 32) :
    AgreeOff base (Set.Ico a.toNat (a.toNat + n)) m
      (writeEach (fun k => base + a + UInt32.ofNat k) v (List.range n) m) := by
  intro o ho hS
  rw [view_writeEach_range v hn ho]
  exact if_neg hS

theorem agreeOff_writeWord (hn : a.toNat + 4 ≤ 2 ^ 32) :
    AgreeOff base (Set.Ico a.toNat (a.toNat + 4)) m (writeWord (base + a) w m) :=
  agreeOff_writeEach_range _ hn

/-- A word outside `S` is the same in stores that agree off `S`. -/
theorem AgreeOff.readWord (h : AgreeOff base S m m') (hn : a.toNat + 4 ≤ 2 ^ 32)
    (hS : ∀ o ∈ Set.Ico a.toNat (a.toNat + 4), o ∉ S) :
    readWord (base + a) m' = Store.readWord (base + a) m := by
  refine readWord_congr fun o h₁ h₂ => h o (by omega) (hS o ⟨h₁, h₂⟩)

end Frames

end Store
