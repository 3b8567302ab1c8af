import MicroKernel.Containers.Search

/-!
# Removal and replacement in a string

`string::remove` and `string::replace` for `const char*`. Both search again from the start after
every occurrence. A removal moves down the characters behind the occurrence, while a replacement
moves nothing: it sets its characters over those of the occurrence and behind it.

## Main definitions

* `String.removeText`, `String.replaceText`: the operations
* `RemovesAll`, `ReplacesAll`, `Searches`: the results the operations should have
* `Deletable`, `Replaces`: the patterns and replacements for which they do

## Main results

* `removesAll_of_deletable`, `deletable_of_removeLoop`: when all occurrences are removed
* `replacesAll_of_replaces`, `replaces_of_replacesAll`: when they are replaced
* `searches_of_replaces`: search, removal and replacement
-/

namespace MicroKernel.Containers

open Fs (Fault ok_bind bind_eq_ok)
open Occurrence

variable {A M : Type} [DecidableEq A]

namespace String

variable (store : ByteStore A M) (signedChar : Bool)

/-- The loop that moves bytes down by `d`, to index `first` and up to below `last`. -/
def moveDown (first last d : UInt32) (str : String A) (m : M) : Except Fault M :=
  setEach store (fun k => first + UInt32.ofNat k)
    (fun k m => get store (first + UInt32.ofNat k + d) str m) (last.toNat - first.toNat) str m

/-- The loop of `remove(const char* substr)`, with at most `limit` searches. -/
def removeLoop (substr : Text) : (limit : ℕ) → String A → M → Except Fault (String A × M)
  | 0, _, _ => .error .diverges
  | limit + 1, str, m => do
    let pos ← find store signedChar substr str m
    if pos = -1 then return (str, m)
    let substrLen := substr.strlen
    let m ← moveDown store pos.toInt32.toUInt32 (str.mSize - substrLen) substrLen str m
    removeLoop substr limit { str with mSize := str.mSize - substrLen } m

/-- `remove(const char* substr)` -/
def removeText (limit : ℕ) (substr : Text) (str : String A) (m : M) :
    Except Fault (String A × M) := do
  let (str, m) ← removeLoop store signedChar substr limit str m
  let m ← set store str.mSize 0 str m
  return (str, m)

/-- `replace(const char* target, const char* replacement)`, with at most `limit` searches. -/
def replaceText (target replacement : Text) :
    (limit : ℕ) → String A → M → Except Fault (String A × M)
  | 0, _, _ => .error .diverges
  | limit + 1, str, m => do
    let targetLen := target.strlen
    let replacementLen := replacement.strlen
    let pos ← find store signedChar target str m
    if pos = -1 then return (str, m)
    let (str, m) :=
      if targetLen < replacementLen then
        resize store (str.mSize + replacementLen - targetLen) str m
      else (str, m)
    let m ← setText store pos.toInt32.toUInt32 replacement str m
    replaceText target replacement limit str m

end String

section Results

variable (store : ByteStore A M) (signedChar : Bool) (p r : Text) (str : String A) (m : M)
  (t : List UInt8)

/-- The removal ends, and all occurrences are deleted. -/
def RemovesAll : Prop :=
  ∃ limit str' m', str.removeText store signedChar limit p m = .ok (str', m') ∧
    Holds store str' m' (deleteAll p.chars t)

/-- The replacement ends, and the occurrences are replaced. -/
def ReplacesAll : Prop :=
  ∃ limit str' m', str.replaceText store signedChar p r limit m = .ok (str', m') ∧
    Holds store str' m' (replaceAll p.chars r.chars t)

/-- The results of search, removal and replacement. -/
structure Searches : Prop where
  find : FindsFirst store signedChar p str m t
  remove : RemovesAll store signedChar p str m t
  replace : ReplacesAll store signedChar p r str m t

end Results

/-- The leftmost occurrences are found in an `int` and compare equal, until there is none and the
pattern is at most one character longer than what is left. -/
inductive Deletable (signedChar : Bool) (p : Text) : List UInt8 → Prop
  | done {t} (hnone : leftmost p.chars t = none) (hle : p.chars.length ≤ t.length + 1) :
    Deletable signedChar p t
  | step {t i} (hsome : leftmost p.chars t = some i) (hlt : i < 2 ^ 15)
    (hplain : Plain signedChar p.chars)
    (hrest : Deletable signedChar p (t.take i ++ t.drop (i + p.chars.length))) :
    Deletable signedChar p t

/-- The replacement is as long as the pattern, or it is longer, the occurrence ends the string, and
the block becomes no smaller. -/
def Fits (p r : Text) (capacity i : ℕ) (t : List UInt8) : Prop :=
  r.chars.length = p.chars.length ∨
    p.chars.length < r.chars.length ∧ i + p.chars.length = t.length ∧
      capacity ≤ i + r.chars.length ∧ i + r.chars.length + 1 < 2 ^ 32

/-- The leftmost occurrences are found, lie behind the last replacement and fit, until there is
none and the pattern is at most one character longer than the string. -/
inductive Replaces (signedChar : Bool) (p r : Text) (capacity : ℕ) : ℕ → List UInt8 → Prop
  | done {d t} (hnone : leftmost p.chars t = none) (hle : p.chars.length ≤ t.length + 1) :
    Replaces signedChar p r capacity d t
  | step {d t i} (hsome : leftmost p.chars t = some i) (hdi : d ≤ i) (hlt : i < 2 ^ 15)
    (hplain : Plain signedChar p.chars) (hfits : Fits p r capacity i t)
    (hrest : Replaces signedChar p r capacity (i + r.chars.length)
      (t.take i ++ r.chars ++ t.drop (i + p.chars.length))) :
    Replaces signedChar p r capacity d t

theorem Holds.unique {store : ByteStore A M} {str : String A} {m : M} {t u : List UInt8}
    (h : Holds store str m t) (h' : Holds store str m u) : t = u := by
  obtain ⟨bytes, hs, rfl⟩ := h
  exact hs.holds_iff.mp h'

section Deletion

variable {store : ByteStore A M} {signedChar : Bool} {str str' : String A} {m m' : M} {p : Text}
  {bytes t : List UInt8} {i n j limit : ℕ}

theorem Stored.moveDown (first last d : UInt32) (h : Stored store str m bytes)
    (hle : last.toNat + d.toNat ≤ str.mSize.toNat) :
    ∃ m' bytes', str.moveDown store first last d m = .ok m' ∧ Becomes store str m str m' bytes' ∧
      ∀ j, bytes'.getD j 0 =
        if first.toNat ≤ j ∧ j < last.toNat then bytes.getD (j + d.toNat) 0
        else bytes.getD j 0 := by
  have hsize := str.mSize.toNat_lt
  have hdst : ∀ k < last.toNat - first.toNat,
      (first + UInt32.ofNat k).toNat = first.toNat + k := by
    intro k hk
    rw [UInt32.toNat_add, UInt32.toNat_ofNat']
    omega
  have hsrc : ∀ k < last.toNat - first.toNat,
      (first + UInt32.ofNat k + d).toNat = first.toNat + k + d.toNat := by
    intro k hk
    rw [UInt32.toNat_add, hdst k hk]
    omega
  obtain ⟨m', bytes', hm', hbecomes, hbytes'⟩ := h.setEach_eq
    (fun k => first + UInt32.ofNat k) (fun j => bytes.getD (j + d.toNat) 0)
    (fun k m => str.get store (first + UInt32.ofNat k + d) m)
    (fun j => first.toNat ≤ j ∧ j < last.toNat) (n := last.toNat - first.toNat)
    (fun j => by
      constructor
      · intro hj
        have hk : j - first.toNat < last.toNat - first.toNat := by omega
        exact ⟨_, hk, by rw [hdst _ hk, Nat.add_sub_cancel' hj.1]⟩
      · rintro ⟨k, hk, rfl⟩
        rw [hdst k hk]
        omega)
    (fun k hk k' hk' heq => by rw [hdst k hk, hdst k' hk'] at heq; omega)
    (fun k hk m' bytes' h' hkeep => by
      refine ⟨_, h'.get _, fun _ => ?_⟩
      rw [hsrc k hk, hdst k hk, if_pos (by omega)]
      -- the source lies above what earlier passes have set
      refine hkeep _ fun k' hk' => ?_
      rw [hdst k' (hk'.trans hk)]
      omega)
  refine ⟨m', bytes', hm', hbecomes, fun j => ?_⟩
  rw [hbytes']
  -- the bytes that are moved lie inside the string
  by_cases hj : first.toNat ≤ j ∧ j < last.toNat
  · rw [if_pos hj, if_pos ⟨hj, by omega⟩]
  · rw [if_neg hj, if_neg fun hj' => hj hj'.1]

/-- The bytes of a deletion. -/
theorem getD_delete (hi : i ≤ t.length) :
    (t.take i ++ t.drop (i + n)).getD j 0 = if j < i then t.getD j 0 else t.getD (j + n) 0 := by
  have hdelete := getD_replace (s := []) (n := n) (j := j) hi
  rw [List.append_nil] at hdelete
  rw [hdelete]
  split
  · rfl
  · next hle => exact if_neg hle

/-- **A pass of the removal** deletes the occurrence. -/
theorem removeLoop_of_some (h : Holds store str m t) (hp : p.chars ≠ [])
    (hleft : leftmost p.chars t = some i) (hi : i < 2 ^ 15) (hplain : Plain signedChar p.chars) :
    ∃ str₁ m₁, (∀ limit, str.removeLoop store signedChar p (limit + 1) m =
        str₁.removeLoop store signedChar p limit m₁) ∧
      Holds store str₁ m₁ (t.take i ++ t.drop (i + p.chars.length)) := by
  have hfits := leftmost_add_length_le hleft
  have hlength := h.length
  have hlen := p.toNat_strlen
  have hfind := find_eq signedChar h hp (by omega)
  rw [position_of_some hleft hplain] at hfind
  obtain ⟨bytes, hs, ht⟩ := h
  have hbytes := hs.length
  have hsize := hs.size_le
  have hlast : (str.mSize - p.strlen).toNat = t.length - p.chars.length := by
    rw [UInt32.toNat_sub]
    have hlt := str.mSize.toNat_lt
    omega
  -- the characters behind the occurrence move down over it
  obtain ⟨m₁, bytes₁, hm₁, hbecomes, hmove⟩ :=
    hs.moveDown (Int16.ofNat i).toInt32.toUInt32 (str.mSize - p.strlen) p.strlen (by omega)
  have hbytes₁ := hbecomes.stored.length
  refine ⟨{ str with mSize := str.mSize - p.strlen }, m₁, fun limit => ?_, bytes₁,
    (hbecomes.stored.withSize (by omega)).stored, ?_⟩
  · rw [String.removeLoop, hfind, ok_bind, if_neg (ofNat_ne_neg_one hi)]
    simp only [hm₁, ok_bind]
  · have hget : ∀ k < t.length, t.getD k 0 = bytes.getD k 0 := by
      intro k hk
      rw [← ht, getD_take (by omega)]
    refine ext_getD ?_ fun j hj => ?_
    · simp only [List.length_take, List.length_append, List.length_drop]
      omega
    · rw [List.length_take] at hj
      replace hj : j < min (str.mSize - p.strlen).toNat bytes₁.length := hj
      rw [getD_take (lt_min_iff.mp hj).1, hmove, toNat_ofNat hi, hlast, hlen,
        getD_delete (by omega)]
      rcases Nat.lt_or_ge j i with hji | hij
      · rw [if_neg (by omega), if_pos hji, hget j (by omega)]
      · rw [if_pos (by omega), if_neg (by omega), hget _ (by omega)]

theorem removeLoop_of_none (h : Holds store str m t) (hp : p.chars ≠ [])
    (hleft : leftmost p.chars t = none) (hle : p.chars.length ≤ t.length + 1) :
    str.removeLoop store signedChar p (limit + 1) m = .ok (str, m) := by
  rw [String.removeLoop, find_eq signedChar h hp hle, ok_bind,
    if_pos (position_of_none hleft)]
  rfl

/-- The last step of the removal lies behind the string, and sets nothing. -/
theorem removeText_eq : str.removeText store signedChar limit p m =
    str.removeLoop store signedChar p limit m := by
  rw [String.removeText]
  cases str.removeLoop store signedChar p limit m with
  | error => rfl
  | ok result =>
    have hset : result.1.set store result.1.mSize 0 result.2 = .ok result.2 :=
      if_neg (UInt32.lt_irrefl _)
    simp only [ok_bind, hset]
    rfl

/-- **The removal** ends for a deletable pattern, with all occurrences deleted. -/
theorem removesAll_of_deletable (h : Deletable signedChar p t) (hs : Holds store str m t)
    (hp : p.chars ≠ []) : RemovesAll store signedChar p str m t := by
  induction h generalizing str m with
  | done hnone hle =>
    refine ⟨1, str, m, removeText_eq.trans (removeLoop_of_none hs hp hnone hle), ?_⟩
    rwa [deleteAll_of_none hnone]
  | step hsome hlt hplain _ ih =>
    obtain ⟨str₁, m₁, hstep, hs₁⟩ := removeLoop_of_some hs hp hsome hlt hplain
    obtain ⟨limit, str', m', hloop, hs'⟩ := ih hs₁
    rw [removeText_eq] at hloop
    refine ⟨limit + 1, str', m', ?_, ?_⟩
    · rw [removeText_eq, hstep, hloop]
    · rwa [deleteAll_of_some hp hsome]

/-- **A removal that ends** has found all occurrences, if all positions are `int`s. -/
theorem deletable_of_removeLoop (h : Holds store str m t) (hp : p.chars ≠ [])
    (hplain : Plain signedChar p.chars) (hlt : t.length < 2 ^ 15 + p.chars.length)
    (hloop : str.removeLoop store signedChar p limit m = .ok (str', m')) :
    Deletable signedChar p t := by
  induction limit generalizing str m t with
  | zero => cases hloop
  | succ limit ih =>
    cases hleft : leftmost p.chars t with
    | none =>
      refine .done hleft (not_lt.mp fun hlong => ?_)
      rw [String.removeLoop, find_of_lt h hlong] at hloop
      cases hloop
    | some i =>
      have hfits := leftmost_add_length_le hleft
      obtain ⟨str₁, m₁, hstep, h₁⟩ := removeLoop_of_some h hp hleft (by omega) hplain
      rw [hstep] at hloop
      refine .step hleft (by omega) hplain (ih h₁ ?_ hloop)
      rw [List.length_append, List.length_take, List.length_drop]
      omega

end Deletion

section Replacement

variable {store : ByteStore A M} {signedChar : Bool} {str str' : String A} {m m' : M} {p r : Text}
  {bytes t u c p' r' : List UInt8} {a b : UInt8} {capacity d i n limit : ℕ}

theorem replaceText_of_none (h : Holds store str m t) (hp : p.chars ≠ [])
    (hleft : leftmost p.chars t = none) (hle : p.chars.length ≤ t.length + 1) :
    str.replaceText store signedChar p r (limit + 1) m = .ok (str, m) := by
  rw [String.replaceText, find_eq signedChar h hp hle]
  simp only [ok_bind, if_pos (position_of_none hleft)]
  rfl

/-- The characters of a text set over those of a string. -/
theorem Stored.setText_over (h : Stored store str m bytes) (hi : i < 2 ^ 15)
    (hle : i + r.chars.length ≤ str.mSize.toNat) :
    ∃ m', str.setText store (Int16.ofNat i).toInt32.toUInt32 r m = .ok m' ∧
      Holds store str m' ((bytes.take str.mSize.toNat).take i ++ r.chars ++
        (bytes.take str.mSize.toNat).drop (i + r.chars.length)) := by
  have hsize := h.size_le
  have hlength := h.length
  have hlt := h.capacity_lt
  obtain ⟨m', bytes', hm', hbecomes, htext⟩ :=
    h.setText (Int16.ofNat i).toInt32.toUInt32 r (by rw [toNat_ofNat hi]; omega)
  have hbytes' := hbecomes.stored.length
  refine ⟨m', hm', bytes', hbecomes.stored, ext_getD ?_ fun j hj => ?_⟩
  · simp only [List.length_append, List.length_take, List.length_drop]
    omega
  · have hj' := lt_min_iff.mp (by rwa [List.length_take] at hj)
    rw [getD_take hj'.1, htext, toNat_ofNat hi,
      getD_replace (by rw [List.length_take]; omega)]
    rcases Nat.lt_or_ge j i with hji | hij
    · rw [if_neg (by omega), if_pos hji, getD_take hj'.1]
    · rcases Nat.lt_or_ge j (i + r.chars.length) with hlast | hrest
      · rw [if_pos ⟨hij, hlast, hj'.1⟩, if_neg (by omega), if_pos hlast]
      · rw [if_neg (by omega), if_neg (by omega), if_neg (by omega), Nat.sub_add_cancel (by omega),
          getD_take hj'.1]

/-- **A pass of the replacement** by a text that is not longer moves nothing. -/
theorem replaceText_of_some (h : Holds store str m t) (hp : p.chars ≠ [])
    (hleft : leftmost p.chars t = some i) (hi : i < 2 ^ 15) (hplain : Plain signedChar p.chars)
    (hle : r.chars.length ≤ p.chars.length) :
    ∃ m₁, (∀ limit, str.replaceText store signedChar p r (limit + 1) m =
        str.replaceText store signedChar p r limit m₁) ∧
      Holds store str m₁ (t.take i ++ r.chars ++ t.drop (i + r.chars.length)) := by
  have hfits := leftmost_add_length_le hleft
  have hlength := h.length
  have hfind := find_eq signedChar h hp (by omega)
  rw [position_of_some hleft hplain] at hfind
  obtain ⟨bytes, hs, rfl⟩ := h
  obtain ⟨m₁, hm₁, h₁⟩ := hs.setText_over (r := r) hi (by omega)
  have hnot : ¬ p.strlen < r.strlen := by
    rw [UInt32.lt_iff_toNat_lt, p.toNat_strlen, r.toNat_strlen]
    omega
  refine ⟨m₁, fun limit => ?_, h₁⟩
  rw [String.replaceText, hfind]
  simp only [ok_bind, if_neg (ofNat_ne_neg_one hi), if_neg hnot, hm₁]

theorem Stored.resize (newSize : UInt32) (h : Stored store str m bytes)
    (hle : str.mCapacity.toNat ≤ newSize.toNat) (hlt : newSize.toNat + 1 < 2 ^ 32) :
    ∃ str' m' fresh, str.resize store newSize m = (str', m') ∧
      Becomes store str m str' m' (bytes ++ fresh) ∧ str'.mSize = newSize ∧
      str'.mCapacity = newSize := by
  obtain ⟨fresh, -, hbecomes⟩ := h.reserve hle hlt
  exact ⟨_, _, fresh, rfl, hbecomes.trans (hbecomes.stored.withSize le_rfl), rfl, rfl⟩

/-- **A pass of the replacement** by a longer text at the end of the string. -/
theorem replaceText_of_some_of_lt (h : Holds store str m t) (hp : p.chars ≠ [])
    (hleft : leftmost p.chars t = some i) (hi : i < 2 ^ 15) (hplain : Plain signedChar p.chars)
    (hlt : p.chars.length < r.chars.length) (hend : i + p.chars.length = t.length)
    (hcapacity : str.mCapacity.toNat ≤ i + r.chars.length)
    (hfits : i + r.chars.length + 1 < 2 ^ 32) :
    ∃ str₁ m₁, (∀ limit, str.replaceText store signedChar p r (limit + 1) m =
        str₁.replaceText store signedChar p r limit m₁) ∧
      Holds store str₁ m₁ (t.take i ++ r.chars) ∧
      str₁.mCapacity.toNat = i + r.chars.length := by
  have hlength := h.length
  have hfind := find_eq signedChar h hp (by omega)
  rw [position_of_some hleft hplain] at hfind
  obtain ⟨bytes, hs, ht⟩ := h
  have hbytes := hs.length
  have hsize := hs.size_le
  have hgrow : p.strlen < r.strlen := by
    rw [UInt32.lt_iff_toNat_lt, p.toNat_strlen, r.toNat_strlen]
    omega
  have hnew : (str.mSize + r.strlen - p.strlen).toNat = i + r.chars.length := by
    rw [UInt32.toNat_sub, UInt32.toNat_add, p.toNat_strlen, r.toNat_strlen]
    omega
  -- the string grows, and the longer text is set over its end
  obtain ⟨str₁, m₁, fresh, hresize, hbecomes, hsize₁, hcapacity₁⟩ :=
    hs.resize (str.mSize + r.strlen - p.strlen) (by omega) (by omega)
  have hnew₁ : str₁.mSize.toNat = i + r.chars.length := by rw [hsize₁, hnew]
  obtain ⟨m₂, hm₂, h₂⟩ := hbecomes.stored.setText_over (r := r) hi (by omega)
  refine ⟨str₁, m₂, fun limit => ?_, ?_, by rw [hcapacity₁, hnew]⟩
  · rw [String.replaceText, hfind]
    simp only [ok_bind, if_neg (ofNat_ne_neg_one hi), if_pos hgrow, hresize, hm₂]
  · have hfront : ((bytes ++ fresh).take str₁.mSize.toNat).take i = t.take i := by
      rw [← ht, List.take_take, List.take_take, List.take_append_of_le_length (by omega)]
      congr 1
      omega
    have hrest : ((bytes ++ fresh).take str₁.mSize.toNat).drop (i + r.chars.length) = [] := by
      rw [List.drop_eq_nil_iff, List.length_take]
      omega
    rwa [hfront, hrest, List.append_nil] at h₂

theorem length_take_append_drop (hle : i + p.chars.length ≤ t.length) :
    (t.take i ++ r.chars ++ t.drop (i + p.chars.length)).length + p.chars.length =
      t.length + r.chars.length := by
  simp only [List.length_append, List.length_take, List.length_drop]
  omega

/-- **A pass of the replacement** by a text that fits replaces the occurrence. -/
theorem replaceText_of_fits (h : Holds store str m t) (hp : p.chars ≠ [])
    (hleft : leftmost p.chars t = some i) (hi : i < 2 ^ 15) (hplain : Plain signedChar p.chars)
    (hcapacity : str.mCapacity.toNat ≤ max capacity t.length) (hfits : Fits p r capacity i t) :
    ∃ str₁ m₁, (∀ limit, str.replaceText store signedChar p r (limit + 1) m =
        str₁.replaceText store signedChar p r limit m₁) ∧
      Holds store str₁ m₁ (t.take i ++ r.chars ++ t.drop (i + p.chars.length)) ∧
      str₁.mCapacity.toNat ≤
        max capacity (t.take i ++ r.chars ++ t.drop (i + p.chars.length)).length := by
  have hlength := length_take_append_drop (r := r) (leftmost_add_length_le hleft)
  rcases hfits with heq | ⟨hlt, hend, hle, hbound⟩
  · -- the characters behind the occurrence stay where they are
    obtain ⟨m₁, hstep, h₁⟩ := replaceText_of_some h hp hleft hi hplain heq.le
    rw [heq] at h₁
    exact ⟨str, m₁, hstep, h₁, by omega⟩
  · -- there are none behind it
    obtain ⟨str₁, m₁, hstep, h₁, hcapacity₁⟩ :=
      replaceText_of_some_of_lt h hp hleft hi hplain hlt hend (by omega) hbound
    have hrest : t.drop (i + p.chars.length) = [] := by rw [hend, List.drop_length]
    refine ⟨str₁, m₁, hstep, ?_, by omega⟩
    rwa [hrest, List.append_nil]

/-- **The replacement** ends, with the occurrences behind `d` replaced. -/
theorem replaceText_of_replaces (h : Replaces signedChar p r capacity d t)
    (hs : Holds store str m t) (hp : p.chars ≠ []) (hd : d ≤ t.length)
    (hcapacity : str.mCapacity.toNat ≤ max capacity t.length) :
    ∃ limit str' m', str.replaceText store signedChar p r limit m = .ok (str', m') ∧
      Holds store str' m' (t.take d ++ replaceAll p.chars r.chars (t.drop d)) := by
  induction h generalizing str m with
  | done hnone hle =>
    have hrest := leftmost_drop hd fun i hi => by rw [hnone] at hi; cases hi
    rw [hnone, Option.map_none] at hrest
    refine ⟨1, str, m, replaceText_of_none hs hp hnone hle, ?_⟩
    rwa [replaceAll_of_none hrest, List.take_append_drop]
  | step hsome hdi hlt hplain hfits _ ih =>
    have hlength := length_take_append_drop (r := r) (leftmost_add_length_le hsome)
    have hle := leftmost_add_length_le hsome
    obtain ⟨str₁, m₁, hstep, hs₁, hcapacity₁⟩ :=
      replaceText_of_fits hs hp hsome hlt hplain hcapacity hfits
    obtain ⟨limit, str', m', hloop, hs'⟩ := ih hs₁ (by omega) hcapacity₁
    refine ⟨limit + 1, str', m', ?_, ?_⟩
    · rw [hstep, hloop]
    · rwa [take_append_replaceAll hp hsome hdi]

theorem replacesAll_of_replaces (h : Replaces signedChar p r str.mCapacity.toNat 0 t)
    (hs : Holds store str m t) (hp : p.chars ≠ []) :
    ReplacesAll store signedChar p r str m t :=
  replaceText_of_replaces h hs hp (Nat.zero_le _) (le_max_left _ _)

/-- A run that ends has not searched for a pattern that is longer by two characters or more. -/
theorem length_le_of_replaceText (h : Holds store str m t)
    (hloop : str.replaceText store signedChar p r limit m = .ok (str', m')) :
    p.chars.length ≤ t.length + 1 := by
  by_contra hlong
  cases limit with
  | zero => cases hloop
  | succ limit =>
    rw [String.replaceText, find_of_lt h (not_le.mp hlong)] at hloop
    cases hloop

/-- **A change is not undone** by a run that replaces texts of one length. -/
theorem departs_of_replaceText (h : Holds store str m u) (hp : p.chars ≠ [])
    (hplain : Plain signedChar p.chars) (hlt : u.length < 2 ^ 15 + p.chars.length)
    (hlength : r.chars.length = p.chars.length) (hpc : p.chars = c ++ a :: p')
    (hrc : r.chars = c ++ b :: r') (hab : a ≠ b) (hdeparts : Departs a b n t u)
    (hloop : str.replaceText store signedChar p r limit m = .ok (str', m')) :
    ∃ w, Holds store str' m' w ∧ Departs a b n t w := by
  induction limit generalizing str m u with
  | zero => cases hloop
  | succ limit ih =>
    cases hleft : leftmost p.chars u with
    | none =>
      rw [replaceText_of_none h hp hleft (length_le_of_replaceText h hloop)] at hloop
      cases hloop
      exact ⟨u, h, hdeparts⟩
    | some i =>
      have hfits := leftmost_add_length_le hleft
      obtain ⟨m₁, hstep, h₁⟩ := replaceText_of_some h hp hleft (by omega) hplain hlength.le
      rw [hstep] at hloop
      rw [hlength] at h₁
      have hlength₁ := length_take_append_drop (r := r) hfits
      have hchange := departs_replace (leftmost_eq_some_iff.mp hleft).2.1 hpc hrc
      exact ih h₁ (by omega) (hdeparts.trans hab hchange) hloop

/-- **A replacement that ends** with the occurrences behind `d` replaced has found them there. -/
theorem replaces_of_replaceText (h : Holds store str m t) (hp : p.chars ≠ [])
    (hplain : Plain signedChar p.chars) (hlt : t.length < 2 ^ 15 + p.chars.length)
    (hlength : r.chars.length = p.chars.length) (hne : p.chars ≠ r.chars) (hd : d ≤ t.length)
    (hloop : str.replaceText store signedChar p r limit m = .ok (str', m'))
    (hholds : Holds store str' m' (t.take d ++ replaceAll p.chars r.chars (t.drop d))) :
    Replaces signedChar p r capacity d t := by
  obtain ⟨c, a, b, p', r', hab, hpc, hrc⟩ := exists_front hlength.symm hne
  induction limit generalizing str m t d with
  | zero => cases hloop
  | succ limit ih =>
    cases hleft : leftmost p.chars t with
    | none => exact .done hleft (length_le_of_replaceText h hloop)
    | some i =>
      have hfits := leftmost_add_length_le hleft
      have hlength₁ := length_take_append_drop (r := r) hfits
      obtain ⟨m₁, hstep, h₁⟩ := replaceText_of_some h hp hleft (by omega) hplain hlength.le
      rw [hstep] at hloop
      rw [hlength] at h₁
      rcases Nat.lt_or_ge i d with hid | hdi
      · -- the occurrence begins in a replacement, where the result has an `a` and the run a `b`
        have hchange := departs_replace (leftmost_eq_some_iff.mp hleft).2.1 hpc hrc
        obtain ⟨w, hw, hdeparts⟩ := departs_of_replaceText h₁ hp hplain (by omega) hlength hpc hrc
          hab (hchange.mono (show i + c.length + 1 ≤ d + c.length by omega)) hloop
        refine absurd ?_ (hdeparts.take_ne hab)
        have hcp : c <+: p.chars := by rw [hpc]; exact List.prefix_append _ _
        have hcr : c <+: r.chars := by rw [hrc]; exact List.prefix_append _ _
        rw [hw.unique hholds, take_take_append_replaceAll hd hcp hcr]
      · rw [take_append_replaceAll hp hleft hdi] at hholds
        exact .step hleft hdi (by omega) hplain (.inl hlength)
          (ih h₁ (by omega) (by omega) hloop hholds)

/-- A run that replaces by a text that is not longer keeps size and block. -/
theorem eq_of_replaceText (h : Holds store str m t) (hp : p.chars ≠ [])
    (hplain : Plain signedChar p.chars) (hlt : t.length < 2 ^ 15 + p.chars.length)
    (hle : r.chars.length ≤ p.chars.length)
    (hloop : str.replaceText store signedChar p r limit m = .ok (str', m')) : str' = str := by
  induction limit generalizing m t with
  | zero => cases hloop
  | succ limit ih =>
    cases hleft : leftmost p.chars t with
    | none =>
      rw [replaceText_of_none h hp hleft (length_le_of_replaceText h hloop)] at hloop
      cases hloop
      rfl
    | some i =>
      have hfits := leftmost_add_length_le hleft
      obtain ⟨m₁, hstep, h₁⟩ := replaceText_of_some h hp hleft (by omega) hplain hle
      rw [hstep] at hloop
      refine ih h₁ ?_ hloop
      simp only [List.length_append, List.length_take, List.length_drop]
      omega

/-- A text that is replaced by itself is found again and again. -/
theorem replaceText_self (h : Holds store str m t) (hp : p.chars ≠ [])
    (hplain : Plain signedChar p.chars) (hlt : t.length < 2 ^ 15 + p.chars.length)
    (hleft : leftmost p.chars t = some i) (heq : p.chars = r.chars) :
    str.replaceText store signedChar p r limit m = .error .diverges := by
  induction limit generalizing m with
  | zero => rfl
  | succ limit ih =>
    have hfits := leftmost_add_length_le hleft
    obtain ⟨m₁, hstep, h₁⟩ :=
      replaceText_of_some (r := r) h hp hleft (by omega) hplain (by rw [heq])
    rw [← heq, take_append_drop (leftmost_eq_some_iff.mp hleft).2.1] at h₁
    rw [hstep, ih h₁]

theorem replaces_of_replacesAll (h : Holds store str m t) (hp : p.chars ≠ [])
    (hplain : Plain signedChar p.chars) (hlt : t.length < 2 ^ 15 + p.chars.length)
    (hle : r.chars.length ≤ p.chars.length) (hall : ReplacesAll store signedChar p r str m t) :
    Replaces signedChar p r capacity 0 t := by
  obtain ⟨limit, str', m', hloop, hholds⟩ := hall
  cases hleft : leftmost p.chars t with
  | none => exact .done hleft (length_le_of_replaceText h hloop)
  | some i =>
    rcases hle.lt_or_eq with hshort | hlength
    · -- the result is shorter than the string
      have hstr := eq_of_replaceText h hp hplain hlt hle hloop
      have hsize := hholds.length
      rw [hstr, ← h.length] at hsize
      exact absurd hsize (length_replaceAll_lt hp hshort hleft).ne
    · by_cases heq : p.chars = r.chars
      · -- the replacement is found again
        rw [replaceText_self h hp hplain hlt hleft heq] at hloop
        cases hloop
      · exact replaces_of_replaceText h hp hplain hlt hlength heq (Nat.zero_le _) hloop hholds

end Replacement

/-- **Search, removal and replacement** have the results they should have for patterns that can be
deleted, and replacements that fit. For a string with positions of 16 bits, and a replacement that
is not longer, they have them for no others. -/
theorem searches_of_replaces (store : ByteStore A M) (signedChar : Bool) (p r : Text)
    (str : String A) (m : M) (t : List UInt8) (h : Holds store str m t) (hp : p.chars ≠ []) :
    (Deletable signedChar p t ∧ Replaces signedChar p r str.mCapacity.toNat 0 t →
      Searches store signedChar p r str m t) ∧
    (t.length < 2 ^ 15 + p.chars.length → r.chars.length ≤ p.chars.length →
      Searches store signedChar p r str m t →
        Deletable signedChar p t ∧ Replaces signedChar p r str.mCapacity.toNat 0 t) := by
  constructor
  · rintro ⟨hdelete, hreplace⟩
    refine ⟨(findsFirst_iff h hp).mpr ?_, removesAll_of_deletable hdelete h hp,
      replacesAll_of_replaces hreplace h hp⟩
    -- the search is that for the first occurrence to delete
    cases hdelete with
    | done hnone hle => exact ⟨hle, fun i hi => by rw [hnone] at hi; cases hi⟩
    | step hsome hlt hplain _ =>
      have hfits := leftmost_add_length_le hsome
      exact ⟨by omega, fun i hi => by rw [hsome] at hi; cases hi; exact ⟨hlt, hplain⟩⟩
  · intro hlt hle hall
    obtain ⟨hlong, hfound⟩ := (findsFirst_iff h hp).mp hall.find
    cases hleft : leftmost p.chars t with
    | none => exact ⟨.done hleft hlong, .done hleft hlong⟩
    | some i =>
      have hplain := (hfound i hleft).2
      obtain ⟨limit, str', m', hloop, -⟩ := hall.remove
      rw [removeText_eq] at hloop
      exact ⟨deletable_of_removeLoop h hp hplain hlt hloop,
        replaces_of_replacesAll h hp hplain hlt hle hall.replace⟩

/-- The text `"b"`. -/
def textB : Text := ⟨[0x62], by simp, by simp⟩

/-- An `a` behind another character is found, removed, and replaced by a `b`. -/
theorem searches_ca :
    Searches (ByteStore.counting 0) true textA textB ⟨2, 2, 1⟩ (twoBlocks [0x63, 0x61, 0] [])
      [0x63, 0x61] :=
  (searches_of_replaces _ true textA textB ⟨2, 2, 1⟩ _ _
    ⟨[0x63, 0x61, 0], ⟨rfl, rfl, by decide, by decide⟩, rfl⟩ (by decide)).1
    ⟨.step (show leftmost [0x61] _ = some 1 by decide) (by decide) (by decide)
      (.done (by decide) (by decide)),
    .step (show leftmost [0x61] _ = some 1 by decide) (by decide) (by decide) (by decide)
      (.inl (by decide)) (.done (by decide) (by decide))⟩

/-- The text `"aa"`. -/
def textAA : Text := ⟨[0x61, 0x61], by simp, by simp⟩

/-- With the text `"aa"` replaced by `"b"`, `"aab"` is `"bab"`. -/
theorem exists_not_searches :
    ∃ (store : ByteStore ℕ ByteStore.Counting) (signedChar : Bool) (p r : Text) (str : String ℕ)
      (m : ByteStore.Counting) (t : List UInt8), Holds store str m t ∧ p.chars ≠ [] ∧
        ¬ Searches store signedChar p r str m t := by
  have hstr : Holds (ByteStore.counting 0) (⟨3, 3, 1⟩ : String ℕ)
      (twoBlocks [0x61, 0x61, 0x62, 0] []) [0x61, 0x61, 0x62] :=
    ⟨_, ⟨rfl, rfl, by decide, by decide⟩, rfl⟩
  refine ⟨ByteStore.counting 0, true, textAA, textB, ⟨3, 3, 1⟩, _, _, hstr, by decide, fun h => ?_⟩
  have hreplaces : Replaces true textAA textB 3 0 [0x61, 0x61, 0x62] :=
    replaces_of_replacesAll hstr (by decide) (by decide) (by decide) (by decide) h.replace
  cases hreplaces with
  | done hnone => exact absurd hnone (by decide)
  | step _ _ _ _ hfits =>
    rcases hfits with heq | ⟨hlt, -⟩
    · exact absurd heq (by decide)
    · exact absurd hlt (by decide)

end MicroKernel.Containers
