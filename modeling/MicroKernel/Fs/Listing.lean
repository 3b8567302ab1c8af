import Mathlib.Data.List.Forall2
import MicroKernel.Fs.Header
import MicroKernel.Lib.Words

/-!
# Listings of a directory

What the blocks of a directory hold, apart from how they lie in the memory: lists of handles, one for
each block. An added file goes to the first block, or to the first extent with room; when there is
none, to a new extent, or to the last extent, behind which a new one is then linked. A removed file is
replaced by the last of its block, and an extent that loses its last file is bypassed, unless the
byte that counts the extents before it is 0.

## Main definitions

* `Block`, `listing`: a block, and the files of a directory
* `addTo`, `Full`: the blocks after a file is added, and blocks without room for one
* `Filled`: the blocks of a directory that no file was removed from
* `removeFrom`: the blocks after a file is removed

## Main results

* `addTo_cases`, `removeFrom_cases`: what an addition and a removal do to the blocks
* `listing_addTo`, `listing_removeFrom`: what they do to the listing
* `Filled.addTo`: filling keeps the order
-/

namespace MicroKernel.Fs

/-- A block of a directory: its handle, and the handles of its files, in order. -/
structure Block where
  handle : DirectoryHandle
  files : List FileHandle
deriving DecidableEq

def Block.add (b : Block) (file : FileHandle) : Block := { b with files := b.files ++ [file] }

def Block.remove (b : Block) (file : FileHandle) : Block :=
  { b with files := b.files.swapRemove file }

/-- The files of a directory, in order. -/
def listing (blocks : List Block) : List FileHandle := blocks.flatMap Block.files

/-! ## Adding a file -/

/-- The extents after a file is added: the first with fewer than six files takes it, or the last,
and a new extent is linked behind that. -/
def addToExtents (new : DirectoryHandle) (file : FileHandle) : List Block → List Block
  | [] => []
  | [e] => if e.files.length < 6 then [e.add file] else [e.add file, ⟨new, []⟩]
  | e :: e' :: rest =>
    if e.files.length < 6 then e.add file :: e' :: rest
    else e :: addToExtents new file (e' :: rest)

/-- The blocks after a file is added: the first takes seven files, and then a new extent. -/
def addTo (new : DirectoryHandle) (file : FileHandle) : List Block → List Block
  | [] => []
  | first :: extents =>
    if first.files.length < 7 then first.add file :: extents
    else if extents = [] then [first, ⟨new, [file]⟩]
    else first :: addToExtents new file extents

/-- The blocks have no room for a file without a new extent. -/
def Full : List Block → Prop
  | [] => False
  | first :: extents => 7 ≤ first.files.length ∧ ∀ e ∈ extents, 6 ≤ e.files.length

instance : (blocks : List Block) → Decidable (Full blocks)
  | [] => isFalse id
  | _ :: _ => instDecidableAnd

/-- The last extent of full blocks has an entry left. -/
def LastHasRoom (blocks : List Block) : Prop :=
  Full blocks → ∀ e ∈ blocks.tail.getLast?, e.files.length < 7

section Add

variable {new : DirectoryHandle} {file : FileHandle} {blocks : List Block} {b : Block}

@[simp] theorem listing_nil : listing [] = [] := rfl

@[simp] theorem listing_cons (b : Block) (blocks : List Block) :
    listing (b :: blocks) = b.files ++ listing blocks := rfl

@[simp] theorem listing_append (blocks blocks' : List Block) :
    listing (blocks ++ blocks') = listing blocks ++ listing blocks' := List.flatMap_append

theorem addToExtents_cases {extents : List Block} (hne : extents ≠ []) :
    (∃ pre b post, extents = pre ++ b :: post ∧ (∀ e ∈ pre, 6 ≤ e.files.length) ∧
        b.files.length < 6 ∧
        ∀ new file, addToExtents new file extents = pre ++ b.add file :: post) ∨
      (∀ e ∈ extents, 6 ≤ e.files.length) ∧ ∃ pre b, extents = pre ++ [b] ∧
        ∀ new file, addToExtents new file extents = pre ++ [b.add file, ⟨new, []⟩] := by
  induction extents with
  | nil => exact absurd rfl hne
  | cons e rest ih =>
    by_cases he : e.files.length < 6
    · -- the walk stops at this extent
      refine Or.inl ⟨[], e, rest, rfl, by simp, he, fun new file => ?_⟩
      cases rest with
      | nil => exact if_pos he
      | cons e' rest => exact if_pos he
    · have hfull : 6 ≤ e.files.length := Nat.not_lt.mp he
      cases rest with
      | nil => exact Or.inr ⟨by simpa using hfull, [], e, rfl, fun new file => if_neg he⟩
      | cons e' rest =>
        have hstep : ∀ new file, addToExtents new file (e :: e' :: rest) =
            e :: addToExtents new file (e' :: rest) := fun new file => if_neg he
        rcases ih (List.cons_ne_nil _ _) with ⟨pre, b, post, heq, hpre, hb, hadd⟩ |
          ⟨hall, pre, b, heq, hadd⟩
        · refine Or.inl ⟨e :: pre, b, post, congrArg (e :: ·) heq,
            List.forall_mem_cons.mpr ⟨hfull, hpre⟩, hb, fun new file => ?_⟩
          rw [hstep, hadd]
          rfl
        · refine Or.inr ⟨List.forall_mem_cons.mpr ⟨hfull, hall⟩, e :: pre, b,
            congrArg (e :: ·) heq, fun new file => ?_⟩
          rw [hstep, hadd]
          rfl

/-- **What an addition does**: a block with room takes the file, or the first extent is made for it,
or the last extent takes it and has a new one linked behind. -/
theorem addTo_cases (hne : blocks ≠ []) :
    (¬ Full blocks ∧ ∃ pre b post, blocks = pre ++ b :: post ∧
        (pre = [] ∧ b.files.length < 7 ∨ Full pre ∧ b.files.length < 6) ∧
        ∀ new file, addTo new file blocks = pre ++ b.add file :: post) ∨
      Full blocks ∧
        ((∃ first, blocks = [first] ∧
            ∀ new file, addTo new file blocks = [first, ⟨new, [file]⟩]) ∨
          ∃ pre b, Full pre ∧ blocks = pre ++ [b] ∧ 6 ≤ b.files.length ∧
            ∀ new file, addTo new file blocks = pre ++ [b.add file, ⟨new, []⟩]) := by
  obtain ⟨first, extents, rfl⟩ := List.exists_cons_of_ne_nil hne
  by_cases hfirst : first.files.length < 7
  · -- the first block takes seven, the extents six before they are passed over
    exact Or.inl ⟨fun h => absurd h.1 (by omega), [], first, extents, rfl,
      Or.inl ⟨rfl, hfirst⟩, fun new file => if_pos hfirst⟩
  · have hfull : 7 ≤ first.files.length := Nat.not_lt.mp hfirst
    by_cases hnil : extents = []
    · subst hnil
      refine Or.inr ⟨⟨hfull, by simp⟩, Or.inl ⟨first, rfl, fun new file => ?_⟩⟩
      rw [addTo, if_neg hfirst, if_pos rfl]
    · have hadd : ∀ new file, addTo new file (first :: extents) =
          first :: addToExtents new file extents := by
        intro new file
        rw [addTo, if_neg hfirst, if_neg hnil]
      rcases addToExtents_cases hnil with ⟨pre, b, post, rfl, hpre, hb, heq⟩ |
        ⟨hall, pre, b, rfl, heq⟩
      · refine Or.inl ⟨fun h => absurd (h.2 b (by simp)) (by omega), first :: pre, b, post, rfl,
          Or.inr ⟨⟨hfull, hpre⟩, hb⟩, fun new file => ?_⟩
        rw [hadd, heq]
        rfl
      · refine Or.inr ⟨⟨hfull, hall⟩, Or.inr ⟨first :: pre, b,
          ⟨hfull, fun e he => hall e (List.mem_append_left _ he)⟩, rfl, hall b (by simp),
          fun new file => ?_⟩⟩
        rw [hadd, heq]
        rfl

/-- **An added file** joins the listing. -/
theorem listing_addTo (new : DirectoryHandle) (file : FileHandle) (hne : blocks ≠ []) :
    (listing (addTo new file blocks)).Perm (file :: listing blocks) := by
  rcases addTo_cases hne with ⟨-, pre, b, post, rfl, -, heq⟩ |
    ⟨-, ⟨first, rfl, heq⟩ | ⟨pre, b, -, rfl, -, heq⟩⟩
  · rw [heq]
    simp only [listing_append, listing_cons, Block.add]
    rw [← List.append_assoc, ← List.append_assoc, ← List.append_assoc]
    exact (List.perm_append_singleton file _).append_right _
  · rw [heq]
    simp only [listing_cons, listing_nil, List.append_nil]
    exact List.perm_append_singleton file _
  · rw [heq]
    simp only [listing_append, listing_cons, listing_nil, Block.add, List.append_nil]
    rw [← List.append_assoc]
    exact List.perm_append_singleton file _

theorem length_listing_of_forall {blocks : List Block} {n : ℕ} (h : ∀ b ∈ blocks, b.files.length = n) :
    (listing blocks).length = n * blocks.length := by
  induction blocks with
  | nil => rfl
  | cons b blocks ih =>
    obtain ⟨hb, hblocks⟩ := List.forall_mem_cons.mp h
    rw [listing_cons, List.length_append, hb, ih hblocks, List.length_cons, Nat.mul_succ,
      Nat.add_comm]

end Add

/-! ## Blocks filled one file after the other -/

/-- The blocks of a directory that no file was removed from: seven files in each but the last, and
six at most in that, but for a single block. -/
def Filled (blocks : List Block) : Prop :=
  ∃ pre last, blocks = pre ++ [last] ∧ (∀ b ∈ pre, b.files.length = 7) ∧
    (last.files.length ≤ 6 ∨ pre = [] ∧ last.files.length = 7) ∧
    (pre.length = 1 → last.files ≠ [])

section Filled

variable {new : DirectoryHandle} {file : FileHandle} {blocks : List Block}

theorem filled_singleton (h : DirectoryHandle) : Filled [⟨h, []⟩] :=
  ⟨[], ⟨h, []⟩, rfl, by simp, Or.inl (Nat.zero_le _), by simp⟩

theorem Filled.ne_nil (h : Filled blocks) : blocks ≠ [] := by
  obtain ⟨pre, last, rfl, -⟩ := h
  simp

theorem Filled.lastHasRoom (h : Filled blocks) : LastHasRoom blocks := by
  obtain ⟨pre, last, rfl, -, hlast, -⟩ := h
  intro _ e he
  cases pre with
  | nil => exact absurd he (by simp)
  | cons first pre =>
    obtain rfl : last = e := by simpa using he
    have := hlast.resolve_right (by simp)
    omega

/-- **Filling** goes on, in order. -/
theorem Filled.addTo (h : Filled blocks) (new : DirectoryHandle) (file : FileHandle) :
    Filled (addTo new file blocks) ∧
      listing (Fs.addTo new file blocks) = listing blocks ++ [file] := by
  have hne := h.ne_nil
  obtain ⟨pre, last, rfl, hpre, hlast, hone⟩ := h
  rcases addTo_cases hne with ⟨-, p, b, post, heq, hb, hadd⟩ |
    ⟨hfull, ⟨first, heq, hadd⟩ | ⟨p, b, hp, heq, hb, hadd⟩⟩
  · -- only the last block may have room
    have hlt : b.files.length < 7 := by
      rcases hb with ⟨-, hb⟩ | ⟨-, hb⟩ <;> omega
    obtain rfl : post = [] := by
      rcases List.eq_nil_or_concat post with rfl | ⟨post, x, rfl⟩
      · rfl
      · rw [List.concat_eq_append, ← List.cons_append, ← List.append_assoc] at heq
        have hmem : b ∈ pre := by
          rw [(List.append_inj' heq rfl).1]
          simp
        have := hpre b hmem
        omega
    obtain ⟨rfl, hlb⟩ := List.append_inj' heq rfl
    obtain rfl : last = b := List.singleton_inj.mp hlb
    rw [hadd]
    refine ⟨⟨pre, last.add file, rfl, hpre, ?_, by simp [Block.add]⟩, by simp [Block.add]⟩
    rw [Block.add, List.length_append, List.length_singleton]
    rcases hb with ⟨rfl, hb⟩ | ⟨-, hb⟩
    · rcases Nat.lt_or_ge last.files.length 6 with h | h
      · exact Or.inl h
      · exact Or.inr ⟨rfl, by omega⟩
    · exact Or.inl hb
  · -- the only block is full, and an extent is made for the file
    have heq : [] ++ [first] = pre ++ [last] := heq.symm
    obtain ⟨rfl, hlb⟩ := List.append_inj' heq rfl
    obtain rfl : first = last := List.singleton_inj.mp hlb
    have hseven := hfull.1
    rw [hadd]
    exact ⟨⟨[first], ⟨new, [file]⟩, rfl, by simp; omega, Or.inl (by simp), by simp⟩, by simp⟩
  · -- the last extent takes its seventh file, and an empty one comes behind
    obtain ⟨rfl, hlb⟩ := List.append_inj' heq rfl
    obtain rfl : last = b := List.singleton_inj.mp hlb
    have hnil : pre ≠ [] := by
      rintro rfl
      exact hp
    have hsix := hlast.resolve_right fun h => hnil h.1
    rw [hadd]
    refine ⟨⟨pre ++ [last.add file], ⟨new, []⟩, by simp, ?_, Or.inl (Nat.zero_le _), ?_⟩,
      by simp [Block.add]⟩
    · intro c hc
      rcases List.mem_append.mp hc with hc | hc
      · exact hpre c hc
      · rw [List.mem_singleton.mp hc, Block.add, List.length_append, List.length_singleton]
        omega
    · have := List.length_pos_of_ne_nil hnil
      rw [List.length_append, List.length_singleton]
      omega

/-- Blocks that are filled hold at least a file each, but for the last. -/
theorem Filled.length_le (h : Filled blocks) : blocks.length ≤ (listing blocks).length + 1 := by
  obtain ⟨pre, last, rfl, hpre, -⟩ := h
  rw [listing_append, List.length_append, List.length_append, length_listing_of_forall hpre,
    List.length_singleton]
  omega

/-- One entry more than blocks of seven hold begins a block. -/
theorem Filled.of_length_eq {n : ℕ} (h : Filled blocks)
    (hlen : (listing blocks).length = 7 * n + 1) : ∃ pre b, blocks = pre ++ [b] ∧ pre.length = n ∧
      (∀ e ∈ pre, e.files.length = 7) ∧ b.files.length = 1 := by
  obtain ⟨pre, b, rfl, hpre, hlast, -⟩ := h
  rw [listing_append, List.length_append, length_listing_of_forall hpre, listing_cons, listing_nil,
    List.append_nil] at hlen
  have hle : b.files.length ≤ 7 := hlast.elim (fun h => by omega) fun h => h.2.le
  refine ⟨pre, b, rfl, ?_, hpre, ?_⟩
  · rcases hlast with h | ⟨rfl, h⟩
    · omega
    · rw [List.length_nil] at hlen ⊢
      omega
  · rcases hlast with h | ⟨rfl, h⟩
    · omega
    · rw [List.length_nil] at hlen
      omega

end Filled

/-! ## Removing a file -/

/-- The blocks after a file is removed. `position` is the byte that counts the blocks before. -/
def removeFrom (file : FileHandle) : (position : UInt8) → List Block → List Block
  | _, [] => []
  | position, b :: rest =>
    if file ∈ b.files then
      if b.files.length ≤ 1 ∧ 0 < position then rest else b.remove file :: rest
    else b :: removeFrom file (position + 1) rest

section Remove

variable {file : FileHandle} {blocks : List Block} {b : Block}

/-- **What a removal does**: the first block that holds the file loses it, and is bypassed if it was
its last and the byte that counts the blocks before it is not 0. -/
theorem removeFrom_cases (position : UInt8) (h : file ∈ listing blocks) :
    ∃ pre b post, blocks = pre ++ b :: post ∧ file ∈ b.files ∧ (∀ e ∈ pre, file ∉ e.files) ∧
      removeFrom file position blocks = pre ++
        if b.files.length ≤ 1 ∧ 0 < position + UInt8.ofNat pre.length then post
        else b.remove file :: post := by
  induction blocks generalizing position with
  | nil => exact absurd h (by simp)
  | cons b rest ih =>
    by_cases hb : file ∈ b.files
    · -- the file is in this block, and `position` is the byte that counts those before
      refine ⟨[], b, rest, rfl, hb, by simp, ?_⟩
      rw [removeFrom, if_pos hb, List.nil_append, List.length_nil,
        show position + UInt8.ofNat 0 = position from UInt8.add_zero position]
    · rw [listing_cons, List.mem_append] at h
      obtain ⟨pre, c, post, rfl, hc, hpre, heq⟩ := ih (position + 1) (h.resolve_left hb)
      refine ⟨b :: pre, c, post, rfl, hc, List.forall_mem_cons.mpr ⟨hb, hpre⟩, ?_⟩
      rw [removeFrom, if_neg hb, heq, List.cons_append, List.length_cons, UInt8.add_assoc,
        show (1 : UInt8) = UInt8.ofNat 1 from rfl, ← UInt8.ofNat_add, Nat.add_comm 1]

/-- **A removed file** leaves the listing. -/
theorem listing_removeFrom (position : UInt8) (h : file ∈ listing blocks) :
    (listing (removeFrom file position blocks)).Perm ((listing blocks).erase file) := by
  obtain ⟨pre, b, post, rfl, hb, hpre, heq⟩ := removeFrom_cases position h
  have hnot : file ∉ listing pre := by
    rw [listing, List.mem_flatMap]
    rintro ⟨e, he, hf⟩
    exact hpre e he hf
  rw [heq, listing_append, listing_append, listing_cons, List.erase_append_right _ hnot,
    List.erase_append_left _ hb, List.perm_append_left_iff]
  split
  · next hlast =>
    have hone : b.files = [file] := by
      obtain ⟨f, hf⟩ := List.length_eq_one_iff.mp
        (Nat.le_antisymm hlast.1 (List.length_pos_of_mem hb))
      rw [hf, List.mem_singleton] at hb
      rw [hf, hb]
    rw [hone]
    simp
  · rw [listing_cons]
    exact (List.swapRemove_perm hb).append_right _

theorem removeFrom_append {pre : List Block} (h : file ∉ listing pre) (position : UInt8) :
    removeFrom file position (pre ++ blocks) =
      pre ++ removeFrom file (position + UInt8.ofNat pre.length) blocks := by
  induction pre generalizing position with
  | nil =>
    show removeFrom file position blocks = removeFrom file (position + 0) blocks
    rw [UInt8.add_zero]
  | cons b pre ih =>
    rw [listing_cons, List.mem_append, not_or] at h
    rw [List.cons_append, removeFrom, if_neg h.1, ih h.2, List.cons_append, List.length_cons,
      UInt8.add_assoc, show (1 : UInt8) = UInt8.ofNat 1 from rfl, ← UInt8.ofNat_add, Nat.add_comm 1]

end Remove

/-! ## The files of the blocks -/

/-- The blocks of a directory that files were added to, in order. -/
def blocksOf (files : List FileHandle) : List Block :=
  files.foldl (fun blocks file => addTo 0 file blocks) [⟨0, []⟩]

/-- Two lists of blocks with the same files. -/
def SameFiles (blocks blocks' : List Block) : Prop :=
  List.Forall₂ (fun b b' => b.files = b'.files) blocks blocks'

section SameFiles

variable {file : FileHandle} {blocks blocks' : List Block}

theorem SameFiles.addToExtents (h : SameFiles blocks blocks') (new new' : DirectoryHandle) :
    SameFiles (addToExtents new file blocks) (addToExtents new' file blocks') := by
  induction h with
  | nil => exact .nil
  | @cons e e' rest rest' he hrest ih =>
    have hadd : (e.add file).files = (e'.add file).files := congrArg (· ++ [file]) he
    cases hrest with
    | nil =>
      rw [Fs.addToExtents, Fs.addToExtents, he]
      split_ifs
      · exact .cons hadd .nil
      · exact .cons hadd (.cons rfl .nil)
    | cons hnext hrest =>
      rw [Fs.addToExtents, Fs.addToExtents, he]
      split_ifs
      · exact .cons hadd (.cons hnext hrest)
      · exact .cons he ih

theorem SameFiles.addTo (h : SameFiles blocks blocks') (new new' : DirectoryHandle) :
    SameFiles (addTo new file blocks) (addTo new' file blocks') := by
  cases h with
  | nil => exact .nil
  | @cons first first' extents extents' hfirst hextents =>
    have hnil : extents = [] ↔ extents' = [] := by
      rw [← List.length_eq_zero_iff, ← List.length_eq_zero_iff, hextents.length_eq]
    rw [Fs.addTo, Fs.addTo, hfirst]
    simp only [hnil]
    split_ifs
    · exact .cons (congrArg (· ++ [file]) hfirst) hextents
    · exact .cons hfirst (.cons rfl .nil)
    · exact .cons hfirst (SameFiles.addToExtents hextents new new')

theorem SameFiles.removeFrom (h : SameFiles blocks blocks') (position : UInt8) :
    SameFiles (removeFrom file position blocks) (removeFrom file position blocks') := by
  induction h generalizing position with
  | nil => exact .nil
  | @cons b b' rest rest' hb hrest ih =>
    rw [Fs.removeFrom, Fs.removeFrom, hb]
    split_ifs
    · exact hrest
    · exact .cons (congrArg (·.swapRemove file) hb) hrest
    · exact .cons hb (ih _)

end SameFiles

end MicroKernel.Fs
