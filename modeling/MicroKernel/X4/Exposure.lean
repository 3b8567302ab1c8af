import MicroKernel.X4.Bounds

/-!
# What the services show of the program buffer

The display routine prints, and the network routine sends, bytes of the program buffer from an
offset the program chooses. The display routine bounds the number of the characters by the size of
the program, and not their indices; the network routine refuses a message that ends exactly at the
end of the program.

## Main definitions

* `exposed`, `sent`: the indices of the bytes printed or sent, and the bytes sent
* `ServicesExpose`: only bytes of the program are shown, and a message is sent when it lies in it
* `TextEnds`: the text to print ends by a zero byte in time

## Main results

* `mem_exposed_displayString`, `exposed_ntSend`: what the two loops show
* `servicesExpose_iff`: when the services show the program only, and send what they are asked to
-/

namespace MicroKernel.X4

open Traced

/-- An effect that puts a byte out. -/
def Effect.isOutput : Effect → Bool
  | .printChar _ | .printLn | .ntSend _ => true
  | _ => false

/-- The indices of the bytes of the program buffer that are put out: of those fetched right before
an output. -/
def exposed : List Effect → List UInt32
  | .programBuffer index :: e :: effects =>
    if e.isOutput then index :: exposed (e :: effects) else exposed (e :: effects)
  | _ :: effects => exposed effects
  | [] => []

/-- The bytes sent. -/
def sent : List Effect → List UInt8
  | .ntSend byte :: effects => byte :: sent effects
  | _ :: effects => sent effects
  | [] => []

/-- The services show bytes of the program only, and the network routine sends the message of
length CL at offset DX when it lies in the program, and else sets BL. -/
structure ServicesExpose (env : Environment) (s : Machine) : Prop where
  display : ∀ index ∈ exposed (iscDisplayRoutine env s).effects, index < s.programSize
  network : ∀ index ∈ exposed (iscNetworkRoutine env s).effects, index < s.programSize
  sends : s.reg 1 = 0x0C → s.reg 0 = 0x00 → 1 ≤ messageLength s →
    (messageOffset s).toNat + messageLength s ≤ s.programSize.toNat →
      sent (iscNetworkRoutine env s).effects = (List.range (messageLength s)).map fun k =>
        programByte env s (messageOffset s + UInt32.ofNat k)
  refuses : s.reg 1 = 0x0C → s.reg 0 = 0x00 → 1 ≤ messageLength s →
    ¬ (messageOffset s).toNat + messageLength s ≤ s.programSize.toNat →
      (iscNetworkRoutine env s).Ensures (fun t => t.reg 2 = 1) ∧
        sent (iscNetworkRoutine env s).effects = []

/-- The text at offset DX starts at the front of the program, or a zero byte ends it at the end of
the program at the latest. -/
def TextEnds (env : Environment) (s : Machine) : Prop :=
  messageOffset s = 0 ∨ s.programSize = 0 ∨ ∃ i ≤ max (messageOffset s).toNat s.programSize.toNat,
    (messageOffset s).toNat ≤ i ∧ programByte env s (UInt32.ofNat i) = 0

/-! ## The loops -/

section Loops

variable {env : Environment} {s : Machine} {offset i index : UInt32}

theorem displayString_effects (left : ℕ) :
    (displayString env s offset (left + 1) i).effects = .programBuffer (offset + i) ::
      if programByte env s (offset + i) = 0 then []
      else (if programByte env s (offset + i) = 10 then Effect.printLn
        else .printChar (programByte env s (offset + i))) ::
          (displayString env s offset left (i + 1)).effects := by
  rw [displayString, bind_eq (a := programByte env s (offset + i)) rfl]
  split_ifs <;> rfl

/-- A byte that is put out is exposed. -/
theorem exposed_cons {e : Effect} (he : e.isOutput = true) {effects : List Effect} :
    exposed (.programBuffer index :: e :: effects) = index :: exposed effects := by
  rw [exposed, if_pos he]
  cases e <;> first | rfl | cases he

/-- The indices of the characters printed: up to the first zero byte. -/
theorem mem_exposed_displayString (left : ℕ) {start : ℕ} (h : offset + i = UInt32.ofNat start) :
    index ∈ exposed (displayString env s offset left i).effects ↔
      ∃ k < left, index = UInt32.ofNat (start + k) ∧
        ∀ j ≤ k, programByte env s (UInt32.ofNat (start + j)) ≠ 0 := by
  induction left generalizing i start with
  | zero =>
    refine iff_of_false List.not_mem_nil ?_
    rintro ⟨k, hk, -⟩
    exact absurd hk (Nat.not_lt_zero k)
  | succ left ih =>
    have hnext : offset + (i + 1) = UInt32.ofNat (start + 1) := by
      rw [← UInt32.add_assoc, h, UInt32.ofNat_add]
      rfl
    have ih := ih hnext
    rw [displayString_effects, h]
    by_cases hzero : programByte env s (UInt32.ofNat start) = 0
    · -- a zero byte ends the text
      rw [if_pos hzero]
      refine iff_of_false List.not_mem_nil ?_
      rintro ⟨k, -, -, hk⟩
      exact hk 0 (Nat.zero_le k) hzero
    · -- this character, or one of the rest
      rw [if_neg hzero, exposed_cons (by split_ifs <;> rfl), List.mem_cons, ih]
      constructor
      · rintro (rfl | ⟨k, hk, rfl, hbytes⟩)
        · exact ⟨0, Nat.succ_pos _, rfl, fun j hj => by rwa [Nat.le_zero.mp hj]⟩
        · refine ⟨k + 1, by omega, by rw [Nat.add_right_comm, Nat.add_assoc], fun j hj => ?_⟩
          cases j with
          | zero => exact hzero
          | succ j => simpa [Nat.add_assoc, Nat.add_comm 1] using hbytes j (by omega)
      · rintro ⟨k, hk, rfl, hbytes⟩
        cases k with
        | zero => exact Or.inl rfl
        | succ k =>
          refine Or.inr ⟨k, by omega, by rw [Nat.add_right_comm, Nat.add_assoc], fun j hj => ?_⟩
          simpa [Nat.add_assoc, Nat.add_comm 1] using hbytes (j + 1) (by omega)

theorem displayString_value (left : ℕ) : (displayString env s offset left i).value = .ok ⟨⟩ := by
  induction left generalizing i with
  | zero => rfl
  | succ left ih =>
    rw [displayString, bind_eq (a := programByte env s (offset + i)) rfl]
    split_ifs
    · rfl
    · exact ih
    · exact ih

theorem ntSend_value (left : ℕ) : (ntSend env s offset left i).value = .ok ⟨⟩ := by
  induction left generalizing i with
  | zero => rfl
  | succ left ih => exact ih

theorem ntSendParam_value (left : ℕ) : (ntSendParam env s left i).value = .ok ⟨⟩ := by
  induction left generalizing i with
  | zero => rfl
  | succ left ih => exact ih

/-- A message is sent from consecutive indices. -/
theorem exposed_ntSend (left : ℕ) {start : ℕ} (h : offset + i = UInt32.ofNat start)
    (rest : List Effect) :
    exposed ((ntSend env s offset left i).effects ++ rest) =
        ((List.range left).map fun k => UInt32.ofNat (start + k)) ++ exposed rest ∧
      sent ((ntSend env s offset left i).effects ++ rest) =
        ((List.range left).map fun k => programByte env s (UInt32.ofNat (start + k))) ++
          sent rest := by
  induction left generalizing i start with
  | zero => exact ⟨rfl, rfl⟩
  | succ left ih =>
    have hnext : offset + (i + 1) = UInt32.ofNat (start + 1) := by
      rw [← UInt32.add_assoc, h, UInt32.ofNat_add]
      rfl
    have heffects : (ntSend env s offset (left + 1) i).effects ++ rest =
        .programBuffer (UInt32.ofNat start) :: .ntSend (programByte env s (UInt32.ofNat start)) ::
          ((ntSend env s offset left (i + 1)).effects ++ rest) := by
      rw [← h]
      rfl
    obtain ⟨hexposed, hsent⟩ := ih hnext
    have hcons : ∀ index byte effects, sent (.programBuffer index :: .ntSend byte :: effects) =
        byte :: sent effects := fun _ _ _ => rfl
    rw [heffects, exposed_cons rfl, hcons, hexposed, hsent, List.range_succ_eq_map,
      List.map_cons, List.map_cons, List.map_map, List.map_map]
    simp only [Function.comp_def, Nat.add_zero, Nat.add_assoc, Nat.succ_eq_one_add, List.cons_append,
      and_self]

/-- Parameters are no bytes of the program. -/
theorem exposed_ntSendParam (left : ℕ) (rest : List Effect) :
    exposed ((ntSendParam env s left i).effects ++ rest) = exposed rest := by
  induction left generalizing i with
  | zero => rfl
  | succ left ih => exact ih

end Loops

/-! ## The routines -/

section Routines

variable {env : Environment} {s : Machine}

theorem iscDisplayRoutine_effects (h : s.reg 1 = 0x09) : (iscDisplayRoutine env s).effects =
    [.reg 1, .reg 7, .reg 6] ++
      (displayString env s (messageOffset s) s.programSize.toNat 0).effects := by
  rw [iscDisplayRoutine, bind_eq (a := s.reg 1) rfl, if_pos h, bind_eq (a := s.reg 7) rfl,
    bind_eq (a := s.reg 6) rfl, bind_eq (displayString_value _)]
  show .reg 1 :: .reg 7 :: .reg 6 :: ((displayString env s (messageOffset s) _ 0).effects ++ []) = _
  rw [List.append_nil]
  rfl

/-- The indices of the program the display routine shows. -/
theorem mem_exposed_display {index : UInt32} :
    index ∈ exposed (iscDisplayRoutine env s).effects ↔ s.reg 1 = 0x09 ∧
      ∃ k < s.programSize.toNat, index = UInt32.ofNat ((messageOffset s).toNat + k) ∧
        ∀ j ≤ k, programByte env s (UInt32.ofNat ((messageOffset s).toNat + j)) ≠ 0 := by
  by_cases h : s.reg 1 = 0x09
  · rw [iscDisplayRoutine_effects h, and_iff_right h]
    exact mem_exposed_displayString _ (by rw [UInt32.add_zero, UInt32.ofNat_toNat])
  · refine iff_of_false ?_ fun hm => h hm.1
    rw [iscDisplayRoutine, bind_eq (a := s.reg 1) rfl, if_neg h]
    split_ifs <;> exact List.not_mem_nil

/-- The check of the bounds of a message. -/
theorem messageInBounds_iff : (messageOffset s).toNat + messageLength s < s.programSize.toNat ↔
    ¬ (messageOffset s ≥ s.programSize ∨
      messageOffset s + (s.reg 4).toUInt32 ≥ s.programSize) := by
  have hoffset : (messageOffset s).toNat < 65536 := pointer_low_toNat_lt _ _
  have hlength := (s.reg 4).toNat_lt
  have hlen : messageLength s = (s.reg 4).toNat := rfl
  rw [not_or, ge_iff_le, ge_iff_le, UInt32.not_le, UInt32.not_le, UInt32.lt_iff_toNat_lt,
    UInt32.lt_iff_toNat_lt, UInt32.toNat_add, UInt8.toNat_toUInt32]
  omega

/-- The routine reads the registers of a message before it checks the bounds. -/
theorem iscNetworkRoutine_eq (h : s.reg 1 = 0x0C) {x : Emulator Machine}
    (hx : x = if messageOffset s ≥ s.programSize ∨
        messageOffset s + (s.reg 4).toUInt32 ≥ s.programSize then writeReg s rBL 1
      else do
        let al ← readReg s rAL
        if al = 0x00 then ntSend env s (messageOffset s) (s.reg 4).toNat 0
        else if al = 0x01 then ntSendParam env s s.paramLength.toUInt8.toNat 0
        writeReg s rBL 0) :
    iscNetworkRoutine env s = ⟨[.reg 1, .reg 7, .reg 6, .reg 4] ++ x.effects, x.value⟩ := by
  have hinit : ¬ s.reg 1 = 0x0A := by
    rw [h]
    decide
  rw [iscNetworkRoutine, bind_eq (a := s.reg 1) rfl, if_neg hinit, if_pos h,
    bind_eq (a := s.reg 7) rfl, bind_eq (a := s.reg 6) rfl, bind_eq (a := s.reg 4) rfl, hx]
  rfl

/-- A message out of bounds is refused. -/
theorem iscNetworkRoutine_refused (h : s.reg 1 = 0x0C)
    (hmessage : ¬ (messageOffset s).toNat + messageLength s < s.programSize.toNat) :
    (iscNetworkRoutine env s).effects = [.reg 1, .reg 7, .reg 6, .reg 4, .reg 2] ∧
      (iscNetworkRoutine env s).value = .ok { s with reg := Function.update s.reg 2 1 } := by
  rw [messageInBounds_iff, not_not] at hmessage
  rw [iscNetworkRoutine_eq h rfl, if_pos hmessage]
  exact ⟨rfl, rfl⟩

/-- What a message in bounds shows: its bytes, when they are the program's. -/
theorem iscNetworkRoutine_accepted (h : s.reg 1 = 0x0C)
    (hmessage : (messageOffset s).toNat + messageLength s < s.programSize.toNat) :
    exposed (iscNetworkRoutine env s).effects =
        (if s.reg 0 = 0x00 then (List.range (messageLength s)).map fun k =>
          UInt32.ofNat ((messageOffset s).toNat + k) else []) ∧
      (s.reg 0 = 0x00 → sent (iscNetworkRoutine env s).effects =
        (List.range (messageLength s)).map fun k =>
          programByte env s (UInt32.ofNat ((messageOffset s).toNat + k))) := by
  have hstart : messageOffset s + 0 = UInt32.ofNat (messageOffset s).toNat := by
    rw [UInt32.add_zero, UInt32.ofNat_toNat]
  rw [messageInBounds_iff] at hmessage
  rw [iscNetworkRoutine_eq h rfl, if_neg hmessage, bind_eq (a := s.reg 0) rfl]
  by_cases hprogram : s.reg 0 = 0x00
  · -- the message is of the program
    rw [if_pos hprogram, if_pos hprogram, bind_eq (ntSend_value _)]
    have hloop := @exposed_ntSend env s _ _ (messageLength s) _ hstart [.reg 2]
    rw [show exposed [.reg 2] = [] from rfl, show sent [.reg 2] = [] from rfl, List.append_nil,
      List.append_nil] at hloop
    exact ⟨hloop.1, fun _ => hloop.2⟩
  · -- the message is of the parameters, or there is none
    rw [if_neg hprogram, if_neg hprogram]
    refine ⟨?_, fun h => absurd h hprogram⟩
    split_ifs
    · rw [bind_eq (ntSendParam_value _)]
      exact exposed_ntSendParam _ [.reg 2]
    · rfl

/-- The network routine shows bytes of the program only. -/
theorem lt_of_mem_exposed_network {index : UInt32}
    (h : index ∈ exposed (iscNetworkRoutine env s).effects) : index < s.programSize := by
  by_cases hsend : s.reg 1 = 0x0C
  · by_cases hmessage : (messageOffset s).toNat + messageLength s < s.programSize.toNat
    · rw [(iscNetworkRoutine_accepted hsend hmessage).1] at h
      split_ifs at h
      · obtain ⟨k, hk, rfl⟩ := List.mem_map.mp h
        have hsize := s.programSize.toNat_lt
        rw [List.mem_range] at hk
        rw [UInt32.lt_iff_toNat_lt, UInt32.toNat_ofNat_of_lt' (show _ < 2 ^ 32 by omega)]
        omega
      · exact absurd h List.not_mem_nil
    · rw [(iscNetworkRoutine_refused hsend hmessage).1] at h
      exact absurd h List.not_mem_nil
  · rw [iscNetworkRoutine, bind_eq (a := s.reg 1) rfl] at h
    split_ifs at h <;> exact absurd h List.not_mem_nil

/-- **The display routine** shows bytes of the program only when the text it prints ends in time. -/
theorem display_iff (hs : s.programSize.toNat ≤ maxProgramSize) :
    (∀ index ∈ exposed (iscDisplayRoutine env s).effects, index < s.programSize) ↔
      (s.reg 1 = 0x09 → TextEnds env s) := by
  have hoffset : (messageOffset s).toNat < 65536 := pointer_low_toNat_lt _ _
  have hmax : maxProgramSize = 256 := rfl
  have hlt : ∀ k < s.programSize.toNat,
      UInt32.ofNat ((messageOffset s).toNat + k) < s.programSize ↔
        (messageOffset s).toNat + k < s.programSize.toNat := fun k hk => by
    rw [UInt32.lt_iff_toNat_lt, UInt32.toNat_ofNat_of_lt' (show _ < 2 ^ 32 by omega)]
  simp only [mem_exposed_display]
  constructor
  · intro h hprints
    by_contra hends
    obtain ⟨hne, hsize, hbytes⟩ : messageOffset s ≠ 0 ∧ s.programSize ≠ 0 ∧
        ∀ i ≤ max (messageOffset s).toNat s.programSize.toNat, (messageOffset s).toNat ≤ i →
          programByte env s (UInt32.ofNat i) ≠ 0 := by
      simpa only [TextEnds, not_or, not_exists, not_and] using hends
    have hpos : 0 < (messageOffset s).toNat := Nat.pos_of_ne_zero fun h => hne (UInt32.toNat_inj.mp h)
    have hpos' : 0 < s.programSize.toNat := Nat.pos_of_ne_zero fun h => hsize (UInt32.toNat_inj.mp h)
    -- the first character behind the program
    obtain ⟨k, hk⟩ : ∃ k, max (messageOffset s).toNat s.programSize.toNat =
        (messageOffset s).toNat + k := Nat.exists_eq_add_of_le (le_max_left _ _)
    have hlast : k < s.programSize.toNat := by omega
    have := (hlt k hlast).mp (h _ ⟨hprints, k, hlast, rfl, fun j hj =>
      hbytes _ (by omega) (Nat.le_add_right _ _)⟩)
    omega
  · -- a character behind the program would have the zero byte before it
    rintro h _ ⟨hprints, k, hk, rfl, hbytes⟩
    rw [hlt k hk]
    obtain hzero | hzero | ⟨i, hi, hle, hbyte⟩ := h hprints
    · rw [hzero, UInt32.toNat_zero]
      omega
    · rw [hzero, UInt32.toNat_zero] at hk
      omega
    · by_contra hge
      obtain ⟨j, rfl⟩ := Nat.exists_eq_add_of_le hle
      exact hbytes j (by omega) hbyte

/-- **The services** show bytes of the program only, and send a message that lies in it, exactly
when the text to print ends in time and the message to send does not end with the program. -/
theorem servicesExpose_iff (env : Environment) (s : Machine)
    (hs : s.programSize.toNat ≤ maxProgramSize) : ServicesExpose env s ↔
      (s.reg 1 = 0x09 → TextEnds env s) ∧
        (s.reg 1 = 0x0C → s.reg 0 = 0x00 → 1 ≤ messageLength s →
          (messageOffset s).toNat + messageLength s ≠ s.programSize.toNat) := by
  constructor
  · intro h
    refine ⟨(display_iff hs).mp h.display, fun hsend hprogram hone heq => ?_⟩
    have hall := h.sends hsend hprogram hone heq.le
    rw [(iscNetworkRoutine_refused hsend heq.not_lt).1] at hall
    have hlen : 0 = messageLength s := by simpa [sent] using congrArg List.length hall
    omega
  · rintro ⟨hdisplay, hsend⟩
    refine ⟨(display_iff hs).mpr hdisplay, fun _ => lt_of_mem_exposed_network, ?_, ?_⟩
    · intro h hprogram hone hle
      rw [(iscNetworkRoutine_accepted h (lt_of_le_of_ne hle (hsend h hprogram hone))).2 hprogram]
      simp only [UInt32.ofNat_add, UInt32.ofNat_toNat]
    · intro h hprogram hone hle
      obtain ⟨heffects, hvalue⟩ := @iscNetworkRoutine_refused env s h fun hlt => hle hlt.le
      rw [heffects]
      refine ⟨fun t ht => ?_, rfl⟩
      cases hvalue.symm.trans ht
      rfl

end Routines

/-- The machine with the registers that send the byte at an index. -/
def sendingByte (index : UInt8) (s : Machine) : Machine :=
  { s with reg := fun r => [0x00, 0x0C, 0x00, 0x00, 0x01, 0x00, index, 0x00].getD r.val 0 }

/-- `servicesExpose_iff` for the first byte of a program, which is sent. -/
theorem servicesExpose_firstByte : ∃ s, emulatorSetProgram [0x48, 0x69] (.powerOn fun _ => 0) = .ok s ∧
    ServicesExpose quiet (sendingByte 0 s) ∧
      sent (iscNetworkRoutine quiet (sendingByte 0 s)).effects = [0x48] := by
  obtain ⟨s, hs, hsize, hsent⟩ : ∃ s,
      emulatorSetProgram [0x48, 0x69] (.powerOn fun _ => 0) = .ok s ∧ s.programSize = 2 ∧
        sent (iscNetworkRoutine quiet (sendingByte 0 s)).effects = [0x48] := ⟨_, rfl, rfl, by decide⟩
  have hprogram : (sendingByte 0 s).programSize.toNat = 2 := congrArg UInt32.toNat hsize
  have hlength : messageLength (sendingByte 0 s) = 1 := rfl
  have hoffset : messageOffset (sendingByte 0 s) = 0 := rfl
  refine ⟨s, hs, (servicesExpose_iff quiet (sendingByte 0 s) ?_).mpr ⟨?_, fun _ _ _ => ?_⟩, hsent⟩
  · rw [hprogram]
    decide
  · exact fun h => absurd h (show (0x0C : UInt8) ≠ 0x09 by decide)
  · rw [hprogram, hlength, hoffset]
    decide

/-- The services do not always send what they are asked to: the last byte of a program is not
sent. -/
theorem not_servicesExpose : ¬ ∀ (bytes : List UInt8) (env : Environment) (s : Machine)
    (reg : Fin 8 → UInt8), emulatorSetProgram bytes (.powerOn fun _ => 0) = .ok s →
      ServicesExpose env { s with reg } := by
  intro h
  obtain ⟨s, hs⟩ : ∃ s, emulatorSetProgram [0x48, 0x69] (.powerOn fun _ => 0) = .ok s := ⟨_, rfl⟩
  have hsends := (h _ quiet s (sendingByte 1 s).reg hs).sends
  cases hs
  have := hsends rfl rfl (by decide) (by decide)
  exact absurd this (by decide)

end MicroKernel.X4
