import Mathlib.Data.Fintype.Pi
import MicroKernel.Lib.Store
import MicroKernel.Fs.Header

/-!
# Packets

Sending and receiving a packet through the network device, from `kernel/network/network.c` and
`kernel/network/packet.c`. The device is its registers: a byte written to the output register is
transmitted when the send flag is set, and received bytes stand in the window behind `0x10`.

## Main definitions

* `Nic`: the registers of the network device, and what was transmitted
* `NetworkPacket`, `ntPacketSend`, `ntPacketReceive`: a packet, and its way through the device
* `NetworkPacket.bytes`: the bytes of a packet in the order of its fields
* `ConsumesEach`: successive calls receive a list of packets, each once

## Main results

* `ntPacketSend_sent`: what a packet transmits
* `ntPacketReceive_eq`: the packet a window holds behind a prefix without start byte
* `receive_of_send`: receiving undoes sending
* `consumesEach_iff`: when receiving consumes exactly one packet
-/

namespace MicroKernel.Network

open Store
open Fs (Fault)

/-! ## The network device -/

/-- The registers of the network device, and the bytes it has transmitted. -/
structure Nic where
  registers : UInt32 → UInt8
  sent : List UInt8

/-- Setting the send flag transmits the byte in the output register. -/
def Nic.write (address : UInt32) (byte : UInt8) (nic : Nic) : Nic where
  registers := Function.update nic.registers address byte
  sent := if address = 0x0a ∧ byte = 0x01 then nic.sent ++ [nic.registers 0x0c] else nic.sent

/-- The loop that polls the send flag is left out: it ends after 1024 passes whatever the device
answers, and writes nothing. -/
def ntSend (buffer : List UInt8) (nic : Nic) : Nic :=
  buffer.foldl (fun nic byte =>
    -- Write the buffer, and set the flag to send the byte
    (nic.write 0x0c byte).write 0x0a 0x01) nic

theorem ntSend_sent (buffer : List UInt8) (nic : Nic) :
    (ntSend buffer nic).sent = nic.sent ++ buffer := by
  induction buffer generalizing nic with
  | nil => exact (List.append_nil _).symm
  | cons byte buffer ih =>
    have hbyte : ((nic.write 0x0c byte).write 0x0a 0x01).sent = nic.sent ++ [byte] := by
      simp [Nic.write]
    have hcons : ntSend (byte :: buffer) nic =
        ntSend buffer ((nic.write 0x0c byte).write 0x0a 0x01) := rfl
    rw [hcons, ih, hbyte, List.append_assoc]
    rfl

/-! ## Packets -/

/-- `NETWORK_PACKET_DATA_SIZE` -/
abbrev packetDataSize : ℕ := 16

instance : NeZero packetDataSize := ⟨by decide⟩

/-- `sizeof(struct NetworkPacket)` -/
abbrev packetSize : ℕ := 24

/-- `NETWORK_PACKET_START_BYTE` -/
def packetStartByte : UInt8 := 0x55

/-- `NETWORK_PACKET_STOP_BYTE` -/
def packetStopByte : UInt8 := 0xaa

/-- The two bytes of a device address. -/
structure Address where
  low : UInt8
  high : UInt8
deriving DecidableEq

/-- `struct NetworkPacket` -/
@[ext] structure NetworkPacket where
  start : UInt8
  /-- Destination device address -/
  addrD : Address
  /-- Source device address -/
  addrS : Address
  /-- Current packet in this chain -/
  index : UInt8
  /-- Total number of packets in this chain -/
  total : UInt8
  data : Fin packetDataSize → UInt8
  stop : UInt8
deriving DecidableEq

def ntPacketSend (packet : NetworkPacket) (nic : Nic) : Nic :=
  let nic := ntSend [packet.start] nic
  -- Send the destination and source address
  let nic := ntSend [packet.addrD.low, packet.addrD.high] nic
  let nic := ntSend [packet.addrS.low, packet.addrS.high] nic
  -- Packet indexing
  let nic := ntSend [packet.index] nic
  let nic := ntSend [packet.total] nic
  let nic := ntSend (List.ofFn packet.data) nic
  ntSend [packet.stop] nic

/-- The receive window read by `ntPacketReceive`. -/
abbrev windowSize : ℕ := 80

def Nic.window (nic : Nic) : List UInt8 :=
  (List.range windowSize).map (view 0x10 nic.registers)

/-- `1 + 2 + 2 + 1 + 1 + NETWORK_PACKET_DATA_SIZE` -/
abbrev packetEnd : ℕ := 23

/-- The first of the indices at which a start byte stands with a stop byte where the packet ends. The
stop byte is looked for behind the buffer too. -/
def findPacket (buffer : List UInt8) : List ℕ → Except Fault (Option ℕ)
  | [] => .ok none
  | i :: is =>
    if buffer.getD i 0 = packetStartByte then
      if i + packetEnd < buffer.length then
        if buffer.getD (i + packetEnd) 0 = packetStopByte then .ok (some i)
        else findPacket buffer is
      else .error .outOfBounds
    else findPacket buffer is

/-- The packet at an index of the buffer. -/
def packetAt (buffer : List UInt8) (i : ℕ) : NetworkPacket where
  start := packetStartByte
  addrD := ⟨buffer.getD (i + 1) 0, buffer.getD (i + 2) 0⟩
  addrS := ⟨buffer.getD (i + 3) 0, buffer.getD (i + 4) 0⟩
  index := buffer.getD (i + 5) 0
  total := buffer.getD (i + 6) 0
  data := fun d => buffer.getD (7 + i + d) 0
  stop := packetStopByte

/-- Clear the old packet: the loop goes one byte beyond its end. -/
def Nic.clearOldPacket (i : ℕ) (nic : Nic) : Nic :=
  (List.range (packetSize + 1)).foldl
    (fun nic c => nic.write (0x10 + UInt32.ofNat (i + c)) 0x00) nic

def ntPacketReceive (packet : NetworkPacket) (clearOldPacket : UInt8) (nic : Nic) :
    Except Fault (UInt8 × NetworkPacket × Nic) := do
  match ← findPacket nic.window (List.range windowSize) with
  | none => return (0, packet, nic)
  | some i =>
    return (1, packetAt nic.window i, if clearOldPacket = 1 then nic.clearOldPacket i else nic)

/-! ## Sending -/

/-- The bytes of a packet in the order of its fields. -/
def NetworkPacket.bytes (packet : NetworkPacket) : List UInt8 :=
  packet.start :: packet.addrD.low :: packet.addrD.high :: packet.addrS.low :: packet.addrS.high ::
    packet.index :: packet.total :: (List.ofFn packet.data ++ [packet.stop])

@[simp] theorem NetworkPacket.length_bytes (packet : NetworkPacket) :
    packet.bytes.length = packetSize := by
  simp [NetworkPacket.bytes]

/-- **A packet transmits** its fields in order. -/
theorem ntPacketSend_sent (packet : NetworkPacket) (nic : Nic) :
    (ntPacketSend packet nic).sent = nic.sent ++ packet.bytes := by
  simp only [ntPacketSend, ntSend_sent, NetworkPacket.bytes, List.append_assoc, List.cons_append,
    List.nil_append]

/-! ## Receiving -/

section Receive

variable {buffer before behind : List UInt8} {packet : NetworkPacket} {nic : Nic}

theorem getD_window {k : ℕ} (hk : k < windowSize) :
    nic.window.getD k 0 = view 0x10 nic.registers k := by
  simp [Nic.window, hk]

/-- Indices without a start byte are passed over. -/
theorem findPacket_append {is js : List ℕ} (h : ∀ i ∈ is, buffer.getD i 0 ≠ packetStartByte) :
    findPacket buffer (is ++ js) = findPacket buffer js := by
  induction is with
  | nil => rfl
  | cons i is ih =>
    rw [List.cons_append, findPacket, if_neg (h i (by simp))]
    exact ih fun j hj => h j (List.mem_cons_of_mem i hj)

/-- A buffer without a start byte holds no packet. -/
theorem findPacket_eq_none {is : List ℕ} (h : ∀ i ∈ is, buffer.getD i 0 ≠ packetStartByte) :
    findPacket buffer is = .ok none := by
  have happend : findPacket buffer (is ++ []) = findPacket buffer [] := findPacket_append h
  rwa [List.append_nil] at happend

/-- The bytes of a packet behind a prefix. -/
theorem getD_append_bytes (before behind : List UInt8) (packet : NetworkPacket) {k : ℕ}
    (hk : k < packetSize) :
    (before ++ packet.bytes ++ behind).getD (before.length + k) 0 = packet.bytes.getD k 0 := by
  have hlen := packet.length_bytes
  rw [List.append_assoc, List.getD_eq_getElem?_getD,
    List.getElem?_append_right (Nat.le_add_right _ _), Nat.add_sub_cancel_left,
    List.getElem?_append_left (by omega), List.getD_eq_getElem?_getD]

/-- A packet with its start and its stop byte is the one read at its place. -/
theorem packetAt_append (before behind : List UInt8) (hstart : packet.start = packetStartByte)
    (hstop : packet.stop = packetStopByte) :
    packetAt (before ++ packet.bytes ++ behind) before.length = packet := by
  have hbyte := fun {k} hk => getD_append_bytes before behind packet (k := k) hk
  rw [packetAt, hbyte (by decide), hbyte (by decide), hbyte (by decide), hbyte (by decide),
    hbyte (by decide), hbyte (by decide)]
  refine NetworkPacket.ext hstart.symm rfl rfl rfl rfl ?_ hstop.symm
  funext d
  have hd : 7 + (d : ℕ) < 24 := by have : (d : ℕ) < 16 := d.isLt; omega
  show (before ++ packet.bytes ++ behind).getD (7 + before.length + d) 0 = packet.data d
  rw [show 7 + before.length + (d : ℕ) = before.length + (7 + d) by omega, hbyte hd]
  simp only [NetworkPacket.bytes, Nat.add_comm 7, List.getD_cons_succ]
  rw [List.getD_eq_getElem?_getD, List.getElem?_append_left (by rw [List.length_ofFn]; exact d.isLt),
    List.getElem?_eq_getElem (by rw [List.length_ofFn]; exact d.isLt), List.getElem_ofFn]
  rfl

/-- The first packet of a buffer stands behind a prefix without start byte. -/
theorem findPacket_of_append (hbefore : packetStartByte ∉ before)
    (hstart : packet.start = packetStartByte) (hstop : packet.stop = packetStopByte)
    (hlen : before.length + packetSize ≤ windowSize) :
    findPacket (before ++ packet.bytes ++ behind) (List.range windowSize) =
      .ok (some before.length) := by
  have hrange : List.range windowSize = List.range before.length ++ before.length ::
      (List.range (windowSize - before.length - 1)).map (before.length + 1 + ·) := by
    have hsplit : windowSize = before.length + (windowSize - before.length - 1 + 1) := by
      have : packetSize = 24 := rfl
      omega
    rw [hsplit, List.range_add, List.range_succ_eq_map]
    simp [Function.comp_def, Nat.add_assoc, Nat.add_comm 1]
  rw [hrange, findPacket_append]
  · have hbyte := fun {k} hk => getD_append_bytes before behind packet (k := k) hk
    have hfirst : (before ++ packet.bytes ++ behind).getD before.length 0 = packetStartByte :=
      (hbyte (k := 0) (by decide)).trans hstart
    have hlast : (before ++ packet.bytes ++ behind).getD (before.length + packetEnd) 0 =
        packetStopByte := by
      rw [hbyte (by decide)]
      simp [NetworkPacket.bytes, hstop]
    rw [findPacket, if_pos hfirst, if_pos, if_pos hlast]
    simp only [List.length_append, packet.length_bytes]
    have : packetEnd + 1 = packetSize := rfl
    omega
  · intro i hi
    rw [List.mem_range] at hi
    rw [List.append_assoc, List.getD_eq_getElem?_getD, List.getElem?_append_left hi,
      List.getElem?_eq_getElem hi]
    exact fun h => hbefore (h ▸ List.getElem_mem hi)

/-- **The packet a window holds** behind a prefix without start byte is received. -/
theorem ntPacketReceive_eq (old : NetworkPacket) (clearOldPacket : UInt8)
    (hwindow : nic.window = before ++ packet.bytes ++ behind) (hbefore : packetStartByte ∉ before)
    (hstart : packet.start = packetStartByte) (hstop : packet.stop = packetStopByte) :
    ntPacketReceive old clearOldPacket nic = .ok (1, packet,
      if clearOldPacket = 1 then nic.clearOldPacket before.length else nic) := by
  have hlen := congrArg List.length hwindow
  simp only [Nic.window, List.length_map, List.length_range, List.length_append,
    packet.length_bytes] at hlen
  rw [ntPacketReceive, hwindow, findPacket_of_append hbefore hstart hstop (by omega)]
  show Except.ok (1, packetAt _ before.length, _) = _
  rw [packetAt_append before behind hstart hstop]

/-- **Receiving undoes sending**: for every packet with its start and its stop byte, when the window
holds what was transmitted behind bytes without start byte: at most 56, then, for the window has 80. -/
theorem receive_of_send {transmitted : List UInt8} {sender : Nic} (old : NetworkPacket)
    (clearOldPacket : UInt8) (hstart : packet.start = packetStartByte)
    (hstop : packet.stop = packetStopByte)
    (hsent : (ntPacketSend packet sender).sent = sender.sent ++ transmitted)
    (hwindow : nic.window = before ++ transmitted ++ behind)
    (hbefore : packetStartByte ∉ before) :
    ∃ nic', ntPacketReceive old clearOldPacket nic = .ok (1, packet, nic') := by
  rw [ntPacketSend_sent] at hsent
  obtain rfl := List.append_cancel_left hsent
  exact ⟨_, ntPacketReceive_eq old clearOldPacket hwindow hbefore hstart hstop⟩

end Receive

/-- The device whose window starts with some bytes, with zeros behind them. -/
def Nic.ofWindow (bytes : List UInt8) : Nic where
  registers := fun address => bytes.getD (address.toNat - 0x10) 0
  sent := []

/-- A packet whose data are start bytes. -/
def startBytesPacket : NetworkPacket where
  start := packetStartByte
  addrD := ⟨1, 2⟩
  addrS := ⟨0x55, 0xaa⟩
  index := 1
  total := 1
  data := fun _ => packetStartByte
  stop := packetStopByte

/-- `receive_of_send` for a packet of start bytes behind two other bytes. -/
theorem receive_of_send_startBytes :
    ∃ nic', ntPacketReceive startBytesPacket 1 (.ofWindow ([1, 0xaa] ++ startBytesPacket.bytes)) =
      .ok (1, startBytesPacket, nic') :=
  receive_of_send startBytesPacket 1 rfl rfl
    (ntPacketSend_sent startBytesPacket (.ofWindow []))
    (show _ = [1, 0xaa] ++ startBytesPacket.bytes ++ List.replicate 54 0 by decide +kernel)
    (by decide)

/-! ## Receiving several packets -/

/-- A packet with its start and its stop byte. -/
structure NetworkPacket.WellFormed (packet : NetworkPacket) : Prop where
  start_eq : packet.start = packetStartByte
  stop_eq : packet.stop = packetStopByte

/-- Successive calls return each packet of a list that starts at an offset of the window, once and in
order, and then 0; none of them changes a byte of the packets behind the one it returns. -/
def ConsumesEach (old : NetworkPacket) : List NetworkPacket → ℕ → Nic → Prop
  | [], _, nic => ntPacketReceive old 1 nic = .ok (0, old, nic)
  | packet :: packets, offset, nic => ∃ nic',
      ntPacketReceive old 1 nic = .ok (1, packet, nic') ∧
        (∀ k, offset + packetSize ≤ k → k < offset + packetSize * (packets.length + 1) →
          view 0x10 nic'.registers k = view 0x10 nic.registers k) ∧
        ConsumesEach packet packets (offset + packetSize) nic'

section Several

variable {packet : NetworkPacket} {packets : List NetworkPacket} {nic : Nic}

/-- Clearing a packet clears the byte behind it too. -/
theorem view_clearOldPacket {i k : ℕ} (hi : i + packetSize < windowSize) (hk : k < windowSize) :
    view 0x10 (nic.clearOldPacket i).registers k =
      if i ≤ k ∧ k ≤ i + packetSize then 0 else view 0x10 nic.registers k := by
  have hfold : ∀ l : List ℕ, ∀ nic : Nic, (l.foldl
      (fun nic c => nic.write (0x10 + UInt32.ofNat (i + c)) 0x00) nic).registers =
        writeEach (fun c => 0x10 + UInt32.ofNat i + UInt32.ofNat c) (fun _ => 0) l
          nic.registers := by
    intro l
    induction l with
    | nil => exact fun nic => rfl
    | cons c l ih =>
      intro nic
      rw [List.foldl_cons, ih, writeEach_cons]
      simp only [Nic.write, UInt32.ofNat_add, UInt32.add_assoc]
  have hsize : windowSize = 80 := rfl
  have hoff : (UInt32.ofNat i).toNat = i := UInt32.toNat_ofNat_of_lt' (by
    have : UInt32.size = 2 ^ 32 := rfl
    omega)
  rw [Nic.clearOldPacket, hfold, view_writeEach_range _ (by rw [hoff]; omega) (by omega), hoff]
  exact if_congr (by omega) rfl rfl

/-- A window of zeros holds no packet. -/
theorem ntPacketReceive_of_zeros (old : NetworkPacket) (clearOldPacket : UInt8)
    (hzero : ∀ k < windowSize, view 0x10 nic.registers k = 0) :
    ntPacketReceive old clearOldPacket nic = .ok (0, old, nic) := by
  rw [ntPacketReceive, findPacket_eq_none fun i hi => ?_]
  · rfl
  · rw [List.mem_range] at hi
    rw [getD_window hi, hzero i hi]
    decide

/-- The bytes of a window of packets, behind the first. -/
theorem view_of_window {rest : List UInt8} (hwindow : nic.window = packet.bytes ++ rest) {k : ℕ}
    (hk : packetSize + k < windowSize) :
    view 0x10 nic.registers (packetSize + k) = rest.getD k 0 := by
  rw [← getD_window hk, hwindow, List.getD_eq_getElem?_getD, List.getElem?_append_right (by simp),
    packet.length_bytes, Nat.add_sub_cancel_left, List.getD_eq_getElem?_getD]

/-- **Receiving consumes exactly one packet** when it is the only one: for every list of packets at
the start of the window with zeros behind them. -/
theorem consumesEach_iff (old : NetworkPacket) (hne : packets ≠ [])
    (hwf : ∀ packet ∈ packets, packet.WellFormed)
    (hwindow : nic.window = packets.flatMap NetworkPacket.bytes ++
      List.replicate (windowSize - packetSize * packets.length) 0) :
    ConsumesEach old packets 0 nic ↔ packets.length = 1 := by
  obtain ⟨packet, packets, rfl⟩ := List.exists_cons_of_ne_nil hne
  obtain ⟨hstart, hstop⟩ := hwf packet (by simp)
  rw [List.flatMap_cons, List.append_assoc] at hwindow
  have hreceive := ntPacketReceive_eq old 1 (show nic.window = [] ++ packet.bytes ++ _ from hwindow)
    List.not_mem_nil hstart hstop
  rw [if_pos rfl, List.length_nil] at hreceive
  cases packets with
  | nil =>
    -- the window is cleared with the byte behind the packet, which is zero already
    refine iff_of_true ⟨_, hreceive, fun k h₁ h₂ => ?_, ntPacketReceive_of_zeros packet 1 ?_⟩ rfl
    · simp only [List.length_nil] at h₂
      omega
    · intro k hk
      rw [view_clearOldPacket (by decide) hk]
      split
      · rfl
      · next hout =>
        have hle : packetSize ≤ k := by
          by_contra hlt
          exact hout ⟨Nat.zero_le k, by omega⟩
        obtain ⟨j, rfl⟩ := Nat.exists_eq_add_of_le hle
        rw [view_of_window hwindow hk, List.flatMap_nil, List.nil_append,
          List.getD_eq_getElem?_getD, List.getElem?_replicate]
        split <;> rfl
  | cons next packets =>
    refine iff_of_false ?_ (by simp)
    rintro ⟨nic', hnic', hbehind, -⟩
    rw [hreceive] at hnic'
    obtain rfl := (Prod.mk.inj (Prod.mk.inj (Except.ok.inj hnic')).2).2
    -- the start byte of the next packet is cleared
    have hkept := hbehind packetSize (Nat.zero_add _).le (by
      rw [List.length_cons, Nat.zero_add]
      show 24 < 24 * (packets.length + 1 + 1)
      omega)
    have hfirst := view_of_window hwindow (show packetSize + 0 < windowSize by decide)
    rw [view_clearOldPacket (by decide) (by decide), if_pos ⟨Nat.zero_le _, (Nat.zero_add _).ge⟩]
      at hkept
    rw [Nat.add_zero, ← hkept, List.flatMap_cons, NetworkPacket.bytes] at hfirst
    have hnext : next.start = packetStartByte := (hwf next (by simp)).start_eq
    have hzero : (0 : UInt8) = packetStartByte := hfirst.trans hnext
    exact absurd hzero (by decide)

end Several

theorem wellFormed_startBytesPacket : startBytesPacket.WellFormed := ⟨rfl, rfl⟩

/-- `consumesEach_iff` for one packet. -/
theorem consumesEach_startBytes :
    ConsumesEach startBytesPacket [startBytesPacket] 0 (.ofWindow startBytesPacket.bytes) :=
  (consumesEach_iff startBytesPacket (List.cons_ne_nil _ _)
    (by simpa using wellFormed_startBytesPacket) (by decide +kernel)).mpr rfl

/-- Receiving does not consume exactly one packet of two that stand back to back. -/
theorem not_consumesEach : ¬ ∀ (old : NetworkPacket) (packets : List NetworkPacket) (nic : Nic),
    1 ≤ packets.length → packets.length ≤ 3 → (∀ packet ∈ packets, packet.WellFormed) →
      nic.window = packets.flatMap NetworkPacket.bytes ++
        List.replicate (windowSize - packetSize * packets.length) 0 →
          ConsumesEach old packets 0 nic := by
  intro h
  obtain ⟨nic, hreceive, hkept, -⟩ := h startBytesPacket [startBytesPacket, startBytesPacket]
    (.ofWindow (startBytesPacket.bytes ++ startBytesPacket.bytes)) (by decide) (by decide)
    (by simpa using wellFormed_startBytesPacket) (by decide +kernel)
  have hstart := hkept packetSize (by decide) (by decide)
  have hcleared : (ntPacketReceive startBytesPacket 1
      (.ofWindow (startBytesPacket.bytes ++ startBytesPacket.bytes))).map
        (fun r => view 0x10 r.2.2.registers packetSize) = .ok 0 := by decide +kernel
  rw [hreceive] at hcleared
  have hzero : view 0x10 nic.registers packetSize = 0 := Except.ok.inj hcleared
  rw [hzero] at hstart
  exact absurd hstart (by decide +kernel)

end MicroKernel.Network
