import MicroKernel.Lib.Transition
import MicroKernel.Network.Router

/-!
# Registrations

Where a running router sends a packet, in terms of the control packets it has handled. A client
connection request records its source at the port it came from, and no other port forgets it; a packet
goes to the first port that has its address.

## Main definitions

* `Handled`: a run of the router from power-on, with the packets handled, newest first
* `registered`: what the last control packet of a port made of its entry
* `latest`: the port of the most recent request of an address
* `Unmoved`: no request of an address came while another port had it

## Main results

* `entry_settled`: the table holds the last registration of each port
* `sends_registered`: where packets of an address are sent, after every run
-/

namespace MicroKernel.Network

open Transition

/-- A step of a router, with the packets handled before it and behind it, newest first. -/
def handleStep (event : RouterEvent) (run : List (Port × NetworkPacket) × Process) :
    Option (List (Port × NetworkPacket) × Process) :=
  (run.2.step event).map fun process => ((run.2.handles event).toList ++ run.1, process)

/-- The packets that a run from power-on has handled, newest first, and the router after it. -/
def Handled (check : ℕ → Port → Bool) (handled : List (Port × NetworkPacket)) (process : Process) :
    Prop :=
  Reachable handleStep (fun _ _ => True) ([], .powerOn check) (handled, process)

/-- What the last control packet that retyped or re-addressed a port made of its entry. -/
def registered : List (Port × NetworkPacket) → Port → Entry
  | [] => fun _ => .unknown
  | (s, receive) :: earlier =>
    Function.update (registered earlier) s (receive.entry?.getD (registered earlier s))

/-- The port on which the most recent client connection request of an address was handled, unless a
later control packet retyped or re-addressed that port. -/
def latest (x : Address) : List (Port × NetworkPacket) → Option Port
  | [] => none
  | (s, receive) :: earlier =>
    match receive.entry? with
    | none => latest x earlier
    | some entry =>
      if entry = .node x then some s
      else if latest x earlier = some s then none
      else latest x earlier

/-- No client connection request of the address was handled while another port had it. -/
def Unmoved (x : Address) : List (Port × NetworkPacket) → Prop
  | [] => True
  | (s, receive) :: earlier =>
    (receive.entry? = some (.node x) → ∀ c ≠ s, registered earlier c ≠ .node x) ∧ Unmoved x earlier

section Runs

variable {check : ℕ → Port → Bool} {handled : List (Port × NetworkPacket)} {process : Process}
  {x : Address} {c d : Port}

/-- **The table holds the last registration** of each port. -/
theorem entry_settled (h : Handled check handled process) :
    process.settled.entry = registered handled := by
  refine Reachable.invariant (I := fun run => run.2.settled.entry = registered run.1)
    (funext (entry_powerOn check)) ?_ h
  intro event run run' ih _ hstep
  obtain ⟨process', hprocess, rfl⟩ := Option.map_eq_some_iff.mp hstep
  show process'.settled.entry = _
  rw [Process.entry_step hprocess]
  cases run.2.handles event with
  | none => exact ih
  | some packet =>
    rw [ih]
    rfl

/-- The port of the most recent request has the address still. -/
theorem registered_of_latest (h : latest x handled = some d) : registered handled d = .node x := by
  -- the last packet is the first of the list
  induction handled with
  | nil => cases h
  | cons packet earlier ih =>
    obtain ⟨s, receive⟩ := packet
    rw [latest] at h
    rw [registered]
    cases hentry : receive.entry? with
    | none =>
      rw [hentry] at h
      rw [Option.getD_none, Function.update_eq_self]
      exact ih h
    | some entry =>
      rw [hentry] at h
      rw [Option.getD_some]
      dsimp only at h
      split at h
      · next hnode =>
        obtain rfl := Option.some.inj h
        rw [Function.update_self, hnode]
      · split at h
        · cases h
        · next hs =>
          have hne : d ≠ s := by
            rintro rfl
            exact hs h
          rw [Function.update_of_ne hne]
          exact ih h

/-- An address that no request moved is had by one port at most. -/
theorem eq_of_unmoved (h : Unmoved x handled) (hc : registered handled c = .node x)
    (hd : registered handled d = .node x) : c = d := by
  induction handled with
  | nil => cases hc
  | cons packet earlier ih =>
    obtain ⟨s, receive⟩ := packet
    obtain ⟨hreq, hearlier⟩ := h
    rw [registered] at hc hd
    cases hentry : receive.entry? with
    | none =>
      rw [hentry, Option.getD_none, Function.update_eq_self] at hc hd
      exact ih hearlier hc hd
    | some entry =>
      rw [hentry, Option.getD_some] at hc hd
      -- a port other than `s` that has the address had it before: the packet is no request for it
      have hbefore : ∀ p ≠ s, Function.update (registered earlier) s entry p = .node x →
          registered earlier p = .node x ∧ entry ≠ .node x := by
        intro p hp h
        rw [Function.update_of_ne hp] at h
        refine ⟨h, ?_⟩
        rintro rfl
        exact hreq hentry p hp h
      rcases eq_or_ne c s with rfl | hcs
      · rcases eq_or_ne d c with rfl | hdc
        · rfl
        · rw [Function.update_self] at hc
          exact absurd hc (hbefore d hdc hd).2
      · rcases eq_or_ne d s with rfl | hds
        · rw [Function.update_self] at hd
          exact absurd hd (hbefore c hcs hc).2
        · exact ih hearlier (hbefore c hcs hc).1 (hbefore d hds hd).1

/-- The first port whose last registration is an address is sent the packets to it. -/
theorem sends_of_registered (h : Handled check handled process) (hx : x ≠ routerAddress)
    (hd : registered handled d = .node x) (hfirst : ∀ c < d, registered handled c ≠ .node x)
    {s : Port} {receive : NetworkPacket} (hreceive : receive.addrD = x) (hblank : ¬ receive.IsBlank) :
    sends (receivePacket s receive process.settled) = [(d, receive)] := by
  subst hreceive
  refine sends_receivePacket_of_locate hx hblank (RoutingTable.locate_eq_some_iff.mpr ⟨?_, ?_⟩)
  · rw [RoutingTable.carries_iff, entry_settled h]
    exact hd
  · intro c hc
    rw [RoutingTable.carries_iff, entry_settled h]
    exact hfirst c hc

/-- **Where packets of an address are sent**, after every run: to the first port whose last
registration is a request of the address. This is the port of the most recent request exactly when no
port before it has the address too, and one port at most has it when no request moved it. -/
theorem sends_registered (h : Handled check handled process) (hx : x ≠ routerAddress) :
    (∀ d, registered handled d = .node x → (∀ c < d, registered handled c ≠ .node x) →
      ∀ s receive, receive.addrD = x → ¬ receive.IsBlank →
        sends (receivePacket s receive process.settled) = [(d, receive)]) ∧
    (∀ d, latest x handled = some d →
      ((∀ s receive, receive.addrD = x → ¬ receive.IsBlank →
          sends (receivePacket s receive process.settled) = [(d, receive)]) ↔
        ∀ c < d, registered handled c ≠ .node x)) ∧
    (Unmoved x handled → ∀ c d, process.settled.Carries x c → process.settled.Carries x d →
      c = d) := by
  refine ⟨fun d hd hfirst s receive => sends_of_registered h hx hd hfirst, fun d hlatest =>
    ⟨fun hsends c hcd hc => ?_, fun hfirst s receive =>
      sends_of_registered h hx (registered_of_latest hlatest) hfirst⟩, fun hunmoved c d hc hd => ?_⟩
  · -- a packet to the address goes to the first port that has it, which is not `d`
    obtain ⟨b, hb, hmin⟩ := wellFounded_lt.has_min {b : Port | registered handled b = .node x} ⟨c, hc⟩
    have hbd : b < d := lt_of_not_ge fun hdb => hmin c hc (hcd.trans_le hdb)
    have hblank : ¬ NetworkPacket.IsBlank { startBytesPacket with addrD := x } := fun hblank =>
      absurd hblank.2 (show (⟨0x55, 0xaa⟩ : Address) ≠ noAddress by decide)
    have hfirst : sends (receivePacket d { startBytesPacket with addrD := x } process.settled) =
        [(b, { startBytesPacket with addrD := x })] :=
      sends_of_registered h hx hb (fun a ha hax => hmin a hax ha) rfl hblank
    rw [hsends d _ rfl hblank] at hfirst
    exact hbd.ne' (Prod.mk.inj (List.cons.inj hfirst).1).1
  · rw [RoutingTable.carries_iff, entry_settled h] at hc hd
    exact eq_of_unmoved hunmoved hc hd

end Runs

/-! ## A client that moves -/

/-- A client connection request. -/
def requestOf (x : Address) : NetworkPacket :=
  { packetClientHandshake with addrD := routerAddress, addrS := x }

/-- A router with a device on every port: it is initiated, and then the same client asks for a
connection on port 0 and on port 1. -/
def moved : Option (List (Port × NetworkPacket) × Process) :=
  run handleStep (List.replicate 55 .act ++
      [.attempt fun _ => true, .receive (some (requestOf ⟨1, 2⟩))] ++ List.replicate 5 .act ++
      [.attempt fun _ => true, .receive (some (requestOf ⟨1, 2⟩))] ++ List.replicate 5 .act)
    ([], .powerOn fun _ _ => true)

theorem isSome_moved : moved.isSome := by decide +kernel

theorem handled_moved :
    Handled (fun _ _ => true) (moved.get isSome_moved).1 (moved.get isSome_moved).2 :=
  Reachable.start.run (.of_forall (fun _ _ => trivial) _ _) (Option.some_get isSome_moved).symm

/-- `sends_registered` after the client has moved. -/
theorem sends_registered_moved :
    (∀ d, registered (moved.get isSome_moved).1 d = .node ⟨1, 2⟩ →
      (∀ c < d, registered (moved.get isSome_moved).1 c ≠ .node ⟨1, 2⟩) →
      ∀ s receive, receive.addrD = ⟨1, 2⟩ → ¬ receive.IsBlank →
        sends (receivePacket s receive (moved.get isSome_moved).2.settled) = [(d, receive)]) ∧
    (∀ d, latest ⟨1, 2⟩ (moved.get isSome_moved).1 = some d →
      ((∀ s receive, receive.addrD = ⟨1, 2⟩ → ¬ receive.IsBlank →
          sends (receivePacket s receive (moved.get isSome_moved).2.settled) = [(d, receive)]) ↔
        ∀ c < d, registered (moved.get isSome_moved).1 c ≠ .node ⟨1, 2⟩)) ∧
    (Unmoved ⟨1, 2⟩ (moved.get isSome_moved).1 →
      ∀ c d, (moved.get isSome_moved).2.settled.Carries ⟨1, 2⟩ c →
        (moved.get isSome_moved).2.settled.Carries ⟨1, 2⟩ d → c = d) :=
  sends_registered handled_moved (by decide)

/-- Packets do not follow the most recent request, and two ports can carry an address. -/
theorem not_sends_latest :
    (¬ ∀ (check : ℕ → Port → Bool) (handled : List (Port × NetworkPacket)) (process : Process)
      (x : Address) (d : Port), Handled check handled process → x ≠ routerAddress →
        latest x handled = some d → ∀ s receive, receive.addrD = x → ¬ receive.IsBlank →
          sends (receivePacket s receive process.settled) = [(d, receive)]) ∧
    (¬ ∀ (check : ℕ → Port → Bool) (handled : List (Port × NetworkPacket)) (process : Process)
      (x : Address), Handled check handled process →
        ∀ c d, process.settled.Carries x c → process.settled.Carries x d → c = d) := by
  refine ⟨fun h => ?_, fun h => ?_⟩
  · have hsends := congrArg (List.map Prod.fst) (h _ _ _ ⟨1, 2⟩ 1 handled_moved (by decide)
      (by decide +kernel) 2 { startBytesPacket with addrD := ⟨1, 2⟩ } rfl (by decide +kernel))
    exact absurd hsends (by decide +kernel)
  · have hports := h _ _ _ ⟨1, 2⟩ handled_moved 0 1 (by decide +kernel) (by decide +kernel)
    exact absurd hports (by decide)

end MicroKernel.Network
