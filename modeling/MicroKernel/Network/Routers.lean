import MicroKernel.Lib.Transition
import MicroKernel.Network.Router

/-!
# Linked routers

Several routers that run side by side, with links between their ports. A link hands each packet that
is sent on it once to the router at its other end, when that router looks for a packet on the port; the
packets under way are handed in any order. Nodes send packets at any time. One packet is followed
through the network: its copies are marked, and it is recorded which routers handle one and where one
leaves the network.

## Main definitions

* `Topology`: the entries of the routers and the links between their ports
* `Routers`, `Topology.step`: the running routers with the packets under way, and their steps
* `Fair`: every router keeps running, and every link hands over its packets
* `Topology.Standing`: every router has its entries, and nothing under way changes them

## Main results

* `Topology.Standing.step`: the routers keep their entries
* `Fair.reaches`: a router comes to each of its pending actions
-/

namespace MicroKernel.Network

open Transition

variable {V : Type*}

/-- The tables of the routers, and the router and port at the other end of each linked port. -/
structure Topology (V : Type*) where
  table : V → RoutingTable
  link : V → Port → Option (V × Port)

/-- A packet under way to a port of a router, which may be a copy of the packet that is followed. -/
structure Message (V : Type*) where
  router : V
  port : Port
  packet : NetworkPacket
  copy : Bool
deriving DecidableEq

/-- The running routers. With the packets under way, it says which routers have still to send copies,
which have handled one, the last first, and where copies left the network. -/
structure Routers (V : Type*) where
  process : V → Process
  flight : List (Message V)
  copying : V → Bool
  handled : List V
  delivered : List (V × Port × NetworkPacket)

/-- A step of a router, with or without a packet for it, or a packet from a node. -/
inductive NetworkEvent (V : Type*)
  | act (v : V)
  | attempt (v : V) (present : Port → Bool)
  | poll (v : V)
  | hand (message : Message V)
  | inject (message : Message V)

/-- The router that takes a step. -/
def NetworkEvent.router : NetworkEvent V → Option V
  | .act v | .attempt v _ | .poll v => some v
  | .hand message => some message.router
  | .inject _ => none

/-- A packet that makes no entry for the port it arrives on, or the one that stands there. -/
def RoutingTable.Keeps (table : RoutingTable) (d : Port) (packet : NetworkPacket) : Prop :=
  packet.entry? = none ∨ packet.entry? = some (table.entry d)

instance (table : RoutingTable) (d : Port) (packet : NetworkPacket) :
    Decidable (table.Keeps d packet) := inferInstanceAs (Decidable (_ ∨ _))

section Steps

variable (net : Topology V)

/-- A packet that a router sends goes to the router at the other end of the link; on a port without a
link it leaves the network. -/
def Topology.emit (v : V) (sent : Option (Port × NetworkPacket)) (s : Routers V) : Routers V :=
  match sent with
  | none => s
  | some (d, packet) =>
    match net.link v d with
    | some (w, e) => { s with flight := s.flight ++ [⟨w, e, packet, s.copying v⟩] }
    | none =>
      { s with delivered := if s.copying v then s.delivered ++ [(v, d, packet)] else s.delivered }

/-- What a node sends: any other packet, but no control packet that makes another entry. -/
def Topology.Injects (message : Message V) : Prop :=
  message.copy = false ∧ (net.table message.router).deviceType message.port = clientTypeNode ∧
    (net.table message.router).Keeps message.port message.packet

instance (message : Message V) : Decidable (net.Injects message) :=
  inferInstanceAs (Decidable (_ ∧ _ ∧ _))

/-- A router goes on. -/
def Routers.update [DecidableEq V] (s : Routers V) (v : V) (process : Process) : Routers V :=
  { s with process := Function.update s.process v process }

/-- A step of the network. -/
def Topology.step [DecidableEq V] : NetworkEvent V → Routers V → Option (Routers V)
  | .act v, s => ((s.process v).step .act).map fun process =>
    net.emit v ((s.process v).sent .act) (s.update v process)
  | .attempt v present, s => ((s.process v).step (.attempt present)).map fun process =>
    { s.update v process with copying := Function.update s.copying v false }
  | .poll v, s => ((s.process v).step (.receive none)).map fun process =>
    { s.update v process with copying := Function.update s.copying v false }
  | .hand message, s =>
    if message ∈ s.flight ∧
        (s.process message.router).handles (.receive (some message.packet)) =
          some (message.port, message.packet) then
      ((s.process message.router).step (.receive (some message.packet))).map fun process =>
        { s.update message.router process with
          flight := s.flight.erase message
          copying := Function.update s.copying message.router message.copy
          handled := if message.copy then message.router :: s.handled else s.handled }
    else none
  | .inject message, s =>
    if net.Injects message then some { s with flight := message :: s.flight } else none

end Steps

/-- Every router keeps running, and every link hands over the packets that are under way on it. -/
structure Fair (labels : ℕ → NetworkEvent V) (states : ℕ → Routers V) : Prop where
  runs : ∀ n v, ∃ k ≥ n, (labels k).router = some v
  hands : ∀ n, ∀ message ∈ (states n).flight, ∃ k ≥ n, labels k = .hand message

/-! ## The entries of the routers -/

/-- A table with the types and addresses of another, in which every port of a known type is active. -/
structure RoutingTable.Agrees (table table' : RoutingTable) : Prop where
  type_eq : table'.deviceType = table.deviceType
  low_eq : table'.addressLow = table.addressLow
  high_eq : table'.addressHigh = table.addressHigh
  active : ∀ d, table.deviceType d ≠ clientTypeUnknown → table'.deviceState d ≠ 0

/-- An action that keeps the entries of a table; to another router it sends only packets that do. -/
def RouterAction.Keeps (table : RoutingTable) : RouterAction → Prop
  | .clear _ => True
  | .send d packet => table.entry d = .router → table.Keeps d packet
  | .setState _ byte => byte ≠ 0
  | .setType d byte => byte = table.deviceType d
  | .setAddressLow d byte => byte = table.addressLow d
  | .setAddressHigh d byte => byte = table.addressHigh d

/-- Every router has its entries and keeps them by its pending actions, and so do the packets under
way. -/
structure Topology.Standing (net : Topology V) (s : Routers V) : Prop where
  agrees : ∀ v, (net.table v).Agrees (s.process v).router.routingTable
  actions : ∀ v, ∀ action ∈ (s.process v).actions, action.Keeps (net.table v)
  flight : ∀ message ∈ s.flight, (net.table message.router).Keeps message.port message.packet

section Table

variable {table table' : RoutingTable} {action : RouterAction} {d : Port} {packet : NetworkPacket}

theorem RoutingTable.Agrees.entry_eq (h : table.Agrees table') : table'.entry = table.entry := by
  funext d
  rw [RoutingTable.entry, RoutingTable.entry, RoutingTable.address, RoutingTable.address, h.type_eq,
    h.low_eq, h.high_eq]

theorem RoutingTable.Agrees.act (h : table.Agrees table') (haction : action.Keeps table) :
    table.Agrees (table'.act action) := by
  obtain ⟨htype, hlow, hhigh, hactive⟩ := h
  cases action with
  | clear | send => exact ⟨htype, hlow, hhigh, hactive⟩
  | setState d byte =>
    refine ⟨htype, hlow, hhigh, fun c hc => ?_⟩
    show Function.update table'.deviceState d byte c ≠ 0
    rcases eq_or_ne c d with rfl | hne
    · rw [Function.update_self]
      exact haction
    · rw [Function.update_of_ne hne]
      exact hactive c hc
  | setType d byte =>
    refine ⟨?_, hlow, hhigh, hactive⟩
    obtain rfl : byte = table.deviceType d := haction
    exact (congrArg (Function.update · d _) htype).trans (Function.update_eq_self d _)
  | setAddressLow d byte =>
    refine ⟨htype, ?_, hhigh, hactive⟩
    obtain rfl : byte = table.addressLow d := haction
    exact (congrArg (Function.update · d _) hlow).trans (Function.update_eq_self d _)
  | setAddressHigh d byte =>
    refine ⟨htype, hlow, ?_, hactive⟩
    obtain rfl : byte = table.addressHigh d := haction
    exact (congrArg (Function.update · d _) hhigh).trans (Function.update_eq_self d _)

/-- A reconnection attempt keeps the entries. -/
theorem keeps_reconnect (table : RoutingTable) (present : Port → Bool) (s : Port) (router : Router) :
    ∀ action ∈ (reconnect present s router).2, action.Keeps table := by
  intro action haction
  obtain ⟨d, rfl | rfl | rfl⟩ := mem_reconnect haction
  · exact show (1 : UInt8) ≠ 0 by decide
  · trivial
  · intro hd
    refine .inr ?_
    rw [hd]
    rfl

/-- A client packet makes no entry. -/
theorem NetworkPacket.entry?_of_ne (h : packet.addrD ≠ routerAddress) : packet.entry? = none :=
  if_neg h

/-- What a router does with a packet keeps the entries if the packet does. -/
theorem keeps_receivePacket (hpacket : table.Keeps d packet) :
    ∀ action ∈ receivePacket d packet table', action.Keeps table := by
  intro action haction
  obtain rfl | ⟨hd, hcontrol⟩ | ⟨hd, hforward⟩ := mem_receivePacket haction
  · trivial
  · obtain ⟨hclient, h⟩ | ⟨hclient, hrouter, hdata, h⟩ | ⟨hclient, -, rfl⟩ := mem_control hcontrol
    · -- the request of the node that is registered on the port
      have hentry : packet.entry? = some (.node packet.addrS) := by
        rw [NetworkPacket.entry?, if_pos hd, if_pos hclient]
      have hnode : table.entry d = .node packet.addrS := by
        rcases hpacket with hnone | hsome
        · rw [hentry] at hnone
          cases hnone
        · exact (Option.some.inj (hentry.symm.trans hsome)).symm
      obtain ⟨htype, haddress⟩ := RoutingTable.carries_iff.mpr hnode
      obtain rfl | rfl | rfl | rfl := h
      · intro hrouter
        rw [hnode] at hrouter
        cases hrouter
      · exact htype.symm
      · exact congrArg Address.low haddress
      · exact congrArg Address.high haddress
    · -- the answer of the router that is registered on the port
      have hentry : packet.entry? = some .router := by
        rw [NetworkPacket.entry?, if_pos hd, if_neg hclient, if_pos ⟨hrouter, hdata⟩]
      have hport : table.entry d = .router := by
        rcases hpacket with hnone | hsome
        · rw [hentry] at hnone
          cases hnone
        · exact (Option.some.inj (hentry.symm.trans hsome)).symm
      obtain rfl | rfl := h
      · show clientTypeRouter = table.deviceType d
        rw [RoutingTable.entry] at hport
        split at hport
        · cases hport
        · split at hport
          · next htype => exact htype.symm
          · cases hport
      · intro _
        refine .inr ?_
        rw [hport]
        rfl
    · exact fun _ => hpacket
  · -- what is forwarded is addressed to no router
    obtain ⟨e, rfl, -⟩ := mem_forward hforward
    exact fun _ => .inl (NetworkPacket.entry?_of_ne hd)

end Table

/-! ## Steps -/

/-- The links join ports of type `CLIENT_TYPE_ROUTER`, in both directions. -/
structure Topology.Wired (net : Topology V) : Prop where
  symm : ∀ {v w d e}, net.link v d = some (w, e) → net.link w e = some (v, d)
  router : ∀ v d, (net.table v).deviceType d = clientTypeRouter ↔ (net.link v d).isSome

section Runs

variable {net : Topology V} {s s' : Routers V} {v w : V} {d e : Port}

theorem Topology.Wired.entry_of_link (h : net.Wired) (hlink : net.link v d = some (w, e)) :
    (net.table v).entry d = .router := by
  have htype := (h.router v d).mpr (by rw [hlink]; rfl)
  simp [RoutingTable.entry, htype, clientTypeRouter, clientTypeNode]

@[simp] theorem Topology.process_emit (net : Topology V) (v : V)
    (sent : Option (Port × NetworkPacket)) (s : Routers V) :
    (net.emit v sent s).process = s.process := by
  obtain - | ⟨d, packet⟩ := sent
  · rfl
  · cases hlink : net.link v d <;> simp only [Topology.emit, hlink]

@[simp] theorem Topology.copying_emit (net : Topology V) (v : V)
    (sent : Option (Port × NetworkPacket)) (s : Routers V) :
    (net.emit v sent s).copying = s.copying := by
  obtain - | ⟨d, packet⟩ := sent
  · rfl
  · cases hlink : net.link v d <;> simp only [Topology.emit, hlink]

@[simp] theorem Topology.handled_emit (net : Topology V) (v : V)
    (sent : Option (Port × NetworkPacket)) (s : Routers V) :
    (net.emit v sent s).handled = s.handled := by
  obtain - | ⟨d, packet⟩ := sent
  · rfl
  · cases hlink : net.link v d <;> simp only [Topology.emit, hlink]

theorem Topology.emit_of_link (hlink : net.link v d = some (w, e)) (packet : NetworkPacket) :
    net.emit v (some (d, packet)) s =
      { s with flight := s.flight ++ [⟨w, e, packet, s.copying v⟩] } := by
  simp only [Topology.emit, hlink]

theorem Topology.emit_of_not_link (hlink : net.link v d = none) (packet : NetworkPacket) :
    net.emit v (some (d, packet)) s =
      { s with delivered := if s.copying v then s.delivered ++ [(v, d, packet)] else s.delivered } := by
  simp only [Topology.emit, hlink]

/-- What a router sends keeps the entries of the router at the other end. -/
theorem Topology.Standing.emit (h : net.Standing s) (hnet : net.Wired)
    {sent : Option (Port × NetworkPacket)}
    (hsent : ∀ d packet, sent = some (d, packet) → (net.table v).entry d = .router →
      (net.table v).Keeps d packet) :
    net.Standing (net.emit v sent s) := by
  obtain - | ⟨d, packet⟩ := sent
  · exact h
  · cases hlink : net.link v d with
    | none =>
      rw [Topology.emit_of_not_link hlink]
      exact ⟨h.agrees, h.actions, h.flight⟩
    | some other =>
      obtain ⟨w, e⟩ := other
      rw [Topology.emit_of_link hlink]
      refine ⟨h.agrees, h.actions, fun message hmessage => ?_⟩
      rcases List.mem_append.mp hmessage with hold | hnew
      · exact h.flight message hold
      · obtain rfl := List.mem_singleton.mp hnew
        have hkeeps := hsent d packet rfl (hnet.entry_of_link hlink)
        rw [RoutingTable.Keeps, hnet.entry_of_link hlink] at hkeeps
        show (net.table w).Keeps e packet
        rw [RoutingTable.Keeps, hnet.entry_of_link (hnet.symm hlink)]
        exact hkeeps

variable [DecidableEq V]

@[simp] theorem Routers.process_update (process : Process) :
    (s.update v process).process v = process := by
  simp [Routers.update]

@[simp] theorem Routers.process_update_of_ne (hne : w ≠ v) (process : Process) :
    (s.update v process).process w = s.process w := by
  simp [Routers.update, hne]

/-- What a step of the network does: a router carries out an action, begins or ends a look at a port
without a packet, or takes a packet; or a node sends one. -/
theorem Topology.step_cases {event : NetworkEvent V} (h : net.step event s = some s') :
    (∃ v action process, event = .act v ∧
      (s.process v).actions = action :: process.actions ∧
      process.router = (s.process v).router.act action ∧
      s' = net.emit v action.sent (s.update v process)) ∨
    (∃ v process, event.router = some v ∧ (∀ message, event ≠ .hand message) ∧
      (s.process v).actions = [] ∧
      process.router.routingTable = (s.process v).router.routingTable ∧
      (∀ table, ∀ action ∈ process.actions, action.Keeps table) ∧
      s' = { s.update v process with copying := Function.update s.copying v false }) ∨
    (∃ message process, event = .hand message ∧ message ∈ s.flight ∧
      (s.process message.router).actions = [] ∧
      process.router = (s.process message.router).router ∧
      process.actions = receivePacket message.port message.packet
        (s.process message.router).router.routingTable ∧
      s' = { s.update message.router process with
        flight := s.flight.erase message
        copying := Function.update s.copying message.router message.copy
        handled := if message.copy then message.router :: s.handled else s.handled }) ∨
    (∃ message, event = .inject message ∧ net.Injects message ∧
      s' = { s with flight := message :: s.flight }) := by
  -- of the steps of a router, only one is one of this event
  cases event with
  | act v =>
    obtain ⟨process, hprocess, rfl⟩ := Option.map_eq_some_iff.mp h
    obtain ⟨action, -, hactions, hrouter, -⟩ | ⟨_, _, hevent, -⟩ | ⟨_, hevent, -⟩ |
      ⟨_, _, hevent, -⟩ := Process.step_cases hprocess
    · refine .inl ⟨v, action, process, rfl, hactions, hrouter, ?_⟩
      have hsent : (s.process v).sent .act = action.sent := by
        rcases hp : s.process v with ⟨router, actions, point⟩
        rw [hp] at hactions
        obtain rfl : actions = action :: process.actions := hactions
        rfl
      rw [hsent]
    · cases hevent
    · cases hevent
    · cases hevent
  | attempt v present =>
    obtain ⟨process, hprocess, rfl⟩ := Option.map_eq_some_iff.mp h
    obtain ⟨_, hevent, -⟩ | ⟨present', d, -, hactions, -, rfl⟩ | ⟨_, hevent, -⟩ |
      ⟨_, _, hevent, -⟩ := Process.step_cases hprocess
    · cases hevent
    · exact .inr (.inl ⟨v, _, rfl, fun _ => nofun, hactions, routingTable_reconnect _ _ _,
        fun table => keeps_reconnect table _ _ _, rfl⟩)
    · cases hevent
    · cases hevent
  | poll v =>
    obtain ⟨process, hprocess, rfl⟩ := Option.map_eq_some_iff.mp h
    obtain ⟨_, hevent, -⟩ | ⟨_, _, hevent, -⟩ | ⟨d, -, hactions, -, rfl⟩ |
      ⟨_, _, hevent, -⟩ := Process.step_cases hprocess
    · cases hevent
    · cases hevent
    · exact .inr (.inl ⟨v, ⟨_, [], .visit (d + 1)⟩, rfl, fun _ => nofun, hactions, rfl,
        fun table action haction => absurd haction List.not_mem_nil, rfl⟩)
    · cases hevent
  | hand message =>
    rw [Topology.step] at h
    split at h
    · next hhand =>
      obtain ⟨process, hprocess, rfl⟩ := Option.map_eq_some_iff.mp h
      obtain ⟨_, hevent, -⟩ | ⟨_, _, hevent, -⟩ | ⟨_, hevent, -⟩ |
        ⟨d, packet, hevent, hactions, hpoint, -, rfl⟩ := Process.step_cases hprocess
      · cases hevent
      · cases hevent
      · cases hevent
      · obtain rfl := Option.some.inj (RouterEvent.receive.inj hevent)
        -- the port looked at is the port of the message
        have hport := hhand.2
        rw [Process.handles_receive hactions hpoint] at hport
        obtain rfl := (Prod.mk.inj (Option.some.inj hport)).1
        exact .inr (.inr (.inl ⟨message, ⟨_, _, .visit (message.port + 1)⟩, rfl, hhand.1, hactions,
          rfl, rfl, rfl⟩))
    · cases h
  | inject message =>
    -- no router is involved
    rw [Topology.step] at h
    split at h
    · next hinjects =>
      exact .inr (.inr (.inr ⟨message, rfl, hinjects, (Option.some.inj h).symm⟩))
    · cases h

/-- The routers keep their entries when one of them goes on. -/
theorem Topology.Standing.update (h : net.Standing s) {process : Process}
    (hagrees : (net.table v).Agrees process.router.routingTable)
    (hactions : ∀ action ∈ process.actions, action.Keeps (net.table v)) {flight : List (Message V)}
    (hflight : ∀ message ∈ flight, message ∈ s.flight) {copying : V → Bool} {handled : List V} :
    net.Standing { s.update v process with flight, copying, handled } := by
  refine ⟨fun w => ?_, fun w => ?_, fun message hmessage => h.flight message (hflight message hmessage)⟩
  · rcases eq_or_ne w v with rfl | hne
    · simpa using hagrees
    · simpa [hne] using h.agrees w
  · rcases eq_or_ne w v with rfl | hne
    · simpa using hactions
    · simpa [hne] using h.actions w

/-- **The routers keep their entries.** -/
theorem Topology.Standing.step (h : net.Standing s) (hnet : net.Wired) {event : NetworkEvent V}
    (hstep : net.step event s = some s') : net.Standing s' := by
  obtain ⟨v, action, process, -, hactions, hrouter, rfl⟩ |
    ⟨v, process, -, -, -, htable, hkeeps, rfl⟩ |
    ⟨message, process, -, hmessage, -, hrouter, hactions, rfl⟩ |
    ⟨message, -, hinjects, rfl⟩ := Topology.step_cases hstep
  · have haction := h.actions v
    rw [hactions] at haction
    refine Topology.Standing.emit ?_ hnet fun d packet hsent hport => ?_
    · refine h.update (v := v) ?_ (fun a ha => haction a (List.mem_cons_of_mem _ ha)) fun _ => id
      rw [hrouter]
      exact (h.agrees v).act (haction action List.mem_cons_self)
    · have hkeeps := haction action List.mem_cons_self
      cases action with
      | send c sent =>
        obtain ⟨rfl, rfl⟩ := Prod.mk.inj (Option.some.inj hsent)
        exact hkeeps hport
      | clear | setState | setType | setAddressLow | setAddressHigh => cases hsent
  · exact h.update (htable ▸ h.agrees v) (hkeeps _) fun _ => id
  · refine h.update ?_ ?_ fun _ => List.mem_of_mem_erase
    · rw [hrouter]
      exact h.agrees _
    · rw [hactions]
      exact keeps_receivePacket (h.flight message hmessage)
  · refine ⟨h.agrees, h.actions, fun other hother => ?_⟩
    rcases List.mem_cons.mp hother with rfl | hold
    · exact hinjects.2.2
    · exact h.flight other hold

/-! ## Progress -/

/-- A router with pending actions can carry out the first. -/
theorem Topology.exists_act (net : Topology V) {action : RouterAction} {actions : List RouterAction}
    (hactions : (s.process v).actions = action :: actions) :
    ∃ process, net.step (.act v) s = some (net.emit v action.sent (s.update v process)) ∧
      process.actions = actions ∧ process.point = (s.process v).point := by
  refine ⟨⟨(s.process v).router.act action, actions, (s.process v).point⟩, ?_, rfl, rfl⟩
  rcases hp : s.process v with ⟨router, actions', point⟩
  rw [hp] at hactions
  obtain rfl : actions' = action :: actions := hactions
  rw [Topology.step, hp]
  rfl

omit [DecidableEq V] in
theorem Topology.flight_emit (net : Topology V) (v : V) (sent : Option (Port × NetworkPacket))
    (s : Routers V) : s.flight ⊆ (net.emit v sent s).flight := by
  obtain - | ⟨d, packet⟩ := sent
  · exact List.Subset.refl _
  · cases hlink : net.link v d with
    | none =>
      rw [Topology.emit_of_not_link hlink]
      exact List.Subset.refl _
    | some other =>
      rw [Topology.emit_of_link hlink]
      exact List.subset_append_left _ _

/-- A router can come to any of its pending actions, and nothing on the links is lost. -/
theorem Topology.exists_acts (net : Topology V) {before behind : List RouterAction}
    (hactions : (s.process v).actions = before ++ behind) :
    ∃ s', Reachable net.step (fun _ _ => True) s s' ∧ (s'.process v).actions = behind ∧
      (s'.process v).point = (s.process v).point ∧ s'.copying = s.copying ∧
        s.flight ⊆ s'.flight := by
  induction before generalizing s with
  | nil => exact ⟨s, .start, hactions, rfl, rfl, List.Subset.refl _⟩
  | cons action before ih =>
    obtain ⟨process, hstep, hrest, hpoint⟩ := net.exists_act hactions
    obtain ⟨s', hs', hbehind, hpoint', hcopying, hflight⟩ :=
      ih (s := net.emit v action.sent (s.update v process)) (by simpa using hrest)
    refine ⟨s', (Reachable.start.next trivial hstep).trans hs', hbehind, ?_, ?_, ?_⟩
    · rw [hpoint', Topology.process_emit, Routers.process_update, hpoint]
    · rw [hcopying, Topology.copying_emit]
      rfl
    · exact List.Subset.trans (net.flight_emit v _ (s.update v process)) hflight

/-- A router in front of a reconnection attempt can come to look at the port. -/
theorem Topology.exists_attempt (net : Topology V) (hactions : (s.process v).actions = [])
    (hpoint : (s.process v).point = .visit d) :
    ∃ s', Reachable net.step (fun _ _ => True) s s' ∧ (s'.process v).actions = [] ∧
      (s'.process v).point = .receive d ∧ s.flight ⊆ s'.flight := by
  obtain ⟨process, hprocess, hreceive⟩ :
      ∃ process, (s.process v).step (.attempt fun _ => false) = some process ∧
        process.point = .receive d := by
    rcases hp : s.process v with ⟨router, actions, point⟩
    rw [hp] at hactions hpoint
    obtain rfl : actions = [] := hactions
    obtain rfl : point = .visit d := hpoint
    exact ⟨_, rfl, rfl⟩
  have hstep : net.step (.attempt v fun _ => false) s =
      some { s.update v process with copying := Function.update s.copying v false } := by
    rw [Topology.step, hprocess]
    rfl
  obtain ⟨s', hs', hnil, hpoint', -, hflight⟩ := net.exists_acts (v := v)
    (s := { s.update v process with copying := Function.update s.copying v false })
    (show _ = _ ++ [] from (List.append_nil _).symm)
  refine ⟨s', (Reachable.start.next trivial hstep).trans hs', hnil, ?_, hflight⟩
  rw [hpoint']
  exact (congrArg Process.point (Routers.process_update process)).trans hreceive

/-- A router that looks at a port can come to look at the next. -/
theorem Topology.exists_poll (net : Topology V) (hactions : (s.process v).actions = [])
    (hpoint : (s.process v).point = .receive d) :
    ∃ s', Reachable net.step (fun _ _ => True) s s' ∧ (s'.process v).actions = [] ∧
      (s'.process v).point = .receive (d + 1) ∧ s.flight ⊆ s'.flight := by
  obtain ⟨process, hprocess, hnil, hvisit⟩ :
      ∃ process, (s.process v).step (.receive none) = some process ∧ process.actions = [] ∧
        process.point = .visit (d + 1) := by
    rcases hp : s.process v with ⟨router, actions, point⟩
    rw [hp] at hactions hpoint
    obtain rfl : actions = [] := hactions
    obtain rfl : point = .receive d := hpoint
    exact ⟨_, rfl, rfl, rfl⟩
  have hstep : net.step (.poll v) s =
      some { s.update v process with copying := Function.update s.copying v false } := by
    rw [Topology.step, hprocess]
    rfl
  have hself : (s.update v process).process v = process := Routers.process_update process
  obtain ⟨s', hs', hrest⟩ := net.exists_attempt (v := v) (d := d + 1)
    (s := { s.update v process with copying := Function.update s.copying v false })
    ((congrArg Process.actions hself).trans hnil) ((congrArg Process.point hself).trans hvisit)
  exact ⟨s', (Reachable.start.next trivial hstep).trans hs', hrest⟩

/-- A router can come to look at any port, and nothing on the links is lost. -/
theorem Topology.exists_receive (net : Topology V) (s : Routers V) (v : V) (d : Port) :
    ∃ s', Reachable net.step (fun _ _ => True) s s' ∧ (s'.process v).actions = [] ∧
      (s'.process v).point = .receive d ∧ s.flight ⊆ s'.flight := by
  -- it comes to look at some port
  obtain ⟨e, s₁, hs₁, hnil₁, hpoint₁, hflight₁⟩ : ∃ e s',
      Reachable net.step (fun _ _ => True) s s' ∧ (s'.process v).actions = [] ∧
        (s'.process v).point = .receive e ∧ s.flight ⊆ s'.flight := by
    obtain ⟨s', hs', hnil, hpoint, -, hflight⟩ :=
      net.exists_acts (s := s) (v := v) (List.append_nil _).symm
    cases hat : (s.process v).point with
    | receive e => exact ⟨e, s', hs', hnil, hpoint.trans hat, hflight⟩
    | visit e =>
      obtain ⟨s'', hs'', hnil', hpoint', hflight'⟩ :=
        net.exists_attempt hnil (hpoint.trans hat)
      exact ⟨e, s'', hs'.trans hs'', hnil', hpoint', List.Subset.trans hflight hflight'⟩
  -- and from there to the others in turn
  have hturn : ∀ n : ℕ, ∃ s', Reachable net.step (fun _ _ => True) s s' ∧
      (s'.process v).actions = [] ∧ (s'.process v).point = .receive ((· + 1)^[n] e) ∧
        s.flight ⊆ s'.flight := by
    intro n
    induction n with
    | zero => exact ⟨s₁, hs₁, hnil₁, hpoint₁, hflight₁⟩
    | succ n ih =>
      obtain ⟨s', hs', hnil, hpoint, hflight⟩ := ih
      obtain ⟨s'', hs'', hnil', hpoint', hflight'⟩ := net.exists_poll hnil hpoint
      refine ⟨s'', hs'.trans hs'', hnil', ?_, List.Subset.trans hflight hflight'⟩
      rw [hpoint', Function.iterate_succ_apply']
  have hports : ∀ d e : Port, ∃ n < 5, (· + 1)^[n] e = d := by decide
  obtain ⟨n, -, rfl⟩ := hports d e
  exact hturn n

/-! ## Fair runs -/

/-- A router stands still while the others take steps. -/
theorem Topology.step_other {event : NetworkEvent V} (hstep : net.step event s = some s')
    (hv : event.router ≠ some v) : s'.process v = s.process v ∧ s'.copying v = s.copying v := by
  have hne : ∀ u, event.router = some u → v ≠ u := by
    rintro u hu rfl
    exact hv hu
  obtain ⟨u, action, process, rfl, -, -, rfl⟩ | ⟨u, process, hrouter, -, -, -, -, rfl⟩ |
    ⟨message, process, rfl, -, -, -, -, rfl⟩ | ⟨message, rfl, -, rfl⟩ := Topology.step_cases hstep
  · rw [Topology.process_emit, Topology.copying_emit]
    exact ⟨Routers.process_update_of_ne (hne u rfl) process, rfl⟩
  · exact ⟨Routers.process_update_of_ne (hne u hrouter) process,
      Function.update_of_ne (hne u hrouter) _ _⟩
  · exact ⟨Routers.process_update_of_ne (hne _ rfl) process, Function.update_of_ne (hne _ rfl) _ _⟩
  · exact ⟨rfl, rfl⟩

/-- A router with pending actions carries out the first. -/
theorem Topology.step_act {event : NetworkEvent V} (hstep : net.step event s = some s')
    (hv : event.router = some v) {action : RouterAction} {actions : List RouterAction}
    (hactions : (s.process v).actions = action :: actions) :
    ∃ process, process.actions = actions ∧ s' = net.emit v action.sent (s.update v process) := by
  obtain ⟨u, action', process, rfl, hfirst, -, rfl⟩ | ⟨u, process, hrouter, -, hnil, -⟩ |
    ⟨message, process, rfl, -, hnil, -⟩ | ⟨message, rfl, -⟩ := Topology.step_cases hstep
  · obtain rfl : u = v := Option.some.inj hv
    obtain ⟨rfl, hrest⟩ := List.cons.inj (hactions.symm.trans hfirst)
    exact ⟨process, hrest.symm, rfl⟩
  · obtain rfl : u = v := Option.some.inj (hrouter.symm.trans hv)
    rw [hnil] at hactions
    cases hactions
  · obtain rfl : message.router = v := Option.some.inj hv
    rw [hnil] at hactions
    cases hactions
  · cases hv

/-- Who has handled a copy is not forgotten, and handing one over is recorded. -/
theorem Topology.handled_step {event : NetworkEvent V} (hstep : net.step event s = some s') :
    s.handled.length ≤ s'.handled.length ∧
      ∀ message, message.copy = true → event = .hand message →
        s.handled.length < s'.handled.length := by
  obtain ⟨u, action, process, rfl, -, -, rfl⟩ | ⟨u, process, -, hne, -, -, -, rfl⟩ |
    ⟨message, process, rfl, -, -, -, -, rfl⟩ | ⟨message, rfl, -, rfl⟩ := Topology.step_cases hstep
  · rw [Topology.handled_emit]
    exact ⟨le_rfl, fun _ _ => nofun⟩
  · exact ⟨le_rfl, fun message _ hevent => absurd hevent (hne message)⟩
  · refine ⟨?_, fun other hcopy hevent => ?_⟩
    · dsimp only
      split
      · exact Nat.le_succ _
      · exact le_rfl
    · obtain rfl := NetworkEvent.hand.inj hevent
      dsimp only
      rw [if_pos hcopy]
      exact Nat.lt_succ_self _
  · exact ⟨le_rfl, fun _ _ => nofun⟩

theorem handled_le_of_reachable (h : Reachable net.step (fun _ _ => True) s s') :
    s.handled.length ≤ s'.handled.length :=
  h.invariant (I := fun s' => s.handled.length ≤ s'.handled.length) le_rfl
    fun _ _ _ hle _ hstep => hle.trans (Topology.handled_step hstep).1

/-- What left the network stays delivered. -/
theorem Topology.delivered_step {event : NetworkEvent V} (hstep : net.step event s = some s') :
    s.delivered <+: s'.delivered := by
  obtain ⟨u, action, process, rfl, -, -, rfl⟩ | ⟨u, process, -, -, -, -, -, rfl⟩ |
    ⟨message, process, rfl, -, -, -, -, rfl⟩ | ⟨message, rfl, -, rfl⟩ := Topology.step_cases hstep
  · rcases action.sent with - | ⟨c, q⟩
    · exact List.prefix_rfl
    · cases hlink : net.link u c with
      | none =>
        rw [Topology.emit_of_not_link hlink]
        dsimp only
        split
        · exact List.prefix_append _ _
        · exact List.prefix_rfl
      | some other =>
        rw [Topology.emit_of_link hlink]
        exact List.prefix_rfl
  · exact List.prefix_rfl
  · exact List.prefix_rfl
  · exact List.prefix_rfl

variable {labels : ℕ → NetworkEvent V} {states : ℕ → Routers V} {s₀ : Routers V}

theorem handled_mono (hexec : Execution net.step s₀ labels states) {n k : ℕ} (hk : n ≤ k) :
    (states n).handled.length ≤ (states k).handled.length :=
  monotone_nat_of_le_succ (fun n => (Topology.handled_step (hexec.next n)).1) hk

theorem delivered_mono (hexec : Execution net.step s₀ labels states) {n k : ℕ} (hk : n ≤ k) :
    (states n).delivered <+: (states k).delivered := by
  induction k, hk using Nat.le_induction with
  | base => exact List.prefix_rfl
  | succ k _ ih => exact ih.trans (Topology.delivered_step (hexec.next k))

/-- The next step of a router finds it as it stands. -/
theorem Fair.exists_next (hfair : Fair labels states) (hexec : Execution net.step s₀ labels states)
    (n : ℕ) (v : V) : ∃ k ≥ n, (labels k).router = some v ∧
      (states k).process v = (states n).process v ∧ (states k).copying v = (states n).copying v := by
  obtain ⟨k, hk, hrouter⟩ := hfair.runs n v
  obtain ⟨m, rfl⟩ := Nat.exists_eq_add_of_le hk
  clear hk
  -- by induction on the steps of the others before it
  induction m generalizing n with
  | zero => exact ⟨n, le_rfl, hrouter, rfl, rfl⟩
  | succ m ih =>
    by_cases hn : (labels n).router = some v
    · exact ⟨n, le_rfl, hn, rfl, rfl⟩
    · obtain ⟨hprocess, hcopying⟩ := Topology.step_other (hexec.next n) hn
      obtain ⟨k, hk, hkv, hkprocess, hkcopying⟩ :=
        ih (n + 1) (by rwa [show n + 1 + m = n + (m + 1) by omega])
      exact ⟨k, by omega, hkv, hkprocess.trans hprocess, hkcopying.trans hcopying⟩

/-- **A router comes to each of its pending actions.** -/
theorem Fair.reaches (hfair : Fair labels states) (hexec : Execution net.step s₀ labels states)
    {n : ℕ} {before behind : List RouterAction}
    (hactions : ((states n).process v).actions = before ++ behind) :
    ∃ k ≥ n, ((states k).process v).actions = behind ∧
      (states k).copying v = (states n).copying v := by
  induction before generalizing n with
  | nil => exact ⟨n, le_rfl, hactions, rfl⟩
  | cons action before ih =>
    obtain ⟨k, hk, hrouter, hprocess, hcopying⟩ := hfair.exists_next hexec n v
    obtain ⟨process, hrest, hnext⟩ :=
      Topology.step_act (hexec.next k) hrouter (hprocess ▸ hactions)
    have hprocess' : (states (k + 1)).process v = process := by
      rw [hnext, Topology.process_emit, Routers.process_update]
    have hcopying' : (states (k + 1)).copying v = (states k).copying v := by
      rw [hnext, Topology.copying_emit]
      rfl
    obtain ⟨m, hm, hactionsm, hcopyingm⟩ := ih (n := k + 1) (hprocess' ▸ hrest)
    exact ⟨m, by omega, hactionsm, hcopyingm.trans (hcopying'.trans hcopying)⟩

end Runs

end MicroKernel.Network
