import Mathlib.Data.List.FinRange
import MicroKernel.Network.Packet

/-!
# The router

The router application of `kernel/network/router.c`. What it does with a packet or at a reconnection
attempt is a list of actions, in the order of the code; the router carries them out one by one, and
other devices of the network run in between.

## Main definitions

* `RoutingTable`, `RouterAction`: the table, and the packets sent and the entries assigned
* `receivePacket`: the actions for an incoming packet
* `reconnect`: the actions of a reconnection attempt
* `initiate`: the actions before the main loop
* `Process`, `Process.step`: a running router, one action at a time

## Main results

* `entry_receivePacket`: what a packet leaves in the table
* `Process.entry_step`: the entries of the table change by incoming packets only
-/

namespace MicroKernel.Network

/-! ## The routing table -/

/-- `NUMBER_OF_PERIPHERALS` -/
abbrev numberOfPeripherals : ℕ := 5

instance : NeZero numberOfPeripherals := ⟨by decide⟩

abbrev Port := Fin numberOfPeripherals

/-- `CLIENT_TYPE_UNKNOWN` -/
def clientTypeUnknown : UInt8 := 0

/-- `CLIENT_TYPE_NODE` -/
def clientTypeNode : UInt8 := 1

/-- `CLIENT_TYPE_ROUTER` -/
def clientTypeRouter : UInt8 := 2

/-- `struct RoutingTable` -/
@[ext] structure RoutingTable where
  deviceState : Port → UInt8
  deviceType : Port → UInt8
  addressLow : Port → UInt8
  addressHigh : Port → UInt8

/-- The table at power-on. -/
def RoutingTable.zero : RoutingTable :=
  ⟨fun _ => 0, fun _ => 0, fun _ => 0, fun _ => 0⟩

def RoutingTable.address (table : RoutingTable) (d : Port) : Address :=
  ⟨table.addressLow d, table.addressHigh d⟩

/-! ## The default packets -/

/-- The address of every router. -/
def routerAddress : Address := ⟨0xff, 0xff⟩

/-- The address of a packet without one. -/
def noAddress : Address := ⟨0x00, 0x00⟩

/-- Client handshake packet -/
def packetClientHandshake : NetworkPacket where
  start := packetStartByte
  addrD := noAddress
  addrS := routerAddress
  index := 1
  total := 1
  data := Function.update (fun _ => 0x55) 1 0x00
  stop := packetStopByte

/-- Router handshake packet -/
def packetRouterHandshakeOutgoing : NetworkPacket where
  start := packetStartByte
  addrD := routerAddress
  addrS := routerAddress
  index := 1
  total := 1
  data := fun _ => 0x55
  stop := packetStopByte

/-- Router handshake return packet -/
def packetRouterHandshakeReturn : NetworkPacket where
  start := packetStartByte
  addrD := routerAddress
  addrS := routerAddress
  index := 1
  total := 1
  data := fun _ => 0xAA
  stop := packetStopByte

/-! ## Actions -/

/-- What the router does, apart from its counters: `clear` is `ntPacketClearAll` and `send` is
`ntPacketSend` on a bound device, the others are assignments to the table. -/
inductive RouterAction
  | clear (d : Port)
  | send (d : Port) (packet : NetworkPacket)
  | setState (d : Port) (byte : UInt8)
  | setType (d : Port) (byte : UInt8)
  | setAddressLow (d : Port) (byte : UInt8)
  | setAddressHigh (d : Port) (byte : UInt8)

def RoutingTable.act (table : RoutingTable) : RouterAction → RoutingTable
  | .clear _ | .send _ _ => table
  | .setState d byte => { table with deviceState := Function.update table.deviceState d byte }
  | .setType d byte => { table with deviceType := Function.update table.deviceType d byte }
  | .setAddressLow d byte => { table with addressLow := Function.update table.addressLow d byte }
  | .setAddressHigh d byte => { table with addressHigh := Function.update table.addressHigh d byte }

/-- The table after a list of actions. -/
def RoutingTable.acts (table : RoutingTable) (actions : List RouterAction) : RoutingTable :=
  actions.foldl RoutingTable.act table

/-- The packet an action sends, and the port. -/
def RouterAction.sent : RouterAction → Option (Port × NetworkPacket)
  | .send d packet => some (d, packet)
  | _ => none

/-- The port an action is about. -/
def RouterAction.port : RouterAction → Port
  | .clear d | .send d _ | .setState d _ | .setType d _ | .setAddressLow d _ | .setAddressHigh d _ => d

/-- The packets that actions send, in order. -/
def sends (actions : List RouterAction) : List (Port × NetworkPacket) :=
  actions.filterMap RouterAction.sent

/-! ## Incoming packets -/

/-- A client connection request. -/
def NetworkPacket.IsClientRequest (receive : NetworkPacket) : Prop :=
  receive.data 0 = 0x55 ∧ receive.data 1 = 0x00

instance (receive : NetworkPacket) : Decidable receive.IsClientRequest :=
  inferInstanceAs (Decidable (_ ∧ _))

/-- A packet whose four address bytes are zero: the router does not look at it. -/
def NetworkPacket.IsBlank (receive : NetworkPacket) : Prop :=
  receive.addrD = noAddress ∧ receive.addrS = noAddress

instance (receive : NetworkPacket) : Decidable receive.IsBlank :=
  inferInstanceAs (Decidable (_ ∧ _))

/-- Incoming to this server: a packet to the router itself, received on port `s`. -/
def control (s : Port) (receive : NetworkPacket) : List RouterAction :=
  if receive.IsClientRequest then
    -- the acknowledgement is sent before the client is recorded
    [.send s packetClientHandshake, .setType s clientTypeNode,
      .setAddressLow s receive.addrS.low, .setAddressHigh s receive.addrS.high]
  else
    (if receive.addrS = routerAddress then
      (if receive.data 0 = 0x55 then
        [.setType s clientTypeRouter, .send s packetRouterHandshakeReturn] else []) ++
      (if receive.data 0 = 0xAA then [.setType s clientTypeRouter] else [])
    else []) ++
    -- Return the ping packet to the sender
    (if receive.addrS = noAddress then [.send s receive] else [])

/-- The destination packet address stands at a node in the routing table. -/
def RoutingTable.Carries (table : RoutingTable) (address : Address) (d : Port) : Prop :=
  table.deviceType d = clientTypeNode ∧ address = table.address d

instance (table : RoutingTable) (address : Address) (d : Port) :
    Decidable (table.Carries address d) := inferInstanceAs (Decidable (_ ∧ _))

/-- The first port at which the destination address is located. -/
def RoutingTable.locate (table : RoutingTable) (address : Address) : Option Port :=
  (List.finRange numberOfPeripherals).find? fun d => table.Carries address d

/-- The default gateways, without the port of the sender. -/
def RoutingTable.gateways (table : RoutingTable) (s : Port) : List Port :=
  (List.finRange numberOfPeripherals).filter
    fun d => s ≠ d ∧ table.deviceType d = clientTypeRouter

/-- Client packets are sent to the destination address if it is in the table, else to the default
gateways. -/
def forward (s : Port) (receive : NetworkPacket) (table : RoutingTable) : List RouterAction :=
  match table.locate receive.addrD with
  | some d => [.send d receive]
  | none => (table.gateways s).map (.send · receive)

/-- What the router does with a packet received on port `s`. -/
def receivePacket (s : Port) (receive : NetworkPacket) (table : RoutingTable) :
    List RouterAction :=
  if receive.IsBlank then []
  else
    .clear s ::
      if receive.addrD = routerAddress then control s receive else forward s receive table

/-! ## Reconnection attempts -/

/-- The variables of the main loop: the table, and the counters of the reconnection attempts. -/
structure Router where
  routingTable : RoutingTable
  reconnRequestCounter : Port → UInt16
  reconnRequestTimeOut : UInt16
  reconnRequestRate : UInt16

def reconnRequestMin : UInt16 := 1000

def reconnRequestMax : UInt16 := 2700

/-- Initiate a hot inserted NIC card: the ports of unknown type that hold a device become active, and
each active port of unknown type is asked for a router. -/
def hotInsert (present : Port → Bool) (table : RoutingTable) : List RouterAction :=
  let unknown := (List.finRange numberOfPeripherals).filter
    fun d => table.deviceType d = clientTypeUnknown
  ((unknown.filter fun d => present d).map fun d => .setState d 1) ++
    (unknown.filter fun d => present d ∨ table.deviceState d ≠ 0).flatMap fun d =>
      [.clear d, .send d packetRouterHandshakeOutgoing]

/-- What the router does when the counter of port `s` has passed the rate. -/
def retry (present : Port → Bool) (s : Port) (router : Router) : Router × List RouterAction :=
  let insert : Bool := router.reconnRequestTimeOut > 2 ∧ router.reconnRequestTimeOut > 10
  ({ router with
      reconnRequestTimeOut := if insert then 0 else router.reconnRequestTimeOut
      -- Lengthen connection request interval
      reconnRequestRate :=
        if insert then reconnRequestMin
        else if router.reconnRequestTimeOut > 2 then reconnRequestMax
        else router.reconnRequestRate },
    (if insert then hotInsert present router.routingTable else []) ++
      -- Only reconnect to known router devices
      (if router.routingTable.deviceType s = clientTypeRouter then
        [.clear s, .send s packetRouterHandshakeOutgoing] else []))

/-- The reconnection attempt of port `s`, with the ports that `ntCheckDevice` finds. -/
def reconnect (present : Port → Bool) (s : Port) (router : Router) :
    Router × List RouterAction :=
  let count := router.reconnRequestCounter s + 1
  if count > router.reconnRequestRate then
    retry present s { router with
      reconnRequestCounter := Function.update router.reconnRequestCounter s 0
      -- Time out counter
      reconnRequestTimeOut :=
        if s = 0 then router.reconnRequestTimeOut + 1 else router.reconnRequestTimeOut }
  else
    ({ router with
        reconnRequestCounter := Function.update router.reconnRequestCounter s count }, [])

/-! ## Power-on -/

/-- Initiate the entry of a port, unless its device is active already. -/
def initiatePort (check : Bool) (s : Port) (table : RoutingTable) : List RouterAction :=
  if table.deviceState s = 1 then []
  else
    [.setState s 0, .setType s 0, .setAddressLow s 0, .setAddressHigh s 0, .setState s 0,
      .setType s 0] ++
    if check then [.setState s 1, .setType s clientTypeUnknown] else []

/-- Initiate the routing table: the loop over retries and ports. -/
def initiateTable (check : ℕ → Port → Bool) : List (ℕ × Port) → RoutingTable → List RouterAction
  | [], _ => []
  | (retry, s) :: rest, table =>
    initiatePort (check retry s) s table ++
      initiateTable check rest (table.acts (initiatePort (check retry s) s table))

/-- Connect to adjacent routers: one round over the active ports. -/
def connect (table : RoutingTable) : List RouterAction :=
  ((List.finRange numberOfPeripherals).filter fun s => table.deviceState s ≠ 0).map
    (.send · packetRouterHandshakeOutgoing)

/-- What the router does before its main loop, with what `ntCheckDevice` answers at each retry. -/
def initiate (check : ℕ → Port → Bool) : List RouterAction :=
  let rounds := (List.range 3).flatMap fun retry =>
    (List.finRange numberOfPeripherals).map fun s => (retry, s)
  let initiating := initiateTable check rounds .zero
  initiating ++ (List.replicate 3 (connect (RoutingTable.zero.acts initiating))).flatten

/-! ## A running router -/

/-- Where the main loop stands when the pending actions are done: before the reconnection attempt of a
port, or behind it. -/
inductive Point
  | visit (s : Port)
  | receive (s : Port)
deriving DecidableEq

/-- A running router: its variables, the actions it has still to carry out, and where it goes on. -/
structure Process where
  router : Router
  actions : List RouterAction
  point : Point

/-- A step of a router: the next of its actions, a reconnection attempt, or a look for a packet. -/
inductive RouterEvent
  | act
  | attempt (present : Port → Bool)
  | receive (received : Option NetworkPacket)

def Router.act (router : Router) (action : RouterAction) : Router :=
  { router with routingTable := router.routingTable.act action }

/-- The step of a router, where it is possible: an inactive port receives nothing. -/
def Process.step : RouterEvent → Process → Option Process
  | .act, ⟨router, action :: actions, point⟩ => some ⟨router.act action, actions, point⟩
  | .attempt present, ⟨router, [], .visit s⟩ =>
    some ⟨(reconnect present s router).1, (reconnect present s router).2, .receive s⟩
  | .receive none, ⟨router, [], .receive s⟩ => some ⟨router, [], .visit (s + 1)⟩
  | .receive (some receive), ⟨router, [], .receive s⟩ =>
    if router.routingTable.deviceState s = 0 then none
    else some ⟨router, receivePacket s receive router.routingTable, .visit (s + 1)⟩
  | _, _ => none

/-- The router at power-on: it has the whole initiation before it. -/
def Process.powerOn (check : ℕ → Port → Bool) : Process where
  router := ⟨.zero, fun _ => 0, 0, reconnRequestMin⟩
  actions := initiate check
  point := .visit 0

/-- The table when the pending actions are done. -/
def Process.settled (process : Process) : RoutingTable :=
  process.router.routingTable.acts process.actions

/-- The packet that a step handles, and the port. -/
def Process.handles : RouterEvent → Process → Option (Port × NetworkPacket)
  | .receive (some receive), ⟨_, [], .receive s⟩ => some (s, receive)
  | _, _ => none

/-- The packet that a step sends, and the port. -/
def Process.sent : RouterEvent → Process → Option (Port × NetworkPacket)
  | .act, ⟨_, action :: _, _⟩ => action.sent
  | _, _ => none

/-! ## What the actions leave in the table -/

/-- What the table says about a port. -/
inductive Entry
  | unknown
  | node (address : Address)
  | router
deriving DecidableEq

def RoutingTable.entry (table : RoutingTable) (d : Port) : Entry :=
  if table.deviceType d = clientTypeNode then .node (table.address d)
  else if table.deviceType d = clientTypeRouter then .router
  else .unknown

/-- The entry that a packet makes for the port it arrives on. -/
def NetworkPacket.entry? (receive : NetworkPacket) : Option Entry :=
  if receive.addrD = routerAddress then
    if receive.IsClientRequest then some (.node receive.addrS)
    else if receive.addrS = routerAddress ∧ (receive.data 0 = 0x55 ∨ receive.data 0 = 0xAA) then
      some .router
    else none
  else none

section Table

variable {table : RoutingTable} {s d : Port} {receive : NetworkPacket} {address : Address}

theorem RoutingTable.acts_append (actions actions' : List RouterAction) :
    table.acts (actions ++ actions') = (table.acts actions).acts actions' :=
  List.foldl_append

theorem RoutingTable.carries_iff : table.Carries address d ↔ table.entry d = .node address := by
  unfold RoutingTable.Carries RoutingTable.entry
  constructor
  · rintro ⟨htype, rfl⟩
    rw [if_pos htype]
  · intro h
    split at h
    · next htype => exact ⟨htype, (Entry.node.inj h).symm⟩
    · split at h <;> cases h

/-- An action that assigns neither a type nor an address. -/
def RouterAction.KeepsEntries : RouterAction → Prop
  | .clear _ | .send _ _ | .setState _ _ => True
  | _ => False

theorem RoutingTable.entry_acts_of_keeps {actions : List RouterAction}
    (h : ∀ action ∈ actions, action.KeepsEntries) : (table.acts actions).entry = table.entry := by
  induction actions generalizing table with
  | nil => rfl
  | cons action actions ih =>
    have hrest : ((table.act action).acts actions).entry = (table.act action).entry :=
      ih fun a ha => h a (List.mem_cons_of_mem _ ha)
    refine Eq.trans hrest ?_
    cases action with
    | clear | send | setState => rfl
    | setType | setAddressLow | setAddressHigh => exact (h _ List.mem_cons_self).elim

/-- What the router does with a control packet: it records a client, or a router, or returns a ping. -/
theorem mem_control {action : RouterAction} (h : action ∈ control s receive) :
    (receive.IsClientRequest ∧
      (action = .send s packetClientHandshake ∨ action = .setType s clientTypeNode ∨
        action = .setAddressLow s receive.addrS.low ∨
        action = .setAddressHigh s receive.addrS.high)) ∨
    (¬ receive.IsClientRequest ∧ receive.addrS = routerAddress ∧
      (receive.data 0 = 0x55 ∨ receive.data 0 = 0xAA) ∧
      (action = .setType s clientTypeRouter ∨ action = .send s packetRouterHandshakeReturn)) ∨
    (¬ receive.IsClientRequest ∧ receive.addrS = noAddress ∧ action = .send s receive) := by
  unfold control at h
  split at h
  · next hclient =>
    simp only [List.mem_cons, List.not_mem_nil, or_false] at h
    exact .inl ⟨hclient, h⟩
  · next hclient =>
    refine .inr ?_
    rcases List.mem_append.mp h with h | h
    · split at h
      · next hrouter =>
        rcases List.mem_append.mp h with h | h
        · split at h
          · next h55 => exact .inl ⟨hclient, hrouter, .inl h55, List.mem_pair.mp h⟩
          · cases h
        · split at h
          · next hAA => exact .inl ⟨hclient, hrouter, .inr hAA, .inl (List.mem_singleton.mp h)⟩
          · cases h
      · cases h
    · split at h
      · next hping => exact .inr ⟨hclient, hping, List.mem_singleton.mp h⟩
      · cases h

/-- A control packet is about the port it arrives on. -/
theorem port_of_mem_control {action : RouterAction} (h : action ∈ control s receive) :
    action.port = s := by
  obtain ⟨-, rfl | rfl | rfl | rfl⟩ | ⟨-, -, -, rfl | rfl⟩ | ⟨-, -, rfl⟩ := mem_control h <;> rfl

/-- A client packet is sent to its destination, or to a default gateway. -/
theorem mem_forward {action : RouterAction} (h : action ∈ forward s receive table) :
    ∃ d, action = .send d receive ∧
      (table.Carries receive.addrD d ∨ s ≠ d ∧ table.deviceType d = clientTypeRouter) := by
  unfold forward at h
  split at h
  · next d hlocate =>
    have hd := List.find?_some hlocate
    exact ⟨d, List.mem_singleton.mp h, .inl (of_decide_eq_true hd)⟩
  · obtain ⟨d, hd, rfl⟩ := List.mem_map.mp h
    have hgateway := (List.mem_filter.mp hd).2
    exact ⟨d, rfl, .inr (of_decide_eq_true hgateway)⟩

theorem mem_receivePacket {action : RouterAction} (h : action ∈ receivePacket s receive table) :
    action = .clear s ∨ receive.addrD = routerAddress ∧ action ∈ control s receive ∨
      receive.addrD ≠ routerAddress ∧ action ∈ forward s receive table := by
  unfold receivePacket at h
  split at h
  · cases h
  · rcases List.mem_cons.mp h with h | h
    · exact .inl h
    · split at h
      · next hd => exact .inr (.inl ⟨hd, h⟩)
      · next hd => exact .inr (.inr ⟨hd, h⟩)

theorem keepsEntries_forward : ∀ action ∈ forward s receive table, action.KeepsEntries := by
  intro action h
  obtain ⟨d, rfl, -⟩ := mem_forward h
  trivial

/-- What a control packet leaves in the table. -/
theorem entry_control (hd : receive.addrD = routerAddress) :
    (table.acts (control s receive)).entry =
      Function.update table.entry s (receive.entry?.getD (table.entry s)) := by
  unfold control NetworkPacket.entry?
  rw [if_pos hd]
  by_cases hclient : receive.IsClientRequest
  · rw [if_pos hclient, if_pos hclient, Option.getD_some]
    funext d
    rcases eq_or_ne d s with rfl | hne
    · simp [RoutingTable.acts, RoutingTable.act, RoutingTable.entry, RoutingTable.address]
    · simp [RoutingTable.acts, RoutingTable.act, RoutingTable.entry, RoutingTable.address, hne]
  · rw [if_neg hclient, if_neg hclient, RoutingTable.acts_append]
    -- the ping keeps the entries
    rw [RoutingTable.entry_acts_of_keeps (by split <;> simp [RouterAction.KeepsEntries])]
    by_cases hs : receive.addrS = routerAddress
    · rw [if_pos hs]
      have hrouter : ∀ table : RoutingTable, (table.act (.setType s clientTypeRouter)).entry =
          Function.update table.entry s .router := by
        intro table
        funext d
        rcases eq_or_ne d s with rfl | hne
        · simp [RoutingTable.act, RoutingTable.entry, clientTypeRouter, clientTypeNode]
        · simp [RoutingTable.act, RoutingTable.entry, RoutingTable.address, hne]
      by_cases h55 : receive.data 0 = 0x55
      · rw [if_pos h55, if_neg (by rw [h55]; decide), if_pos ⟨hs, .inl h55⟩]
        exact hrouter table
      · rw [if_neg h55]
        by_cases hAA : receive.data 0 = 0xAA
        · rw [if_pos hAA, if_pos ⟨hs, .inr hAA⟩]
          exact hrouter table
        · rw [if_neg hAA, if_neg fun h => h.2.elim h55 hAA]
          exact (Function.update_eq_self s table.entry).symm
    · rw [if_neg hs, if_neg fun h => hs h.1]
      exact (Function.update_eq_self s table.entry).symm

/-- **What a packet leaves in the table**: the entry it makes for its port. -/
theorem entry_receivePacket :
    (table.acts (receivePacket s receive table)).entry =
      Function.update table.entry s (receive.entry?.getD (table.entry s)) := by
  unfold receivePacket
  by_cases hblank : receive.IsBlank
  · have hd : receive.addrD ≠ routerAddress := by
      rw [hblank.1]
      decide
    rw [if_pos hblank, NetworkPacket.entry?, if_neg hd]
    exact (Function.update_eq_self s table.entry).symm
  · rw [if_neg hblank]
    by_cases hd : receive.addrD = routerAddress
    · rw [if_pos hd]
      exact entry_control hd
    · rw [if_neg hd, NetworkPacket.entry?, if_neg hd]
      have hkept : (table.acts (forward s receive table)).entry = table.entry :=
        RoutingTable.entry_acts_of_keeps keepsEntries_forward
      exact hkept.trans (Function.update_eq_self s table.entry).symm

/-- A reconnection attempt counts, or it goes on with the counters changed. -/
theorem reconnect_cases (present : Port → Bool) (s : Port) (router : Router) :
    (∃ router', router'.routingTable = router.routingTable ∧
      reconnect present s router = retry present s router') ∨
    (∃ counter, reconnect present s router =
      ({ router with reconnRequestCounter := counter }, [])) := by
  by_cases h : router.reconnRequestCounter s + 1 > router.reconnRequestRate
  · refine .inl ⟨_, ?_, if_pos h⟩
    rfl
  · exact .inr ⟨_, if_neg h⟩

theorem routingTable_reconnect (present : Port → Bool) (s : Port) (router : Router) :
    (reconnect present s router).1.routingTable = router.routingTable := by
  obtain ⟨router', hrouter, h⟩ | ⟨counter, h⟩ := reconnect_cases present s router
  · rw [h]
    exact hrouter
  · rw [h]

/-- The actions of a reconnection attempt: it makes ports active, and it asks for routers. -/
theorem mem_reconnect {present : Port → Bool} {router : Router} {action : RouterAction}
    (h : action ∈ (reconnect present s router).2) :
    ∃ d, action = .setState d 1 ∨ action = .clear d ∨
      action = .send d packetRouterHandshakeOutgoing := by
  obtain ⟨router', -, heq⟩ | ⟨counter, heq⟩ := reconnect_cases present s router
  · rw [heq] at h
    rcases List.mem_append.mp h with h | h
    · split at h
      · rcases List.mem_append.mp h with h | h
        · obtain ⟨d, -, rfl⟩ := List.mem_map.mp h
          exact ⟨d, .inl rfl⟩
        · obtain ⟨d, -, hd⟩ := List.mem_flatMap.mp h
          exact ⟨d, .inr (List.mem_pair.mp hd)⟩
      · cases h
    · split at h
      · exact ⟨s, .inr (List.mem_pair.mp h)⟩
      · cases h
  · rw [heq] at h
    cases h

theorem keepsEntries_reconnect (present : Port → Bool) (s : Port) (router : Router) :
    ∀ action ∈ (reconnect present s router).2, action.KeepsEntries := by
  intro action h
  obtain ⟨d, rfl | rfl | rfl⟩ := mem_reconnect h <;> trivial

/-- The located port is the first that carries the address. -/
theorem RoutingTable.locate_eq_some_iff :
    table.locate address = some d ↔ table.Carries address d ∧ ∀ c < d, ¬ table.Carries address c := by
  unfold RoutingTable.locate
  rw [List.find?_eq_some_iff_getElem, decide_eq_true_iff]
  refine and_congr_right fun _ => ⟨?_, fun h => ?_⟩
  · rintro ⟨i, hi, rfl, hbefore⟩ c hc
    have hci : (c : ℕ) < i := by
      rw [List.getElem_finRange] at hc
      exact hc
    simpa using hbefore c hci
  · refine ⟨d, by simp, by simp, fun j hj => ?_⟩
    simpa using h ⟨j, hj.trans d.isLt⟩ hj

/-- Located in the table, a client packet is sent to that port only. -/
theorem sends_receivePacket_of_locate (hd : receive.addrD ≠ routerAddress)
    (hblank : ¬ receive.IsBlank) (hlocate : table.locate receive.addrD = some d) :
    sends (receivePacket s receive table) = [(d, receive)] := by
  rw [receivePacket, if_neg hblank, if_neg hd, forward, hlocate]
  rfl

/-- Not in the table, a client packet is sent to the default gateways. -/
theorem sends_receivePacket_of_not_locate (hd : receive.addrD ≠ routerAddress)
    (hblank : ¬ receive.IsBlank) (hlocate : table.locate receive.addrD = none) :
    sends (receivePacket s receive table) = (table.gateways s).map fun d => (d, receive) := by
  rw [receivePacket, if_neg hblank, if_neg hd, forward, hlocate]
  show List.filterMap RouterAction.sent ((table.gateways s).map (.send · receive)) = _
  rw [List.filterMap_map]
  exact congrFun (List.filterMap_eq_map (f := fun d => (d, receive))) _

/-! ## Power-on -/

/-- An action of the initiation: it makes no port a node or a router, and what it sends asks for
routers. -/
def RouterAction.Initiates : RouterAction → Prop
  | .setType _ byte => byte = clientTypeUnknown
  | .send _ packet => packet = packetRouterHandshakeOutgoing
  | _ => True

theorem initiates_initiate (check : ℕ → Port → Bool) :
    ∀ action ∈ initiate check, action.Initiates := by
  have hport : ∀ (b : Bool) (s : Port) (table : RoutingTable),
      ∀ action ∈ initiatePort b s table, action.Initiates := by
    intro b s table
    unfold initiatePort
    split
    · simp
    · cases b <;> simp [RouterAction.Initiates, clientTypeUnknown]
  have htable : ∀ (rounds : List (ℕ × Port)) (table : RoutingTable),
      ∀ action ∈ initiateTable check rounds table, action.Initiates := by
    intro rounds
    induction rounds with
    | nil => intro table action h; cases h
    | cons round rounds ih =>
      intro table action h
      rcases List.mem_append.mp h with h | h
      · exact hport _ _ _ action h
      · exact ih _ action h
  intro action h
  rcases List.mem_append.mp h with h | h
  · exact htable _ _ action h
  · obtain ⟨actions, hactions, hmem⟩ := List.mem_flatten.mp h
    rw [List.eq_of_mem_replicate hactions] at hmem
    obtain ⟨d, -, rfl⟩ := List.mem_map.mp hmem
    rfl

/-- The initiation leaves every port unknown. -/
theorem RoutingTable.entry_acts_of_initiates {actions : List RouterAction}
    (h : ∀ action ∈ actions, action.Initiates)
    (htable : ∀ d, table.deviceType d = clientTypeUnknown) (d : Port) :
    (table.acts actions).entry d = .unknown := by
  induction actions generalizing table with
  | nil =>
    have hd : table.deviceType d = 0 := htable d
    simp [RoutingTable.acts, RoutingTable.entry, hd, clientTypeNode, clientTypeRouter]
  | cons action actions ih =>
    show ((table.act action).acts actions).entry d = .unknown
    refine ih (fun a ha => h a (List.mem_cons_of_mem _ ha)) fun c => ?_
    cases action with
    | setType d' byte =>
      have hbyte : byte = clientTypeUnknown := h _ List.mem_cons_self
      rcases eq_or_ne c d' with rfl | hne
      · simpa [RoutingTable.act] using hbyte
      · simpa [RoutingTable.act, hne] using htable c
    | clear | send | setState | setAddressLow | setAddressHigh => exact htable c

theorem entry_powerOn (check : ℕ → Port → Bool) (d : Port) :
    (Process.powerOn check).settled.entry d = .unknown :=
  RoutingTable.entry_acts_of_initiates (initiates_initiate check) (fun _ => rfl) d

end Table

section Process

variable {process process' : Process} {event : RouterEvent}

/-- What a step of a router does. -/
theorem Process.step_cases (h : process.step event = some process') :
    (∃ action, event = .act ∧ process.actions = action :: process'.actions ∧
      process'.router = process.router.act action ∧ process'.point = process.point) ∨
    (∃ present s, event = .attempt present ∧ process.actions = [] ∧ process.point = .visit s ∧
      process' = ⟨(reconnect present s process.router).1, (reconnect present s process.router).2,
        .receive s⟩) ∨
    (∃ s, event = .receive none ∧ process.actions = [] ∧ process.point = .receive s ∧
      process' = ⟨process.router, [], .visit (s + 1)⟩) ∨
    (∃ s receive, event = .receive (some receive) ∧ process.actions = [] ∧
      process.point = .receive s ∧ process.router.routingTable.deviceState s ≠ 0 ∧
      process' = ⟨process.router, receivePacket s receive process.router.routingTable,
        .visit (s + 1)⟩) := by
  obtain ⟨router, actions, point⟩ := process
  cases event with
  | act =>
    cases actions with
    | nil => cases h
    | cons action actions =>
      -- the first of what is left to do
      obtain rfl := Option.some.inj h
      exact .inl ⟨action, rfl, rfl, rfl, rfl⟩
  | attempt present =>
    cases actions with
    | cons => cases h
    | nil =>
      cases point with
      | receive => cases h
      | visit s => exact .inr (.inl ⟨present, s, rfl, rfl, rfl, (Option.some.inj h).symm⟩)
  | receive received =>
    cases actions with
    | cons => cases received <;> cases h
    | nil =>
      cases point with
      | visit => cases received <;> cases h
      | receive s =>
        cases received with
        | none => exact .inr (.inr (.inl ⟨s, rfl, rfl, rfl, (Option.some.inj h).symm⟩))
        | some receive =>
          -- a port that is not bound receives nothing
          rw [Process.step] at h
          split at h
          · cases h
          · next hactive =>
            exact .inr (.inr (.inr
              ⟨s, receive, rfl, rfl, rfl, hactive, (Option.some.inj h).symm⟩))

/-- The packet handled by a step that receives one. -/
theorem Process.handles_receive {s : Port} {receive : NetworkPacket}
    (hactions : process.actions = []) (hpoint : process.point = .receive s) :
    process.handles (.receive (some receive)) = some (s, receive) := by
  obtain ⟨router, actions, point⟩ := process
  obtain rfl : actions = [] := hactions
  obtain rfl : point = .receive s := hpoint
  rfl

/-- With no pending action, the table is settled. -/
theorem Process.settled_of_nil (hactions : process.actions = []) :
    process.settled = process.router.routingTable := by
  rw [Process.settled, hactions]
  rfl

/-- **The entries of the table change by incoming packets only**, by the entry of the packet. -/
theorem Process.entry_step (h : process.step event = some process') :
    process'.settled.entry = match process.handles event with
      | some (s, receive) =>
        Function.update process.settled.entry s (receive.entry?.getD (process.settled.entry s))
      | none => process.settled.entry := by
  obtain ⟨action, rfl, hactions, hrouter, -⟩ | ⟨present, s, rfl, hactions, -, rfl⟩ |
    ⟨s, rfl, hactions, -, rfl⟩ | ⟨s, receive, rfl, hactions, hpoint, -, rfl⟩ :=
    Process.step_cases h
  · show process'.settled.entry = process.settled.entry
    rw [Process.settled, Process.settled, hrouter, hactions]
    rfl
  · rw [Process.settled_of_nil hactions]
    show (RoutingTable.acts _ _).entry = _
    rw [RoutingTable.entry_acts_of_keeps (keepsEntries_reconnect present s _),
      routingTable_reconnect]
    rfl
  · rw [Process.settled_of_nil hactions]
    rfl
  · rw [Process.handles_receive hactions hpoint, Process.settled_of_nil hactions]
    exact entry_receivePacket

end Process

end MicroKernel.Network
