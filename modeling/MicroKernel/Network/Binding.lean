import MicroKernel.Lib.Transition
import MicroKernel.Network.Router

/-!
# The bound device

`InitiateRouter` of `kernel/network/router.c` with the driver below it. The driver reaches one device at
a time, at the hardware address of the last `ntBindDevice`: a packet leaves on the port that is bound
when it is sent, and a packet comes from the port that is bound when the router looks for one.

## Main definitions

* `BoundRouter`: the variables of the router, the hardware address, and the calls of the driver so far
* `BoundRouter.initiateRouter`, `BoundRouter.reconnection`, `BoundRouter.handle`: the code, in its order
* `BoundProcess.step`: a reconnection attempt, or a look for a packet
* `Performs`: code that carries out the actions of the router, each on its own port
* `Routed`: where a received packet and the answers to it go

## Main results

* `Performs.reconnection`, `Performs.handle`: the code carries out the actions of `Process`
* `BoundProcess.reachable_process`: its runs are runs of `Process`
* `routed_of_reachable`: packets are sent to detected devices, and routed by the table, in every run
-/

namespace MicroKernel.Network

open Transition

/-! ## The driver -/

/-- The hardware address of the device at a port, from `PERIPHERAL_ADDRESS_BEGIN` of the board. -/
def peripheralAddress (base : UInt32) (deviceIndex : Port) : UInt32 :=
  base + UInt32.ofNat deviceIndex * 0x10000

/-- Each port has a hardware address of its own. -/
theorem peripheralAddress_injective (base : UInt32) :
    Function.Injective (peripheralAddress base) := by
  have hoffset : Function.Injective fun d : Port => UInt32.ofNat d * 0x10000 := by decide
  exact fun c d h => hoffset ((UInt32.add_right_inj base).mp h)

/-- A call of the driver, with the hardware address it reaches. A packet is sent with the routing table
as it stands. -/
inductive DriverCall
  | packetClearAll (hardwareAddress : UInt32)
  | packetSend (hardwareAddress : UInt32) (packet : NetworkPacket) (routingTable : RoutingTable)

/-- The packet that a call sends, and the hardware address. -/
def DriverCall.sent : DriverCall → Option (UInt32 × NetworkPacket)
  | .packetSend hardwareAddress packet _ => some (hardwareAddress, packet)
  | .packetClearAll _ => none

/-- The router and its driver: the variables of the router, the hardware address of the driver, and the
calls made so far. -/
structure BoundRouter where
  router : Router
  hardwareAddress : UInt32
  calls : List DriverCall

namespace BoundRouter

abbrev table (m : BoundRouter) : RoutingTable := m.router.routingTable

/-- An assignment to the variables of the router. -/
def assign (f : Router → Router) (m : BoundRouter) : BoundRouter :=
  { m with router := f m.router }

/-- Assignments to the routing table. -/
def acts (actions : List RouterAction) (m : BoundRouter) : BoundRouter :=
  m.assign fun router => { router with routingTable := router.routingTable.acts actions }

def ntBindDevice (base : UInt32) (deviceIndex : Port) (m : BoundRouter) : BoundRouter :=
  { m with hardwareAddress := peripheralAddress base deviceIndex }

/-- `ntCheckDevice`, with the hardware addresses at which a network device answers. -/
def ntCheckDevice (present : UInt32 → Bool) (m : BoundRouter) : Bool := present m.hardwareAddress

def ntPacketClearAll (m : BoundRouter) : BoundRouter :=
  { m with calls := m.calls ++ [.packetClearAll m.hardwareAddress] }

def ntPacketSend (packet : NetworkPacket) (m : BoundRouter) : BoundRouter :=
  { m with calls := m.calls ++ [.packetSend m.hardwareAddress packet m.table] }

/-- `ntPacketReceive`, with the packets that stand in the devices. -/
def ntPacketReceive (received : UInt32 → Option NetworkPacket) (m : BoundRouter) :
    Option NetworkPacket :=
  received m.hardwareAddress

/-! ## Power-on -/

section Code

variable (base : UInt32)

/-- Initiate the routing table: the body of the loop. -/
def initiateDevice (present : UInt32 → Bool) (m : BoundRouter) (s : Port) : BoundRouter :=
  if m.table.deviceState s = 1 then m
  else
    let m := m.acts [.setState s 0, .setType s 0, .setAddressLow s 0, .setAddressHigh s 0,
      .setState s 0, .setType s 0]
    -- Initiate NIC baud rate
    let m := m.ntBindDevice base s
    if m.ntCheckDevice present then m.acts [.setState s 1, .setType s clientTypeUnknown] else m

/-- Connect to adjacent routers: the body of the loop. -/
def connectDevice (m : BoundRouter) (s : Port) : BoundRouter :=
  if m.table.deviceState s = 0 then m
  else (m.ntBindDevice base s).ntPacketSend packetRouterHandshakeOutgoing

/-- What the router does before its main loop, with the devices that answer at each retry. -/
def initiateRouter (check : ℕ → UInt32 → Bool) (m : BoundRouter) : BoundRouter :=
  let m := (List.range 3).foldl (fun m retry =>
    (List.finRange numberOfPeripherals).foldl (initiateDevice base (check retry)) m) m
  (List.range 3).foldl (fun m _ =>
    (List.finRange numberOfPeripherals).foldl (connectDevice base) m) m

/-! ## Reconnection attempts -/

/-- Initiate a hot inserted NIC card: the body of the first loop. -/
def insertDevice (present : UInt32 → Bool) (m : BoundRouter) (ds : Port) : BoundRouter :=
  if m.table.deviceType ds ≠ clientTypeUnknown then m
  else
    -- Initiate NIC baud rate
    let m := m.ntBindDevice base ds
    if m.ntCheckDevice present then m.acts [.setState ds 1] else m

/-- Initiate a hot inserted NIC card: the body of the second loop. -/
def requestRouter (m : BoundRouter) (ds : Port) : BoundRouter :=
  if m.table.deviceState ds = 0 then m
  else if m.table.deviceType ds ≠ clientTypeUnknown then m
  else (m.ntBindDevice base ds).ntPacketClearAll.ntPacketSend packetRouterHandshakeOutgoing

/-- Initiate a hot inserted NIC card. -/
def hotInsert (present : UInt32 → Bool) (m : BoundRouter) : BoundRouter :=
  let m := (List.finRange numberOfPeripherals).foldl (insertDevice base present) m
  (List.finRange numberOfPeripherals).foldl (requestRouter base) m

/-- What the time out counter leads to. -/
def timeOut (present : UInt32 → Bool) (s : Port) (m : BoundRouter) : BoundRouter :=
  if m.router.reconnRequestTimeOut > 2 then
    -- Lengthen connection request interval
    let m := m.assign fun router => { router with reconnRequestRate := reconnRequestMax }
    if m.router.reconnRequestTimeOut > 10 then
      let m := m.assign fun router => { router with
        reconnRequestRate := reconnRequestMin
        reconnRequestTimeOut := 0 }
      (m.hotInsert base present).ntBindDevice base s
    else m
  else m

/-- What the router does when the counter of a port, which is bound, has passed the rate. -/
def retry (present : UInt32 → Bool) (s : Port) (m : BoundRouter) : BoundRouter :=
  let m := m.timeOut base present s
  -- Only reconnect to known router devices
  if m.table.deviceType s = clientTypeRouter then
    m.ntPacketClearAll.ntPacketSend packetRouterHandshakeOutgoing
  else m

/-- The reconnection attempt of a port, which is bound. -/
def reconnection (present : UInt32 → Bool) (s : Port) (m : BoundRouter) : BoundRouter :=
  let m := m.assign fun router => { router with
    reconnRequestCounter :=
      Function.update router.reconnRequestCounter s (router.reconnRequestCounter s + 1) }
  if m.router.reconnRequestCounter s > m.router.reconnRequestRate then
    let m := m.assign fun router => { router with
      reconnRequestCounter := Function.update router.reconnRequestCounter s 0 }
    -- Time out counter
    let m :=
      if s = 0 then
        m.assign fun router => { router with
          reconnRequestTimeOut := router.reconnRequestTimeOut + 1 }
      else m
    m.retry base present s
  else m

/-! ## Incoming packets -/

/-- Router connection request, and its return. -/
def routerRequest (s : Port) (receive : NetworkPacket) (m : BoundRouter) : BoundRouter :=
  let m :=
    if receive.data 0 = 0x55 then
      (m.acts [.setType s clientTypeRouter]).ntPacketSend packetRouterHandshakeReturn
    else m
  if receive.data 0 = 0xAA then m.acts [.setType s clientTypeRouter] else m

/-- Incoming to this server. -/
def incoming (s : Port) (receive : NetworkPacket) (m : BoundRouter) : BoundRouter :=
  if receive.IsClientRequest then
    -- Send the return packet acknowledging the client connection request
    (m.ntPacketSend packetClientHandshake).acts [.setType s clientTypeNode,
      .setAddressLow s receive.addrS.low, .setAddressHigh s receive.addrS.high]
  else
    let m := if receive.addrS = routerAddress then m.routerRequest s receive else m
    -- Return the ping packet to the sender
    if receive.addrS = noAddress then m.ntPacketSend receive else m

/-- Check if the destination address node is in this routing table: the loop over the ports, and
`destinationDeviceLocated`. -/
def sendToNode (receive : NetworkPacket) : List Port → BoundRouter → BoundRouter × Bool
  | [], m => (m, false)
  | d :: ds, m =>
    if m.table.deviceType d = clientTypeNode then
      if receive.addrD = m.table.address d then
        ((m.ntBindDevice base d).ntPacketSend receive, true)
      else sendToNode receive ds m
    else sendToNode receive ds m

/-- Route the packet to any default gateway currently connected: the body of the loop. -/
def sendToGateway (s : Port) (receive : NetworkPacket) (m : BoundRouter) (d : Port) :
    BoundRouter :=
  if s = d then m
  else if m.table.deviceType d = clientTypeRouter then
    (m.ntBindDevice base d).ntPacketSend receive
  else m

/-- Handle client packets and route them to the destination address, or through the default gateways. -/
def route (s : Port) (receive : NetworkPacket) (m : BoundRouter) : BoundRouter :=
  let located := sendToNode base receive (List.finRange numberOfPeripherals) m
  if located.2 then located.1
  else (List.finRange numberOfPeripherals).foldl (sendToGateway base s receive) located.1

/-- What the router does with a packet it has received on a port, which is bound. -/
def handle (s : Port) (receive : NetworkPacket) (m : BoundRouter) : BoundRouter :=
  -- Check packet address
  if receive.IsBlank then m
  else
    -- Clear old packet data
    let m := m.ntPacketClearAll
    if receive.addrD = routerAddress then m.incoming s receive else m.route base s receive

end Code

/-- The packet that a port receives: the router does not look for one on an inactive port. -/
def receives (received : UInt32 → Option NetworkPacket) (s : Port) (m : BoundRouter) :
    Option NetworkPacket :=
  if m.table.deviceState s = 0 then none else m.ntPacketReceive received

end BoundRouter

/-! ## The main loop -/

/-- The main loop: the router with its driver, and where the loop stands. -/
structure BoundProcess where
  bound : BoundRouter
  point : Point

/-- The two halves of a visit to a port, with the devices that answer and the packets that stand in the
devices. -/
inductive BoundEvent
  | attempt (present : UInt32 → Bool)
  | receive (received : UInt32 → Option NetworkPacket)

/-- The router with its driver when it has been initiated. -/
def BoundProcess.powerOn (base : UInt32) (check : ℕ → UInt32 → Bool) (hardwareAddress : UInt32) :
    BoundProcess where
  bound := BoundRouter.initiateRouter base check
    ⟨⟨.zero, fun _ => 0, 0, reconnRequestMin⟩, hardwareAddress, []⟩
  point := .visit 0

def BoundProcess.step (base : UInt32) : BoundEvent → BoundProcess → Option BoundProcess
  | .attempt present, ⟨m, .visit s⟩ =>
    some ⟨(m.ntBindDevice base s).reconnection base present s, .receive s⟩
  | .receive received, ⟨m, .receive s⟩ =>
    some ⟨match m.receives received s with
      | none => m
      | some receive => m.handle base s receive, .visit (s + 1)⟩
  | _, _ => none

/-! ## What the code carries out -/

/-- The call that an action makes, on its own port. -/
def RouterAction.call (base : UInt32) (table : RoutingTable) : RouterAction → Option DriverCall
  | .clear d => some (.packetClearAll (peripheralAddress base d))
  | .send d packet => some (.packetSend (peripheralAddress base d) packet table)
  | _ => none

/-- The calls that actions make, each on its own port. -/
def driverCalls (base : UInt32) : List RouterAction → RoutingTable → List DriverCall
  | [], _ => []
  | action :: actions, table =>
    (action.call base table).toList ++ driverCalls base actions (table.act action)

/-- From `m` to `m'`, the actions are carried out, each on its own port. -/
structure Performs (base : UInt32) (actions : List RouterAction) (m m' : BoundRouter) : Prop where
  router : m'.router = { m.router with routingTable := m.table.acts actions }
  calls : m'.calls = m.calls ++ driverCalls base actions m.table

section Performs

variable {base : UInt32} {m m' m'' : BoundRouter} {actions actions' : List RouterAction}
  {s d : Port} {receive packet : NetworkPacket}

theorem driverCalls_append (table : RoutingTable) :
    driverCalls base (actions ++ actions') table =
      driverCalls base actions table ++ driverCalls base actions' (table.acts actions) := by
  induction actions generalizing table with
  | nil => rfl
  | cons action actions ih =>
    simp only [List.cons_append, driverCalls, ih, List.append_assoc]
    rfl

/-- The table when some ports have become active. -/
theorem RoutingTable.acts_setState (table : RoutingTable) (ds : List Port) :
    table.acts (ds.map (.setState · 1)) = { table with
      deviceState := fun d => if d ∈ ds then 1 else table.deviceState d } := by
  induction ds generalizing table with
  | nil => simp [RoutingTable.acts]
  | cons c ds ih =>
    show (table.act (.setState c 1)).acts _ = _
    rw [ih]
    refine RoutingTable.ext (funext fun d => ?_) rfl rfl rfl
    by_cases hd : d ∈ ds
    · simp [hd]
    · rcases eq_or_ne d c with rfl | hne
      · simp [hd, RoutingTable.act]
      · simp [hd, hne, RoutingTable.act]

/-- What is only sent leaves the table. -/
theorem RoutingTable.acts_map_send (table : RoutingTable) (ds : List Port) (packet : NetworkPacket) :
    table.acts (ds.map (.send · packet)) = table := by
  induction ds with
  | nil => rfl
  | cons d ds ih => exact ih

/-- What keeps the entries keeps the types. -/
theorem RoutingTable.deviceType_acts_of_keeps {table : RoutingTable}
    (h : ∀ action ∈ actions, action.KeepsEntries) :
    (table.acts actions).deviceType = table.deviceType := by
  induction actions generalizing table with
  | nil => rfl
  | cons action actions ih =>
    refine (ih fun a ha => h a (List.mem_cons_of_mem _ ha)).trans ?_
    have haction := h action List.mem_cons_self
    cases action with
    | setType | setAddressLow | setAddressHigh => exact haction.elim
    | clear | send | setState => rfl

theorem keepsEntries_hotInsert (present : Port → Bool) (table : RoutingTable) :
    ∀ action ∈ Network.hotInsert present table, action.KeepsEntries := by
  intro action h
  rcases List.mem_append.mp h with h | h
  · obtain ⟨d, -, rfl⟩ := List.mem_map.mp h
    trivial
  · obtain ⟨d, -, hd⟩ := List.mem_flatMap.mp h
    obtain rfl | rfl := List.mem_pair.mp hd <;> trivial

/-- The packet is sent to the first node that carries its destination, if there is one. -/
theorem BoundRouter.sendToNode_eq (receive : NetworkPacket) (ds : List Port) (m : BoundRouter) :
    BoundRouter.sendToNode base receive ds m =
      match ds.find? fun d => m.table.Carries receive.addrD d with
      | some d => ((m.ntBindDevice base d).ntPacketSend receive, true)
      | none => (m, false) := by
  induction ds with
  | nil => rfl
  | cons d ds ih =>
    rw [BoundRouter.sendToNode, List.find?_cons, ih]
    by_cases htype : m.table.deviceType d = clientTypeNode
    · by_cases haddress : receive.addrD = m.table.address d
      · rw [if_pos htype, if_pos haddress, decide_eq_true ⟨htype, haddress⟩]
      · rw [if_pos htype, if_neg haddress, decide_eq_false fun h => haddress h.2]
    · rw [if_neg htype, decide_eq_false fun h => htype h.1]

theorem BoundRouter.hardwareAddress_timeOut (hbound : m.hardwareAddress = peripheralAddress base s)
    (present : UInt32 → Bool) :
    (m.timeOut base present s).hardwareAddress = peripheralAddress base s := by
  unfold BoundRouter.timeOut
  split
  · dsimp only
    split
    · rfl
    · exact hbound
  · exact hbound

theorem BoundRouter.hardwareAddress_reconnection (hbound : m.hardwareAddress = peripheralAddress base s)
    (present : UInt32 → Bool) :
    (m.reconnection base present s).hardwareAddress = peripheralAddress base s := by
  have hretry : ∀ m : BoundRouter, m.hardwareAddress = peripheralAddress base s →
      (m.retry base present s).hardwareAddress = peripheralAddress base s := by
    intro m hbound
    have htimeOut := BoundRouter.hardwareAddress_timeOut hbound present
    unfold BoundRouter.retry
    dsimp only
    split
    · exact htimeOut
    · exact htimeOut
  unfold BoundRouter.reconnection
  dsimp only
  split
  · split
    · exact hretry _ hbound
    · exact hretry _ hbound
  · exact hbound

namespace Performs

theorem table (h : Performs base actions m m') : m'.table = m.table.acts actions := by
  rw [BoundRouter.table, h.router]

theorem nil (m : BoundRouter) : Performs base [] m m where
  router := rfl
  calls := (List.append_nil _).symm

theorem append (h : Performs base actions m m') (h' : Performs base actions' m' m'') :
    Performs base (actions ++ actions') m m'' where
  router := by rw [h'.router, h.table, h.router, RoutingTable.acts_append]
  calls := by rw [h'.calls, h.calls, h.table, driverCalls_append, List.append_assoc]

theorem cons {action : RouterAction} (h : Performs base [action] m m')
    (h' : Performs base actions m' m'') : Performs base (action :: actions) m m'' :=
  h.append h'

/-- The device that is bound before matters to no action, nor the one that is bound behind them. -/
theorem bind (h : Performs base actions m m') (d : Port) :
    Performs base actions m (m'.ntBindDevice base d) := by
  unfold BoundRouter.ntBindDevice
  generalize peripheralAddress base d = hardwareAddress
  exact ⟨h.router, h.calls⟩

theorem of_bind (h : Performs base actions (m.ntBindDevice base d) m') :
    Performs base actions m m' := by
  unfold BoundRouter.ntBindDevice at h
  generalize peripheralAddress base d = hardwareAddress at h
  exact ⟨h.router, h.calls⟩

theorem acts (hassign : ∀ action ∈ actions, ∀ table, action.call base table = none)
    (m : BoundRouter) : Performs base actions m (m.acts actions) where
  router := rfl
  calls := by
    have hcalls : ∀ table, driverCalls base actions table = [] := by
      induction actions with
      | nil => exact fun table => rfl
      | cons action actions ih =>
        intro table
        rw [driverCalls, hassign action List.mem_cons_self, Option.toList_none, List.nil_append]
        exact ih (fun a ha => hassign a (List.mem_cons_of_mem _ ha)) _
    rw [hcalls, List.append_nil]
    rfl

theorem clear (hbound : m.hardwareAddress = peripheralAddress base d) :
    Performs base [.clear d] m m.ntPacketClearAll where
  router := rfl
  calls := by rw [BoundRouter.ntPacketClearAll, hbound]; rfl

theorem send (hbound : m.hardwareAddress = peripheralAddress base d) (packet : NetworkPacket) :
    Performs base [.send d packet] m (m.ntPacketSend packet) where
  router := rfl
  calls := by rw [BoundRouter.ntPacketSend, hbound]; rfl

/-- A packet is sent on the device that is bound for it. -/
theorem bind_send (m : BoundRouter) (d : Port) (packet : NetworkPacket) :
    Performs base [.send d packet] m ((m.ntBindDevice base d).ntPacketSend packet) :=
  (send rfl packet).of_bind

/-- Code that is run under a condition. -/
theorem ite {p : Prop} [Decidable p] (h : p → Performs base actions m m') :
    Performs base (if p then actions else []) m (if p then m' else m) := by
  by_cases hp : p
  · rw [if_pos hp, if_pos hp]
    exact h hp
  · rw [if_neg hp, if_neg hp]
    exact nil m

theorem setType (m : BoundRouter) (d : Port) (byte : UInt8) :
    Performs base [.setType d byte] m (m.acts [.setType d byte]) :=
  acts (by simp [RouterAction.call]) m

/-! ### Incoming packets -/

theorem routerRequest (hbound : m.hardwareAddress = peripheralAddress base s)
    (receive : NetworkPacket) :
    Performs base ((if receive.data 0 = 0x55 then
        [.setType s clientTypeRouter, .send s packetRouterHandshakeReturn] else []) ++
      (if receive.data 0 = 0xAA then [.setType s clientTypeRouter] else []))
      m (m.routerRequest s receive) :=
  have hbound' : (m.acts [.setType s clientTypeRouter]).hardwareAddress = peripheralAddress base s :=
    hbound
  (ite fun _ => (setType m s _).append (send hbound' _)).append (ite fun _ => setType _ s _)

/-- A control packet is answered on the device that is bound. -/
theorem incoming (hbound : m.hardwareAddress = peripheralAddress base s)
    (receive : NetworkPacket) : Performs base (control s receive) m (m.incoming s receive) := by
  unfold control BoundRouter.incoming
  by_cases hclient : receive.IsClientRequest
  · rw [if_pos hclient, if_pos hclient]
    exact (send hbound _).append (acts (by simp [RouterAction.call]) _)
  · rw [if_neg hclient, if_neg hclient]
    refine (ite fun _ => routerRequest hbound receive).append (ite fun _ => send ?_ receive)
    -- neither request binds another device
    unfold BoundRouter.routerRequest
    split
    · split <;> split <;> exact hbound
    · exact hbound

theorem sendToGateways (s : Port) (receive : NetworkPacket) (ds : List Port) (m : BoundRouter) :
    Performs base ((ds.filter fun d => s ≠ d ∧ m.table.deviceType d = clientTypeRouter).map
      (.send · receive)) m (ds.foldl (BoundRouter.sendToGateway base s receive) m) := by
  induction ds generalizing m with
  | nil => exact nil m
  | cons d ds ih =>
    rw [List.foldl_cons, List.filter_cons, BoundRouter.sendToGateway]
    by_cases hs : s = d
    · rw [if_pos hs, if_neg (by simp [hs])]
      exact ih m
    · rw [if_neg hs]
      by_cases htype : m.table.deviceType d = clientTypeRouter
      · rw [if_pos htype, if_pos (by simp [hs, htype])]
        exact (bind_send m d receive).append
          (ih ((m.ntBindDevice base d).ntPacketSend receive))
      · rw [if_neg htype, if_neg (by simp [htype])]
        exact ih m

theorem route (s : Port) (receive : NetworkPacket) (m : BoundRouter) :
    Performs base (forward s receive m.table) m (m.route base s receive) := by
  unfold forward RoutingTable.locate BoundRouter.route
  rw [BoundRouter.sendToNode_eq]
  cases (List.finRange numberOfPeripherals).find? fun d => m.table.Carries receive.addrD d with
  | some d => exact bind_send m d receive
  | none => exact sendToGateways s receive _ m

/-- **What the code does with a packet**: the actions of `receivePacket`. -/
theorem handle (hbound : m.hardwareAddress = peripheralAddress base s) (receive : NetworkPacket) :
    Performs base (receivePacket s receive m.table) m (m.handle base s receive) := by
  unfold receivePacket BoundRouter.handle
  by_cases hblank : receive.IsBlank
  · rw [if_pos hblank, if_pos hblank]
    exact nil m
  · rw [if_neg hblank, if_neg hblank]
    refine (clear hbound).cons ?_
    by_cases hd : receive.addrD = routerAddress
    · rw [if_pos hd, if_pos hd]
      exact incoming (m := m.ntPacketClearAll) hbound receive
    · rw [if_neg hd, if_neg hd]
      exact route s receive m.ntPacketClearAll

/-! ### Reconnection attempts -/

theorem insertDevices (present : UInt32 → Bool) (ds : List Port) (m : BoundRouter) :
    Performs base (((ds.filter fun d => m.table.deviceType d = clientTypeUnknown).filter
      fun d => present (peripheralAddress base d)).map (.setState · 1)) m
      (ds.foldl (BoundRouter.insertDevice base present) m) := by
  induction ds generalizing m with
  | nil => exact nil m
  | cons d ds ih =>
    rw [List.foldl_cons, List.filter_cons, BoundRouter.insertDevice]
    by_cases htype : m.table.deviceType d = clientTypeUnknown
    · rw [if_neg (not_not_intro htype), if_pos (decide_eq_true htype), List.filter_cons]
      show Performs base _ m (List.foldl _ (if present (peripheralAddress base d) then _ else _) ds)
      by_cases hpresent : present (peripheralAddress base d)
      · rw [if_pos hpresent, if_pos hpresent]
        exact (acts (by simp [RouterAction.call]) _).of_bind.cons
          (ih ((m.ntBindDevice base d).acts [.setState d 1]))
      · rw [if_neg hpresent, if_neg hpresent]
        exact (ih (m.ntBindDevice base d)).of_bind
    · rw [if_pos htype, if_neg (by simpa using htype)]
      exact ih m

theorem requestRouters (ds : List Port) (m : BoundRouter) :
    Performs base ((ds.filter fun d =>
        m.table.deviceType d = clientTypeUnknown ∧ m.table.deviceState d ≠ 0).flatMap fun d =>
          [.clear d, .send d packetRouterHandshakeOutgoing]) m
      (ds.foldl (BoundRouter.requestRouter base) m) := by
  induction ds generalizing m with
  | nil => exact nil m
  | cons d ds ih =>
    rw [List.foldl_cons, List.filter_cons, BoundRouter.requestRouter]
    by_cases hstate : m.table.deviceState d = 0
    · rw [if_pos hstate, if_neg (by simp [hstate])]
      exact ih m
    · rw [if_neg hstate]
      by_cases htype : m.table.deviceType d = clientTypeUnknown
      · rw [if_neg (not_not_intro htype), if_pos (by simp [hstate, htype]), List.flatMap_cons]
        exact ((clear rfl).cons (send rfl _)).of_bind.append (ih ((m.ntBindDevice base
          d).ntPacketClearAll.ntPacketSend packetRouterHandshakeOutgoing))
      · rw [if_pos htype, if_neg (by simp [htype])]
        exact ih m

theorem hotInsert (present : UInt32 → Bool) (m : BoundRouter) :
    Performs base (Network.hotInsert (fun d => present (peripheralAddress base d)) m.table) m
      (m.hotInsert base present) := by
  have hinsert := @insertDevices base present (List.finRange numberOfPeripherals) m
  have hrequest := @requestRouters base (List.finRange numberOfPeripherals)
    ((List.finRange numberOfPeripherals).foldl (BoundRouter.insertDevice base present) m)
  -- a port of unknown type is active behind the first loop if it was, or if its device answered
  have hactive : ((List.finRange numberOfPeripherals).filter fun d =>
        m.table.deviceType d = clientTypeUnknown).filter (fun d =>
          present (peripheralAddress base d) ∨ m.table.deviceState d ≠ 0) =
      (List.finRange numberOfPeripherals).filter fun d =>
        ((List.finRange numberOfPeripherals).foldl (BoundRouter.insertDevice base present)
          m).table.deviceType d = clientTypeUnknown ∧
        ((List.finRange numberOfPeripherals).foldl (BoundRouter.insertDevice base present)
          m).table.deviceState d ≠ 0 := by
    rw [hinsert.table, RoutingTable.acts_setState, List.filter_filter]
    refine List.filter_congr fun d _ => ?_
    by_cases htype : m.table.deviceType d = clientTypeUnknown
    · by_cases hpresent : present (peripheralAddress base d)
      · simp [htype, hpresent]
      · simp [htype, hpresent]
    · simp [htype]
  rw [← hactive] at hrequest
  exact hinsert.append hrequest

/-- What the time out counter leads to: the counters of `retry`, and the first of its actions. -/
theorem timeOut (present : UInt32 → Bool) (s : Port) (m : BoundRouter) :
    Performs base (if m.router.reconnRequestTimeOut > 2 ∧ m.router.reconnRequestTimeOut > 10 then
        Network.hotInsert (fun d => present (peripheralAddress base d)) m.table else [])
      (m.assign fun router => (Network.retry (fun d => present (peripheralAddress base d)) s router).1)
      (m.timeOut base present s) := by
  unfold BoundRouter.timeOut Network.retry
  by_cases hlong : m.router.reconnRequestTimeOut > 2
  · by_cases hinsert : m.router.reconnRequestTimeOut > 10
    · have hcounters := (@hotInsert base present (m.assign fun router => { router with
        reconnRequestRate := reconnRequestMin
        reconnRequestTimeOut := 0 })).bind s
      simpa [BoundRouter.assign, hlong, hinsert] using hcounters
    · simpa [BoundRouter.assign, hlong, hinsert] using nil _
  · simpa [BoundRouter.assign, hlong] using nil m

theorem retry (hbound : m.hardwareAddress = peripheralAddress base s) (present : UInt32 → Bool) :
    Performs base (Network.retry (fun d => present (peripheralAddress base d)) s m.router).2
      (m.assign fun router => (Network.retry (fun d => present (peripheralAddress base d)) s router).1)
      (m.retry base present s) := by
  have htimeOut := @timeOut base present s m
  have htype : (m.timeOut base present s).table.deviceType = m.table.deviceType := by
    rw [htimeOut.table]
    refine RoutingTable.deviceType_acts_of_keeps fun action h => ?_
    split at h
    · exact keepsEntries_hotInsert _ _ action h
    · cases h
  have hrequest : Performs base
      (if m.table.deviceType s = clientTypeRouter then
        [.clear s, .send s packetRouterHandshakeOutgoing] else [])
      (m.timeOut base present s) (m.retry base present s) := by
    rw [BoundRouter.retry, htype]
    have hbound' := BoundRouter.hardwareAddress_timeOut hbound present
    exact ite fun _ =>
      (clear hbound').cons (send (m := (m.timeOut base present s).ntPacketClearAll) hbound' _)
  simpa only [Network.retry, decide_eq_true_eq] using htimeOut.append hrequest

/-- **What the code does at a reconnection attempt**: the actions of `reconnect`, with its counters. -/
theorem reconnection (hbound : m.hardwareAddress = peripheralAddress base s)
    (present : UInt32 → Bool) :
    Performs base (reconnect (fun d => present (peripheralAddress base d)) s m.router).2
      (m.assign fun router =>
        (reconnect (fun d => present (peripheralAddress base d)) s router).1)
      (m.reconnection base present s) := by
  unfold reconnect BoundRouter.reconnection
  by_cases hrate : m.router.reconnRequestCounter s + 1 > m.router.reconnRequestRate
  · rcases eq_or_ne s 0 with rfl | hs
    · have h := retry (m := m.assign fun router => { router with
        reconnRequestCounter := Function.update router.reconnRequestCounter 0 0
        reconnRequestTimeOut := router.reconnRequestTimeOut + 1 }) hbound present
      simpa [BoundRouter.assign, hrate] using h
    · have h := retry (m := m.assign fun router => { router with
        reconnRequestCounter := Function.update router.reconnRequestCounter s 0 }) hbound present
      simpa [BoundRouter.assign, hrate, hs] using h
  · simpa [BoundRouter.assign, hrate] using nil _

/-! ### Power-on -/

theorem initiateDevice (present : UInt32 → Bool) (s : Port) (m : BoundRouter) :
    Performs base (initiatePort (present (peripheralAddress base s)) s m.table) m
      (m.initiateDevice base present s) := by
  unfold initiatePort BoundRouter.initiateDevice
  by_cases hstate : m.table.deviceState s = 1
  · rw [if_pos hstate, if_pos hstate]
    exact nil m
  · rw [if_neg hstate, if_neg hstate]
    exact ((acts (by simp [RouterAction.call]) m).bind s).append
      (ite fun _ => acts (by simp [RouterAction.call]) _)

theorem initiateDevices (check : ℕ → UInt32 → Bool) (rounds : List (ℕ × Port)) (m : BoundRouter) :
    Performs base
      (initiateTable (fun retry d => check retry (peripheralAddress base d)) rounds m.table) m
      (rounds.foldl (fun m round => m.initiateDevice base (check round.1) round.2) m) := by
  induction rounds generalizing m with
  | nil => exact nil m
  | cons round rounds ih =>
    have hdevice := @initiateDevice base (check round.1) round.2 m
    refine hdevice.append ?_
    rw [← hdevice.table]
    exact ih _

theorem connectDevices (ds : List Port) (m : BoundRouter) :
    Performs base ((ds.filter fun s => m.table.deviceState s ≠ 0).map
      (.send · packetRouterHandshakeOutgoing)) m
      (ds.foldl (BoundRouter.connectDevice base) m) := by
  induction ds generalizing m with
  | nil => exact nil m
  | cons d ds ih =>
    rw [List.foldl_cons, List.filter_cons, BoundRouter.connectDevice]
    by_cases hstate : m.table.deviceState d = 0
    · rw [if_pos hstate, if_neg (by simp [hstate])]
      exact ih m
    · rw [if_neg hstate, if_pos (by simp [hstate])]
      exact (bind_send m d _).append
        (ih ((m.ntBindDevice base d).ntPacketSend packetRouterHandshakeOutgoing))

theorem connectRounds (n : ℕ) (m : BoundRouter) :
    Performs base (List.replicate n (connect m.table)).flatten m
      ((List.range n).foldl (fun m _ =>
        (List.finRange numberOfPeripherals).foldl (BoundRouter.connectDevice base) m) m) := by
  induction n generalizing m with
  | zero => exact nil m
  | succ n ih =>
    rw [List.range_succ_eq_map, List.foldl_cons, List.foldl_map, List.replicate_succ,
      List.flatten_cons]
    have hround : Performs base (connect m.table) m _ :=
      connectDevices (List.finRange numberOfPeripherals) m
    refine hround.append ?_
    -- a round leaves the table
    have htable := hround.table.trans (RoutingTable.acts_map_send _ _ _)
    rw [← htable]
    exact ih _

theorem initiateRounds (check : ℕ → UInt32 → Bool) (rounds : List (ℕ × Port))
    (hm : m.table = .zero) {initiating : List RouterAction}
    (hinitiating : initiating =
      initiateTable (fun retry d => check retry (peripheralAddress base d)) rounds .zero) :
    Performs base
      (initiating ++ (List.replicate 3 (connect (RoutingTable.zero.acts initiating))).flatten) m
      ((List.range 3).foldl (fun m _ =>
        (List.finRange numberOfPeripherals).foldl (BoundRouter.connectDevice base) m)
        (rounds.foldl (fun m round => m.initiateDevice base (check round.1) round.2) m)) := by
  have htable := @initiateDevices base check rounds m
  rw [hm, ← hinitiating] at htable
  refine htable.append ?_
  rw [← hm, ← htable.table]
  exact connectRounds 3 _

/-- **What the code does before its main loop**: the actions of `initiate`. -/
theorem initiateRouter (check : ℕ → UInt32 → Bool) (hm : m.table = .zero) :
    Performs base (initiate fun retry d => check retry (peripheralAddress base d)) m
      (m.initiateRouter base check) := by
  have h := @initiateRounds base m check ((List.range 3).flatMap fun retry =>
    (List.finRange numberOfPeripherals).map fun s => (retry, s)) hm _ rfl
  simp only [List.foldl_flatMap, List.foldl_map] at h
  exact h

end Performs

end Performs

/-! ## Detected devices -/

/-- Only detected devices have a type, and only to detected devices packets are sent. -/
structure BoundRouter.Detected (base : UInt32) (m : BoundRouter) : Prop where
  state : ∀ d, m.table.deviceState d = 0 ∨ m.table.deviceState d = 1
  type : ∀ d, m.table.deviceType d ≠ clientTypeUnknown → m.table.deviceState d = 1
  sent : ∀ hardwareAddress packet table, .packetSend hardwareAddress packet table ∈ m.calls →
    ∃ d, hardwareAddress = peripheralAddress base d ∧ table.deviceState d = 1

section Detected

variable {base : UInt32} {m : BoundRouter} {s d : Port} {receive packet : NetworkPacket}

namespace BoundRouter.Detected

theorem active (h : m.Detected base) (hd : m.table.deviceState d ≠ 0) :
    m.table.deviceState d = 1 :=
  (h.state d).resolve_left hd

theorem bind (h : m.Detected base) (d : Port) : (m.ntBindDevice base d).Detected base := by
  unfold BoundRouter.ntBindDevice
  generalize peripheralAddress base d = hardwareAddress
  exact ⟨h.state, h.type, h.sent⟩

theorem assign (h : m.Detected base) {f : Router → Router}
    (hf : (f m.router).routingTable = m.table) : (m.assign f).Detected base where
  state := (congrArg (fun table : RoutingTable =>
    ∀ d, table.deviceState d = 0 ∨ table.deviceState d = 1) hf).mpr h.state
  type := (congrArg (fun table : RoutingTable =>
    ∀ d, table.deviceType d ≠ clientTypeUnknown → table.deviceState d = 1) hf).mpr h.type
  sent := h.sent

theorem clear (h : m.Detected base) : m.ntPacketClearAll.Detected base where
  state := h.state
  type := h.type
  sent := fun hardwareAddress packet table hmem => by
    rcases List.mem_append.mp hmem with hmem | hmem
    · exact h.sent _ _ _ hmem
    · cases List.mem_singleton.mp hmem

theorem send (h : m.Detected base) (hbound : m.hardwareAddress = peripheralAddress base d)
    (hd : m.table.deviceState d = 1) (packet : NetworkPacket) :
    (m.ntPacketSend packet).Detected base where
  state := h.state
  type := h.type
  sent := fun hardwareAddress packet table hmem => by
    rcases List.mem_append.mp hmem with hmem | hmem
    · exact h.sent _ _ _ hmem
    · cases List.mem_singleton.mp hmem
      exact ⟨d, hbound, hd⟩

/-- Assignments that leave the state or make it that of a detected device, and that give a type to
detected devices only. -/
theorem acts (h : m.Detected base) {actions : List RouterAction}
    (hstate : ∀ d, (m.table.acts actions).deviceState d = m.table.deviceState d ∨
      (m.table.acts actions).deviceState d = 1)
    (htype : ∀ d, (m.table.acts actions).deviceType d = m.table.deviceType d ∨
      (m.table.acts actions).deviceType d = clientTypeUnknown ∨ m.table.deviceState d = 1) :
    (m.acts actions).Detected base where
  state := fun d => (hstate d).elim (fun heq => heq ▸ h.state d) .inr
  type := fun d hd => by
    have hactive : m.table.deviceState d = 1 := by
      obtain heq | hunknown | hactive := htype d
      · exact h.type d (heq ▸ hd)
      · exact absurd hunknown hd
      · exact hactive
    exact (hstate d).elim (·.trans hactive) id
  sent := h.sent

theorem foldl {α : Type*} {f : BoundRouter → α → BoundRouter} (h : m.Detected base)
    (hf : ∀ m a, m.Detected base → (f m a).Detected base) (as : List α) :
    (as.foldl f m).Detected base := by
  induction as generalizing m with
  | nil => exact h
  | cons a as ih => exact ih (hf m a h)

theorem initiateDevice (h : m.Detected base) (present : UInt32 → Bool) (s : Port) :
    (m.initiateDevice base present s).Detected base := by
  unfold BoundRouter.initiateDevice
  by_cases hstate : m.table.deviceState s = 1
  · rw [if_pos hstate]
    exact h
  · rw [if_neg hstate]
    -- an inactive port is zero already
    have hzero : m.table.deviceState s = 0 := (h.state s).resolve_right hstate
    have hinitiated : (m.acts [.setState s 0, .setType s 0, .setAddressLow s 0,
        .setAddressHigh s 0, .setState s 0, .setType s 0]).Detected base := by
      refine h.acts (fun d => .inl ?_) fun d => ?_
      · rcases eq_or_ne d s with rfl | hne
        · simp [RoutingTable.acts, RoutingTable.act, hzero]
        · simp [RoutingTable.acts, RoutingTable.act, hne]
      · rcases eq_or_ne d s with rfl | hne
        · exact .inr (.inl (by simp [RoutingTable.acts, RoutingTable.act, clientTypeUnknown]))
        · exact .inl (by simp [RoutingTable.acts, RoutingTable.act, hne])
    dsimp only
    split
    · refine (hinitiated.bind s).acts (fun d => ?_) fun d => ?_
      · rcases eq_or_ne d s with rfl | hne
        · exact .inr (by simp [RoutingTable.acts, RoutingTable.act])
        · exact .inl (by simp [RoutingTable.acts, RoutingTable.act, hne])
      · rcases eq_or_ne d s with rfl | hne
        · exact .inr (.inl (by simp [RoutingTable.acts, RoutingTable.act]))
        · exact .inl (by simp [RoutingTable.acts, RoutingTable.act, hne])
    · exact hinitiated.bind s

theorem connectDevice (h : m.Detected base) (s : Port) : (m.connectDevice base s).Detected base := by
  unfold BoundRouter.connectDevice
  split
  · exact h
  · next hstate => exact (h.bind s).send rfl (h.active hstate) _

theorem initiateRouter (h : m.Detected base) (check : ℕ → UInt32 → Bool) :
    (m.initiateRouter base check).Detected base :=
  (h.foldl (fun _ retry h => h.foldl (fun _ s h => h.initiateDevice (check retry) s) _) _).foldl
    (fun _ _ h => h.foldl (fun _ s h => h.connectDevice s) _) _

theorem insertDevice (h : m.Detected base) (present : UInt32 → Bool) (ds : Port) :
    (m.insertDevice base present ds).Detected base := by
  unfold BoundRouter.insertDevice
  split
  · exact h
  · dsimp only
    split
    · refine (h.bind ds).acts (fun d => ?_) fun d => .inl rfl
      rcases eq_or_ne d ds with rfl | hne
      · exact .inr (by simp [RoutingTable.acts, RoutingTable.act])
      · exact .inl (by simp [RoutingTable.acts, RoutingTable.act, hne])
    · exact h.bind ds

theorem requestRouter (h : m.Detected base) (ds : Port) :
    (m.requestRouter base ds).Detected base := by
  unfold BoundRouter.requestRouter
  split
  · exact h
  · next hstate =>
    split
    · exact h
    · exact (h.bind ds).clear.send (d := ds) rfl (h.active hstate) _

theorem timeOut (h : m.Detected base) (present : UInt32 → Bool) (s : Port) :
    (m.timeOut base present s).Detected base := by
  unfold BoundRouter.timeOut
  split
  · dsimp only
    split
    · refine BoundRouter.Detected.bind ?_ s
      refine (BoundRouter.Detected.foldl ?_ (fun _ ds h => h.insertDevice present ds) _).foldl
        (fun _ ds h => h.requestRouter ds) _
      exact (h.assign rfl).assign rfl
    · exact h.assign rfl
  · exact h

/-- A reconnection attempt sends to routers, which have been detected. -/
theorem reconnection (h : m.Detected base) (hbound : m.hardwareAddress = peripheralAddress base s)
    (present : UInt32 → Bool) : (m.reconnection base present s).Detected base := by
  have hretry : ∀ m : BoundRouter, m.Detected base →
      m.hardwareAddress = peripheralAddress base s → (m.retry base present s).Detected base := by
    intro m h hbound
    have htimeOut := h.timeOut present s
    unfold BoundRouter.retry
    dsimp only
    split
    · next htype =>
      refine htimeOut.clear.send (d := s) (BoundRouter.hardwareAddress_timeOut hbound present)
        (htimeOut.type s ?_) _
      rw [htype]
      decide
    · exact htimeOut
  unfold BoundRouter.reconnection
  dsimp only
  split
  · split
    · exact hretry _ (((h.assign rfl).assign rfl).assign rfl) hbound
    · exact hretry _ ((h.assign rfl).assign rfl) hbound
  · exact h.assign rfl

/-- A control packet is answered on its port, which becomes a node or a router. -/
theorem incoming (h : m.Detected base) (hbound : m.hardwareAddress = peripheralAddress base s)
    (hs : m.table.deviceState s = 1) (receive : NetworkPacket) :
    (m.incoming s receive).Detected base := by
  -- only the port that the packet came from changes its type, and that one was detected
  have hsetType : ∀ (m : BoundRouter) (byte : UInt8), m.Detected base →
      m.table.deviceState s = 1 → (m.acts [.setType s byte]).Detected base := by
    intro m byte h hs
    refine h.acts (fun d => .inl rfl) fun d => ?_
    rcases eq_or_ne d s with rfl | hne
    · exact .inr (.inr hs)
    · exact .inl (by simp [RoutingTable.acts, RoutingTable.act, hne])
  have hrequest : (m.routerRequest s receive).Detected base ∧
      (m.routerRequest s receive).hardwareAddress = peripheralAddress base s ∧
      (m.routerRequest s receive).table.deviceState s = 1 := by
    unfold BoundRouter.routerRequest
    dsimp only
    have hanswered : ((m.acts [.setType s clientTypeRouter]).ntPacketSend
        packetRouterHandshakeReturn).Detected base :=
      (hsetType m clientTypeRouter h hs).send (d := s) hbound hs _
    split
    · split
      · exact ⟨hsetType _ _ hanswered hs, hbound, hs⟩
      · exact ⟨hsetType m _ h hs, hbound, hs⟩
    · split
      · exact ⟨hanswered, hbound, hs⟩
      · exact ⟨h, hbound, hs⟩
  unfold BoundRouter.incoming
  split
  · -- a client's request
    refine (h.send hbound hs _).acts (fun d => .inl rfl) fun d => ?_
    rcases eq_or_ne d s with rfl | hne
    · exact .inr (.inr hs)
    · exact .inl (by simp [RoutingTable.acts, RoutingTable.act, hne, BoundRouter.ntPacketSend])
  · dsimp only
    split
    · split
      · exact hrequest.1.send hrequest.2.1 hrequest.2.2 _
      · exact h.send hbound hs _
    · split
      · exact hrequest.1
      · exact h

/-- A packet is routed to nodes and routers, which have been detected. -/
theorem route (h : m.Detected base) (s : Port) (receive : NetworkPacket) :
    (m.route base s receive).Detected base := by
  have hsend : ∀ (m : BoundRouter) (d : Port), m.Detected base →
      m.table.deviceType d ≠ clientTypeUnknown →
      ((m.ntBindDevice base d).ntPacketSend receive).Detected base :=
    fun m d h htype => (h.bind d).send (d := d) rfl (h.type d htype) receive
  unfold BoundRouter.route
  rw [BoundRouter.sendToNode_eq]
  cases hfind : (List.finRange numberOfPeripherals).find? fun d =>
      m.table.Carries receive.addrD d with
  | some d =>
    refine hsend m d h ?_
    have hd := List.find?_some hfind
    have hcarries : m.table.Carries receive.addrD d := of_decide_eq_true hd
    rw [hcarries.1]
    decide
  | none =>
    refine h.foldl (fun m d h => ?_) _
    unfold BoundRouter.sendToGateway
    split
    · exact h
    · split
      · next htype =>
        refine hsend m d h ?_
        rw [htype]
        decide
      · exact h

theorem handle (h : m.Detected base) (hbound : m.hardwareAddress = peripheralAddress base s)
    (hs : m.table.deviceState s = 1) (receive : NetworkPacket) :
    (m.handle base s receive).Detected base := by
  unfold BoundRouter.handle
  split
  · exact h
  · dsimp only
    split
    · exact h.clear.incoming hbound hs receive
    · exact h.clear.route s receive

end BoundRouter.Detected

end Detected

/-! ## Runs -/

/-- Where a packet goes that was received on port `s`, and what it leaves of the table. -/
structure Routed (s : Port) (receive : NetworkPacket) (table table' : RoutingTable)
    (sent : List (Port × NetworkPacket)) : Prop where
  /-- A packet whose address bytes are zero is dropped. -/
  blank : receive.IsBlank → sent = [] ∧ table' = table
  /-- The answers to a control packet leave on its port. -/
  control : receive.addrD = routerAddress → ∀ answer ∈ sent, answer.1 = s
  /-- Another packet leaves unchanged on the first node with its destination address. -/
  node : ¬ receive.IsBlank → receive.addrD ≠ routerAddress → ∀ d,
    table.Carries receive.addrD d → (∀ c < d, ¬ table.Carries receive.addrD c) →
      sent = [(d, receive)] ∧ table' = table
  /-- Without such a node, it leaves unchanged on the other routers. -/
  gateways : ¬ receive.IsBlank → receive.addrD ≠ routerAddress →
    (∀ d, ¬ table.Carries receive.addrD d) →
      sent = ((List.finRange numberOfPeripherals).filter fun d =>
        d ≠ s ∧ table.deviceType d = clientTypeRouter).map (·, receive) ∧ table' = table

section Runs

variable {base hardwareAddress : UInt32} {check : ℕ → UInt32 → Bool} {p p' : BoundProcess}
  {event : BoundEvent} {m : BoundRouter} {s : Port} {receive : NetworkPacket} {table : RoutingTable}

theorem sent_driverCalls (actions : List RouterAction) (table : RoutingTable) :
    (driverCalls base actions table).filterMap DriverCall.sent =
      (sends actions).map (Prod.map (peripheralAddress base) id) := by
  induction actions generalizing table with
  | nil => rfl
  | cons action actions ih =>
    rw [driverCalls, List.filterMap_append, ih]
    cases action <;> rfl

theorem acts_forward : table.acts (forward s receive table) = table := by
  unfold forward
  split
  · rfl
  · exact RoutingTable.acts_map_send table _ receive

/-- The actions for a packet route it. -/
theorem routed_receivePacket :
    Routed s receive table (table.acts (receivePacket s receive table))
      (sends (receivePacket s receive table)) where
  blank := fun hblank => by
    rw [receivePacket, if_pos hblank]
    exact ⟨rfl, rfl⟩
  control := fun hd answer hmem => by
    obtain ⟨action, haction, hsent⟩ := List.mem_filterMap.mp hmem
    have hport : action.port = s := by
      rcases mem_receivePacket haction with rfl | ⟨-, h⟩ | ⟨hne, -⟩
      · rfl
      · exact port_of_mem_control h
      · exact absurd hd hne
    cases action with
    | send d packet =>
      obtain rfl := Option.some.inj hsent
      exact hport
    | clear | setState | setType | setAddressLow | setAddressHigh => cases hsent
  node := fun hblank hd d hcarries hfirst => by
    have hlocate := RoutingTable.locate_eq_some_iff.mpr ⟨hcarries, hfirst⟩
    refine ⟨sends_receivePacket_of_locate hd hblank hlocate, ?_⟩
    rw [receivePacket, if_neg hblank, if_neg hd]
    exact acts_forward
  gateways := fun hblank hd hnone => by
    have hlocate : table.locate receive.addrD = none :=
      List.find?_eq_none.mpr fun d _ => by simpa using hnone d
    refine ⟨(sends_receivePacket_of_not_locate hd hblank hlocate).trans ?_, ?_⟩
    · simp only [RoutingTable.gateways, ne_comm]
    · rw [receivePacket, if_neg hblank, if_neg hd]
      exact acts_forward

/-- What a step of the main loop does. -/
theorem BoundProcess.step_cases (h : p.step base event = some p') :
    (∃ present s, event = .attempt present ∧ p.point = .visit s ∧
      p' = ⟨(p.bound.ntBindDevice base s).reconnection base present s, .receive s⟩) ∨
    (∃ received s, event = .receive received ∧ p.point = .receive s ∧
      p.bound.receives received s = none ∧ p' = ⟨p.bound, .visit (s + 1)⟩) ∨
    (∃ received s receive, event = .receive received ∧ p.point = .receive s ∧
      p.bound.receives received s = some receive ∧
      p' = ⟨p.bound.handle base s receive, .visit (s + 1)⟩) := by
  obtain ⟨m, point⟩ := p
  cases event with
  | attempt present =>
    cases point with
    | receive s => cases h
    | visit s => exact .inl ⟨present, s, rfl, rfl, (Option.some.inj h).symm⟩
  | receive received =>
    cases point with
    | visit s => cases h
    | receive s =>
      have hp' := (Option.some.inj h).symm
      cases hreceive : m.receives received s with
      | none =>
        rw [hreceive] at hp'
        exact .inr (.inl ⟨received, s, rfl, rfl, hreceive, hp'⟩)
      | some receive =>
        rw [hreceive] at hp'
        exact .inr (.inr ⟨received, s, receive, rfl, rfl, hreceive, hp'⟩)

/-- The invariant of the main loop: before the router looks for a packet, the port is bound. -/
structure BoundProcess.Sound (base : UInt32) (p : BoundProcess) : Prop where
  bound : ∀ s, p.point = .receive s → p.bound.hardwareAddress = peripheralAddress base s
  detected : p.bound.Detected base

theorem BoundRouter.active_of_receives {received : UInt32 → Option NetworkPacket}
    (h : m.receives received s = some receive) : m.table.deviceState s ≠ 0 := by
  intro hzero
  rw [BoundRouter.receives, if_pos hzero] at h
  cases h

theorem BoundProcess.sound_powerOn :
    (BoundProcess.powerOn base check hardwareAddress).Sound base := by
  have hzero : BoundRouter.Detected base
      ⟨⟨.zero, fun _ => 0, 0, reconnRequestMin⟩, hardwareAddress, []⟩ :=
    ⟨fun d => .inl rfl, fun d hd => absurd rfl hd, fun _ _ _ h => by cases h⟩
  refine ⟨fun s h => Point.noConfusion h, ?_⟩
  dsimp only [BoundProcess.powerOn]
  exact hzero.initiateRouter check

theorem BoundProcess.Sound.step (hp : p.Sound base) (h : p.step base event = some p') :
    p'.Sound base := by
  obtain ⟨present, s, rfl, -, rfl⟩ | ⟨received, s, rfl, -, -, rfl⟩ |
    ⟨received, s, receive, rfl, hpoint, hreceives, rfl⟩ := BoundProcess.step_cases h
  · refine ⟨fun c hc => ?_, (hp.detected.bind s).reconnection rfl present⟩
    obtain rfl := Point.receive.inj hc
    exact BoundRouter.hardwareAddress_reconnection (m := p.bound.ntBindDevice base s) rfl present
  · exact ⟨fun c hc => (by cases hc), hp.detected⟩
  · have hactive := hp.detected.active (BoundRouter.active_of_receives hreceives)
    exact ⟨fun c hc => (by cases hc), hp.detected.handle (hp.bound s hpoint) hactive receive⟩

theorem BoundProcess.sound_of_reachable (h : Reachable (BoundProcess.step base) (fun _ _ => True)
    (.powerOn base check hardwareAddress) p) : p.Sound base :=
  h.invariant sound_powerOn fun _ _ _ hp _ hstep => hp.step hstep

/-- A router carries out its pending actions. -/
theorem Process.reachable_acts {start : Process} (actions : List RouterAction) (router : Router)
    (point : Point)
    (h : Reachable Process.step (fun _ _ => True) start ⟨router, actions, point⟩) :
    Reachable Process.step (fun _ _ => True) start
      ⟨{ router with routingTable := router.routingTable.acts actions }, [], point⟩ := by
  induction actions generalizing router with
  | nil => exact h
  | cons action actions ih => exact ih (router.act action) (h.next (l := .act) trivial rfl)

/-- **The runs of the code are runs of `Process`**, which knows of no device that is bound. -/
theorem BoundProcess.reachable_process (h : Reachable (BoundProcess.step base) (fun _ _ => True)
    (.powerOn base check hardwareAddress) p) :
    Reachable Process.step (fun _ _ => True)
      (.powerOn fun retry d => check retry (peripheralAddress base d))
      ⟨p.bound.router, [], p.point⟩ := by
  -- a step with the calls of the driver is the step, and the actions done at once
  induction h with
  | start =>
    have hinitiate := @Performs.initiateRouter base
      ⟨⟨.zero, fun _ => 0, 0, reconnRequestMin⟩, hardwareAddress, []⟩ check rfl
    dsimp only [BoundProcess.powerOn]
    rw [hinitiate.router]
    exact Process.reachable_acts _ _ _ .start
  | @next _ q _ hs _ hstep ih =>
    have hsound := BoundProcess.sound_of_reachable hs
    obtain ⟨present, s, rfl, hpoint, rfl⟩ | ⟨received, s, rfl, hpoint, -, rfl⟩ |
      ⟨received, s, receive, rfl, hpoint, hreceives, rfl⟩ := BoundProcess.step_cases hstep
    · rw [hpoint] at ih
      have hattempt := Performs.reconnection (m := q.bound.ntBindDevice base s) rfl present
      have hrouter : (q.bound.ntBindDevice base s).router = q.bound.router := by
        unfold BoundRouter.ntBindDevice
        generalize peripheralAddress base s = hardwareAddress
        rfl
      rw [hattempt.router]
      simp only [BoundRouter.assign, hrouter]
      exact Process.reachable_acts _ _ _ (ih.next (l := .attempt _) trivial rfl)
    · rw [hpoint] at ih
      exact ih.next (l := .receive none) trivial rfl
    · rw [hpoint] at ih
      have hhandle := Performs.handle (hsound.bound s hpoint) receive
      rw [hhandle.router]
      refine Process.reachable_acts _ _ _ (ih.next (l := .receive (some receive)) trivial ?_)
      exact if_neg (BoundRouter.active_of_receives hreceives)

/-- **Where the router sends packets**: to detected devices only, in every run. The answers to a control
packet leave on its port; a packet without addresses is dropped; another packet leaves unchanged on the
first node with its address, or else on the other routers. -/
theorem routed_of_reachable (h : Reachable (BoundProcess.step base) (fun _ _ => True)
    (.powerOn base check hardwareAddress) p) :
    (∀ address packet table, .packetSend address packet table ∈ p.bound.calls →
      ∃! d, address = peripheralAddress base d ∧ table.deviceState d = 1) ∧
    ∀ received p', p.step base (.receive received) = some p' → ∃ s sent calls,
      p.point = .receive s ∧ p.bound.hardwareAddress = peripheralAddress base s ∧
      p'.bound.calls = p.bound.calls ++ calls ∧
      calls.filterMap DriverCall.sent = sent.map (Prod.map (peripheralAddress base) id) ∧
      match p.bound.receives received s with
      | some receive => Routed s receive p.bound.table p'.bound.table sent
      | none => sent = [] ∧ p'.bound.table = p.bound.table := by
  have hp := BoundProcess.sound_of_reachable h
  refine ⟨fun address packet table hsent => ?_, fun received p' hstep => ?_⟩
  · obtain ⟨d, haddress, hd⟩ := hp.detected.sent address packet table hsent
    exact ⟨d, ⟨haddress, hd⟩, fun c hc =>
      peripheralAddress_injective base (hc.1.symm.trans haddress)⟩
  · obtain ⟨present, s, hevent, -⟩ | ⟨_, s, hevent, hpoint, hreceives, rfl⟩ |
      ⟨_, s, receive, hevent, hpoint, hreceives, rfl⟩ := BoundProcess.step_cases hstep
    · cases hevent
    · obtain rfl := BoundEvent.receive.inj hevent
      refine ⟨s, [], [], hpoint, hp.bound s hpoint, (List.append_nil _).symm, rfl, ?_⟩
      rw [hreceives]
      exact ⟨rfl, rfl⟩
    · obtain rfl := BoundEvent.receive.inj hevent
      have hhandle := Performs.handle (hp.bound s hpoint) receive
      refine ⟨s, _, _, hpoint, hp.bound s hpoint, hhandle.calls, sent_driverCalls _ _, ?_⟩
      rw [hreceives, hhandle.table]
      exact routed_receivePacket

end Runs

/-- A router with devices at its first two ports, when the one at the first has become a client and the
other is about to be looked at. -/
def connected : Option BoundProcess :=
  run (BoundProcess.step 0x40000) [.attempt fun _ => false,
      .receive fun _ => some { packetClientHandshake with addrD := routerAddress, addrS := ⟨1, 2⟩ },
      .attempt fun _ => false]
    (.powerOn 0x40000 (fun _ address => address = 0x40000 ∨ address = 0x50000) 0)

theorem isSome_connected : connected.isSome := by decide +kernel

/-- A packet to the client. -/
def packetToClient : NetworkPacket :=
  { packetClientHandshake with addrD := ⟨1, 2⟩, addrS := ⟨3, 4⟩ }

/-- `routed_of_reachable` for a packet that is forwarded to the client: six requests for routers and an
acknowledgement have been sent before. -/
theorem routed_of_reachable_connected : ∃ p', (connected.get isSome_connected).step 0x40000
      (.receive fun _ => some packetToClient) = some p' ∧
    ∃ calls, p'.bound.calls = (connected.get isSome_connected).bound.calls ++ calls ∧
      calls.filterMap DriverCall.sent = [(0x40000, packetToClient)] ∧
      ((connected.get isSome_connected).bound.calls.filterMap DriverCall.sent).length = 7 ∧
      ∀ address packet table,
        .packetSend address packet table ∈ (connected.get isSome_connected).bound.calls →
          ∃! d, address = peripheralAddress 0x40000 d ∧ table.deviceState d = 1 := by
  have hreachable : Reachable (BoundProcess.step 0x40000) (fun _ _ => True) _
      (connected.get isSome_connected) :=
    Reachable.start.run (.of_forall (fun _ _ => trivial) _ _) (Option.some_get isSome_connected).symm
  have hport : (connected.get isSome_connected).point = .receive 1 := by decide +kernel
  have hactive : (connected.get isSome_connected).bound.table.deviceState 1 ≠ 0 := by decide +kernel
  have hcarries : (connected.get isSome_connected).bound.table.Carries ⟨1, 2⟩ 0 := by decide +kernel
  have hseven : ((connected.get isSome_connected).bound.calls.filterMap DriverCall.sent).length = 7 := by
    decide +kernel
  have hsome : ((connected.get isSome_connected).step 0x40000
    (.receive fun _ => some packetToClient)).isSome := by decide +kernel
  generalize connected.get isSome_connected = p at *
  obtain ⟨p', hp'⟩ := Option.isSome_iff_exists.mp hsome
  obtain ⟨hsends, hstep⟩ := routed_of_reachable hreachable
  obtain ⟨s, sent, calls, hpoint, -, hcalls, hsent, hrouted⟩ := hstep _ p' hp'
  obtain rfl : s = 1 := Point.receive.inj (hpoint.symm.trans hport)
  have hreceives : p.bound.receives (fun _ => some packetToClient) 1 = some packetToClient := by
    rw [BoundRouter.receives, if_neg hactive]
    rfl
  rw [hreceives] at hrouted
  -- the client is the first node with the address
  obtain ⟨rfl, -⟩ := hrouted.node (by decide) (by decide) 0 hcarries
    fun c hc => absurd hc (Fin.not_lt_zero c)
  exact ⟨p', hp', calls, hcalls, hsent, hseven, hsends⟩

end MicroKernel.Network
