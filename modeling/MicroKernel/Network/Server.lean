import Mathlib.Data.Fin.VecNotation
import MicroKernel.Lib.Transition
import MicroKernel.Network.Router

/-!
# The server

The server application of `kernel/network/server.c`, attached to a port of a running router. The link
between them hands over any packet that was ever sent on it, at any time and as often as it likes, or
never; what the other ports of the router receive is arbitrary.

## Main definitions

* `Server.step`: a connection attempt of the server, or its look for a packet
* `Connection.step`: a step of the router, or of the server
* `Recorded`: the server is registered on its port of the router
* `Connection.Settled`: a connection confirmation is handled only when the router has recorded the
  client

## Main results

* `recorded_of_settled`: a connected server is registered, and stays so, in every run in which each
  confirmation is handled after the router has recorded the client
-/

namespace MicroKernel.Network

open Transition

/-! ## The server -/

def serverAddress : Address := ⟨240, 80⟩

/-- The connection request of the server. Its `index` and `total` are not assigned. -/
def packetRouterConnectionRequest (index total : UInt8) : NetworkPacket where
  start := packetStartByte
  addrD := routerAddress
  addrS := serverAddress
  index := index
  total := total
  data := Function.update (fun _ => 0x55) 1 0x00
  stop := packetStopByte

/-- `messageStringA`: "Return packet" -/
def messageString : Fin packetDataSize → UInt8 :=
  ![82, 101, 116, 117, 114, 110, 32, 112, 97, 99, 107, 101, 116, 0, 0, 0]

/-- The answer of the server to a client. -/
def packetClientReturn (client : Address) : NetworkPacket where
  start := packetStartByte
  addrD := client
  addrS := serverAddress
  index := 1
  total := 1
  data := messageString
  stop := packetStopByte

/-- The variables of the server's loop; `attempted` says where the loop stands. -/
structure Server where
  connectionStatus : UInt8
  connectionAttemptCounter : UInt16
  attempted : Bool

def Server.powerOn : Server := ⟨0, 800, false⟩

/-- Connection attempt -/
def Server.attempt (request : NetworkPacket) (server : Server) : Server × List NetworkPacket :=
  if server.connectionStatus = 0 then
    if server.connectionAttemptCounter + 1 > 800 then
      ({ server with connectionAttemptCounter := 0 }, [request])
    else
      ({ server with connectionAttemptCounter := server.connectionAttemptCounter + 1 }, [])
  else (server, [])

/-- A client connection confirmation. -/
def NetworkPacket.IsConfirmation (receive : NetworkPacket) : Prop :=
  receive.addrS = routerAddress ∧ receive.data 0 = 0x55 ∧ receive.data 1 = 0x00

instance (receive : NetworkPacket) : Decidable receive.IsConfirmation :=
  inferInstanceAs (Decidable (_ ∧ _))

/-- What the server does with a packet. -/
def Server.handle (receive : NetworkPacket) (server : Server) : Server × List NetworkPacket :=
  if receive.IsBlank then (server, [])
  else if receive.addrS = routerAddress then
    if receive.data 0 = 0x55 ∧ receive.data 1 = 0x00 then
      ({ server with connectionStatus := 1 }, [])
    else (server, [])
  else (server, [packetClientReturn receive.addrS])

/-- A step of the server: a connection attempt, or a look for a packet. -/
inductive ServerEvent
  | attempt
  | receive (received : Option NetworkPacket)

/-- The step of the server, and what it sends. -/
def Server.step (request : NetworkPacket) :
    ServerEvent → Server → Option (Server × List NetworkPacket)
  | .attempt, server =>
    if server.attempted then none else some (attempt request { server with attempted := true })
  | .receive received, server =>
    if server.attempted then
      let server := { server with attempted := false }
      match received with
      | none => some (server, [])
      | some receive => some (server.handle receive)
    else none

/-! ## The connection -/

/-- A router and a server, with every packet that was sent on the link between them. -/
structure Connection where
  router : Process
  server : Server
  toServer : List NetworkPacket
  toRouter : List NetworkPacket

inductive ConnectionEvent
  | router (event : RouterEvent)
  | server (event : ServerEvent)

/-- The packets among these that are on a port. -/
def onPort (s : Port) (packet : Option (Port × NetworkPacket)) : List NetworkPacket :=
  (packet.filter fun packet => packet.1 = s).toList.map Prod.snd

section Link

variable (s : Port) (request : NetworkPacket)

/-- The packets that a step takes from the link were sent on it. -/
def Connection.Delivers : ConnectionEvent → Connection → Prop
  | .router event, c => ∀ receive ∈ onPort s (c.router.handles event), receive ∈ c.toRouter
  | .server (.receive received), c => ∀ receive ∈ received.toList, receive ∈ c.toServer
  | .server .attempt, _ => True

instance (event : ConnectionEvent) (c : Connection) : Decidable (c.Delivers s event) :=
  match event with
  | .router _ | .server (.receive _) => List.decidableBAll _ _
  | .server .attempt => .isTrue trivial

/-- A step of the router or of the server. -/
def Connection.step (event : ConnectionEvent) (c : Connection) : Option Connection :=
  if c.Delivers s event then
    match event with
    | .router event =>
      (c.router.step event).map fun router =>
        { c with router, toServer := c.toServer ++ onPort s (c.router.sent event) }
    | .server event =>
      (c.server.step request event).map fun server =>
        { c with server := server.1, toRouter := c.toRouter ++ server.2 }
  else none

/-- The server is registered on port `s`. -/
def Recorded (c : Connection) : Prop :=
  c.router.router.routingTable.deviceType s = clientTypeNode ∧
    c.router.router.routingTable.addressLow s = serverAddress.low ∧
    c.router.router.routingTable.addressHigh s = serverAddress.high

/-- When the step handles a confirmation, the router has no assignment before it that changes the entry
of port `s`: it does not stand between its acknowledgement and the table. -/
def Connection.Settled : ConnectionEvent → Connection → Prop
  | .server (.receive (some receive)), c =>
    receive.IsConfirmation → c.router.settled.entry s = c.router.router.routingTable.entry s
  | _, _ => True

instance (event : ConnectionEvent) (c : Connection) : Decidable (c.Settled s event) :=
  match event with
  | .server (.receive (some _)) => inferInstanceAs (Decidable (_ → _))
  | .server (.receive none) | .server .attempt | .router _ => .isTrue trivial

instance (c : Connection) : Decidable (Recorded s c) := inferInstanceAs (Decidable (_ ∧ _ ∧ _))

end Link

/-- Router and server at power-on. -/
def Connection.powerOn (check : ℕ → Port → Bool) : Connection :=
  ⟨.powerOn check, .powerOn, [], []⟩

/-! ## The invariant -/

/-- An action that assigns to port `s` the entry of the server or nothing. -/
def RouterAction.KeepsServer (s : Port) : RouterAction → Prop
  | .setType d byte => d = s → byte = clientTypeNode
  | .setAddressLow d byte => d = s → byte = serverAddress.low
  | .setAddressHigh d byte => d = s → byte = serverAddress.high
  | _ => True

/-- What holds in every run: on the way to the router, only requests of the server are control
packets, so the entry of the port is the server's or none, and the server's when a confirmation is
sent. -/
structure Connection.Invariant (s : Port) (c : Connection) : Prop where
  toRouter : ∀ receive ∈ c.toRouter, receive.addrD = routerAddress →
    receive.IsClientRequest ∧ receive.addrS = serverAddress
  entry : c.router.settled.entry s = .unknown ∨ c.router.settled.entry s = .node serverAddress
  toServer : ∀ receive ∈ c.toServer, receive.IsConfirmation →
    c.router.settled.entry s = .node serverAddress
  pending : ∀ action ∈ c.router.actions, ∀ receive, action.sent = some (s, receive) →
    receive.IsConfirmation → c.router.settled.entry s = .node serverAddress
  assigns : ((∀ action ∈ c.router.actions, action.Initiates) ∧
      c.router.settled.entry s = .unknown) ∨
    ∀ action ∈ c.router.actions, action.KeepsServer s
  connected : c.server.connectionStatus = 1 → c.router.settled.entry s = .node serverAddress

section Steps

variable {s : Port} {index total : UInt8} {c c' : Connection} {receive : NetworkPacket}
  {table : RoutingTable}

theorem recorded_iff : Recorded s c ↔
    c.router.router.routingTable.entry s = .node serverAddress := by
  rw [← RoutingTable.carries_iff]
  refine and_congr_right fun _ => ⟨?_, fun h => ?_⟩
  · rintro ⟨hlow, hhigh⟩
    rw [RoutingTable.address, hlow, hhigh]
  · rw [h]
    exact ⟨rfl, rfl⟩

theorem RouterAction.KeepsServer.entry_act {action : RouterAction} (h : action.KeepsServer s)
    (htable : table.entry s = .node serverAddress) :
    (table.act action).entry s = .node serverAddress := by
  rw [← RoutingTable.carries_iff] at htable ⊢
  obtain ⟨htype, haddress⟩ := htable
  have hlow : serverAddress.low = table.addressLow s := congrArg Address.low haddress
  have hhigh : serverAddress.high = table.addressHigh s := congrArg Address.high haddress
  cases action with
  | clear | send | setState => exact ⟨htype, haddress⟩
  | setType d byte =>
    refine ⟨?_, haddress⟩
    rcases eq_or_ne s d with rfl | hne
    · simpa [RoutingTable.act] using h rfl
    · simpa [RoutingTable.act, hne] using htype
  | setAddressLow d byte =>
    refine ⟨htype, ?_⟩
    rcases eq_or_ne s d with rfl | hne
    · simp [RoutingTable.act, RoutingTable.address, h rfl, ← hhigh]
    · simpa [RoutingTable.act, RoutingTable.address, hne] using haddress
  | setAddressHigh d byte =>
    refine ⟨htype, ?_⟩
    rcases eq_or_ne s d with rfl | hne
    · simp [RoutingTable.act, RoutingTable.address, h rfl, ← hlow]
    · simpa [RoutingTable.act, RoutingTable.address, hne] using haddress

/-- The handshakes between routers confirm no client. -/
theorem not_isConfirmation_outgoing : ¬ packetRouterHandshakeOutgoing.IsConfirmation := by decide

/-- A packet handled on port `s` makes the entry of the server, or none. -/
theorem entry?_of_request
    (h : receive.addrD = routerAddress → receive.IsClientRequest ∧ receive.addrS = serverAddress) :
    receive.entry? = none ∨ receive.entry? = some (.node serverAddress) := by
  unfold NetworkPacket.entry?
  split
  · next hd =>
    obtain ⟨hclient, haddress⟩ := h hd
    rw [if_pos hclient, haddress]
    exact .inr rfl
  · exact .inl rfl

/-- The actions for a request of the server. -/
theorem control_of_request (hclient : receive.IsClientRequest) (haddress : receive.addrS = serverAddress) :
    control s receive = [.send s packetClientHandshake, .setType s clientTypeNode,
      .setAddressLow s serverAddress.low, .setAddressHigh s serverAddress.high] := by
  rw [control, if_pos hclient, haddress]

/-- What the actions for a packet assign to port `s`. -/
theorem keepsServer_receivePacket {d : Port} (h : d = s → receive.addrD = routerAddress →
      receive.IsClientRequest ∧ receive.addrS = serverAddress) :
    ∀ action ∈ receivePacket d receive table, action.KeepsServer s := by
  intro action haction
  obtain rfl | ⟨hd, hcontrol⟩ | ⟨-, hforward⟩ := mem_receivePacket haction
  · trivial
  · rcases eq_or_ne d s with rfl | hne
    · obtain ⟨hclient, haddress⟩ := h rfl hd
      rw [control_of_request hclient haddress] at hcontrol
      simp only [List.mem_cons, List.not_mem_nil, or_false] at hcontrol
      obtain rfl | rfl | rfl | rfl := hcontrol
      · trivial
      · exact fun _ => rfl
      · exact fun _ => rfl
      · exact fun _ => rfl
    · -- a control packet of another port does not touch port `s`
      have hport := port_of_mem_control hcontrol
      cases action with
      | clear | send | setState => trivial
      | setType | setAddressLow | setAddressHigh => exact fun h => absurd (hport.symm.trans h) hne
  · obtain ⟨p, rfl, -⟩ := mem_forward hforward
    trivial

/-- A packet is answered or forwarded on port `s` to a recorded server only. -/
theorem entry_of_sent {d : Port} {packet : NetworkPacket} {action : RouterAction}
    (hreceive : d = s → receive.addrD = routerAddress →
      receive.IsClientRequest ∧ receive.addrS = serverAddress)
    (hentry : table.entry s = .unknown ∨ table.entry s = .node serverAddress)
    (haction : action ∈ receivePacket d receive table) (hsent : action.sent = some (s, packet)) :
    (table.acts (receivePacket d receive table)).entry s = .node serverAddress := by
  rw [entry_receivePacket]
  obtain rfl | ⟨hd, hcontrol⟩ | ⟨hd, hforward⟩ := mem_receivePacket haction
  · cases hsent
  · -- the router answers to a control packet on its port: this one is the request of the server
    have hport := port_of_mem_control hcontrol
    cases action with
    | clear | setState | setType | setAddressLow | setAddressHigh => cases hsent
    | send p sent =>
      obtain ⟨hp, -⟩ := Prod.mk.inj (Option.some.inj hsent)
      obtain rfl : d = s := hport.symm.trans hp
      obtain ⟨hclient, haddress⟩ := hreceive rfl hd
      rw [Function.update_self, NetworkPacket.entry?, if_pos hd, if_pos hclient, haddress]
      rfl
  · -- forwarded packets leave on ports of nodes and of routers
    have hnone : receive.entry? = none := if_neg hd
    rw [hnone, Option.getD_none, Function.update_eq_self]
    obtain ⟨p, rfl, hp⟩ := mem_forward hforward
    obtain ⟨rfl, -⟩ := Prod.mk.inj (Option.some.inj hsent)
    rcases hentry with hentry | hentry
    · rcases hp with hcarries | ⟨-, hrouter⟩
      · rw [RoutingTable.carries_iff, hentry] at hcarries
        cases hcarries
      · simp [RoutingTable.entry, hrouter, clientTypeRouter, clientTypeNode] at hentry
    · exact hentry

/-! ### A step of the router -/

theorem mem_onPort {sent : Option (Port × NetworkPacket)} :
    receive ∈ onPort s sent ↔ sent = some (s, receive) := by
  rcases sent with - | ⟨d, packet⟩
  · simp [onPort]
  · rcases eq_or_ne d s with rfl | hne
    · have honly : onPort d (some (d, packet)) = [packet] := by simp [onPort]
      rw [honly, List.mem_singleton]
      refine ⟨?_, fun h => (Prod.mk.inj (Option.some.inj h)).2.symm⟩
      rintro rfl
      rfl
    · simp [onPort, hne]

/-- The entry of the port is the same behind a step of the router, or the server's. -/
theorem Connection.Invariant.entry_step (h : c.Invariant s) {event : RouterEvent} {router : Process}
    (hdelivers : c.Delivers s (.router event)) (hstep : c.router.step event = some router) :
    router.settled.entry s = c.router.settled.entry s ∨
      router.settled.entry s = .node serverAddress := by
  rw [Process.entry_step hstep]
  cases hhandles : c.router.handles event with
  | none => exact .inl rfl
  | some packet =>
    obtain ⟨d, receive⟩ := packet
    rcases eq_or_ne s d with rfl | hne
    · have hmem := hdelivers receive (mem_onPort.mpr hhandles)
      rcases entry?_of_request (h.toRouter receive hmem) with hentry | hentry
      · exact .inl (by simp [hentry])
      · exact .inr (by simp [hentry])
    · exact .inl (Function.update_of_ne hne _ _)

/-- A recorded server stays recorded by the pending actions. -/
theorem Connection.Invariant.settled_step (h : c.Invariant s) {event : ConnectionEvent}
    {request : NetworkPacket} (hstep : c.step s request event = some c')
    (hsettled : c.router.settled.entry s = .node serverAddress) :
    c'.router.settled.entry s = .node serverAddress := by
  unfold Connection.step at hstep
  split at hstep
  · next hdelivers =>
    cases event with
    | router event =>
      obtain ⟨router, hrouter, rfl⟩ := Option.map_eq_some_iff.mp hstep
      exact (h.entry_step hdelivers hrouter).elim (fun heq => heq.trans hsettled) id
    | server event =>
      obtain ⟨⟨server, sent⟩, -, rfl⟩ := Option.map_eq_some_iff.mp hstep
      exact hsettled
  · cases hstep

/-- What the router has still to send or to assign behind a step. -/
theorem Connection.Invariant.actions_step (h : c.Invariant s) {event : RouterEvent}
    {router : Process} (hdelivers : c.Delivers s (.router event))
    (hstep : c.router.step event = some router) :
    (∀ action ∈ router.actions, ∀ receive, action.sent = some (s, receive) →
      receive.IsConfirmation → router.settled.entry s = .node serverAddress) ∧
    (((∀ action ∈ router.actions, action.Initiates) ∧ router.settled.entry s = .unknown) ∨
      ∀ action ∈ router.actions, action.KeepsServer s) := by
  obtain ⟨action, rfl, hactions, hrouter, -⟩ | ⟨present, d, rfl, hactions, -, rfl⟩ |
    ⟨d, rfl, hactions, -, rfl⟩ | ⟨d, receive, rfl, hactions, hpoint, -, rfl⟩ :=
    Process.step_cases hstep
  · -- the actions behind the first were pending before
    have hsettled : router.settled = c.router.settled := by
      rw [Process.settled, Process.settled, hrouter, hactions]
      rfl
    have hmem : ∀ a ∈ router.actions, a ∈ c.router.actions := by
      intro a ha
      rw [hactions]
      exact List.mem_cons_of_mem _ ha
    rw [hsettled]
    exact ⟨fun a ha => h.pending a (hmem a ha), h.assigns.imp
      (fun hinit => ⟨fun a ha => hinit.1 a (hmem a ha), hinit.2⟩) fun hkeeps a ha =>
        hkeeps a (hmem a ha)⟩
  · -- a reconnection asks for routers, which confirms nothing
    refine ⟨fun a ha receive hsent hconfirm => ?_, .inr fun a ha => ?_⟩
    · obtain ⟨p, rfl | rfl | rfl⟩ := mem_reconnect ha
      · cases hsent
      · cases hsent
      · obtain ⟨-, rfl⟩ := Prod.mk.inj (Option.some.inj hsent)
        exact absurd hconfirm not_isConfirmation_outgoing
    · obtain ⟨p, rfl | rfl | rfl⟩ := mem_reconnect ha <;> trivial
  · exact ⟨fun a ha => absurd ha List.not_mem_nil, .inr fun a ha => absurd ha List.not_mem_nil⟩
  · -- what comes to the router on port `s` are the requests of the server
    have hreceive : d = s → receive.addrD = routerAddress →
        receive.IsClientRequest ∧ receive.addrS = serverAddress := by
      rintro rfl
      exact h.toRouter receive (hdelivers receive
        (mem_onPort.mpr (Process.handles_receive hactions hpoint)))
    have hentry := h.entry
    rw [Process.settled_of_nil hactions] at hentry
    exact ⟨fun a ha packet hsent _ => entry_of_sent hreceive hentry ha hsent,
      .inr (keepsServer_receivePacket hreceive)⟩

/-- What a step of the router sends on port `s` was pending. -/
theorem Connection.Invariant.sent_step (h : c.Invariant s) {event : RouterEvent}
    (hsent : c.router.sent event = some (s, receive)) (hconfirm : receive.IsConfirmation) :
    c.router.settled.entry s = .node serverAddress := by
  obtain ⟨⟨router, actions, point⟩, server, toServer, toRouter⟩ := c
  cases event with
  | attempt | receive => cases hsent
  | act =>
    cases actions with
    | nil => cases hsent
    | cons action actions => exact h.pending action List.mem_cons_self receive hsent hconfirm

/-! ### A step of the server -/

theorem Server.attempt_spec (request : NetworkPacket) (server : Server) :
    (∀ packet ∈ (server.attempt request).2, packet = request) ∧
      (server.attempt request).1.connectionStatus = server.connectionStatus := by
  unfold Server.attempt
  split_ifs <;> simp

theorem Server.handle_spec (receive : NetworkPacket) (server : Server) :
    (∀ packet ∈ (server.handle receive).2, packet.addrD ≠ routerAddress) ∧
      ((server.handle receive).1.connectionStatus = server.connectionStatus ∨
        receive.IsConfirmation) := by
  unfold Server.handle
  split_ifs with hblank hrouter hconfirm
  · simp
  · exact ⟨by simp, .inr ⟨hrouter, hconfirm⟩⟩
  · simp
  · -- the answer goes to a client, not to a router
    refine ⟨fun packet hpacket => ?_, .inl rfl⟩
    obtain rfl := List.mem_singleton.mp hpacket
    exact hrouter

/-- The server sends its request, and returns packets to clients; a confirmation connects it. -/
theorem Server.step_spec {request : NetworkPacket} {event : ServerEvent} {server server' : Server}
    {sent : List NetworkPacket} (h : server.step request event = some (server', sent)) :
    (∀ packet ∈ sent, packet = request ∨ packet.addrD ≠ routerAddress) ∧
    (server'.connectionStatus = server.connectionStatus ∨
      ∃ receive, event = .receive (some receive) ∧ receive.IsConfirmation) := by
  cases event with
  | attempt =>
    rw [Server.step] at h
    split at h
    · cases h
    · have hattempt := Server.attempt_spec request { server with attempted := true }
      rw [Option.some.inj h] at hattempt
      exact ⟨fun packet hpacket => .inl (hattempt.1 packet hpacket), .inl hattempt.2⟩
  | receive received =>
    rw [Server.step] at h
    split at h
    · cases received with
      | none =>
        obtain ⟨rfl, rfl⟩ := Prod.mk.inj (Option.some.inj h)
        exact ⟨fun packet hpacket => absurd hpacket List.not_mem_nil, .inl rfl⟩
      | some receive =>
        have hhandle := Server.handle_spec receive { server with attempted := false }
        rw [Option.some.inj h] at hhandle
        exact ⟨fun packet hpacket => .inr (hhandle.1 packet hpacket),
          hhandle.2.imp id fun hconfirm => ⟨receive, rfl, hconfirm⟩⟩
    · cases h

/-! ### Runs -/

/-- The request of the server, as a control packet. -/
theorem request_spec (index total : UInt8) :
    (packetRouterConnectionRequest index total).IsClientRequest ∧
      (packetRouterConnectionRequest index total).addrS = serverAddress :=
  ⟨⟨rfl, rfl⟩, rfl⟩

theorem Connection.invariant_powerOn (check : ℕ → Port → Bool) (s : Port) :
    (Connection.powerOn check).Invariant s where
  toRouter := fun _ h => absurd h List.not_mem_nil
  entry := .inl (entry_powerOn check s)
  toServer := fun _ h => absurd h List.not_mem_nil
  pending := by
    intro action haction receive hsent hconfirm
    have hinit := initiates_initiate check action haction
    cases action with
    | send d packet =>
      obtain ⟨-, rfl⟩ := Prod.mk.inj (Option.some.inj hsent)
      have hpacket : packet = packetRouterHandshakeOutgoing := hinit
      exact absurd (hpacket ▸ hconfirm) not_isConfirmation_outgoing
    | clear | setState | setType | setAddressLow | setAddressHigh => cases hsent
  assigns := .inl ⟨initiates_initiate check, entry_powerOn check s⟩
  connected := fun h => absurd h (show (0 : UInt8) ≠ 1 by decide)

/-- **Every step keeps the invariant.** -/
theorem Connection.Invariant.step (h : c.Invariant s) {event : ConnectionEvent}
    (hstep : c.step s (packetRouterConnectionRequest index total) event = some c') :
    c'.Invariant s := by
  -- an entry that is recorded stays, so that the server's status has it recorded
  have hstays := h.settled_step hstep
  unfold Connection.step at hstep
  split at hstep
  · next hdelivers =>
    cases event with
    | router event =>
      obtain ⟨router, hrouter, rfl⟩ := Option.map_eq_some_iff.mp hstep
      have hentry := h.entry_step hdelivers hrouter
      obtain ⟨hpending, hassigns⟩ := h.actions_step hdelivers hrouter
      refine ⟨h.toRouter, ?_, ?_, hpending, hassigns, fun hstatus => hstays (h.connected hstatus)⟩
      · exact hentry.elim (fun heq => heq ▸ h.entry) .inr
      · intro receive hreceive hconfirm
        rcases List.mem_append.mp hreceive with hold | hnew
        · exact hstays (h.toServer receive hold hconfirm)
        · exact hstays (h.sent_step (mem_onPort.mp hnew) hconfirm)
    | server event =>
      obtain ⟨⟨server, sent⟩, hserver, rfl⟩ := Option.map_eq_some_iff.mp hstep
      obtain ⟨hsent, hstatus⟩ := Server.step_spec hserver
      refine ⟨?_, h.entry, h.toServer, h.pending, h.assigns, fun hconnected => ?_⟩
      · intro receive hreceive hd
        rcases List.mem_append.mp hreceive with hold | hnew
        · exact h.toRouter receive hold hd
        · obtain rfl | hclient := hsent receive hnew
          · exact request_spec index total
          · exact absurd hd hclient
      · rcases hstatus with hsame | ⟨receive, rfl, hconfirm⟩
        · exact h.connected (hsame.symm.trans hconnected)
        · exact h.toServer receive (hdelivers receive (by simp)) hconfirm
  · cases hstep

/-- A server whose entry stands in the table stays registered. -/
theorem Connection.Invariant.recorded_step (h : c.Invariant s) {event : ConnectionEvent}
    (hstep : c.step s (packetRouterConnectionRequest index total) event = some c')
    (hsettled : c.router.settled.entry s = .node serverAddress) (hrecorded : Recorded s c) :
    Recorded s c' := by
  rw [recorded_iff] at hrecorded ⊢
  unfold Connection.step at hstep
  split at hstep
  · cases event with
    | router event =>
      obtain ⟨router, hrouter, rfl⟩ := Option.map_eq_some_iff.mp hstep
      obtain ⟨action, rfl, hactions, hact, -⟩ | ⟨present, d, rfl, -, -, rfl⟩ |
        ⟨d, rfl, -, -, rfl⟩ | ⟨d, receive, rfl, -, -, -, rfl⟩ := Process.step_cases hrouter
      · show router.router.routingTable.entry s = _
        rw [hact]
        -- the initiation is over, so the action assigns the entry of the server
        rcases h.assigns with ⟨-, hunknown⟩ | hkeeps
        · rw [hunknown] at hsettled
          cases hsettled
        · exact (hkeeps action (hactions ▸ List.mem_cons_self)).entry_act hrecorded
      · show (reconnect present d _).1.routingTable.entry s = _
        rw [routingTable_reconnect]
        exact hrecorded
      · exact hrecorded
      · exact hrecorded
    | server event =>
      obtain ⟨⟨server, sent⟩, -, rfl⟩ := Option.map_eq_some_iff.mp hstep
      exact hrecorded
  · cases hstep

/-- Every step in which a confirmation is handled when the table is settled keeps a connected server
registered. -/
theorem Connection.Invariant.connected_step (h : c.Invariant s) {event : ConnectionEvent}
    (hmeets : c.Settled s event)
    (hstep : c.step s (packetRouterConnectionRequest index total) event = some c')
    (hconnected : c.server.connectionStatus = 1 → Recorded s c) :
    c'.server.connectionStatus = 1 → Recorded s c' := by
  intro hstatus'
  by_cases hstatus : c.server.connectionStatus = 1
  · exact h.recorded_step hstep (h.connected hstatus) (hconnected hstatus)
  · -- the step connects the server: it handles a confirmation
    unfold Connection.step at hstep
    split at hstep
    · next hdelivers =>
      cases event with
      | router event =>
        obtain ⟨router, -, rfl⟩ := Option.map_eq_some_iff.mp hstep
        exact absurd hstatus' hstatus
      | server event =>
        obtain ⟨⟨server, sent⟩, hserver, rfl⟩ := Option.map_eq_some_iff.mp hstep
        obtain hsame | ⟨receive, rfl, hconfirm⟩ := (Server.step_spec hserver).2
        · exact absurd (hsame.symm.trans hstatus') hstatus
        · rw [recorded_iff]
          show c.router.router.routingTable.entry s = _
          rw [← hmeets hconfirm]
          exact h.toServer receive (hdelivers receive (by simp)) hconfirm
    · cases hstep

/-- **A connected server is registered, and stays so**, in every run in which each confirmation is
handled when the router has recorded the client. -/
theorem recorded_of_settled {check : ℕ → Port → Bool}
    (h : Reachable (Connection.step s (packetRouterConnectionRequest index total))
      (Connection.Settled s) (.powerOn check) c)
    (hstatus : c.server.connectionStatus = 1)
    (hlater : Reachable (Connection.step s (packetRouterConnectionRequest index total))
      (fun _ _ => True) c c') : Recorded s c' := by
  obtain ⟨hinv, hconnected⟩ := h.invariant
    (I := fun c => c.Invariant s ∧ (c.server.connectionStatus = 1 → Recorded s c))
    ⟨Connection.invariant_powerOn check s, fun h =>
      absurd h (show (0 : UInt8) ≠ 1 by decide)⟩
    fun event c c' hc hmeets hstep =>
      ⟨hc.1.step hstep, hc.1.connected_step hmeets hstep hc.2⟩
  have hall := hlater.invariant (I := fun c => c.Invariant s ∧
      c.router.settled.entry s = .node serverAddress ∧ Recorded s c)
    ⟨hinv, hinv.connected hstatus, hconnected hstatus⟩ ?_
  · exact hall.2.2
  · rintro event c c' ⟨hc, hsettled, hrecorded⟩ - hstep
    exact ⟨hc.step hstep, hc.settled_step hstep hsettled,
      hc.recorded_step hstep hsettled hrecorded⟩

end Steps

/-! ## A confirmation before the table -/

/-- The router is initiated, and handles the request of the server on port 0 up to a number of
actions; then the server handles the confirmation. -/
def confirmed (acts : ℕ) : List ConnectionEvent :=
  List.replicate 55 (.router .act) ++
    [.server .attempt, .router (.attempt fun _ => true),
      .router (.receive (some (packetRouterConnectionRequest 0 0)))] ++
    List.replicate acts (.router .act) ++ [.server (.receive (some packetClientHandshake))]

/-- The state after `confirmed`. -/
def confirmedState (acts : ℕ) : Option Connection :=
  run (Connection.step 0 (packetRouterConnectionRequest 0 0)) (confirmed acts)
    (.powerOn fun _ _ => true)

theorem isSome_confirmed : (confirmedState 5).isSome := by decide +kernel

/-- `recorded_of_settled` when the router carries out all actions first. -/
theorem recorded_of_settled_confirmed : Recorded 0 ((confirmedState 5).get isSome_confirmed) :=
  recorded_of_settled
    (Reachable.start.run (by decide +kernel) (Option.some_get isSome_confirmed).symm)
    (by decide +kernel) .start

theorem isSome_confirmed_before : (confirmedState 2).isSome := by decide +kernel

/-- A connected server need not be registered: the router acknowledges before it records. -/
theorem not_recorded : ¬ ∀ (check : ℕ → Port → Bool) (s : Port) (index total : UInt8)
    (c c' : Connection),
    Reachable (Connection.step s (packetRouterConnectionRequest index total)) (fun _ _ => True)
      (.powerOn check) c → c.server.connectionStatus = 1 →
    Reachable (Connection.step s (packetRouterConnectionRequest index total)) (fun _ _ => True)
      c c' → Recorded s c' := by
  intro h
  have hrecorded := h (fun _ _ => true) 0 0 0 _ _
    (Reachable.start.run (.of_forall (fun _ _ => trivial) _ _)
      (Option.some_get isSome_confirmed_before).symm) (by decide +kernel) .start
  exact absurd hrecorded (by decide +kernel)

end MicroKernel.Network
