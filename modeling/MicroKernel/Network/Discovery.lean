import MicroKernel.Lib.Lasting
import MicroKernel.Network.Delivery

/-!
# Discovery

Linked routers from power-on. Each of them starts with an empty table and asks the ports that hold a
device for routers; the answers and the registrations of the nodes come in any order, while other
packets are forwarded already by tables that are not complete.

## Main definitions

* `RoutingTable.Proper`: a table as packets can make it
* `Topology.PowersOn`: every router is at power-on, and finds the devices on its ports
* `Topology.Forming`: what holds until every router has its entries
* `Registers`: every node registers once at least

## Main results

* `Topology.Forming.step`: no router makes an entry that is not its own
* `discovers`: the routers can always come to their entries, and do so in every fair run, from where on
  they deliver every packet of a node once
-/

namespace MicroKernel.Network

open Transition

variable {V : Type*}

/-! ## Tables in the making -/

/-- A table with the types of clients only, in which only nodes have an address. -/
structure RoutingTable.Proper (table : RoutingTable) : Prop where
  type : ∀ d, table.deviceType d = clientTypeUnknown ∨ table.deviceType d = clientTypeNode ∨
    table.deviceType d = clientTypeRouter
  low : ∀ d, table.deviceType d ≠ clientTypeNode → table.addressLow d = 0
  high : ∀ d, table.deviceType d ≠ clientTypeNode → table.addressHigh d = 0

/-- A table that has the types and addresses of another, as far as they are assigned. -/
structure RoutingTable.Forms (table table' : RoutingTable) : Prop where
  type : ∀ d, table'.deviceType d = 0 ∨ table'.deviceType d = table.deviceType d
  low : ∀ d, table'.addressLow d = 0 ∨ table'.addressLow d = table.addressLow d
  high : ∀ d, table'.addressHigh d = 0 ∨ table'.addressHigh d = table.addressHigh d

/-- An action that clears what it assigns or gives it the value in the table; to another router it
sends only packets that keep the entries. -/
def RouterAction.Forms (table : RoutingTable) : RouterAction → Prop
  | .clear _ | .setState _ _ => True
  | .send d packet => table.entry d = .router → table.Keeps d packet
  | .setType d byte => byte = 0 ∨ byte = table.deviceType d
  | .setAddressLow d byte => byte = 0 ∨ byte = table.addressLow d
  | .setAddressHigh d byte => byte = 0 ∨ byte = table.addressHigh d

/-- An action that makes no port inactive. -/
def RouterAction.KeepsActive : RouterAction → Prop
  | .setState _ byte => byte ≠ 0
  | _ => True

section Table

variable {table table' : RoutingTable} {action : RouterAction} {actions : List RouterAction} {d : Port}

theorem RouterAction.Keeps.forms (h : action.Keeps table) : action.Forms table := by
  cases action with
  | clear | setState => trivial
  | send => exact h
  | setType | setAddressLow | setAddressHigh => exact .inr h

theorem RouterAction.Keeps.keepsActive (h : action.Keeps table) : action.KeepsActive := by
  cases action with
  | setState => exact h
  | clear | send | setType | setAddressLow | setAddressHigh => trivial

/-- An action that keeps the entries of every table assigns neither types nor addresses. -/
theorem RouterAction.keepsEntries_of_keeps (h : ∀ table, action.Keeps table) :
    action.KeepsEntries := by
  cases action with
  | clear | send | setState => trivial
  | setType d byte =>
    have h₀ : byte = 0 := h .zero
    have h₁ : byte = 1 := h { RoutingTable.zero with deviceType := fun _ => 1 }
    exact absurd (h₀.symm.trans h₁) (by decide)
  | setAddressLow d byte =>
    have h₀ : byte = 0 := h .zero
    have h₁ : byte = 1 := h { RoutingTable.zero with addressLow := fun _ => 1 }
    exact absurd (h₀.symm.trans h₁) (by decide)
  | setAddressHigh d byte =>
    have h₀ : byte = 0 := h .zero
    have h₁ : byte = 1 := h { RoutingTable.zero with addressHigh := fun _ => 1 }
    exact absurd (h₀.symm.trans h₁) (by decide)

/-- What is assigned at one port, and what stands at the others. -/
theorem zero_or_update {f g : Port → UInt8} {byte : UInt8} (h : ∀ c, g c = 0 ∨ g c = f c)
    (hbyte : byte = 0 ∨ byte = f d) (c : Port) :
    Function.update g d byte c = 0 ∨ Function.update g d byte c = f c := by
  rcases eq_or_ne c d with rfl | hne
  · rw [Function.update_self]
    exact hbyte
  · rw [Function.update_of_ne hne]
    exact h c

theorem RoutingTable.Forms.act (h : table.Forms table') (haction : action.Forms table) :
    table.Forms (table'.act action) := by
  cases action with
  | clear | send | setState => exact ⟨h.type, h.low, h.high⟩
  | setType => exact ⟨zero_or_update h.type haction, h.low, h.high⟩
  | setAddressLow => exact ⟨h.type, zero_or_update h.low haction, h.high⟩
  | setAddressHigh => exact ⟨h.type, h.low, zero_or_update h.high haction⟩

theorem RoutingTable.active_act (haction : action.KeepsActive) (hd : table.deviceState d ≠ 0) :
    (table.act action).deviceState d ≠ 0 := by
  cases action with
  | clear | send | setType | setAddressLow | setAddressHigh => exact hd
  | setState c byte =>
    show Function.update table.deviceState c byte d ≠ 0
    rcases eq_or_ne d c with rfl | hne
    · rw [Function.update_self]
      exact haction
    · rw [Function.update_of_ne hne]
      exact hd

theorem RoutingTable.active_acts (h : ∀ action ∈ actions, action.KeepsActive)
    (hd : table.deviceState d ≠ 0) : (table.acts actions).deviceState d ≠ 0 := by
  induction actions generalizing table with
  | nil => exact hd
  | cons action actions ih =>
    exact ih (fun a ha => h a (List.mem_cons_of_mem _ ha))
      (RoutingTable.active_act (h action List.mem_cons_self) hd)

/-- A table in the making is complete when it has all the entries. -/
theorem RoutingTable.Forms.agrees (h : table.Forms table') (htable : table.Proper)
    (hentry : ∀ d, table'.entry d = table.entry d)
    (hactive : ∀ d, table.deviceType d ≠ clientTypeUnknown → table'.deviceState d ≠ 0) :
    table.Agrees table' := by
  have hnode : ∀ d, table.deviceType d = clientTypeNode → table'.Carries (table.address d) d := by
    intro d hd
    rw [RoutingTable.carries_iff, hentry, ← RoutingTable.carries_iff]
    exact ⟨hd, rfl⟩
  refine ⟨funext fun d => ?_, funext fun d => ?_, funext fun d => ?_, hactive⟩
  · rcases h.type d with hzero | hd
    · rcases htable.type d with hunknown | hd | hd
      · exact hzero.trans hunknown.symm
      · exact (hnode d hd).1.trans hd.symm
      · -- the entry of a router is not that of an unknown port
        have hrouter := hentry d
        simp [RoutingTable.entry, hzero, hd, clientTypeNode, clientTypeRouter] at hrouter
    · exact hd
  · by_cases hd : table.deviceType d = clientTypeNode
    · exact (congrArg Address.low (hnode d hd).2).symm
    · rcases h.low d with hzero | hlow
      · exact hzero.trans (htable.low d hd).symm
      · exact hlow
  · by_cases hd : table.deviceType d = clientTypeNode
    · exact (congrArg Address.high (hnode d hd).2).symm
    · rcases h.high d with hzero | hhigh
      · exact hzero.trans (htable.high d hd).symm
      · exact hhigh

end Table

/-! ## Power-on -/

section PowerOn

variable {table : RoutingTable} {check : ℕ → Port → Bool} {rounds : List (ℕ × Port)} {s d : Port}

/-- The initiation of a port leaves the states of the others. -/
theorem deviceState_initiatePort_of_ne (hne : d ≠ s) (b : Bool) :
    (table.acts (initiatePort b s table)).deviceState d = table.deviceState d := by
  unfold initiatePort
  split
  · rfl
  · cases b <;> simp [RoutingTable.acts, RoutingTable.act, hne]

/-- A port that is active stays so, and one that holds a device becomes active. -/
theorem deviceState_initiatePort (b : Bool) (h : table.deviceState s = 1 ∨ b = true) :
    (table.acts (initiatePort b s table)).deviceState s = 1 := by
  unfold initiatePort
  split
  · next hactive => exact hactive
  · next hinactive =>
    rw [h.resolve_left hinactive]
    simp [RoutingTable.acts, RoutingTable.act]

/-- A port is active behind the rounds if it was before, or if one of them finds a device. -/
theorem deviceState_initiateTable
    (h : table.deviceState d = 1 ∨ ∃ retry, (retry, d) ∈ rounds ∧ check retry d = true) :
    (table.acts (initiateTable check rounds table)).deviceState d = 1 := by
  induction rounds generalizing table with
  | nil =>
    rcases h with h | ⟨retry, hmem, -⟩
    · exact h
    · exact absurd hmem List.not_mem_nil
  | cons round rounds ih =>
    obtain ⟨retry, s⟩ := round
    rw [initiateTable, RoutingTable.acts_append]
    refine ih ?_
    rcases eq_or_ne d s with rfl | hne
    · -- the round of the port itself
      by_cases hnow : table.deviceState d = 1 ∨ check retry d = true
      · exact .inl (deviceState_initiatePort _ hnow)
      · obtain ⟨hinactive, hcheck⟩ := not_or.mp hnow
        obtain ⟨later, hmem, hlater⟩ := h.resolve_left hinactive
        rcases List.mem_cons.mp hmem with heq | hmem
        · obtain ⟨rfl, -⟩ := Prod.mk.inj heq
          exact absurd hlater hcheck
        · exact .inr ⟨later, hmem, hlater⟩
    · rw [deviceState_initiatePort_of_ne hne]
      rcases h with h | ⟨later, hmem, hlater⟩
      · exact .inl h
      · rcases List.mem_cons.mp hmem with heq | hmem
        · exact absurd (Prod.mk.inj heq).2 hne
        · exact .inr ⟨later, hmem, hlater⟩

theorem keepsActive_connect : ∀ action ∈ connect table, action.KeepsActive := by
  intro action haction
  obtain ⟨c, -, rfl⟩ := List.mem_map.mp haction
  trivial

/-- A port on which one of the three retries finds a device is active behind the initiation, which has
asked it for a router. -/
theorem initiate_of_check (h : ∃ retry < 3, check retry d = true) :
    (Process.powerOn check).settled.deviceState d ≠ 0 ∧
      .send d packetRouterHandshakeOutgoing ∈ (Process.powerOn check).actions := by
  obtain ⟨retry, hretry, hcheck⟩ := h
  have hround : (retry, d) ∈ (List.range 3).flatMap fun retry =>
      (List.finRange numberOfPeripherals).map fun s => (retry, s) :=
    List.mem_flatMap.mpr ⟨retry, List.mem_range.mpr hretry,
      List.mem_map.mpr ⟨d, List.mem_finRange d, rfl⟩⟩
  have hone : (RoutingTable.zero.acts (initiateTable check _ .zero)).deviceState d = 1 :=
    deviceState_initiateTable (.inr ⟨retry, hround, hcheck⟩)
  have hactive : _ ≠ (0 : UInt8) := hone.trans_ne (by decide)
  constructor
  · show (RoutingTable.acts _ (_ ++ _)).deviceState d ≠ 0
    rw [RoutingTable.acts_append]
    refine RoutingTable.active_acts (fun action haction => ?_) hactive
    obtain ⟨actions, hactions, hmem⟩ := List.mem_flatten.mp haction
    rw [List.eq_of_mem_replicate hactions] at hmem
    exact keepsActive_connect action hmem
  · refine List.mem_append_right _ (List.mem_flatten.mpr ⟨_, List.mem_replicate.mpr ⟨by decide, rfl⟩,
      List.mem_map.mpr ⟨d, List.mem_filter.mpr ⟨List.mem_finRange d, ?_⟩, rfl⟩⟩)
    exact decide_eq_true hactive

/-- The actions of the initiation: it clears the entry of a port, makes ports active, and asks for
routers. -/
theorem mem_initiate {action : RouterAction} (h : action ∈ initiate check) :
    ∃ d, (∃ byte, action = .setState d byte) ∨ action = .setType d 0 ∨
      action = .setAddressLow d 0 ∨ action = .setAddressHigh d 0 ∨
      action = .send d packetRouterHandshakeOutgoing := by
  -- what one port is made ready with
  have hport : ∀ (b : Bool) (s : Port) (table : RoutingTable), action ∈ initiatePort b s table →
      (∃ byte, action = .setState s byte) ∨ action = .setType s 0 ∨
        action = .setAddressLow s 0 ∨ action = .setAddressHigh s 0 := by
    intro b s table hmem
    unfold initiatePort at hmem
    split at hmem
    · cases hmem
    · rcases List.mem_append.mp hmem with hmem | hmem
      · simp only [List.mem_cons, List.not_mem_nil, or_false] at hmem
        rcases hmem with rfl | rfl | rfl | rfl | rfl | rfl
        · exact .inl ⟨0, rfl⟩
        · exact .inr (.inl rfl)
        · exact .inr (.inr (.inl rfl))
        · exact .inr (.inr (.inr rfl))
        · exact .inl ⟨0, rfl⟩
        · exact .inr (.inl rfl)
      · cases b with
        | false => cases hmem
        | true =>
          rcases List.mem_pair.mp hmem with rfl | rfl
          · exact .inl ⟨1, rfl⟩
          · exact .inr (.inl rfl)
  -- each action of the rounds is one of a port
  have htable : ∀ (rounds : List (ℕ × Port)) (table : RoutingTable),
      action ∈ initiateTable check rounds table → ∃ s b table, action ∈ initiatePort b s table := by
    intro rounds
    induction rounds with
    | nil => intro table hmem; cases hmem
    | cons round rounds ih =>
      intro table hmem
      rcases List.mem_append.mp hmem with hmem | hmem
      · exact ⟨_, _, _, hmem⟩
      · exact ih _ hmem
  rcases List.mem_append.mp h with h | h
  · obtain ⟨s, b, table, hmem⟩ := htable _ _ h
    obtain hstate | htype | hlow | hhigh := hport b s table hmem
    · exact ⟨s, .inl hstate⟩
    · exact ⟨s, .inr (.inl htype)⟩
    · exact ⟨s, .inr (.inr (.inl hlow))⟩
    · exact ⟨s, .inr (.inr (.inr (.inl hhigh)))⟩
  · obtain ⟨actions, hactions, hmem⟩ := List.mem_flatten.mp h
    rw [List.eq_of_mem_replicate hactions] at hmem
    obtain ⟨d, -, rfl⟩ := List.mem_map.mp hmem
    exact ⟨d, .inr (.inr (.inr (.inr rfl)))⟩

theorem forms_initiate (table : RoutingTable) :
    ∀ action ∈ initiate check, action.Forms table := by
  intro action haction
  obtain ⟨d, ⟨byte, rfl⟩ | rfl | rfl | rfl | rfl⟩ := mem_initiate haction
  · trivial
  · exact .inl rfl
  · exact .inl rfl
  · exact .inl rfl
  · intro hd
    refine .inr ?_
    rw [hd]
    rfl

end PowerOn

/-! ## Routers in the making -/

/-- A router on the way to its entries: what it still has to do makes no other entry, and the ports
that are known in the end are active when it is done. -/
structure Process.Forming (table : RoutingTable) (process : Process) : Prop where
  forms : table.Forms process.router.routingTable
  actions : ∀ action ∈ process.actions, action.Forms table
  entry : ∀ d, process.settled.entry d = .unknown ∨ process.settled.entry d = table.entry d
  active : ∀ d, table.deviceType d ≠ clientTypeUnknown → process.settled.deviceState d ≠ 0

/-- The router at the other end of a link has asked for this one: it has the question still to send, or
it is on the link, or it has been answered. -/
def Routers.Asked (s : Routers V) (v : V) (d : Port) (w : V) (e : Port) : Prop :=
  .send d packetRouterHandshakeOutgoing ∈ (s.process v).actions ∨
    (∃ message ∈ s.flight, message.router = w ∧ message.port = e ∧
      message.packet = packetRouterHandshakeOutgoing) ∨
    (s.process w).settled.entry e = .router

/-- No packet is followed. -/
structure Routers.Unmarked (s : Routers V) : Prop where
  flight : ∀ message ∈ s.flight, message.copy = false
  copying : ∀ v, s.copying v = false
  handled : s.handled = []
  delivered : s.delivered = []

/-- Every router is on the way to its entries, and so are the packets on the links. -/
structure Topology.Forming (net : Topology V) (s : Routers V) : Prop where
  process : ∀ v, (s.process v).Forming (net.table v)
  flight : ∀ message ∈ s.flight, (net.table message.router).Keeps message.port message.packet
  asked : ∀ {v w d e}, net.link v d = some (w, e) → s.Asked v d w e
  unmarked : s.Unmarked

/-- Every router is at power-on, with no packet on the links, and each port that is known in the end
holds a device that one of the three retries finds. -/
structure Topology.PowersOn (net : Topology V) (check : V → ℕ → Port → Bool) (s : Routers V) :
    Prop where
  process : ∀ v, s.process v = .powerOn (check v)
  check : ∀ v d, (net.table v).deviceType d ≠ clientTypeUnknown → ∃ retry < 3, check v retry d = true
  flight : s.flight = []
  unmarked : s.Unmarked

section Forming

variable {net : Topology V} {s s' : Routers V} {v w : V} {d e : Port} {table : RoutingTable}
  {process process' : Process} {packet : NetworkPacket}

theorem Topology.Wired.known_of_link (h : net.Wired) (hlink : net.link v d = some (w, e)) :
    (net.table v).deviceType d ≠ clientTypeUnknown := by
  rw [(h.router v d).mpr (by rw [hlink]; rfl)]
  decide

theorem Topology.PowersOn.forming {check : V → ℕ → Port → Bool} (h : net.PowersOn check s)
    (hnet : net.Wired) : net.Forming s where
  process v := by
    rw [h.process]
    refine ⟨⟨fun d => .inl rfl, fun d => .inl rfl, fun d => .inl rfl⟩, forms_initiate _,
      fun d => .inl (entry_powerOn _ d), fun d hd => ?_⟩
    exact (initiate_of_check (h.check v d hd)).1
  flight message hmessage := by
    rw [h.flight] at hmessage
    cases hmessage
  asked {v w d e} hlink := by
    refine .inl ?_
    rw [h.process]
    exact (initiate_of_check (h.check v d (hnet.known_of_link hlink))).2
  unmarked := h.unmarked

/-- A router carries out an action. -/
theorem Process.Forming.act (h : process.Forming table) {action : RouterAction}
    (hactions : process.actions = action :: process'.actions)
    (hrouter : process'.router = process.router.act action) :
    process'.settled = process.settled ∧ process'.Forming table := by
  have hsettled : process'.settled = process.settled := by
    rw [Process.settled, Process.settled, hrouter, hactions]
    rfl
  have hforms := h.actions
  rw [hactions] at hforms
  refine ⟨hsettled, ?_, fun a ha => hforms a (List.mem_cons_of_mem _ ha), ?_, ?_⟩
  · rw [hrouter]
    exact h.forms.act (hforms action List.mem_cons_self)
  · rw [hsettled]
    exact h.entry
  · rw [hsettled]
    exact h.active

/-- A router goes on with actions that keep its entries, or with a packet that does. -/
theorem Process.Forming.goOn (h : process.Forming table) (hnil : process.actions = [])
    (htable : process'.router.routingTable = process.router.routingTable)
    (hactions : ∀ action ∈ process'.actions, action.Keeps table)
    (hentry : ∀ d, process'.settled.entry d = process.settled.entry d ∨
      process'.settled.entry d = table.entry d) : process'.Forming table := by
  refine ⟨htable ▸ h.forms, fun a ha => (hactions a ha).forms, fun d => ?_, fun d hd => ?_⟩
  · rcases hentry d with hd | hd
    · rw [hd]
      exact h.entry d
    · exact .inr hd
  · refine RoutingTable.active_acts (fun a ha => (hactions a ha).keepsActive) ?_
    rw [htable, ← Process.settled_of_nil hnil]
    exact h.active d hd

/-- The entries of a router behind a packet that keeps them. -/
theorem entry_of_keeps (hpacket : table.Keeps d packet)
    (hnil : process.actions = []) (hrouter : process'.router = process.router)
    (hactions : process'.actions = receivePacket d packet process.router.routingTable) (c : Port) :
    process'.settled.entry c = process.settled.entry c ∨
      process'.settled.entry c = table.entry c := by
  have hsettled : process'.settled.entry =
      Function.update process.settled.entry d (packet.entry?.getD (process.settled.entry d)) := by
    rw [Process.settled, hrouter, hactions, Process.settled_of_nil hnil]
    exact entry_receivePacket
  rw [hsettled]
  rcases eq_or_ne c d with rfl | hne
  · rw [Function.update_self]
    rcases hpacket with hnone | hsome
    · rw [hnone]
      exact .inl rfl
    · rw [hsome]
      exact .inr rfl
  · rw [Function.update_of_ne hne]
    exact .inl rfl

variable [DecidableEq V] {event : NetworkEvent V}

/-- A packet that is handed over makes its entry. -/
theorem Topology.entry_hand {message : Message V} (hstep : net.step (.hand message) s = some s') :
    (s'.process message.router).settled.entry message.port =
      message.packet.entry?.getD ((s.process message.router).settled.entry message.port) := by
  obtain ⟨_, _, _, hevent, -⟩ | ⟨_, _, -, hne, -⟩ |
    ⟨message', process, hevent, -, hnil, hrouter, hactions, rfl⟩ | ⟨_, hevent, -⟩ :=
    Topology.step_cases hstep
  · cases hevent
  · exact absurd rfl (hne message)
  · obtain rfl := NetworkEvent.hand.inj hevent
    show ((s.update message.router process).process message.router).settled.entry _ = _
    rw [Routers.process_update, Process.settled, hrouter, hactions, Process.settled_of_nil hnil,
      entry_receivePacket, Function.update_self]
  · cases hevent

/-- A packet that is followed comes from outside. -/
theorem Routers.Unmarked.step (h : s.Unmarked) (hstep : net.step event s = some s') :
    s'.Unmarked := by
  obtain ⟨hflight, hcopying, hhandled, hdelivered⟩ := h
  have hupdate : ∀ (v : V) (b : Bool), b = false → ∀ w, Function.update s.copying v b w = false := by
    rintro v b rfl w
    rcases eq_or_ne w v with rfl | hne
    · exact Function.update_self _ _ _
    · rw [Function.update_of_ne hne]
      exact hcopying w
  obtain ⟨v, action, process, rfl, -, -, rfl⟩ | ⟨v, process, -, -, -, -, -, rfl⟩ |
    ⟨message, process, rfl, hmessage, -, -, -, rfl⟩ | ⟨message, rfl, hinjects, rfl⟩ :=
    Topology.step_cases hstep
  · have hv : (s.update v process).copying v = false := hcopying v
    rcases action.sent with - | ⟨c, packet⟩
    · exact ⟨hflight, hcopying, hhandled, hdelivered⟩
    · cases hlink : net.link v c with
      | none =>
        rw [Topology.emit_of_not_link hlink, hv]
        exact ⟨hflight, hcopying, hhandled, hdelivered⟩
      | some other =>
        obtain ⟨w, e⟩ := other
        rw [Topology.emit_of_link hlink, hv]
        refine ⟨fun message hmessage => ?_, hcopying, hhandled, hdelivered⟩
        rcases List.mem_append.mp hmessage with hold | hnew
        · exact hflight message hold
        · rw [List.mem_singleton.mp hnew]
  · exact ⟨hflight, hupdate v false rfl, hhandled, hdelivered⟩
  · have hcopy := hflight message hmessage
    refine ⟨fun other hother => hflight other (List.mem_of_mem_erase hother), hupdate _ _ hcopy, ?_,
      hdelivered⟩
    show (if message.copy then _ else _) = _
    rw [hcopy]
    exact hhandled
  · refine ⟨fun other hother => ?_, hcopying, hhandled, hdelivered⟩
    rcases List.mem_cons.mp hother with rfl | hold
    · exact hinjects.1
    · exact hflight other hold

/-- **A step makes no entry** but those of the tables. -/
theorem Topology.Forming.process_step (h : net.Forming s) (hstep : net.step event s = some s')
    (v : V) : (s'.process v).Forming (net.table v) ∧
      ∀ d, (s'.process v).settled.entry d = (s.process v).settled.entry d ∨
        (s'.process v).settled.entry d = (net.table v).entry d := by
  have hsame : s'.process v = s.process v → (s'.process v).Forming (net.table v) ∧
      ∀ d, (s'.process v).settled.entry d = (s.process v).settled.entry d ∨
        (s'.process v).settled.entry d = (net.table v).entry d := by
    intro heq
    rw [heq]
    exact ⟨h.process v, fun d => .inl rfl⟩
  -- a step of another router leaves the process
  by_cases hv : event.router = some v
  · obtain ⟨u, action, process, rfl, hactions, hrouter, rfl⟩ |
      ⟨u, process, hrouter, -, hnil, htable, hkeeps, rfl⟩ |
      ⟨message, process, rfl, hmessage, hnil, hrouter, hactions, rfl⟩ | ⟨message, rfl, -⟩ :=
      Topology.step_cases hstep
    · obtain rfl : u = v := Option.some.inj hv
      rw [Topology.process_emit, Routers.process_update]
      obtain ⟨hsettled, hforming⟩ := (h.process u).act hactions hrouter
      refine ⟨hforming, fun d => .inl ?_⟩
      rw [hsettled]
    · obtain rfl : u = v := Option.some.inj (hrouter.symm.trans hv)
      have hentry : ∀ d, process.settled.entry d = (s.process u).settled.entry d := by
        intro d
        rw [Process.settled, RoutingTable.entry_acts_of_keeps fun a ha =>
          RouterAction.keepsEntries_of_keeps fun table => hkeeps table a ha, htable,
          Process.settled_of_nil hnil]
      show ((s.update u process).process u).Forming _ ∧
        ∀ d, ((s.update u process).process u).settled.entry d = _ ∨ _
      rw [Routers.process_update]
      exact ⟨(h.process u).goOn hnil htable (hkeeps _) fun d => .inl (hentry d),
        fun d => .inl (hentry d)⟩
    · obtain rfl : message.router = v := Option.some.inj hv
      have hpacket := h.flight message hmessage
      have hentry := entry_of_keeps hpacket hnil hrouter hactions
      show ((s.update _ process).process _).Forming _ ∧
        ∀ d, ((s.update _ process).process _).settled.entry d = _ ∨ _
      rw [Routers.process_update]
      refine ⟨(h.process _).goOn hnil (congrArg _ hrouter) ?_ hentry, hentry⟩
      rw [hactions]
      exact keeps_receivePacket hpacket
    · cases hv
  · exact hsame (Topology.step_other hstep hv).1

theorem Topology.Forming.flight_step (h : net.Forming s) (hnet : net.Wired)
    (hstep : net.step event s = some s') :
    ∀ message ∈ s'.flight, (net.table message.router).Keeps message.port message.packet := by
  obtain ⟨v, action, process, rfl, hactions, -, rfl⟩ | ⟨v, process, -, -, -, -, -, rfl⟩ |
    ⟨message, process, rfl, -, -, -, -, rfl⟩ | ⟨message, rfl, hinjects, rfl⟩ :=
    Topology.step_cases hstep
  · have haction : action.Forms (net.table v) :=
      (h.process v).actions action (by rw [hactions]; exact List.mem_cons_self)
    cases action with
    | send c packet =>
      cases hlink : net.link v c with
      | none =>
        rw [RouterAction.sent, Topology.emit_of_not_link hlink]
        exact h.flight
      | some other =>
        obtain ⟨w, e⟩ := other
        rw [RouterAction.sent, Topology.emit_of_link hlink]
        intro message hmessage
        rcases List.mem_append.mp hmessage with hold | hnew
        · exact h.flight message hold
        · -- the port at the other end is one of a router as well
          obtain rfl := List.mem_singleton.mp hnew
          have hkeeps := haction (hnet.entry_of_link hlink)
          rw [RoutingTable.Keeps, hnet.entry_of_link hlink] at hkeeps
          show (net.table w).Keeps e packet
          rw [RoutingTable.Keeps, hnet.entry_of_link (hnet.symm hlink)]
          exact hkeeps
    | clear | setState | setType | setAddressLow | setAddressHigh => exact h.flight
  · exact h.flight
  · exact fun other hother => h.flight other (List.mem_of_mem_erase hother)
  · intro other hother
    rcases List.mem_cons.mp hother with rfl | hold
    · exact hinjects.2.2
    · exact h.flight other hold

/-- A router keeps the entries it has come to. -/
theorem Topology.Forming.entry_step (h : net.Forming s) (hstep : net.step event s = some s')
    (hd : (s.process v).settled.entry d = (net.table v).entry d) :
    (s'.process v).settled.entry d = (net.table v).entry d := by
  rcases (h.process_step hstep v).2 d with hsame | hnew
  · exact hsame.trans hd
  · exact hnew

/-- A question that a router has still to send is sent before anything else is. -/
theorem Topology.Forming.asked_step (h : net.Forming s) (hnet : net.Wired)
    (hstep : net.step event s = some s') (hlink : net.link v d = some (w, e)) :
    s'.Asked v d w e := by
  rcases h.asked hlink with hpending | ⟨question, hquestion, hw, he, hpacket⟩ | hrouter
  · by_cases hv : event.router = some v
    · obtain ⟨action, actions, hactions⟩ := List.exists_cons_of_ne_nil (List.ne_nil_of_mem hpending)
      obtain ⟨process, hrest, rfl⟩ := Topology.step_act hstep hv hactions
      rw [hactions] at hpending
      rcases List.mem_cons.mp hpending with rfl | hlater
      · -- it is sent now
        refine .inr (.inl ⟨⟨w, e, packetRouterHandshakeOutgoing, s.copying v⟩, ?_, rfl, rfl, rfl⟩)
        rw [RouterAction.sent, Topology.emit_of_link hlink]
        exact List.mem_append_right _ List.mem_cons_self
      · refine .inl ?_
        rw [Topology.process_emit, Routers.process_update, hrest]
        exact hlater
    · refine .inl ?_
      rw [(Topology.step_other hstep hv).1]
      exact hpending
  · -- it stays on the link until it is handed over
    have hkept : question ∈ s'.flight ∨ event = .hand question := by
      obtain ⟨u, action, process, rfl, -, -, rfl⟩ | ⟨u, process, -, -, -, -, -, rfl⟩ |
        ⟨message, process, rfl, -, -, -, -, rfl⟩ | ⟨message, rfl, -, rfl⟩ :=
        Topology.step_cases hstep
      · exact .inl (net.flight_emit u _ (s.update u process) hquestion)
      · exact .inl hquestion
      · rcases eq_or_ne question message with rfl | hne
        · exact .inr rfl
        · exact .inl ((List.mem_erase_of_ne hne).mpr hquestion)
      · exact .inl (List.mem_cons_of_mem _ hquestion)
    rcases hkept with hkept | rfl
    · exact .inr (.inl ⟨question, hkept, hw, he, hpacket⟩)
    · refine .inr (.inr ?_)
      subst hw he
      rw [Topology.entry_hand hstep, hpacket]
      rfl
  · refine .inr (.inr ?_)
    rw [← hnet.entry_of_link (hnet.symm hlink)] at hrouter ⊢
    exact h.entry_step hstep hrouter

/-- **The routers stay on the way to their entries.** -/
theorem Topology.Forming.step (h : net.Forming s) (hnet : net.Wired)
    (hstep : net.step event s = some s') : net.Forming s' where
  process v := (h.process_step hstep v).1
  flight := h.flight_step hnet hstep
  asked hlink := h.asked_step hnet hstep hlink
  unmarked := h.unmarked.step hstep

end Forming

/-! ## Progress -/

/-- The connection request of a node. -/
def packetClientRequest (address : Address) : NetworkPacket :=
  { packetClientHandshake with addrD := routerAddress, addrS := address }

/-- Every node registers once at least. -/
def Topology.Registers (net : Topology V) (labels : ℕ → NetworkEvent V) : Prop :=
  ∀ v d, (net.table v).deviceType d = clientTypeNode → ∃ k message, labels k = .inject message ∧
    message.router = v ∧ message.port = d ∧ message.packet.entry? = some ((net.table v).entry d)

/-- A router that has its entries and keeps them by its pending actions. -/
def Process.Stands (table : RoutingTable) (process : Process) : Prop :=
  table.Agrees process.router.routingTable ∧ ∀ action ∈ process.actions, action.Keeps table

section Progress

variable {net : Topology V} {s s' : Routers V} {v w : V} {d e : Port} {table : RoutingTable}
  {process : Process}

theorem entry?_packetClientRequest (address : Address) :
    NetworkPacket.entry? (packetClientRequest address) = some (.node address) := by
  have hd : (packetClientRequest address).addrD = routerAddress := rfl
  have hclient : (packetClientRequest address).IsClientRequest := ⟨rfl, rfl⟩
  rw [NetworkPacket.entry?, if_pos hd, if_pos hclient]
  rfl

theorem RoutingTable.entry_of_node (hd : table.deviceType d = clientTypeNode) :
    table.entry d = .node (table.address d) :=
  RoutingTable.carries_iff.mp ⟨hd, rfl⟩

/-- A port of unknown type has its entry from the start. -/
theorem Process.Forming.entry_of_unknown (h : process.Forming table)
    (hd : table.deviceType d = clientTypeUnknown) : process.settled.entry d = table.entry d := by
  have hunknown : table.entry d = .unknown := by
    simp [RoutingTable.entry, hd, clientTypeUnknown, clientTypeNode, clientTypeRouter]
  rcases h.entry d with hentry | hentry
  · rw [hentry, hunknown]
  · exact hentry

/-- With its entries, and nothing else to do, a router stands. -/
theorem Process.Forming.stands (h : process.Forming table) (htable : table.Proper)
    (hentry : ∀ d, process.settled.entry d = table.entry d) (hnil : process.actions = []) :
    process.Stands table := by
  have hactive := h.active
  rw [Process.settled_of_nil hnil] at hentry hactive
  refine ⟨h.forms.agrees htable hentry hactive, fun action haction => ?_⟩
  rw [hnil] at haction
  cases haction

/-- The routers stand when each of them does. -/
theorem Topology.Forming.standing (h : net.Forming s)
    (hstands : ∀ v, (s.process v).Stands (net.table v)) : net.Standing s :=
  ⟨fun v => (hstands v).1, fun v => (hstands v).2, h.flight⟩

variable [DecidableEq V]

theorem Topology.Forming.stands_step (h : net.Forming s) {event : NetworkEvent V}
    (hstep : net.step event s = some s') (hv : (s.process v).Stands (net.table v)) :
    (s'.process v).Stands (net.table v) := by
  by_cases hrouter : event.router = some v
  · obtain ⟨hagrees, hkeeps⟩ := hv
    obtain ⟨u, action, process, rfl, hactions, hprocess, rfl⟩ |
      ⟨u, process, hu, -, hnil, htable, hkeep, rfl⟩ |
      ⟨message, process, rfl, hmessage, hnil, hprocess, hactions, rfl⟩ | ⟨message, rfl, -⟩ :=
      Topology.step_cases hstep
    · obtain rfl : u = v := Option.some.inj hrouter
      rw [hactions] at hkeeps
      rw [Topology.process_emit, Routers.process_update, Process.Stands, hprocess]
      exact ⟨hagrees.act (hkeeps action List.mem_cons_self),
        fun a ha => hkeeps a (List.mem_cons_of_mem _ ha)⟩
    · obtain rfl : u = v := Option.some.inj (hu.symm.trans hrouter)
      show ((s.update u process).process u).Stands _
      rw [Routers.process_update]
      exact ⟨htable ▸ hagrees, hkeep _⟩
    · obtain rfl : message.router = v := Option.some.inj hrouter
      show ((s.update _ process).process _).Stands _
      rw [Routers.process_update, Process.Stands, hprocess, hactions]
      exact ⟨hagrees, keeps_receivePacket (h.flight message hmessage)⟩
    · cases hrouter
  · rw [(Topology.step_other hstep hrouter).1]
    exact hv

theorem Topology.Forming.of_reachable (h : net.Forming s) (hnet : net.Wired)
    (hreachable : Reachable net.step (fun _ _ => True) s s') : net.Forming s' :=
  hreachable.invariant h fun _ _ _ hs _ hstep => hs.step hnet hstep

/-- A packet on a link can be handed over, if its port is known in the end. -/
theorem Topology.Forming.exists_hand (h : net.Forming s) (hnet : net.Wired) {message : Message V}
    (hmessage : message ∈ s.flight)
    (hknown : (net.table message.router).deviceType message.port ≠ clientTypeUnknown) {entry : Entry}
    (hentry : message.packet.entry? = some entry) :
    ∃ s', Reachable net.step (fun _ _ => True) s s' ∧
      (s'.process message.router).settled.entry message.port = entry := by
  obtain ⟨s₁, hs₁, hnil, hpoint, hflight⟩ := net.exists_receive s message.router message.port
  have hactive := ((h.of_reachable hnet hs₁).process message.router).active message.port hknown
  rw [Process.settled_of_nil hnil] at hactive
  obtain ⟨s₂, hs₂⟩ : ∃ s₂, net.step (.hand message) s₁ = some s₂ := by
    rw [Topology.step, if_pos ⟨hflight hmessage, Process.handles_receive hnil hpoint⟩]
    rcases hp : s₁.process message.router with ⟨router, actions, point⟩
    rw [hp] at hnil hpoint hactive
    obtain rfl : actions = [] := hnil
    obtain rfl : point = .receive message.port := hpoint
    rw [Process.step, if_neg hactive]
    exact ⟨_, rfl⟩
  refine ⟨s₂, hs₁.next trivial hs₂, ?_⟩
  rw [Topology.entry_hand hs₂, hentry, Option.getD_some]

/-- A router can come to each of its entries. -/
theorem Topology.Forming.exists_entry (h : net.Forming s) (hnet : net.Wired)
    (hproper : ∀ v, (net.table v).Proper) (v : V) (d : Port) :
    ∃ s', Reachable net.step (fun _ _ => True) s s' ∧
      (s'.process v).settled.entry d = (net.table v).entry d := by
  rcases (hproper v).type d with hunknown | hnode | hrouter
  · exact ⟨s, .start, (h.process v).entry_of_unknown hunknown⟩
  · -- its node can register
    have hentry : NetworkPacket.entry? (packetClientRequest ((net.table v).address d)) =
        some ((net.table v).entry d) := by
      rw [entry?_packetClientRequest, RoutingTable.entry_of_node hnode]
    have hstep : net.step (.inject ⟨v, d, packetClientRequest ((net.table v).address d), false⟩) s =
        some _ := if_pos ⟨rfl, hnode, .inr hentry⟩
    have hs₁ : Reachable net.step (fun _ _ => True) s _ := Reachable.start.next trivial hstep
    obtain ⟨s₂, hs₂, hv⟩ := (h.of_reachable hnet hs₁).exists_hand hnet List.mem_cons_self
      (hnode.trans_ne (by decide)) hentry
    exact ⟨s₂, hs₁.trans hs₂, hv⟩
  · -- the router at the other end has asked
    obtain ⟨⟨w, e⟩, hlink⟩ := Option.isSome_iff_exists.mp ((hnet.router v d).mp hrouter)
    have hknown := hrouter.trans_ne (show clientTypeRouter ≠ clientTypeUnknown by decide)
    rw [hnet.entry_of_link hlink]
    have hhand : ∀ {s₁}, Reachable net.step (fun _ _ => True) s s₁ →
        (∃ message ∈ s₁.flight, message.router = v ∧ message.port = d ∧
          message.packet = packetRouterHandshakeOutgoing) →
        ∃ s', Reachable net.step (fun _ _ => True) s s' ∧
          (s'.process v).settled.entry d = .router := by
      rintro s₁ hs₁ ⟨message, hmessage, rfl, rfl, hpacket⟩
      have hentry : message.packet.entry? = some .router := by
        rw [hpacket]
        rfl
      obtain ⟨s₂, hs₂, hv⟩ := (h.of_reachable hnet hs₁).exists_hand hnet hmessage hknown hentry
      exact ⟨s₂, hs₁.trans hs₂, hv⟩
    rcases h.asked (hnet.symm hlink) with hpending | hflight | hdone
    · obtain ⟨before, behind, hactions⟩ := List.append_of_mem hpending
      obtain ⟨s₁, hs₁, hactions₁, -⟩ := net.exists_acts hactions
      obtain ⟨process, hstep, -⟩ := net.exists_act hactions₁
      refine hhand (hs₁.next trivial hstep)
        ⟨⟨v, d, packetRouterHandshakeOutgoing, s₁.copying w⟩, ?_, rfl, rfl, rfl⟩
      rw [RouterAction.sent, Topology.emit_of_link (hnet.symm hlink)]
      exact List.mem_append_right _ List.mem_cons_self
    · exact hhand .start hflight
    · exact ⟨s, .start, hdone⟩

/-! ### Fair runs -/

variable {labels : ℕ → NetworkEvent V} {states : ℕ → Routers V} {s₀ : Routers V}

/-- A packet on a link makes its entry in the end. -/
theorem Fair.exists_entry_of_flight (hfair : Fair labels states)
    (hexec : Execution net.step s₀ labels states) {n : ℕ} {message : Message V}
    (hmessage : message ∈ (states n).flight) {entry : Entry}
    (hentry : message.packet.entry? = some entry) :
    ∃ k, ((states k).process message.router).settled.entry message.port = entry := by
  obtain ⟨k, -, hlabel⟩ := hfair.hands n message hmessage
  have hstep := hexec.next k
  rw [hlabel] at hstep
  refine ⟨k + 1, ?_⟩
  rw [Topology.entry_hand hstep, hentry, Option.getD_some]

/-- In a fair run, a router comes to each of its entries. -/
theorem Fair.exists_entry (hfair : Fair labels states)
    (hexec : Execution net.step s₀ labels states) (hforming : net.Forming s₀) (hnet : net.Wired)
    (hproper : ∀ v, (net.table v).Proper) (hregisters : net.Registers labels) (v : V) (d : Port) :
    ∃ n, ((states n).process v).settled.entry d = (net.table v).entry d := by
  rcases (hproper v).type d with hunknown | hnode | hrouter
  · refine ⟨0, ?_⟩
    rw [hexec.start]
    exact (hforming.process v).entry_of_unknown hunknown
  · obtain ⟨k, message, hlabel, rfl, rfl, hentry⟩ := hregisters v d hnode
    have hstep := hexec.next k
    rw [hlabel, Topology.step] at hstep
    split at hstep
    · have hmessage : message ∈ (states (k + 1)).flight := by
        rw [← Option.some.inj hstep]
        exact List.mem_cons_self
      exact hfair.exists_entry_of_flight hexec hmessage hentry
    · cases hstep
  · obtain ⟨⟨w, e⟩, hlink⟩ := Option.isSome_iff_exists.mp ((hnet.router v d).mp hrouter)
    rw [hnet.entry_of_link hlink]
    rcases hforming.asked (hnet.symm hlink) with hpending | ⟨message, hmessage, rfl, rfl, hpacket⟩ |
      hdone
    · -- the router at the other end comes to its question, and sends it at its next step
      rw [← hexec.start] at hpending
      obtain ⟨before, behind, hactions⟩ := List.append_of_mem hpending
      obtain ⟨k, -, hactionsk, -⟩ := hfair.reaches hexec hactions
      obtain ⟨m, -, hw, hprocess, -⟩ := hfair.exists_next hexec k w
      obtain ⟨process, -, hnext⟩ := Topology.step_act (hexec.next m) hw (hprocess ▸ hactionsk)
      have hmessage : ⟨v, d, packetRouterHandshakeOutgoing, (states m).copying w⟩ ∈
          (states (m + 1)).flight := by
        rw [hnext, RouterAction.sent, Topology.emit_of_link (hnet.symm hlink)]
        exact List.mem_append_right _ List.mem_cons_self
      exact hfair.exists_entry_of_flight hexec hmessage rfl
    · rw [← hexec.start] at hmessage
      exact hfair.exists_entry_of_flight hexec hmessage (by rw [hpacket]; rfl)
    · refine ⟨0, ?_⟩
      rw [hexec.start]
      exact hdone

variable [Finite V] {check : V → ℕ → Port → Bool}

/-- Every router has its entries, as soon as its pending actions are done. -/
def Topology.Settled (net : Topology V) (s : Routers V) : Prop :=
  net.Forming s ∧ ∀ i : V × Port, (s.process i.1).settled.entry i.2 = (net.table i.1).entry i.2

omit [Finite V] in
theorem lasts_entry (net : Topology V) (i : V × Port) :
    Lasts net.step (fun _ _ => True) net.Forming
      fun s => (s.process i.1).settled.entry i.2 = (net.table i.1).entry i.2 :=
  fun _ _ _ h hi _ hstep => h.entry_step hstep hi

omit [Finite V] in
theorem lasts_stands (net : Topology V) (v : V) :
    Lasts net.step (fun _ _ => True) net.Forming fun s => (s.process v).Stands (net.table v) :=
  fun _ _ _ h hv _ hstep => h.stands_step hstep hv

omit [Finite V] in
theorem Topology.Settled.step (h : net.Settled s) (hnet : net.Wired) {event : NetworkEvent V}
    (hstep : net.step event s = some s') : net.Settled s' :=
  ⟨h.1.step hnet hstep, fun i => lasts_entry net i _ _ _ h.1 (h.2 i) trivial hstep⟩

/-- **The routers can come to their entries.** -/
theorem Topology.Forming.exists_standing (h : net.Forming s) (hnet : net.Wired)
    (hproper : ∀ v, (net.table v).Proper) :
    ∃ s', Reachable net.step (fun _ _ => True) s s' ∧ net.Standing s' := by
  obtain ⟨s₁, hs₁, hsettled⟩ := Reachable.exists_forall
    (fun _ _ _ hs _ hstep => hs.step hnet hstep) (lasts_entry net)
    (fun i _ hs => hs.exists_entry hnet hproper i.1 i.2) h
  -- each router comes to the end of its actions
  obtain ⟨s₂, hs₂, ⟨hforming, -⟩, hstands⟩ := Reachable.exists_forall (I := net.Settled)
    (P := fun v s => (s.process v).Stands (net.table v))
    (fun _ _ _ hs _ hstep => hs.step hnet hstep)
    (fun v _ _ _ hs hv _ hstep => hs.1.stands_step hstep hv)
    (fun v s hs => by
      obtain ⟨s', hs', hnil, -⟩ := net.exists_acts (s := s) (v := v) (List.append_nil _).symm
      have hsettled' : net.Settled s' :=
        hs'.invariant hs fun _ _ _ hs _ hstep => hs.step hnet hstep
      exact ⟨s', hs', (hsettled'.1.process v).stands (hproper v) (fun d => hsettled'.2 (v, d)) hnil⟩)
    hsettled
  exact ⟨s₂, hs₁.trans hs₂, hforming.standing hstands⟩

/-- In a fair run, the routers have their entries from some state on. -/
theorem Fair.exists_standing (hfair : Fair labels states)
    (hexec : Execution net.step s₀ labels states) (h : net.Forming s₀) (hnet : net.Wired)
    (hproper : ∀ v, (net.table v).Proper) (hregisters : net.Registers labels) :
    ∃ n, ∀ k ≥ n, net.Standing (states k) := by
  have hforming : ∀ n, net.Forming (states n) := fun n => h.of_reachable hnet (hexec.reachable n)
  obtain ⟨n, hn⟩ := hexec.exists_forall hforming (lasts_entry net) fun i =>
    hfair.exists_entry hexec h hnet hproper hregisters i.1 i.2
  obtain ⟨m, hm⟩ := hexec.exists_forall hforming (lasts_stands net) fun v => by
    obtain ⟨k, hk, hnil, -⟩ := hfair.reaches hexec (n := n) (v := v) (List.append_nil _).symm
    exact ⟨k, ((hforming k).process v).stands (hproper v) (fun d => hn k hk (v, d)) hnil⟩
  exact ⟨m, fun k hk => (hforming k).standing (hm k hk)⟩

omit [DecidableEq V] [Finite V] in
/-- A packet that a node sends to routers with their entries. -/
theorem Topology.Standing.sends (h : net.Standing s) (hunmarked : s.Unmarked) {source : Port}
    {packet : NetworkPacket} (hnode : (net.table v).deviceType source = clientTypeNode)
    (hkeeps : (net.table v).Keeps source packet) :
    net.Sends v source packet { s with flight := ⟨v, source, packet, true⟩ :: s.flight } where
  standing := by
    refine ⟨h.agrees, h.actions, fun message hmessage => ?_⟩
    rcases List.mem_cons.mp hmessage with rfl | hold
    · exact hkeeps
    · exact h.flight message hold
  node := hnode
  flight := ⟨s.flight, rfl, hunmarked.flight⟩
  copying := hunmarked.copying
  handled := hunmarked.handled
  delivered := hunmarked.delivered

omit [Finite V] in
/-- **Discovery** in a tree of routers: from power-on, whatever the routers and the nodes do, no router
makes an entry that is not its own, and the routers can come to have all their entries. In every fair
run in which each node registers they do, and keep them: whatever packet a node sends to a registered
node from then on is delivered there once, and nowhere else. -/
theorem discovers [Fintype V] (hnet : net.Tree) (hproper : ∀ v, (net.table v).Proper)
    (hpower : net.PowersOn check s) :
    (∀ s', Reachable net.step (fun _ _ => True) s s' →
      (∀ v d, (s'.process v).settled.entry d = .unknown ∨
        (s'.process v).settled.entry d = (net.table v).entry d) ∧
      ∃ s'', Reachable net.step (fun _ _ => True) s' s'' ∧ net.Standing s'') ∧
    ∀ labels states, Execution net.step s labels states → Fair labels states →
      net.Registers labels → ∃ n, ∀ k ≥ n, net.Standing (states k) ∧
        ∀ v source packet t d, (net.table v).deviceType source = clientTypeNode →
          (net.table v).Keeps source packet → net.Destination packet t d →
          ∀ sent, sent = { states k with flight := ⟨v, source, packet, true⟩ :: (states k).flight } →
            (∀ s', Reachable net.step (fun _ _ => True) sent s' →
              s'.handled.Nodup ∧ (s'.delivered = [] ∨ s'.delivered = [(t, d, packet)]) ∧
                (s'.Quiet → s'.delivered = [(t, d, packet)]) ∧
                ∃ s'', Reachable net.step (fun _ _ => True) s' s'' ∧ s''.Quiet) ∧
            ∀ labels' states', Execution net.step sent labels' states' → Fair labels' states' →
              ∃ m, ∀ j ≥ m, (states' j).Quiet ∧ (states' j).delivered = [(t, d, packet)] := by
  have h := hpower.forming hnet.toWired
  refine ⟨fun s' hreachable => ?_, fun labels states hexec hfair hregisters => ?_⟩
  · have h' := h.of_reachable hnet.toWired hreachable
    exact ⟨fun v => (h'.process v).entry, h'.exists_standing hnet.toWired hproper⟩
  · obtain ⟨n, hn⟩ := hfair.exists_standing hexec h hnet.toWired hproper hregisters
    refine ⟨n, fun k hk => ⟨hn k hk, fun v source packet t d hnode hkeeps hdestination => ?_⟩⟩
    rintro sent rfl
    -- the routers stand, so that the packet floods the tree
    have hsends := (hn k hk).sends (h.of_reachable hnet.toWired (hexec.reachable k)).unmarked
      hnode hkeeps
    have hfollowing := hsends.following t d
    exact ⟨fun s' hreachable =>
        (hfollowing.of_reachable hnet hdestination hreachable).once hnet hdestination,
      fun labels' states' hexec' hfair' =>
        hfair'.exists_delivered hexec' hfollowing hnet hdestination⟩

end Progress

/-! ## Three routers at power-on -/

/-- The three routers at power-on: the second retry finds the devices. -/
def newRoutersStart : Routers (Fin 3) where
  process v := .powerOn fun retry d =>
    retry == 1 && (threeRouters.table v).deviceType d != clientTypeUnknown
  flight := []
  copying _ := false
  handled := []
  delivered := []

/-- `discovers` for three routers, and a packet from the node of the first to that of the third. -/
theorem discovers_threeRouters :
    (∀ s', Reachable threeRouters.step (fun _ _ => True) newRoutersStart s' →
      (∀ v d, (s'.process v).settled.entry d = .unknown ∨
        (s'.process v).settled.entry d = (threeRouters.table v).entry d) ∧
      ∃ s'', Reachable threeRouters.step (fun _ _ => True) s' s'' ∧ threeRouters.Standing s'') ∧
    ∀ labels states, Execution threeRouters.step newRoutersStart labels states →
      Fair labels states → threeRouters.Registers labels → ∃ n, ∀ k ≥ n,
        ∀ labels' states', Execution threeRouters.step
            { states k with flight := ⟨0, 1, packetToThird, true⟩ :: (states k).flight }
            labels' states' → Fair labels' states' →
          ∃ m, ∀ j ≥ m, (states' j).Quiet ∧ (states' j).delivered = [(2, 1, packetToThird)] := by
  obtain ⟨hreachable, hfair⟩ := discovers tree_threeRouters
    (fun v => ⟨by decide +revert, by decide +revert, fun _ _ => rfl⟩)
    (⟨fun _ => rfl, by decide, rfl, fun _ h => absurd h List.not_mem_nil, fun _ => rfl, rfl, rfl⟩ :
      threeRouters.PowersOn _ newRoutersStart)
  refine ⟨hreachable, fun labels states hexec hruns hregisters => ?_⟩
  obtain ⟨n, hn⟩ := hfair labels states hexec hruns hregisters
  exact ⟨n, fun k hk => ((hn k hk).2 0 1 packetToThird 2 1 rfl (.inl (NetworkPacket.entry?_of_ne
    (by decide))) destination_threeRouters _ rfl).2⟩

end MicroKernel.Network
