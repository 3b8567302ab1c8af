import Mathlib.Combinatorics.SimpleGraph.Hasse
import Mathlib.Data.Fin.VecNotation
import MicroKernel.Lib.Flood
import MicroKernel.Network.Routers

/-!
# Delivery in a tree of routers

A packet that a node sends in a tree of linked routers. A router that does not have the destination
floods the packet to its other routers, and remembers nothing; since the routers form a tree, the copies
flood it as in `Flood`, whatever the routers do in between.

## Main definitions

* `Topology.Tree`: the routers form a tree, and each address is registered once
* `Topology.Sends`: a node has sent the packet
* `Routers.Quiet`: no copy of the packet is under way or to be sent

## Main results

* `Following.step`: the copies of the packet flood the tree of the routers
* `delivered_once`: the packet is delivered exactly once
-/

namespace MicroKernel.Network

open Transition

variable {V : Type*}

/-- Two routers are adjacent when a link joins them. -/
def Topology.graph (net : Topology V) : SimpleGraph V :=
  SimpleGraph.fromRel fun v w => ∃ d e, net.link v d = some (w, e)

/-- The links form a tree of routers, and every address but the routers' own is registered on one port
of one router. -/
structure Topology.Tree (net : Topology V) : Prop extends Topology.Wired net where
  isTree : net.graph.IsTree
  ne : ∀ {v w d e}, net.link v d = some (w, e) → v ≠ w
  single : ∀ {v w d d' e e'}, net.link v d = some (w, e) → net.link v d' = some (w, e') → d = d'
  unique : ∀ {v w d e address}, address ≠ routerAddress → (net.table v).Carries address d →
    (net.table w).Carries address e → v = w ∧ d = e

/-- The copies that a router has still to send, and the ports. -/
def Routers.pending (s : Routers V) (v : V) : List (Port × NetworkPacket) :=
  if s.copying v then sends (s.process v).actions else []

/-- No copy is under way or to be sent. -/
def Routers.Quiet (s : Routers V) : Prop :=
  (∀ message ∈ s.flight, message.copy = false) ∧ ∀ v, s.pending v = []

/-- The node on a port of the router `r` has sent the packet, which is followed from here on. -/
structure Topology.Sends (net : Topology V) (r : V) (source : Port) (packet : NetworkPacket)
    (s : Routers V) : Prop where
  standing : net.Standing s
  node : (net.table r).deviceType source = clientTypeNode
  flight : ∃ flight, s.flight = ⟨r, source, packet, true⟩ :: flight ∧
    ∀ message ∈ flight, message.copy = false
  copying : ∀ v, s.copying v = false
  handled : s.handled = []
  delivered : s.delivered = []

/-- The packet is addressed to the node on port `d` of the router `t`. -/
structure Topology.Destination (net : Topology V) (packet : NetworkPacket) (t : V) (d : Port) :
    Prop where
  registered : (net.table t).Carries packet.addrD d
  address_ne : packet.addrD ≠ routerAddress
  not_blank : ¬ packet.IsBlank

/-- The routers that packets on the ports of a router go to. -/
def Topology.recipients (net : Topology V) (v : V) (sent : List (Port × NetworkPacket)) : List V :=
  sent.filterMap fun x => (net.link v x.1).map Prod.fst

/-- The routers that copies are under way to on the links. -/
def Routers.underWay (s : Routers V) : List V :=
  (s.flight.filter fun message => message.copy).map Message.router

/-- The routers that copies are under way to, on the links and from routers that have still to send
them. -/
def Topology.copies [Fintype V] (net : Topology V) (s : Routers V) : Multiset V :=
  s.underWay + ∑ v, (net.recipients v (s.pending v) : Multiset V)

/-- Where a router has the packet from when it is flooded from the router `r`: the first from its node,
the others from the router next to them on the way from `r`. -/
def Topology.FromParent [Fintype V] (net : Topology V) (r v : V) (d : Port) : Prop :=
  v = r ∧ (net.table v).deviceType d = clientTypeNode ∨
    ∃ u e, net.link v d = some (u, e) ∧ v ∈ Flood.children net.graph r u

/-- The copies of a packet flood the tree from the router `r`; the router `t` sends it on port `d`, once
it has handled one. -/
structure Following [Fintype V] [DecidableEq V] (net : Topology V) (packet : NetworkPacket)
    (r t : V) (d : Port) (s : Routers V) : Prop where
  standing : net.Standing s
  flood : Flood.Invariant net.graph r t ⟨s.handled, net.copies s⟩
  flight : ∀ message ∈ s.flight, message.copy = true →
    message.packet = packet ∧ net.FromParent r message.router message.port
  pending : ∀ v, ∀ x ∈ s.pending v, x.2 = packet ∧
    (v ≠ t → ∃ w e, net.link v x.1 = some (w, e) ∧ w ∈ Flood.children net.graph r v)
  delivered : s.delivered ++ (s.pending t).map (fun x => (t, x.1, x.2)) =
    if t ∈ s.handled then [(t, d, packet)] else []

section Tree

variable {net : Topology V} {s s' : Routers V} {r t u v w : V} {source d e : Port}
  {packet : NetworkPacket}

theorem Topology.Tree.adj_iff (hnet : net.Tree) :
    net.graph.Adj v w ↔ ∃ d e, net.link v d = some (w, e) := by
  rw [Topology.graph, SimpleGraph.fromRel_adj]
  constructor
  · rintro ⟨-, h | ⟨d, e, hlink⟩⟩
    · exact h
    · exact ⟨e, d, hnet.symm hlink⟩
  · rintro ⟨d, e, hlink⟩
    exact ⟨hnet.ne hlink, .inl ⟨d, e, hlink⟩⟩

/-- A node has no link to another router. -/
theorem Topology.Tree.link_of_node (hnet : net.Tree)
    (hnode : (net.table v).deviceType d = clientTypeNode) : net.link v d = none := by
  rw [Option.eq_none_iff_forall_ne_some]
  intro other hlink
  have hrouter := (hnet.router v d).mpr (by rw [hlink]; rfl)
  rw [hnode] at hrouter
  exact absurd hrouter (by decide)

/-- The gateways of a router are its other linked ports. -/
theorem Topology.Tree.mem_gateways (hnet : net.Tree) {table : RoutingTable}
    (htable : (net.table v).Agrees table) :
    e ∈ table.gateways d ↔ d ≠ e ∧ (net.link v e).isSome := by
  rw [← hnet.router, ← htable.type_eq]
  simp [RoutingTable.gateways]

/-- The packets of a router to its gateways go to the routers behind its other ports. -/
theorem Topology.Tree.recipients_gateways [Fintype V] (hnet : net.Tree) {table : RoutingTable}
    (htable : (net.table v).Agrees table)
    (hport : net.FromParent r v d) :
    (net.recipients v ((table.gateways d).map fun c => (c, packet)) : Multiset V) =
      (Flood.children net.graph r v).val := by
  have hmem : ∀ w, w ∈ net.recipients v ((table.gateways d).map fun c => (c, packet)) ↔
      ∃ c e, d ≠ c ∧ net.link v c = some (w, e) := by
    intro w
    simp only [Topology.recipients, List.mem_filterMap, List.mem_map, exists_exists_and_eq_and,
      hnet.mem_gateways htable, Option.map_eq_some_iff, Prod.exists, exists_and_right, exists_eq_right]
    constructor
    · rintro ⟨c, ⟨hne, -⟩, e, hlink⟩
      exact ⟨c, e, hne, hlink⟩
    · rintro ⟨c, e, hne, hlink⟩
      exact ⟨c, ⟨hne, by rw [hlink]; rfl⟩, e, hlink⟩
  have hnodup : (net.recipients v ((table.gateways d).map fun c => (c, packet))).Nodup := by
    rw [Topology.recipients, List.filterMap_map]
    refine List.Nodup.filterMap ?_ ((List.nodup_finRange _).filter _)
    -- no two ports lead to the same router
    intro c c' w hc hc'
    obtain ⟨⟨w₁, e⟩, hlink, rfl⟩ := Option.map_eq_some_iff.mp hc
    obtain ⟨⟨w₂, e'⟩, hlink', rfl⟩ := Option.map_eq_some_iff.mp hc'
    exact hnet.single hlink hlink'
  refine (Multiset.Nodup.ext (Multiset.coe_nodup.mpr hnodup) (Flood.children _ r v).nodup).mpr
    fun w => ?_
  rw [Multiset.mem_coe, hmem, Finset.mem_val]
  rcases hport with ⟨rfl, hnode⟩ | ⟨u, f, hsender, hchild⟩
  · have hnone := hnet.link_of_node hnode
    rw [Flood.mem_children_start, hnet.adj_iff]
    refine exists_congr fun c => exists_congr fun e => and_iff_right_of_imp ?_
    rintro hlink rfl
    rw [hnone] at hlink
    cases hlink
  · rw [Flood.mem_children_iff hnet.isTree hchild, hnet.adj_iff]
    constructor
    · rintro ⟨c, e, hne, hlink⟩
      refine ⟨⟨c, e, hlink⟩, ?_⟩
      rintro rfl
      exact hne (hnet.single hsender hlink)
    · rintro ⟨⟨c, e, hlink⟩, hne⟩
      refine ⟨c, e, ?_, hlink⟩
      rintro rfl
      rw [hsender] at hlink
      exact hne (Prod.mk.inj (Option.some.inj hlink)).1.symm

/-- What a router sends when it handles a copy: the destination sends it to its node, the others to the
routers behind their other ports. -/
theorem sends_of_tree [DecidableEq V] (hnet : net.Tree)
    (hdestination : net.Destination packet t d) {table : RoutingTable}
    (htable : (net.table v).Agrees table) :
    sends (receivePacket e packet table) =
      if v = t then [(d, packet)] else (table.gateways e).map fun c => (c, packet) := by
  obtain ⟨hregistered, hd, hblank⟩ := hdestination
  have hcarries : ∀ c, table.Carries packet.addrD c ↔ (net.table v).Carries packet.addrD c := by
    intro c
    rw [RoutingTable.carries_iff, RoutingTable.carries_iff, htable.entry_eq]
  split
  · next hv =>
    subst hv
    refine sends_receivePacket_of_locate hd hblank (RoutingTable.locate_eq_some_iff.mpr ⟨?_, ?_⟩)
    · exact (hcarries d).mpr hregistered
    · intro c hlt hc
      exact hlt.ne (hnet.unique hd ((hcarries c).mp hc) hregistered).2
  · next hv =>
    refine sends_receivePacket_of_not_locate hd hblank ?_
    rw [Option.eq_none_iff_forall_ne_some]
    intro c hc
    have hfound := (RoutingTable.locate_eq_some_iff.mp hc).1
    exact hv (hnet.unique hd ((hcarries c).mp hfound) hregistered).1

end Tree

/-! ## Copies -/

section Pending

variable {net : Topology V} {s : Routers V} {v w : V} {c e : Port} {sent : List (Port × NetworkPacket)}

theorem Topology.recipients_of_link (hlink : net.link v c = some (w, e)) (packet : NetworkPacket) :
    net.recipients v ((c, packet) :: sent) = w :: net.recipients v sent := by
  simp [Topology.recipients, hlink]

theorem Topology.recipients_of_not_link (hlink : net.link v c = none) (packet : NetworkPacket) :
    net.recipients v ((c, packet) :: sent) = net.recipients v sent := by
  simp [Topology.recipients, hlink]

theorem Routers.pending_of_nil (hactions : (s.process v).actions = []) : s.pending v = [] := by
  unfold Routers.pending
  rw [hactions]
  exact ite_self _

theorem Routers.pending_of_not_copying (hcopying : s.copying v = false) : s.pending v = [] := by
  unfold Routers.pending
  rw [if_neg (by rw [hcopying]; decide)]

/-- A copy to be sent is among the pending actions. -/
theorem Routers.mem_pending {x : Port × NetworkPacket} (hx : x ∈ s.pending v) :
    s.copying v = true ∧ ∃ action ∈ (s.process v).actions, action.sent = some x := by
  unfold Routers.pending at hx
  split at hx
  · next hcopying => exact ⟨hcopying, List.mem_filterMap.mp hx⟩
  · cases hx

theorem Topology.pending_emit (net : Topology V) (v : V) (sent : Option (Port × NetworkPacket))
    (s : Routers V) : (net.emit v sent s).pending = s.pending := by
  obtain - | ⟨d, packet⟩ := sent
  · rfl
  · cases hlink : net.link v d with
    | none =>
      rw [Topology.emit_of_not_link hlink]
      rfl
    | some other =>
      rw [Topology.emit_of_link hlink]
      rfl

variable [DecidableEq V]

/-- What a router has still to send behind an action. -/
theorem Routers.pending_act {action : RouterAction} {process : Process}
    (hactions : (s.process v).actions = action :: process.actions) :
    s.pending v = (if s.copying v then action.sent.toList else []) ++
      (s.update v process).pending v := by
  unfold Routers.pending Routers.update
  dsimp only
  rw [Function.update_self, hactions]
  split
  · rw [sends, List.filterMap_cons]
    cases action.sent <;> rfl
  · rfl

/-- The other routers have the same to send. -/
theorem Routers.pending_of_ne (hne : w ≠ v) {process : Process} {flight : List (Message V)}
    {copying : V → Bool} (hcopying : copying w = s.copying w) {handled : List V} :
    Routers.pending { s.update v process with flight, copying, handled } w = s.pending w := by
  simp only [Routers.pending, Routers.update, Function.update_of_ne hne, hcopying]

variable {labels : ℕ → NetworkEvent V} {states : ℕ → Routers V}

/-- A copy that a router has to send to another is on the link in the end. -/
theorem Fair.exists_underWay (hfair : Fair labels states)
    (hexec : Execution net.step s labels states) {n : ℕ} {x : Port × NetworkPacket}
    (hx : x ∈ (states n).pending v) (hlink : net.link v x.1 = some (w, e)) :
    ∃ k ≥ n, ∃ message ∈ (states k).flight, message.copy = true := by
  obtain ⟨hcopying, action, haction, hsent⟩ := Routers.mem_pending hx
  obtain ⟨before, behind, hactions⟩ := List.append_of_mem haction
  -- the router comes to the action, and carries it out at its next step
  obtain ⟨k, hk, hactionsk, hcopyingk⟩ := hfair.reaches hexec hactions
  obtain ⟨m, hm, hrouter, hprocess, hcopyingm⟩ := hfair.exists_next hexec k v
  obtain ⟨process, -, hnext⟩ := Topology.step_act (hexec.next m) hrouter (hprocess ▸ hactionsk)
  refine ⟨m + 1, by omega, ⟨w, e, x.2, ((states m).update v process).copying v⟩, ?_, ?_⟩
  · rw [hnext, hsent, Topology.emit_of_link hlink]
    exact List.mem_append_right _ List.mem_cons_self
  · exact hcopyingm.trans (hcopyingk.trans hcopying)

end Pending

section Copies

variable [Fintype V] {net : Topology V} {s s' : Routers V} {r t v w : V} {d e : Port}
  {packet : NetworkPacket}

/-- Two sums over the routers that differ in the summand of one. -/
theorem sum_add_of_ne {f g : V → Multiset V} (h : ∀ w ≠ v, f w = g w) :
    ∑ w, f w + g v = ∑ w, g w + f v := by
  classical
  rw [← Finset.add_sum_erase _ f (Finset.mem_univ v), ← Finset.add_sum_erase _ g (Finset.mem_univ v),
    Finset.sum_congr rfl fun w hw => h w (Finset.ne_of_mem_erase hw), add_right_comm,
    add_comm (f v) (g v), add_right_comm]

theorem Topology.mem_copies_of_flight {message : Message V} (hmessage : message ∈ s.flight)
    (hcopy : message.copy = true) : message.router ∈ net.copies s := by
  refine Multiset.mem_add.mpr (.inl (Multiset.mem_coe.mpr (List.mem_map.mpr ⟨message, ?_, rfl⟩)))
  exact List.mem_filter.mpr ⟨hmessage, hcopy⟩

/-- No copies are under way when all is quiet. -/
theorem Topology.copies_of_quiet (h : s.Quiet) : net.copies s = 0 := by
  have hflight : s.flight.filter (fun message => message.copy) = [] := by
    rw [List.filter_eq_nil_iff]
    intro message hmessage
    simp [h.1 message hmessage]
  simp [Topology.copies, Routers.underWay, hflight, h.2, Topology.recipients]

/-- Copies are counted at the router that takes a step, and on the links. -/
theorem Topology.copies_add (hne : ∀ w ≠ v, s'.pending w = s.pending w) {x y : Multiset V}
    (hv : (s'.underWay : Multiset V) + net.recipients v (s'.pending v) + x =
      s.underWay + net.recipients v (s.pending v) + y) :
    net.copies s' + x = net.copies s + y := by
  have hsum := sum_add_of_ne (v := v) (f := fun w => (net.recipients w (s'.pending w) : Multiset V))
    (g := fun w => (net.recipients w (s.pending w) : Multiset V)) fun w hw => by rw [hne w hw]
  refine add_right_cancel (b := (net.recipients v (s.pending v) : Multiset V) +
    (net.recipients v (s'.pending v) : Multiset V)) ?_
  unfold Topology.copies
  calc _ = (s'.underWay : Multiset V) + net.recipients v (s'.pending v) + x +
        (∑ w, (net.recipients w (s'.pending w) : Multiset V) +
          (net.recipients v (s.pending v) : Multiset V)) := by ac_rfl
    _ = s.underWay + net.recipients v (s.pending v) + y +
        (∑ w, (net.recipients w (s.pending w) : Multiset V) +
          (net.recipients v (s'.pending v) : Multiset V)) := by rw [hv, hsum]
    _ = _ := by ac_rfl

theorem Topology.copies_congr (hne : ∀ w, s'.pending w = s.pending w)
    (hunderWay : s'.underWay.Perm s.underWay) : net.copies s' = net.copies s := by
  unfold Topology.copies
  simp only [hne, Multiset.coe_eq_coe.mpr hunderWay]

variable [DecidableEq V]

/-- A step that neither makes a copy nor hands one over. -/
theorem Following.of_copies (h : Following net packet r t d s) (hstanding : net.Standing s')
    (hhandled : s'.handled = s.handled) (hcopies : net.copies s' = net.copies s)
    (hflight : ∀ message ∈ s'.flight, message.copy = true → message ∈ s.flight ∨
      message.packet = packet ∧ net.FromParent r message.router message.port)
    (hpending : ∀ w, s'.pending w ⊆ s.pending w)
    (hdelivered : s'.delivered ++ (s'.pending t).map (fun x => (t, x.1, x.2)) =
      s.delivered ++ (s.pending t).map fun x => (t, x.1, x.2)) :
    Following net packet r t d s' where
  standing := hstanding
  flood := by
    rw [hhandled, hcopies]
    exact h.flood
  flight := fun message hmessage hcopy =>
    (hflight message hmessage hcopy).elim (fun hold => h.flight message hold hcopy) id
  pending := fun w x hx => h.pending w x (hpending w hx)
  delivered := by
    rw [hhandled, hdelivered]
    exact h.delivered

/-- A step without copies. -/
theorem Following.of_silent (h : Following net packet r t d s) (hstanding : net.Standing s')
    (hpending : ∀ w, s'.pending w = s.pending w)
    (hflight : (s'.flight.filter fun message => message.copy).Perm
      (s.flight.filter fun message => message.copy))
    (hhandled : s'.handled = s.handled) (hdelivered : s'.delivered = s.delivered) :
    Following net packet r t d s' := by
  refine h.of_copies hstanding hhandled ?_ (fun message hmessage hcopy => .inl ?_)
    (fun w => hpending w ▸ List.Subset.refl _) (by rw [hpending, hdelivered])
  · exact Topology.copies_congr hpending (hflight.map Message.router)
  · exact (List.mem_filter.mp (hflight.subset (List.mem_filter.mpr ⟨hmessage, hcopy⟩))).1

/-- A router that sends a copy sends it on. -/
theorem Following.act_send (h : Following net packet r t d s) (hnet : net.Tree)
    (hnode : (net.table t).deviceType d = clientTypeNode) {c : Port} {q : NetworkPacket}
    {process : Process} (hself : s.pending v = (c, q) :: (s.update v process).pending v)
    (hcopying : s.copying v = true)
    (hstanding : net.Standing (net.emit v (some (c, q)) (s.update v process))) :
    Following net packet r t d (net.emit v (some (c, q)) (s.update v process)) := by
  have hother : ∀ w ≠ v, (s.update v process).pending w = s.pending w :=
    fun w hw => Routers.pending_of_ne hw rfl
  -- what is still to be sent was before
  have hsub : ∀ w, (s.update v process).pending w ⊆ s.pending w := by
    intro w
    rcases eq_or_ne w v with rfl | hne
    · rw [hself]
      exact List.subset_cons_self _ _
    · rw [hother w hne]
      exact List.Subset.refl _
  obtain ⟨hq, hchild⟩ := h.pending v (c, q) (hself ▸ List.mem_cons_self)
  obtain rfl : q = packet := hq
  cases hlink : net.link v c with
  | none =>
    -- only the destination sends it out of the network
    have hv : v = t := by
      by_contra hne
      obtain ⟨w, e, hlink', -⟩ := hchild hne
      rw [hlink] at hlink'
      cases hlink'
    subst hv
    rw [Topology.emit_of_not_link hlink] at hstanding ⊢
    refine h.of_copies hstanding rfl ?_ (fun message hmessage _ => .inl hmessage) hsub ?_
    · refine add_right_cancel (b := 0) ?_
      refine Topology.copies_add (v := v) hother ?_
      rw [hself, Topology.recipients_of_not_link hlink]
      rfl
    · have hdelivered : (s.update v process).delivered = s.delivered := rfl
      have hcopying' : (s.update v process).copying v = true := hcopying
      rw [hself, if_pos hcopying', hdelivered, List.map_cons, List.append_assoc]
      rfl
  | some other =>
    obtain ⟨w, e⟩ := other
    -- the destination is a node, without a link
    have hne : v ≠ t := by
      rintro rfl
      have hmem : (v, c, q) ∈ s.delivered ++ (s.pending v).map fun x => (v, x.1, x.2) := by
        rw [hself]
        simp
      rw [h.delivered] at hmem
      split at hmem
      · obtain ⟨-, hcd⟩ := Prod.mk.inj (List.mem_singleton.mp hmem)
        rw [(Prod.mk.inj hcd).1, hnet.link_of_node hnode] at hlink
        cases hlink
      · cases hmem
    obtain ⟨w', e', hlink', hw⟩ := hchild hne
    obtain ⟨rfl, rfl⟩ := Prod.mk.inj (Option.some.inj (hlink.symm.trans hlink'))
    rw [Topology.emit_of_link hlink] at hstanding ⊢
    refine h.of_copies hstanding rfl ?_ ?_ hsub ?_
    · refine add_right_cancel (b := 0) ?_
      refine Topology.copies_add (v := v) ?_ ?_
      · exact hother
      rw [hself, Topology.recipients_of_link hlink]
      have hunderWay : Routers.underWay { s.update v process with
          flight := (s.update v process).flight ++ [⟨w, e, q, (s.update v process).copying v⟩] } =
            s.underWay ++ [w] := by
        simp [Routers.underWay, Routers.update, hcopying]
      rw [hunderWay]
      -- the copy for `w` is counted on the link now
      exact congrArg (· + 0) (Multiset.coe_eq_coe.mpr (by
        rw [List.append_assoc]
        rfl))
    · intro message hmessage _
      rcases List.mem_append.mp hmessage with hold | hnew
      · exact .inl hold
      · obtain rfl := List.mem_singleton.mp hnew
        exact .inr ⟨rfl, .inr ⟨v, c, hnet.symm hlink, hw⟩⟩
    · exact congrArg (s.delivered ++ List.map _ ·) (hother t hne.symm)

/-- Carrying out an action: a copy goes from its router to the link, or leaves the network. -/
theorem Following.act (h : Following net packet r t d s) (hnet : net.Tree)
    (hnode : (net.table t).deviceType d = clientTypeNode) {action : RouterAction} {process : Process}
    (hactions : (s.process v).actions = action :: process.actions)
    (hstanding : net.Standing (net.emit v action.sent (s.update v process))) :
    Following net packet r t d (net.emit v action.sent (s.update v process)) := by
  have hself := Routers.pending_act hactions
  -- when the router sends no copy, each router has the same copies to send
  have hsilent : (if s.copying v then action.sent.toList else []) = [] →
      ∀ w, (net.emit v action.sent (s.update v process)).pending w = s.pending w := by
    intro hnil w
    rw [Topology.pending_emit]
    rcases eq_or_ne w v with rfl | hne
    · rw [hself, hnil, List.nil_append]
    · exact Routers.pending_of_ne hne rfl
  cases hsent : action.sent with
  | none =>
    rw [hsent] at hsilent hstanding
    exact h.of_silent hstanding (hsilent (ite_self _)) .rfl rfl rfl
  | some sent =>
    obtain ⟨c, q⟩ := sent
    rw [hsent] at hself hsilent hstanding
    cases hcopying : s.copying v with
    | true =>
      rw [if_pos hcopying] at hself
      exact h.act_send hnet hnode hself hcopying hstanding
    | false =>
      have hcopying' : (s.update v process).copying v = false := hcopying
      have hpending := hsilent (if_neg (by rw [hcopying]; decide))
      cases hlink : net.link v c with
      | none =>
        rw [Topology.emit_of_not_link hlink] at hpending hstanding ⊢
        exact h.of_silent hstanding hpending .rfl rfl (if_neg (by rw [hcopying']; decide))
      | some other =>
        rw [Topology.emit_of_link hlink] at hpending hstanding ⊢
        refine h.of_silent hstanding hpending ?_ rfl rfl
        rw [List.filter_append, hcopying']
        exact .of_eq (List.append_nil _)

/-! ### Handing a copy over -/

/-- **Handing a copy over** is a step of the flood. -/
theorem Following.hand (h : Following net packet r t d s) (hnet : net.Tree)
    (hdestination : net.Destination packet t d) {message : Message V}
    (hmessage : message ∈ s.flight) (hcopy : message.copy = true) {process : Process}
    (hnil : (s.process message.router).actions = [])
    (hactions : process.actions = receivePacket message.port message.packet
      (s.process message.router).router.routingTable)
    (hs' : s' = { s.update message.router process with
      flight := s.flight.erase message
      copying := Function.update s.copying message.router true
      handled := message.router :: s.handled })
    (hstanding : net.Standing s') : Following net packet r t d s' := by
  obtain ⟨rfl, hfrom⟩ := h.flight message hmessage hcopy
  have hv : message.router ∈ net.copies s := Topology.mem_copies_of_flight hmessage hcopy
  have hbefore : s.pending message.router = [] := Routers.pending_of_nil hnil
  have hself : s'.pending message.router =
      if message.router = t then [(d, message.packet)]
      else ((s.process message.router).router.routingTable.gateways message.port).map
        fun c => (c, message.packet) := by
    rw [← sends_of_tree hnet hdestination (h.standing.agrees message.router), ← hactions, hs']
    simp [Routers.pending]
  have hother : ∀ w ≠ message.router, s'.pending w = s.pending w := by
    intro w hw
    rw [hs']
    exact Routers.pending_of_ne hw (Function.update_of_ne hw _ _)
  have hrecipients : (net.recipients message.router (s'.pending message.router) : Multiset V) =
      if message.router = t then 0 else (Flood.children net.graph r message.router).val := by
    rw [hself]
    split
    · next ht =>
      have hnode : (net.table message.router).deviceType d = clientTypeNode :=
        ht ▸ hdestination.registered.1
      rw [Topology.recipients_of_not_link (hnet.link_of_node hnode)]
      rfl
    · exact hnet.recipients_gateways (h.standing.agrees _) hfrom
  have hcopies : net.copies s' = (net.copies s).erase message.router +
      if message.router = t then 0 else (Flood.children net.graph r message.router).val := by
    have hunderWay : (s'.underWay : Multiset V) + {message.router} = s.underWay := by
      have hperm := ((List.perm_cons_erase hmessage).filter fun message => message.copy).map
        Message.router
      rw [List.filter_cons_of_pos hcopy, List.map_cons] at hperm
      rw [Multiset.add_comm, Multiset.singleton_add, hs']
      exact (Multiset.coe_eq_coe.mpr hperm).symm
    have hadd : net.copies s' + {message.router} =
        net.copies s + net.recipients message.router (s'.pending message.router) := by
      refine Topology.copies_add (v := message.router) hother ?_
      rw [hbefore, ← hunderWay]
      show _ = _ + _ + 0 + _
      ac_rfl
    rw [hrecipients, ← Multiset.cons_erase hv, ← Multiset.singleton_add, add_assoc,
      add_comm (net.copies s')] at hadd
    exact add_left_cancel hadd
  have hnotin : message.router ∉ s.handled := by
    intro hhandled
    have hdisjoint := (Multiset.nodup_add.mp h.flood.nodup).2.2
    exact Multiset.disjoint_left.mp hdisjoint (Multiset.mem_coe.mpr hhandled) hv
  have hhandled : s'.handled = message.router :: s.handled := by rw [hs']
  have hdelivered : s'.delivered = s.delivered := by rw [hs']; rfl
  refine ⟨hstanding, ?_, fun other hother hcopy => ?_, fun w x hx => ?_, ?_⟩
  · rw [hhandled, hcopies]
    exact h.flood.handle hnet.isTree hv
  · rw [hs'] at hother
    exact h.flight other (List.mem_of_mem_erase hother) hcopy
  · rcases eq_or_ne w message.router with rfl | hne
    · rw [hself] at hx
      split at hx
      · next ht =>
        obtain rfl := List.mem_singleton.mp hx
        exact ⟨rfl, fun hne => absurd ht hne⟩
      · next ht =>
        obtain ⟨c, hc, rfl⟩ := List.mem_map.mp hx
        refine ⟨rfl, fun _ => ?_⟩
        -- a gateway leads to a child
        have hsome := ((hnet.mem_gateways (h.standing.agrees _)).mp hc).2
        obtain ⟨⟨w, e⟩, hlink⟩ := Option.isSome_iff_exists.mp hsome
        refine ⟨w, e, hlink, ?_⟩
        rw [if_neg ht] at hrecipients
        rw [← Finset.mem_val, ← hrecipients, Multiset.mem_coe, hself, if_neg ht]
        exact List.mem_filterMap.mpr ⟨_, hx, by simp [hlink]⟩
    · rw [hother w hne] at hx
      exact h.pending w x hx
  · rw [hhandled, hdelivered]
    have hold := h.delivered
    by_cases ht : message.router = t
    · rw [if_pos ht] at hself
      subst ht
      rw [if_neg hnotin, hbefore, List.map_nil, List.append_nil] at hold
      rw [hold, hself, if_pos List.mem_cons_self]
      rfl
    · rw [hother t (Ne.symm ht), hold]
      exact if_congr (by simp [Ne.symm ht]) rfl rfl

/-! ### Runs -/

/-- The packet is followed from where its node has sent it. -/
theorem Topology.Sends.following {source : Port} (h : net.Sends r source packet s) (t : V)
    (d : Port) : Following net packet r t d s := by
  obtain ⟨hstanding, hnode, ⟨flight, hflight, hothers⟩, hcopying, hhandled, hdelivered⟩ := h
  have hpending : ∀ v, s.pending v = [] := fun v => Routers.pending_of_not_copying (hcopying v)
  have hcopies : net.copies s = {r} := by
    have hnone : flight.filter (fun message => message.copy) = [] := by
      rw [List.filter_eq_nil_iff]
      intro message hmessage
      simp [hothers message hmessage]
    simp [Topology.copies, Routers.underWay, hflight, hnone, hpending, Topology.recipients]
  refine ⟨hstanding, ?_, fun message hmessage hcopy => ?_, fun v x hx => ?_, ?_⟩
  · rw [hhandled, hcopies]
    exact Flood.Invariant.init net.graph r t
  · rw [hflight] at hmessage
    rcases List.mem_cons.mp hmessage with rfl | hother
    · exact ⟨rfl, .inl ⟨rfl, hnode⟩⟩
    · rw [hothers message hother] at hcopy
      cases hcopy
  · rw [hpending] at hx
    cases hx
  · rw [hdelivered, hpending, hhandled]
    rfl

/-- **The copies flood the tree** in every step of the network. -/
theorem Following.step (h : Following net packet r t d s) (hnet : net.Tree)
    (hdestination : net.Destination packet t d) {event : NetworkEvent V}
    (hstep : net.step event s = some s') : Following net packet r t d s' := by
  -- only an action of a router and a copy handed over concern the packet
  have hstanding := h.standing.step hnet.toWired hstep
  obtain ⟨v, action, process, -, hactions, -, rfl⟩ | ⟨v, process, -, -, hnil, -, -, rfl⟩ |
    ⟨message, process, -, hmessage, hnil, -, hactions, hs'⟩ |
    ⟨message, -, hinjects, rfl⟩ := Topology.step_cases hstep
  · exact h.act hnet hdestination.registered.1 hactions hstanding
  · refine h.of_silent hstanding (fun w => ?_) .rfl rfl rfl
    rcases eq_or_ne w v with rfl | hne
    · rw [Routers.pending_of_nil hnil]
      exact Routers.pending_of_not_copying (Function.update_self w false s.copying)
    · exact Routers.pending_of_ne hne (Function.update_of_ne hne _ _)
  · cases hcopy : message.copy with
    | true =>
      rw [hcopy, if_pos rfl] at hs'
      exact h.hand hnet hdestination hmessage hcopy hnil hactions hs' hstanding
    | false =>
      rw [hcopy, if_neg (by decide)] at hs'
      subst hs'
      refine h.of_silent hstanding (fun w => ?_) ?_ rfl rfl
      · rcases eq_or_ne w message.router with rfl | hne
        · rw [Routers.pending_of_nil hnil]
          exact Routers.pending_of_not_copying (Function.update_self _ false s.copying)
        · exact Routers.pending_of_ne hne (Function.update_of_ne hne _ _)
      · have hperm := (List.perm_cons_erase hmessage).filter fun message => message.copy
        rw [List.filter_cons_of_neg (by rw [hcopy]; decide)] at hperm
        exact hperm.symm
  · refine h.of_silent hstanding (fun w => rfl) ?_ rfl rfl
    exact .of_eq (List.filter_cons_of_neg (by rw [hinjects.1]; decide))

/-! ### What holds in every state -/

/-- Where the packet was delivered. -/
theorem Following.delivered_cases (h : Following net packet r t d s) :
    s.delivered = [] ∨ s.delivered = [(t, d, packet)] := by
  have hdelivered := h.delivered
  split at hdelivered
  · rcases List.append_eq_singleton_iff.mp hdelivered with ⟨hnil, -⟩ | ⟨hone, -⟩
    · exact .inl hnil
    · exact .inr hone
  · exact .inl (List.append_eq_nil_iff.mp hdelivered).1

/-- Without copies under way, the destination has handled the packet. -/
theorem Following.handled_of_copies (h : Following net packet r t d s) (hnet : net.Tree)
    (hcopies : net.copies s = 0) :
    s.delivered ++ (s.pending t).map (fun x => (t, x.1, x.2)) = [(t, d, packet)] := by
  rw [h.delivered, if_pos (h.flood.target_mem hnet.isTree.connected hcopies)]

/-- With the packet delivered and no copies under way to routers, all is quiet. -/
theorem Following.quiet (h : Following net packet r t d s) (hnet : net.Tree)
    (hcopies : net.copies s = 0) (hdelivered : s.delivered = [(t, d, packet)]) : s.Quiet := by
  refine ⟨fun message hmessage => ?_, fun v => ?_⟩
  · by_contra hcopy
    have hmem : message.router ∈ net.copies s :=
      Topology.mem_copies_of_flight hmessage (Bool.not_eq_false _ ▸ hcopy)
    rw [hcopies] at hmem
    exact Multiset.notMem_zero _ hmem
  · rw [List.eq_nil_iff_forall_not_mem]
    intro x hx
    by_cases hv : v = t
    · subst hv
      have hall := h.handled_of_copies hnet hcopies
      rw [hdelivered] at hall
      have hnil := List.append_cancel_left (hall.trans (List.append_nil _).symm)
      rw [List.map_eq_nil_iff.mp hnil] at hx
      cases hx
    · -- a copy to be sent is under way to the router behind the link
      obtain ⟨w, e, hlink, -⟩ := (h.pending v x hx).2 hv
      have hmem : w ∈ net.copies s := by
        refine Multiset.mem_add.mpr (.inr (Multiset.mem_sum.mpr ⟨v, Finset.mem_univ v, ?_⟩))
        exact Multiset.mem_coe.mpr (List.mem_filterMap.mpr ⟨x, hx, by rw [hlink]; rfl⟩)
      rw [hcopies] at hmem
      exact Multiset.notMem_zero _ hmem

/-! ### Fair runs -/

section Runs

variable {source : Port} {labels : ℕ → NetworkEvent V} {states : ℕ → Routers V}

theorem Following.of_reachable (h : Following net packet r t d s) (hnet : net.Tree)
    (hdestination : net.Destination packet t d)
    (hreachable : Reachable net.step (fun _ _ => True) s s') : Following net packet r t d s' :=
  hreachable.invariant h fun _ _ _ hs _ hstep => hs.step hnet hdestination hstep

/-- As long as copies are under way, another router handles one in the end. -/
theorem Fair.exists_handled (hfair : Fair labels states)
    (hexec : Execution net.step s labels states) {n : ℕ} (hcopies : net.copies (states n) ≠ 0) :
    ∃ k, (states n).handled.length < (states k).handled.length := by
  have hhand : (∃ k ≥ n, ∃ message ∈ (states k).flight, message.copy = true) →
      ∃ k, (states n).handled.length < (states k).handled.length := by
    rintro ⟨k, hk, message, hmessage, hcopy⟩
    obtain ⟨m, hm, hlabel⟩ := hfair.hands k message hmessage
    exact ⟨m + 1, (handled_mono hexec (hk.trans hm)).trans_lt
      ((Topology.handled_step (hexec.next m)).2 message hcopy hlabel)⟩
  obtain ⟨v, hv⟩ := Multiset.exists_mem_of_ne_zero hcopies
  rcases Multiset.mem_add.mp hv with hunderWay | hpending
  · obtain ⟨message, hmessage, -⟩ := List.mem_map.mp (Multiset.mem_coe.mp hunderWay)
    obtain ⟨hflight, hcopy⟩ := List.mem_filter.mp hmessage
    exact hhand ⟨n, le_rfl, message, hflight, hcopy⟩
  · obtain ⟨u, -, hu⟩ := Multiset.mem_sum.mp hpending
    obtain ⟨x, hx, hlink⟩ := List.mem_filterMap.mp (Multiset.mem_coe.mp hu)
    obtain ⟨⟨w, e⟩, hlink, -⟩ := Option.map_eq_some_iff.mp hlink
    exact hhand (hfair.exists_underWay hexec hx hlink)

/-- In a fair run no copies are under way to routers, from some state on. -/
theorem Fair.exists_no_copies (hfair : Fair labels states)
    (hexec : Execution net.step s labels states)
    (hfollowing : ∀ n, Following net packet r t d (states n)) :
    ∃ n, ∀ k ≥ n, net.copies (states k) = 0 := by
  -- the number of routers bounds how many have handled a copy: take a state where it is largest
  have hbound : ∀ n, (states n).handled.length ≤ Fintype.card V := fun n =>
    (hfollowing n).flood.nodup_handled.length_le_card
  obtain ⟨n, hn⟩ : ∃ n, ∀ k, (states k).handled.length ≤ (states n).handled.length := by
    refine ⟨Function.argmin fun n => Fintype.card V - (states n).handled.length, fun k => ?_⟩
    have hmin := Function.argmin_le (fun n => Fintype.card V - (states n).handled.length) k
    have hk := hbound k
    omega
  refine ⟨n, fun k hk => ?_⟩
  by_contra hcopies
  obtain ⟨m, hm⟩ := hfair.exists_handled hexec hcopies
  exact absurd ((handled_mono hexec hk).trans_lt hm) (hn m).not_gt

/-- A copy on a link can be handed over. -/
theorem Following.exists_hand (h : Following net packet r t d s) (hnet : net.Tree)
    (hdestination : net.Destination packet t d) {message : Message V} (hmessage : message ∈ s.flight)
    (hcopy : message.copy = true) :
    ∃ s', Reachable net.step (fun _ _ => True) s s' ∧ s.handled.length < s'.handled.length := by
  obtain ⟨s', hs', hnil, hpoint, hflight⟩ := net.exists_receive s message.router message.port
  have h' := h.of_reachable hnet hdestination hs'
  -- the port is a node's or a router's, so it is active
  have hknown : (net.table message.router).deviceType message.port ≠ clientTypeUnknown := by
    rcases (h'.flight message (hflight hmessage) hcopy).2 with ⟨-, hnode⟩ | ⟨u, e, hlink, -⟩
    · rw [hnode]
      decide
    · rw [(hnet.router message.router message.port).mpr (by rw [hlink]; rfl)]
      decide
  have hactive := (h'.standing.agrees message.router).active message.port hknown
  have hstep : ∃ s'', net.step (.hand message) s' = some s'' := by
    rw [Topology.step, if_pos ⟨hflight hmessage, Process.handles_receive hnil hpoint⟩]
    rcases hp : s'.process message.router with ⟨router, actions, point⟩
    rw [hp] at hnil hpoint hactive
    obtain rfl : actions = [] := hnil
    obtain rfl : point = .receive message.port := hpoint
    rw [Process.step, if_neg hactive]
    exact ⟨_, rfl⟩
  obtain ⟨s'', hs''⟩ := hstep
  exact ⟨s'', hs'.next trivial hs'', (handled_le_of_reachable hs').trans_lt
    ((Topology.handled_step hs'').2 message hcopy rfl)⟩

/-- As long as copies are under way, another router can handle one. -/
theorem Following.exists_handled (h : Following net packet r t d s) (hnet : net.Tree)
    (hdestination : net.Destination packet t d) (hcopies : net.copies s ≠ 0) :
    ∃ s', Reachable net.step (fun _ _ => True) s s' ∧ s.handled.length < s'.handled.length := by
  obtain ⟨v, hv⟩ := Multiset.exists_mem_of_ne_zero hcopies
  rcases Multiset.mem_add.mp hv with hunderWay | hpending
  · obtain ⟨message, hmessage, -⟩ := List.mem_map.mp (Multiset.mem_coe.mp hunderWay)
    obtain ⟨hflight, hcopy⟩ := List.mem_filter.mp hmessage
    exact h.exists_hand hnet hdestination hflight hcopy
  · -- the router can come to the action that sends the copy
    obtain ⟨u, -, hu⟩ := Multiset.mem_sum.mp hpending
    obtain ⟨x, hx, hlink⟩ := List.mem_filterMap.mp (Multiset.mem_coe.mp hu)
    obtain ⟨⟨w, e⟩, hlink, -⟩ := Option.map_eq_some_iff.mp hlink
    obtain ⟨hcopying, action, haction, hsent⟩ := Routers.mem_pending hx
    obtain ⟨before, behind, hactions⟩ := List.append_of_mem haction
    obtain ⟨s₁, hs₁, hactions₁, -, hcopying₁, -⟩ := net.exists_acts hactions
    obtain ⟨process, hstep, -⟩ := net.exists_act hactions₁
    have hs₂ := hs₁.next trivial hstep
    rw [hsent, Topology.emit_of_link hlink] at hs₂
    obtain ⟨s₃, hs₃, hlt⟩ := (h.of_reachable hnet hdestination hs₂).exists_hand hnet hdestination
      (List.mem_append_right _ List.mem_cons_self)
      ((congrFun hcopying₁ u).trans hcopying)
    exact ⟨s₃, hs₂.trans hs₃, (handled_le_of_reachable hs₂).trans_lt hlt⟩

/-- **From every state, the network can come to rest.** -/
theorem Following.exists_quiet (h : Following net packet r t d s) (hnet : net.Tree)
    (hdestination : net.Destination packet t d) :
    ∃ s', Reachable net.step (fun _ _ => True) s s' ∧ s'.Quiet := by
  -- by induction on the number of routers that have not handled a copy
  generalize hn : Fintype.card V - s.handled.length = n
  induction n using Nat.strong_induction_on generalizing s with
  | _ n ih =>
    by_cases hmore : ∃ s', Reachable net.step (fun _ _ => True) s s' ∧
        s.handled.length < s'.handled.length
    · obtain ⟨s', hs', hlt⟩ := hmore
      have h' := h.of_reachable hnet hdestination hs'
      have hbound := h'.flood.nodup_handled.length_le_card
      obtain ⟨s'', hs'', hquiet⟩ := ih (Fintype.card V - s'.handled.length) (by
        simp only at hbound
        omega) h' rfl
      exact ⟨s'', hs'.trans hs'', hquiet⟩
    · -- no copies are under way, and the destination comes to the end of its actions
      obtain ⟨s', hs', hactions, -⟩ :=
        net.exists_acts (s := s) (v := t) (List.append_nil _).symm
      have h' := h.of_reachable hnet hdestination hs'
      have hcopies : net.copies s' = 0 := by
        by_contra hcopies
        obtain ⟨s'', hs'', hlt⟩ := h'.exists_handled hnet hdestination hcopies
        exact hmore ⟨s'', hs'.trans hs'', (handled_le_of_reachable hs').trans_lt hlt⟩
      have hdelivered := h'.handled_of_copies hnet hcopies
      rw [Routers.pending_of_nil hactions, List.map_nil, List.append_nil] at hdelivered
      exact ⟨s', hs', h'.quiet hnet hcopies hdelivered⟩

/-- Where the packet is in a state of a run, and that the network can come to rest. -/
theorem Following.once (h : Following net packet r t d s) (hnet : net.Tree)
    (hdestination : net.Destination packet t d) :
    s.handled.Nodup ∧ (s.delivered = [] ∨ s.delivered = [(t, d, packet)]) ∧
      (s.Quiet → s.delivered = [(t, d, packet)]) ∧
      ∃ s', Reachable net.step (fun _ _ => True) s s' ∧ s'.Quiet := by
  refine ⟨h.flood.nodup_handled, h.delivered_cases, fun hquiet => ?_,
    h.exists_quiet hnet hdestination⟩
  have hdelivered := h.handled_of_copies hnet (Topology.copies_of_quiet hquiet)
  rw [hquiet.2, List.map_nil, List.append_nil] at hdelivered
  exact hdelivered

/-- In a fair run, the packet has been delivered from some state on. -/
theorem Fair.exists_delivered (hfair : Fair labels states)
    (hexec : Execution net.step s labels states) (h : Following net packet r t d s)
    (hnet : net.Tree) (hdestination : net.Destination packet t d) :
    ∃ n, ∀ k ≥ n, (states k).Quiet ∧ (states k).delivered = [(t, d, packet)] := by
  have hfollowing : ∀ n, Following net packet r t d (states n) := fun n =>
    h.of_reachable hnet hdestination (hexec.reachable n)
  obtain ⟨n, hn⟩ := hfair.exists_no_copies hexec hfollowing
  -- the destination comes to the end of its actions, and the packet stays delivered
  obtain ⟨m, hm, hactions, -⟩ := hfair.reaches hexec (v := t)
    (List.append_nil ((states n).process t).actions).symm
  have hdelivered := (hfollowing m).handled_of_copies hnet (hn m hm)
  rw [Routers.pending_of_nil hactions, List.map_nil, List.append_nil] at hdelivered
  refine ⟨m, fun k hk => ?_⟩
  have hstays : (states k).delivered = [(t, d, packet)] := by
    have hprefix := delivered_mono hexec hk
    rw [hdelivered] at hprefix
    refine (hfollowing k).delivered_cases.resolve_left fun hnil => ?_
    rw [hnil, List.prefix_nil] at hprefix
    cases hprefix
  exact ⟨(hfollowing k).quiet hnet (hn k (hm.trans hk)) hstays, hstays⟩

/-- **The packet is delivered exactly once**: in every state of every run each router has handled it
once at most, and it has been delivered on the port of its destination once at most and on no other; it
has been delivered when no copy is under way or to be sent, which the routers can always bring about,
and which is so from some state on in every fair run. -/
theorem delivered_once (hnet : net.Tree) (hdestination : net.Destination packet t d)
    (hsends : net.Sends r source packet s) :
    (∀ s', Reachable net.step (fun _ _ => True) s s' →
      s'.handled.Nodup ∧ (s'.delivered = [] ∨ s'.delivered = [(t, d, packet)]) ∧
        (s'.Quiet → s'.delivered = [(t, d, packet)]) ∧
        ∃ s'', Reachable net.step (fun _ _ => True) s' s'' ∧ s''.Quiet) ∧
    ∀ labels states, Execution net.step s labels states → Fair labels states →
      ∃ n, ∀ k ≥ n, (states k).Quiet ∧ (states k).delivered = [(t, d, packet)] := by
  have h : Following net packet r t d s := hsends.following t d
  exact ⟨fun s' hreachable => (h.of_reachable hnet hdestination hreachable).once hnet hdestination,
    fun labels states hexec hfair => hfair.exists_delivered hexec h hnet hdestination⟩

end Runs

end Copies

/-! ## Three routers -/

/-- Three routers in a row, with a node each on port 1: port 0 leads to the router before, or to the
second router from the first, and port 2 of the second router to the third. -/
def threeRouters : Topology (Fin 3) where
  table v := {
    deviceState := fun _ => 1
    deviceType := ![clientTypeRouter, clientTypeNode,
      if v = 1 then clientTypeRouter else clientTypeUnknown, clientTypeUnknown, clientTypeUnknown]
    addressLow := ![0, ![1, 2, 3] v, 0, 0, 0]
    addressHigh := fun _ => 0 }
  link v d :=
    if d = 0 then some (![1, 0, 1] v, ![0, 0, 2] v)
    else if d = 2 ∧ v = 1 then some (2, 0)
    else none

theorem tree_threeRouters : threeRouters.Tree where
  symm := by decide +revert
  router := by decide
  isTree := by
    have hpath : threeRouters.graph = SimpleGraph.pathGraph 3 := by
      ext v w
      simp only [Topology.graph, SimpleGraph.fromRel_adj, SimpleGraph.pathGraph_adj]
      decide +revert
    have hedges : (SimpleGraph.pathGraph 3).edgeSet = {s(0, 1), s(1, 2)} := by
      ext e
      induction e with
      | _ v w =>
        simp only [SimpleGraph.mem_edgeSet, SimpleGraph.pathGraph_adj, Set.mem_insert_iff,
          Set.mem_singleton_iff]
        decide +revert
    rw [hpath, SimpleGraph.isTree_iff_connected_and_card, hedges, Nat.card_coe_set_eq,
      Set.ncard_pair (by decide), Nat.card_fin]
    exact ⟨SimpleGraph.pathGraph_connected 2, rfl⟩
  ne := by decide +revert
  single := by decide +revert
  unique := by
    rintro v w d e address - ⟨htype, rfl⟩ hw
    revert v w d e
    decide

/-- A packet from the node of the first router to the node of the third. -/
def packetToThird : NetworkPacket := { startBytesPacket with addrD := ⟨3, 0⟩, addrS := ⟨1, 0⟩ }

/-- The node of the first router has sent the packet. -/
def threeRoutersStart : Routers (Fin 3) where
  process v := ⟨⟨threeRouters.table v, fun _ => 0, 0, reconnRequestMin⟩, [], .visit 0⟩
  flight := [⟨0, 1, packetToThird, true⟩]
  copying _ := false
  handled := []
  delivered := []

theorem destination_threeRouters : threeRouters.Destination packetToThird 2 1 where
  registered := by decide
  address_ne := by decide
  not_blank := by decide

theorem sends_threeRouters : threeRouters.Sends 0 1 packetToThird threeRoutersStart where
  standing := {
    agrees := fun v => ⟨rfl, rfl, rfl, fun _ _ => show (1 : UInt8) ≠ 0 by decide⟩
    actions := fun _ _ h => absurd h List.not_mem_nil
    flight := by
      intro message h
      obtain rfl := List.mem_singleton.mp h
      exact .inl (NetworkPacket.entry?_of_ne (by decide)) }
  node := rfl
  flight := ⟨[], rfl, fun _ h => absurd h List.not_mem_nil⟩
  copying _ := rfl
  handled := rfl
  delivered := rfl

/-- `delivered_once` for three routers. -/
theorem delivered_once_threeRouters :
    (∀ s', Reachable threeRouters.step (fun _ _ => True) threeRoutersStart s' →
      s'.handled.Nodup ∧ (s'.delivered = [] ∨ s'.delivered = [(2, 1, packetToThird)]) ∧
        (s'.Quiet → s'.delivered = [(2, 1, packetToThird)]) ∧
        ∃ s'', Reachable threeRouters.step (fun _ _ => True) s' s'' ∧ s''.Quiet) ∧
    ∀ labels states, Execution threeRouters.step threeRoutersStart labels states →
      Fair labels states →
        ∃ n, ∀ k ≥ n, (states k).Quiet ∧ (states k).delivered = [(2, 1, packetToThird)] :=
  delivered_once tree_threeRouters destination_threeRouters sends_threeRouters

end MicroKernel.Network
