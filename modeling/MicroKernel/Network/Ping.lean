import MicroKernel.Network.Router

/-!
# Pings

A packet to the router without a source address is a ping, which the router returns to its sender.
The test for a client connection request comes first and looks at the data only, and the ping that
the `net` command of `kernel/command/net/net.c` sends carries the data of such a request.

## Main definitions

* `packetPing`: the packet the `net` command sends
* `AnswersPing`: the router returns a packet and leaves its table

## Main results

* `answersPing_iff`: when a packet without a source address is returned
-/

namespace MicroKernel.Network

/-- The packet of a ping of the server. -/
def packetPing : NetworkPacket where
  start := packetStartByte
  addrD := routerAddress
  addrS := noAddress
  index := 1
  total := 1
  data := Function.update (Function.update (fun _ => 0x55) 0 0x55) 1 0x00
  stop := packetStopByte

/-- A router that finds a packet on port `s` returns it there, and nothing else, and leaves its
table. -/
def AnswersPing (s : Port) (packet : NetworkPacket) (router : Router) : Prop :=
  ∃ process, Process.step (.receive (some packet)) ⟨router, [], .receive s⟩ = some process ∧
    sends process.actions = [(s, packet)] ∧ process.settled = router.routingTable

section Ping

variable {s : Port} {packet : NetworkPacket} {router : Router}

/-- The actions for a packet to the router. -/
theorem step_receive_control (hstate : router.routingTable.deviceState s ≠ 0)
    (hd : packet.addrD = routerAddress) :
    Process.step (.receive (some packet)) ⟨router, [], .receive s⟩ =
      some ⟨router, .clear s :: control s packet, .visit (s + 1)⟩ := by
  have hblank : ¬ packet.IsBlank := fun h => absurd (hd.symm.trans h.1) (by decide)
  rw [Process.step, if_neg hstate, receivePacket, if_neg hblank, if_pos hd]

/-- **A ping** is answered as one exactly when its data are not those of a client connection
request: for every routing table, every active port, and every packet to the router without a
source address. -/
theorem answersPing_iff (s : Port) (packet : NetworkPacket) (router : Router)
    (hstate : router.routingTable.deviceState s ≠ 0) (hd : packet.addrD = routerAddress)
    (hs : packet.addrS = noAddress) : AnswersPing s packet router ↔ ¬ packet.IsClientRequest := by
  have hstep := step_receive_control hstate hd
  constructor
  · rintro ⟨process, hprocess, hsends, -⟩ hrequest
    cases hstep.symm.trans hprocess
    -- the acknowledgement is sent in place of the ping
    rw [control, if_pos hrequest] at hsends
    have hpacket : packetClientHandshake = packet := congrArg Prod.snd (List.cons.inj hsends).1
    rw [← hpacket] at hd
    exact absurd hd (by decide)
  · intro hrequest
    have hrouter : ¬ packet.addrS = routerAddress := fun h => absurd (hs.symm.trans h) (by decide)
    refine ⟨_, hstep, ?_, ?_⟩
    · rw [control, if_neg hrequest, if_neg hrouter, if_pos hs]
      rfl
    · rw [Process.settled, control, if_neg hrequest, if_neg hrouter, if_pos hs]
      rfl

/-- A router with all ports active. -/
def activeRouter : Router where
  routingTable := { RoutingTable.zero with deviceState := fun _ => 1 }
  reconnRequestCounter := fun _ => 0
  reconnRequestTimeOut := 0
  reconnRequestRate := reconnRequestMin

/-- `answersPing_iff` for a ping with other data than those of the `net` command. -/
theorem answersPing_zeroData : AnswersPing 0 { packetPing with data := fun _ => 0 } activeRouter :=
  (answersPing_iff 0 _ activeRouter (show (1 : UInt8) ≠ 0 by decide) rfl rfl).mpr (by decide)

/-- Not every ping is answered as one: that of the `net` command makes its sender a node. -/
theorem not_answersPing : ¬ ∀ (s : Port) (packet : NetworkPacket) (router : Router),
    router.routingTable.deviceState s ≠ 0 → packet.addrD = routerAddress →
      packet.addrS = noAddress → AnswersPing s packet router := by
  intro h
  obtain ⟨process, hprocess, -, htable⟩ :=
    h 0 packetPing activeRouter (show (1 : UInt8) ≠ 0 by decide) rfl rfl
  cases hprocess
  exact absurd (congrFun (congrArg RoutingTable.deviceType htable) 0) (by decide)

end Ping

end MicroKernel.Network
