import PacketReplay.Capture.Opener

/-!
# What a UDP conversation has recorded

The conversations of a store of UDP conversations have recorded the datagrams of their
flows, each from the packet on that opened it (`exists_recorded`): those of the endpoint
that opened it to be sent and the others to be received.
-/

namespace PacketReplay

open Lib

/-- The datagrams of a list of actions of one type. -/
def datagrams (type : ActionType) (queue : List Action) : List Bytes :=
  (queue.filter fun action => action.type = type).map Action.data

theorem datagrams_append (type : ActionType) (before behind : List Action) :
    datagrams type (before ++ behind) = datagrams type before ++ datagrams type behind := by
  rw [datagrams, List.filter_append, List.map_append, ← datagrams, ← datagrams]

namespace TransportPacket

/-- The datagram that a packet carries. -/
def datagram? (p : TransportPacket) : Option Bytes :=
  match p.transport with
  | .tcp _ => none
  | .udp udp => some udp.data

end TransportPacket

namespace UdpConversation

variable {c : UdpConversation} {p : TransportPacket}

/-- The action that a packet is recorded as, in a conversation of a client. -/
def actionOf (client : Bytes × UInt16) (p : TransportPacket) : List Action :=
  match p.datagram? with
  | none => []
  | some data => [{ type := if p.source = client then .send else .recv, data := data }]

/-- A packet of the flow adds its datagram to the queue. -/
theorem processCapturePacket_eq (family : p.network.family = c.addrFamily)
    (size : c.capSrcAddr.length = c.addrFamily.addrSize) :
    c.processCapturePacket p =
      { c with actionQueue := c.actionQueue ++ actionOf (c.capSrcAddr, c.capSrcPort) p } := by
  have addrSize : p.network.srcAddr.length = c.addrFamily.addrSize := by
    rw [p.network.srcAddr_length, family]
  have same := memcmp_eq_zero_iff size.ge addrSize.ge
  rw [← size, List.take_length, size, ← addrSize, List.take_length, addrSize] at same
  rw [processCapturePacket, actionOf, TransportPacket.datagram?, TransportPacket.source]
  rcases transport : p.transport with tcp | udp
  · rw [List.append_nil]
  · have client : (memcmp c.capSrcAddr p.network.srcAddr c.addrFamily.addrSize = .ok 0 ∧
        c.capSrcPort = udp.srcPort) ↔
        (p.network.srcAddr, udp.srcPort) = (c.capSrcAddr, c.capSrcPort) := by
      rw [same, Prod.mk.injEq, eq_comm, @eq_comm _ c.capSrcPort]
    simp only [client]
    rfl

theorem foldl_processCapturePacket (c : UdpConversation) {packets : List TransportPacket}
    (family : ∀ p ∈ packets, p.network.family = c.addrFamily)
    (size : c.capSrcAddr.length = c.addrFamily.addrSize) :
    packets.foldl processCapturePacket c =
      { c with actionQueue :=
          c.actionQueue ++ packets.flatMap (actionOf (c.capSrcAddr, c.capSrcPort)) } := by
  induction packets generalizing c with
  | nil => rw [List.foldl_nil, List.flatMap_nil, List.append_nil]
  | cons p packets ih =>
      rw [List.foldl_cons, processCapturePacket_eq (family p List.mem_cons_self) size, ih,
        List.flatMap_cons, List.append_assoc]
      · exact fun q mem => family q (List.mem_cons_of_mem p mem)
      · exact size

end UdpConversation

open TypedConversationStore

/-- What a UDP conversation has recorded of the packets from the one on that opened it. -/
structure UdpConversation.Recorded (inet : Inet) (testServers : TestServers)
    (first : TransportPacket) (behind : List TransportPacket) (c : UdpConversation) : Prop where
  addrFamily : c.addrFamily = first.network.family
  testSockAddr : c.testSockAddr = (PacketConversation.ofPacket inet first
    (configured (udpConversationFactory inet) testServers first).join).testSockAddr
  actionQueue :
    c.actionQueue = (first :: behind).flatMap (UdpConversation.actionOf first.source)

/-- Every conversation of a store that has loaded packets has recorded the datagrams of its
flow, from the packet on that opened it. -/
theorem exists_recorded {inet : Inet} {testServers : TestServers}
    {packets : List TransportPacket} {c : UdpConversation}
    (mem : c ∈ (load (udpConversationFactory inet) ⟨testServers, ∅⟩ packets).getConversations) :
    ∃ before first behind,
      Opens (udpConversationFactory inet) testServers packets before first behind ∧
        UdpConversation.Recorded inet testServers first behind c := by
  obtain ⟨key, found⟩ := mem_getConversations.mp mem
  obtain ⟨before, first, behind, opens, -, same⟩ := exists_opener found
  have family : ∀ p ∈ first :: behind, p.network.family = first.network.family := by
    intro p inside
    have flows : p ∈ flow (udpConversationFactory inet) (tcpIpGetKey first) packets := by
      have cut := opens.flow
      change flow _ (tcpIpGetKey first) packets = _ at cut
      rw [cut]
      exact List.mem_append_right before inside
    exact family_eq_of_key_eq (of_decide_eq_true (List.mem_filter.mp flows).2)
  have whole := same.trans (UdpConversation.foldl_processCapturePacket
    (UdpConversation.ofPacket inet first
      (configured (udpConversationFactory inet) testServers first).join)
    family first.network.srcAddr_length)
  refine ⟨before, first, behind, opens, ?_⟩
  rw [whole]
  exact ⟨rfl, rfl, rfl⟩

end PacketReplay
