import PacketReplay.Capture.IrrelevantFlags
import PacketReplay.Capture.Opener
import PacketReplay.Capture.Payload

/-!
# Connections from the handshake to the end

A flow in which connections are made one after the other, each opened by a handshake, ended
by a `FIN` and followed by packets that open no other. What is recorded of it are the
connections, one by one (`captured_connections`): a `CONNECT`, the payloads in order and a
`CLOSE` for each.
-/

namespace PacketReplay

open Lib

/-- The two endpoints of a TCP flow. -/
structure TcpFlow : Type where
  family : AddrFamily
  clientAddr : Bytes
  serverAddr : Bytes
  clientPort : UInt16
  serverPort : UInt16
  clientAddr_length : clientAddr.length = family.addrSize
  serverAddr_length : serverAddr.length = family.addrSize
  distinct : (clientAddr, clientPort) ≠ (serverAddr, serverPort)

/-- A packet of a flow. -/
structure TcpSegment : Type where
  client : Bool
  flags : UInt8
  payload : Bytes := []
  deriving DecidableEq, Repr

namespace TcpFlow

variable (f : TcpFlow)

def packet (s : TcpSegment) : TransportPacket :=
  if s.client then
    ⟨⟨f.family, f.clientAddr, f.serverAddr, f.clientAddr_length, f.serverAddr_length⟩,
      .tcp ⟨f.clientPort, f.serverPort, s.flags, s.payload⟩⟩
  else
    ⟨⟨f.family, f.serverAddr, f.clientAddr, f.serverAddr_length, f.clientAddr_length⟩,
      .tcp ⟨f.serverPort, f.clientPort, s.flags, s.payload⟩⟩

/-- Where a packet comes from. -/
def sourceAddr (s : TcpSegment) : Bytes := if s.client then f.clientAddr else f.serverAddr

end TcpFlow

namespace TcpSegment

def tcp (s : TcpSegment) : TcpLayer := ⟨0, 0, s.flags, s.payload⟩

/-- The packet is recorded with its payload. -/
def Plain (s : TcpSegment) : Prop := s.tcp.hasFin = false ∧ s.tcp.hasRst = false

instance (s : TcpSegment) : Decidable s.Plain := inferInstanceAs (Decidable (_ ∧ _))

/-- The action that a payload is recorded as. -/
def actions (s : TcpSegment) : List Action :=
  if s.payload = [] then []
  else [{ type := if s.client then .send else .recv, data := s.payload }]

end TcpSegment

/-- A connection: the flags of the handshake, the packets behind it, the one that ends the
connection and others behind that. -/
structure TcpConnection : Type where
  synAck : UInt8
  ack : UInt8
  data : List TcpSegment
  fin : TcpSegment
  trailing : List TcpSegment
  synAck_flags : (TcpLayer.mk 0 0 synAck []).hasSyn = true ∧
    (TcpLayer.mk 0 0 synAck []).hasAck = true ∧ (TcpLayer.mk 0 0 synAck []).hasRst = false
  ack_flags : (TcpLayer.mk 0 0 ack []).hasAck = true ∧ (TcpLayer.mk 0 0 ack []).hasRst = false
  plain : ∀ s ∈ data, s.Plain
  ends : fin.tcp.hasFin = true ∧ fin.tcp.hasRst = false
  quiet : ∀ s ∈ trailing, s.flags ≠ thSyn

namespace TcpConnection

variable (k : TcpConnection)

def segments : List TcpSegment :=
  [⟨true, thSyn, []⟩, ⟨false, k.synAck, []⟩, ⟨true, k.ack, []⟩] ++
    (k.data ++ ([k.fin] ++ k.trailing))

/-- What is recorded of the connection. -/
def actions : List Action :=
  [{ type := .connect }] ++ ((k.data ++ [k.fin]).flatMap TcpSegment.actions ++ [{ type := .close }])

end TcpConnection

namespace TcpConversation

/-- The conversation is one of the flow, seen from its client. -/
structure Follows (f : TcpFlow) (c : TcpConversation) : Prop where
  addrFamily : c.addrFamily = f.family
  capSrcAddr : c.capSrcAddr = f.clientAddr
  capDestAddr : c.capDestAddr = f.serverAddr
  capSrcPort : c.capSrcPort = f.clientPort

section Follows

variable {f : TcpFlow} {c : TcpConversation} {s : TcpSegment}

theorem sameAddr_of_follows (follows : Follows f c) (s : TcpSegment) {addr : Bytes}
    (size : addr.length = f.family.addrSize) :
    c.sameAddr (f.packet s).network.srcAddr addr = true ↔ f.sourceAddr s = addr := by
  have here : (f.packet s).network.srcAddr = f.sourceAddr s := by
    rw [TcpFlow.packet, TcpFlow.sourceAddr]
    split <;> rfl
  have length : (f.sourceAddr s).length = f.family.addrSize := by
    rw [TcpFlow.sourceAddr]
    split
    · exact f.clientAddr_length
    · exact f.serverAddr_length
  rw [here, sameAddr_iff (length.trans (congrArg _ follows.addrFamily.symm))
    (size.trans (congrArg _ follows.addrFamily.symm))]

theorem dataActions_of_follows (follows : Follows f c) (s : TcpSegment) :
    c.dataActions (f.packet s) = s.actions := by
  have family : (f.packet s).network.family = c.addrFamily := by
    rw [follows.addrFamily, TcpFlow.packet]
    split <;> rfl
  have size : c.capSrcAddr.length = c.addrFamily.addrSize := by
    rw [follows.capSrcAddr, follows.addrFamily]
    exact f.clientAddr_length
  have client := fromClient_iff family size
  rw [follows.capSrcAddr, follows.capSrcPort] at client
  have payload : (f.packet s).payload = s.payload := by
    rw [TcpFlow.packet]
    split <;> rfl
  have sender : c.fromClient (f.packet s) = s.client := by
    rw [Bool.eq_iff_iff, client, TcpFlow.packet]
    split
    · next mine => exact iff_of_true rfl mine
    · next other => exact iff_of_false (fun same => f.distinct same.symm) other
  rw [dataActions, TcpSegment.actions, payload, sender]

theorem exists_transport (f : TcpFlow) (s : TcpSegment) :
    ∃ tcp, (f.packet s).transport = .tcp tcp ∧ tcp.flags = s.flags := by
  rw [TcpFlow.packet]
  split
  · exact ⟨_, rfl, rfl⟩
  · exact ⟨_, rfl, rfl⟩

/-- A packet without a reset is handed to the state of the connection. -/
theorem exists_process_eq (f : TcpFlow) (c : TcpConversation) {s : TcpSegment}
    (noReset : s.tcp.hasRst = false) :
    ∃ tcp, (f.packet s).transport = .tcp tcp ∧ tcp.flags = s.flags ∧
      c.processCapturePacket (f.packet s) =
        match c.capTcpState with
        | .closed => c.closeProcessCapturePacket (f.packet s).network.srcAddr tcp
        | .synSent => c.synSentProcessCapturePacket (f.packet s).network.srcAddr tcp
        | .synReceived => c.synRecvProcessCapturePacket (f.packet s).network.srcAddr tcp
        | .established => c.estProcessCapturePacket (f.packet s).network.srcAddr tcp := by
  obtain ⟨tcp, transport, flags⟩ := exists_transport f s
  have noReset : tcp.hasRst = false := by
    rw [TcpLayer.hasRst, flags]
    exact noReset
  refine ⟨tcp, transport, flags, ?_⟩
  rw [processCapturePacket_tcp transport, processTcp]
  refine (if_neg (by simp [noReset])).trans ?_
  cases c.capTcpState <;> rfl

theorem process_syn (follows : Follows f c) (closed : c.capTcpState = .closed) :
    c.processCapturePacket (f.packet ⟨true, thSyn, []⟩) =
      { c with socket := -1, capTcpState := .synSent } := by
  obtain ⟨tcp, -, flags, processed⟩ := exists_process_eq f c (s := ⟨true, thSyn, []⟩) (by decide)
  have client : c.sameAddr (f.packet ⟨true, thSyn, []⟩).network.srcAddr c.capSrcAddr = true := by
    rw [follows.capSrcAddr]
    exact (sameAddr_of_follows follows _ f.clientAddr_length).mpr rfl
  rw [processed, closed]
  exact if_pos ⟨client, flags⟩

theorem process_synAck (follows : Follows f c) (sent : c.capTcpState = .synSent) {flags : UInt8}
    (shake : (TcpLayer.mk 0 0 flags []).hasSyn = true ∧
      (TcpLayer.mk 0 0 flags []).hasAck = true ∧ (TcpLayer.mk 0 0 flags []).hasRst = false) :
    c.processCapturePacket (f.packet ⟨false, flags, []⟩) =
      { c with capTcpState := .synReceived } := by
  obtain ⟨tcp, -, same, processed⟩ := exists_process_eq f c (s := ⟨false, flags, []⟩) shake.2.2
  have server : c.sameAddr (f.packet ⟨false, flags, []⟩).network.srcAddr c.capDestAddr = true := by
    rw [follows.capDestAddr]
    exact (sameAddr_of_follows follows _ f.serverAddr_length).mpr rfl
  rw [processed, sent]
  refine if_pos ⟨server, ?_, ?_⟩
  · rw [TcpLayer.hasAck, same]
    exact shake.2.1
  · rw [TcpLayer.hasSyn, same]
    exact shake.1

theorem process_ack (follows : Follows f c) (received : c.capTcpState = .synReceived)
    {flags : UInt8} (shake : (TcpLayer.mk 0 0 flags []).hasAck = true ∧
      (TcpLayer.mk 0 0 flags []).hasRst = false) :
    c.processCapturePacket (f.packet ⟨true, flags, []⟩) =
      { c with capTcpState := .established }.actionPush { type := .connect } := by
  obtain ⟨tcp, -, same, processed⟩ := exists_process_eq f c (s := ⟨true, flags, []⟩) shake.2
  have client : c.sameAddr (f.packet ⟨true, flags, []⟩).network.srcAddr c.capSrcAddr = true := by
    rw [follows.capSrcAddr]
    exact (sameAddr_of_follows follows _ f.clientAddr_length).mpr rfl
  rw [processed, received]
  refine if_pos ⟨client, ?_⟩
  rw [TcpLayer.hasAck, same]
  exact shake.1

/-- In the connection a payload is recorded. -/
theorem process_plain (follows : Follows f c) (established : c.capTcpState = .established)
    (plain : s.Plain) :
    c.processCapturePacket (f.packet s) = { c with actionQueue := c.actionQueue ++ s.actions } := by
  obtain ⟨tcp, transport, flags, processed⟩ := exists_process_eq f c plain.2
  have noFin : tcp.hasFin = false := by
    rw [TcpLayer.hasFin, flags]
    exact plain.1
  rw [processed, established]
  change c.estProcessCapturePacket _ tcp = _
  rw [estProcess_eq transport, if_neg (by simp [noFin]), dataActions_of_follows follows,
    ← established]

theorem process_fin (follows : Follows f c) (established : c.capTcpState = .established)
    (ends : s.tcp.hasFin = true ∧ s.tcp.hasRst = false) :
    c.processCapturePacket (f.packet s) =
      { c with
        capTcpState := .closed
        actionQueue := c.actionQueue ++ s.actions ++ [{ type := .close }] } := by
  obtain ⟨tcp, transport, flags, processed⟩ := exists_process_eq f c ends.2
  have fin : tcp.hasFin = true := by
    rw [TcpLayer.hasFin, flags]
    exact ends.1
  rw [processed, established]
  change c.estProcessCapturePacket _ tcp = _
  rw [estProcess_eq transport, if_pos fin, dataActions_of_follows follows]

/-- Without a connection a packet that opens none is not recorded. -/
theorem process_quiet (f : TcpFlow) (closed : c.capTcpState = .closed) (quiet : s.flags ≠ thSyn) :
    c.processCapturePacket (f.packet s) = c := by
  obtain ⟨tcp, transport, flags⟩ := exists_transport f s
  rw [processCapturePacket_tcp transport, processTcp]
  split
  · rw [← closed]
  · rw [closed]
    refine if_neg fun opens => quiet ?_
    rw [← flags, opens.2]

end Follows

section Connections

variable {f : TcpFlow} {c : TcpConversation}

theorem Follows.moved (follows : Follows f c) (state : TcpState) (socket : Int)
    (queue : List Action) :
    Follows f { c with capTcpState := state, socket := socket, actionQueue := queue } :=
  ⟨follows.addrFamily, follows.capSrcAddr, follows.capDestAddr, follows.capSrcPort⟩

theorem captured_plain (follows : Follows f c) (established : c.capTcpState = .established)
    {data : List TcpSegment} (plain : ∀ s ∈ data, s.Plain) :
    c.captured (data.map f.packet) =
      { c with actionQueue := c.actionQueue ++ data.flatMap TcpSegment.actions } := by
  induction data generalizing c with
  | nil => rw [List.flatMap_nil, List.append_nil]; rfl
  | cons s data ih =>
      obtain ⟨first, rest⟩ := List.forall_mem_cons.mp plain
      rw [List.map_cons, captured_cons, process_plain follows established first,
        ih (follows.moved c.capTcpState c.socket (c.actionQueue ++ s.actions)) established rest,
        List.flatMap_cons, List.append_assoc]

theorem captured_quiet (closed : c.capTcpState = .closed) {trailing : List TcpSegment}
    (quiet : ∀ s ∈ trailing, s.flags ≠ thSyn) : c.captured (trailing.map f.packet) = c := by
  induction trailing with
  | nil => rfl
  | cons s trailing ih =>
      obtain ⟨first, rest⟩ := List.forall_mem_cons.mp quiet
      rw [List.map_cons, captured_cons, process_quiet f closed first, ih rest]

/-- One connection, from the handshake on. -/
theorem captured_connection (follows : Follows f c) (closed : c.capTcpState = .closed)
    (k : TcpConnection) :
    c.captured (k.segments.map f.packet) =
      { c with socket := -1, actionQueue := c.actionQueue ++ k.actions } := by
  have shaken : c.captured ([⟨true, thSyn, []⟩, ⟨false, k.synAck, []⟩, ⟨true, k.ack, []⟩].map
      f.packet) = { c with
        capTcpState := .established
        socket := -1
        actionQueue := c.actionQueue ++ [{ type := .connect }] } := by
    rw [List.map_cons, captured_cons, process_syn follows closed, List.map_cons, captured_cons,
      process_synAck (follows.moved .synSent (-1) c.actionQueue) rfl k.synAck_flags,
      List.map_cons, captured_cons,
      process_ack (follows.moved .synReceived (-1) c.actionQueue) rfl k.ack_flags]
    rfl
  have inside := follows.moved .established (-1) (c.actionQueue ++ [{ type := .connect }])
  have last := follows.moved .established (-1)
    (c.actionQueue ++ [{ type := .connect }] ++ k.data.flatMap TcpSegment.actions)
  rw [TcpConnection.segments, List.map_append, captured_append, shaken, List.map_append,
    captured_append, captured_plain inside rfl k.plain, List.map_append, captured_append]
  have finished := process_fin last rfl k.ends
  change ((TcpConversation.processCapturePacket _ (f.packet k.fin)).captured _) = _
  rw [finished]
  refine (captured_quiet rfl k.quiet).trans ?_
  simp only [TcpConnection.actions, List.flatMap_append, List.flatMap_singleton, List.append_assoc,
    closed]

/-- Connections made one after the other. -/
theorem captured_connections (follows : Follows f c) (closed : c.capTcpState = .closed)
    (none : c.socket = -1) (connections : List TcpConnection) :
    c.captured ((connections.flatMap TcpConnection.segments).map f.packet) =
      { c with actionQueue := c.actionQueue ++ connections.flatMap TcpConnection.actions } := by
  induction connections generalizing c with
  | nil => rw [List.flatMap_nil, List.flatMap_nil, List.append_nil]; rfl
  | cons k connections ih =>
      rw [List.flatMap_cons, List.map_append, captured_append, captured_connection follows closed k,
        ih (follows.moved c.capTcpState (-1) (c.actionQueue ++ k.actions)) closed rfl,
        List.flatMap_cons, List.append_assoc, ← none]

end Connections

end TcpConversation

namespace TcpFlow

open TypedConversationStore

variable {inet : Inet} {testServers : TestServers} {packets : List TransportPacket} (f : TcpFlow)

/-- The packet that opens the first connection of the flow. -/
def opening : TransportPacket := f.packet ⟨true, thSyn, []⟩

/-- The flow has packets in a capture and they are those of connections. -/
structure Connects (inet : Inet) (testServers : TestServers) (packets : List TransportPacket)
    (k : TcpConnection) (connections : List TcpConnection) : Prop where
  flow : flow (tcpConversationFactory inet) (tcpIpGetKey f.opening) packets =
    ((k :: connections).flatMap TcpConnection.segments).map f.packet
  client : testServers.entries ≠ [] →
    FromClient (tcpConversationFactory inet) testServers f.opening
  lone : testServers.entries = [] → packets.head? = some f.opening

theorem follows_ofPacket (server : Option TargetTestServer) :
    TcpConversation.Follows f (TcpConversation.ofPacket inet f.opening server) :=
  ⟨rfl, rfl, rfl, rfl⟩

/-- Whatever packets of other flows are between them, the connections of a flow are recorded
one by one. -/
theorem lookup_load_of_connects {k : TcpConnection} {connections : List TcpConnection}
    (connects : f.Connects inet testServers packets k connections) :
    (load (tcpConversationFactory inet) ⟨testServers, ∅⟩ packets).conversations.lookup
        (tcpIpGetKey f.opening) =
      some { TcpConversation.ofPacket inet f.opening
          (configured (tcpConversationFactory inet) testServers f.opening).join with
        actionQueue := (k :: connections).flatMap TcpConnection.actions } := by
  have first : ((k :: connections).flatMap TcpConnection.segments).map f.packet =
      f.opening :: (((k :: connections).flatMap TcpConnection.segments).tail).map f.packet := rfl
  have opens : Opens (tcpConversationFactory inet) testServers packets [] f.opening
      ((((k :: connections).flatMap TcpConnection.segments).tail).map f.packet) :=
    ⟨connects.flow.trans first, fun clients => ⟨connects.client clients, by simp⟩,
      fun none => ⟨rfl, connects.lone none⟩⟩
  refine (lookup_of_opens opens).trans (congrArg some ?_)
  rw [← first]
  exact TcpConversation.captured_connections (f.follows_ofPacket _) rfl rfl (k :: connections)

end TcpFlow

end PacketReplay
