import PacketReplay.Action
import PacketReplay.Capture.Packet

/-!
# Conversations

`PacketConversation` with its two kinds: what a conversation keeps of the packet or
the script it was made from, and how a captured packet is recorded into it.
-/

namespace PacketReplay

open Lib

/-- A test server to use instead of the one in the capture. -/
structure TargetTestServer : Type where
  testAddr : Bytes
  testPort : Int
  deriving DecidableEq, Repr

/-- What `getSockAddr` fills in. -/
structure SockAddr : Type where
  family : AddrFamily
  addr : Bytes
  port : UInt16
  deriving DecidableEq, Repr

/-- `getAddrFromString` into a buffer of zeros, which a text that is no address
leaves as it is. -/
def getAddrFromString (inet : Inet) (family : AddrFamily) (text : Bytes) : Bytes :=
  (inet.pton family (cstr text)).getD (List.replicate family.addrSize 0)

/-- The captured endpoints of a conversation made from a script are never set. -/
structure PacketConversation : Type where
  addrFamily : AddrFamily
  capSrcAddr : Bytes := []
  capDestAddr : Bytes := []
  capSrcPort : UInt16 := 0
  capDestPort : UInt16 := 0
  testDestAddr : Bytes
  testDestPort : UInt16
  testSockAddr : SockAddr
  actionQueue : List Action := []
  deriving DecidableEq

namespace PacketConversation

/-- The constructor of a conversation that is read from a script. -/
def ofLayer (inet : Inet) (family : AddrFamily) (server : TargetTestServer) :
    PacketConversation :=
  let testDestPort := htons server.testPort
  let testDestAddr := getAddrFromString inet family server.testAddr
  { addrFamily := family
    testDestAddr := testDestAddr
    testDestPort := testDestPort
    testSockAddr := ⟨family, testDestAddr, testDestPort⟩ }

/-- The constructor of a conversation that is captured. -/
def ofPacket (inet : Inet) (packet : TransportPacket) (server : Option TargetTestServer) :
    PacketConversation :=
  let family := packet.network.family
  let testDestAddr :=
    match server with
    | some server => getAddrFromString inet family server.testAddr
    | none => packet.network.destAddr
  let testDestPort :=
    match server with
    | some server => htons server.testPort
    | none => packet.transport.destPort
  { addrFamily := family
    capSrcAddr := packet.network.srcAddr
    capDestAddr := packet.network.destAddr
    capSrcPort := packet.transport.srcPort
    capDestPort := packet.transport.destPort
    testDestAddr := testDestAddr
    testDestPort := testDestPort
    testSockAddr := ⟨family, testDestAddr, testDestPort⟩ }

def actionPush (c : PacketConversation) (action : Action) : PacketConversation :=
  { c with actionQueue := c.actionQueue ++ [action] }

end PacketConversation

/-! ## TCP -/

inductive TcpState : Type
  | synSent
  | synReceived
  | established
  | closed
  deriving DecidableEq, Repr

structure TcpConversation extends PacketConversation where
  capTcpState : TcpState := .closed
  socket : Int := -1
  deriving DecidableEq

namespace TcpConversation

def protName : Bytes := ascii "TCP"

def ofLayer (inet : Inet) (family : AddrFamily) (server : TargetTestServer) : TcpConversation :=
  { PacketConversation.ofLayer inet family server with }

def ofPacket (inet : Inet) (packet : TransportPacket) (server : Option TargetTestServer) :
    TcpConversation :=
  { PacketConversation.ofPacket inet packet server with }

def actionPush (c : TcpConversation) (action : Action) : TcpConversation :=
  { c with toPacketConversation := c.toPacketConversation.actionPush action }

/-- `memcmp(addr, cap, addr_size_) == 0`, of a packet's address and one of the
conversation's. -/
def sameAddr (c : TcpConversation) (addr cap : Bytes) : Bool :=
  memcmp addr cap c.addrFamily.addrSize = .ok 0

def closeProcessCapturePacket (c : TcpConversation) (src : Bytes) (tcp : TcpLayer) :
    TcpConversation :=
  if c.sameAddr src c.capSrcAddr ∧ tcp.flags = thSyn then
    { c with socket := -1, capTcpState := .synSent }
  else c

def synSentProcessCapturePacket (c : TcpConversation) (src : Bytes) (tcp : TcpLayer) :
    TcpConversation :=
  if c.sameAddr src c.capDestAddr ∧ tcp.hasAck ∧ tcp.hasSyn then
    { c with capTcpState := .synReceived }
  else c

def synRecvProcessCapturePacket (c : TcpConversation) (src : Bytes) (tcp : TcpLayer) :
    TcpConversation :=
  if c.sameAddr src c.capSrcAddr ∧ tcp.hasAck then
    { c with capTcpState := .established }.actionPush { type := .connect }
  else c

def estProcessCapturePacket (c : TcpConversation) (src : Bytes) (tcp : TcpLayer) :
    TcpConversation :=
  let c :=
    if tcp.data ≠ [] then
      if c.sameAddr src c.capSrcAddr ∧ tcp.srcPort = c.capSrcPort then
        c.actionPush { type := .send, data := tcp.data }
      else c.actionPush { type := .recv, data := tcp.data }
    else c
  if tcp.hasFin then { c with capTcpState := .closed }.actionPush { type := .close } else c

/-- `processCapturePacket` on the layers of a TCP packet. -/
def processTcp (c : TcpConversation) (src : Bytes) (tcp : TcpLayer) : TcpConversation :=
  if tcp.hasRst then { c with capTcpState := .closed }
  else
    match c.capTcpState with
    | .closed => c.closeProcessCapturePacket src tcp
    | .synSent => c.synSentProcessCapturePacket src tcp
    | .synReceived => c.synRecvProcessCapturePacket src tcp
    | .established => c.estProcessCapturePacket src tcp

def processCapturePacket (c : TcpConversation) (packet : TransportPacket) : TcpConversation :=
  match packet.transport with
  | .tcp tcp => c.processTcp packet.network.srcAddr tcp
  | .udp _ => c

/-- In an established connection the actions of a packet are added to the queue. -/
theorem exists_estProcess_eq (c : TcpConversation) (src : Bytes) (tcp : TcpLayer) :
    ∃ state actions, c.estProcessCapturePacket src tcp =
      { c with capTcpState := state, actionQueue := c.actionQueue ++ actions } := by
  unfold estProcessCapturePacket
  split
  · split
    · split
      · exact ⟨.closed, [⟨.send, tcp.data, []⟩, ⟨.close, [], []⟩], by
          simp [actionPush, PacketConversation.actionPush]⟩
      · exact ⟨_, [⟨.send, tcp.data, []⟩], rfl⟩
    · split
      · exact ⟨.closed, [⟨.recv, tcp.data, []⟩, ⟨.close, [], []⟩], by
          simp [actionPush, PacketConversation.actionPush]⟩
      · exact ⟨_, [⟨.recv, tcp.data, []⟩], rfl⟩
  · split
    · exact ⟨_, [⟨.close, [], []⟩], rfl⟩
    · exact ⟨_, [], by rw [List.append_nil]⟩

/-- A packet moves the state on and adds actions to the queue. -/
theorem exists_processTcp_eq (c : TcpConversation) (src : Bytes) (tcp : TcpLayer) :
    ∃ state socket actions, c.processTcp src tcp =
      { c with
        capTcpState := state
        socket := socket
        actionQueue := c.actionQueue ++ actions } := by
  unfold processTcp
  split
  · exact ⟨_, _, [], by rw [List.append_nil]⟩
  · split
    · unfold closeProcessCapturePacket
      split
      · exact ⟨_, _, [], by rw [List.append_nil]⟩
      · exact ⟨_, _, [], by rw [List.append_nil]⟩
    · unfold synSentProcessCapturePacket
      split
      · exact ⟨_, _, [], by rw [List.append_nil]⟩
      · exact ⟨_, _, [], by rw [List.append_nil]⟩
    · unfold synRecvProcessCapturePacket
      split
      · exact ⟨_, _, [{ type := .connect }], rfl⟩
      · exact ⟨_, _, [], by rw [List.append_nil]⟩
    · obtain ⟨state, actions, same⟩ := c.exists_estProcess_eq src tcp
      exact ⟨state, c.socket, actions, same⟩

theorem processCapturePacket_tcp {packet : TransportPacket} {tcp : TcpLayer}
    (transport : packet.transport = .tcp tcp) (c : TcpConversation) :
    c.processCapturePacket packet = c.processTcp packet.network.srcAddr tcp := by
  rw [processCapturePacket, transport]

theorem processCapturePacket_udp {packet : TransportPacket} {udp : UdpLayer}
    (transport : packet.transport = .udp udp) (c : TcpConversation) :
    c.processCapturePacket packet = c := by
  rw [processCapturePacket, transport]

end TcpConversation

/-! ## UDP -/

structure UdpConversation extends PacketConversation where
  deriving DecidableEq

namespace UdpConversation

def protName : Bytes := ascii "UDP"

def ofPacket (inet : Inet) (packet : TransportPacket) (server : Option TargetTestServer) :
    UdpConversation :=
  { PacketConversation.ofPacket inet packet server with }

def processCapturePacket (c : UdpConversation) (packet : TransportPacket) : UdpConversation :=
  match packet.transport with
  | .tcp _ => c
  | .udp udp =>
      let type :=
        if memcmp c.capSrcAddr packet.network.srcAddr c.addrFamily.addrSize = .ok 0 ∧
            c.capSrcPort = udp.srcPort then .send
        else .recv
      { c with toPacketConversation := c.toPacketConversation.actionPush ⟨type, udp.data, []⟩ }

theorem processCapturePacket_tcp {packet : TransportPacket} {tcp : TcpLayer}
    (transport : packet.transport = .tcp tcp) (c : UdpConversation) :
    c.processCapturePacket packet = c := by
  rw [processCapturePacket, transport]

end UdpConversation

end PacketReplay
