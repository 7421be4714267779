import PacketReplay.Capture.Store
import PacketReplay.Lib.Checked

/-!
# Frames

`Capture::packetHandler` on the bytes of a record: the headers are laid over the frame
one behind the other, each at the position that the one before it gives, and every
field is read with its bounds checked. What a conversation reads of a packet depends on
its kind and its state.
-/

namespace PacketReplay

open Lib

open Conversation (processCapturePacket)

def dltNull : Int := 0

def dltEn10mb : Int := 1

def afInet : UInt8 := 2

def etherTypeIp : Nat := 0x0800

def etherTypeIpV6 : Nat := 0x86DD

def ipProtoTcp : UInt8 := 6

def ipProtoUdp : UInt8 := 17

/-- A port as the host reads it. -/
def portD (frame : Bytes) (i : Nat) : UInt16 :=
  UInt16.ofNat ((byteD frame i).toNat + (byteD frame (i + 1)).toNat * 256)

def portAt (frame : Bytes) (i : Nat) : Outcome UInt16 :=
  within (i + 2 ≤ frame.length) (portD frame i)

/-! ## The network layer -/

/-- `IpLayer` and `IpV6Layer`: the header lies at `packet` in the frame. -/
structure Layer3 : Type where
  family : AddrFamily
  packet : Nat
  deriving DecidableEq, Repr

namespace Layer3

variable (frame : Bytes) (l : Layer3)

def getNextProtocol : Outcome UInt8 :=
  match l.family with
  | .inet => byteAt frame (l.packet + 9)
  | .inet6 => byteAt frame (l.packet + 6)

/-- `ip_hl * 4`. -/
def headerLength : Outcome Nat := do
  let first ← byteAt frame l.packet
  return first.toNat % 16 * 4

/-- Where the data lies in the frame. -/
def getData : Outcome Nat :=
  match l.family with
  | .inet => do
      let headerLength ← l.headerLength frame
      return l.packet + headerLength
  | .inet6 => .ok (l.packet + 40)

def getDataSize : Outcome Int :=
  match l.family with
  | .inet => do
      let length ← wordAt frame (l.packet + 2)
      let headerLength ← l.headerLength frame
      return length - headerLength
  | .inet6 => do
      let length ← wordAt frame (l.packet + 4)
      return length

def getSrcAddr : Outcome { addr : Bytes // addr.length = l.family.addrSize } :=
  match l.family with
  | .inet => blockAt frame (l.packet + 12) 4
  | .inet6 => blockAt frame (l.packet + 8) 16

def getDestAddr : Outcome { addr : Bytes // addr.length = l.family.addrSize } :=
  match l.family with
  | .inet => blockAt frame (l.packet + 16) 4
  | .inet6 => blockAt frame (l.packet + 24) 16

end Layer3

/-- The network layer of a frame, if the datalink type and the link layer give one. -/
def networkLayer (datalinkType : Int) (frame : Bytes) : Outcome (Option Layer3) :=
  if datalinkType = dltNull then do
    let first ← byteAt frame 0
    if first = afInet then return some ⟨.inet, 4⟩
    else
      let fourth ← byteAt frame 3
      if fourth = afInet then return some ⟨.inet, 4⟩ else return none
  else if datalinkType = dltEn10mb then do
    let etherType ← wordAt frame 12
    if etherType = etherTypeIp then return some ⟨.inet, 14⟩
    else if etherType = etherTypeIpV6 then return some ⟨.inet6, 14⟩
    else return none
  else .ok none

/-! ## The transport layer -/

inductive Protocol : Type
  | tcp
  | udp
  deriving DecidableEq, Repr

/-- `TcpLayer` and `UdpLayer`: the header lies at `packet` in the frame. -/
structure Layer4 : Type where
  protocol : Protocol
  packet : Nat
  packetSize : Int
  deriving DecidableEq, Repr

/-- The transport layer behind a network layer, if it is TCP or UDP. -/
def transportLayer (frame : Bytes) (l : Layer3) : Outcome (Option Layer4) := do
  let nextProtocol ← l.getNextProtocol frame
  if nextProtocol = ipProtoTcp then
    let data ← l.getData frame
    let dataSize ← l.getDataSize frame
    return some ⟨.tcp, data, dataSize⟩
  else if nextProtocol = ipProtoUdp then
    let data ← l.getData frame
    let dataSize ← l.getDataSize frame
    return some ⟨.udp, data, dataSize⟩
  else return none

namespace Layer4

variable (frame : Bytes) (l : Layer4)

/-- `th_off * 4`. -/
def tcpHeaderLength : Outcome Nat := do
  let offset ← byteAt frame (l.packet + 12)
  return offset.toNat / 16 * 4

def tcpFlags : Outcome UInt8 := byteAt frame (l.packet + 13)

def tcpDataSize : Outcome Int := do
  let headerLength ← l.tcpHeaderLength frame
  return l.packetSize - headerLength

def tcpData : Outcome Nat := do
  let headerLength ← l.tcpHeaderLength frame
  return l.packet + headerLength

def udpDataSize : Outcome Int := do
  let length ← wordAt frame (l.packet + 4)
  return length - 8

/-- A transport layer without what stands behind the ports. -/
def ofPorts (protocol : Protocol) (srcPort destPort : UInt16) : TransportLayer :=
  match protocol with
  | .tcp => .tcp { srcPort := srcPort, destPort := destPort, flags := 0 }
  | .udp => .udp { srcPort := srcPort, destPort := destPort }

end Layer4

/-- The addresses and the ports, which the factory reads of every packet. -/
def readHeader (frame : Bytes) (l3 : Layer3) (l4 : Layer4) : Outcome TransportPacket := do
  let src ← l3.getSrcAddr frame
  let dest ← l3.getDestAddr frame
  let srcPort ← portAt frame l4.packet
  let destPort ← portAt frame (l4.packet + 2)
  return ⟨⟨l3.family, src.1, dest.1, src.2, dest.2⟩, Layer4.ofPorts l4.protocol srcPort destPort⟩

/-! ## What a conversation reads -/

/-- What a kind of conversation reads of a packet whose header has been read. -/
class FrameReader (T : Type) : Type where
  readPacket : T → Bytes → Layer4 → TransportPacket → Outcome TransportPacket

/-- The data of a TCP packet for an established conversation. -/
def readTcpData (frame : Bytes) (l : Layer4) : Outcome Bytes := do
  let dataSize ← l.tcpDataSize frame
  if dataSize = 0 then return []
  else
    let data ← l.tcpData frame
    rangeAt frame data dataSize

/-- What a TCP conversation reads behind the flags: the data if it is established, and
the data size if it waits for a connection and the packet does not open one. -/
def TcpConversation.readTcp (c : TcpConversation) (frame : Bytes) (l : Layer4) (src : Bytes)
    (tcp : TcpLayer) : Outcome TcpLayer :=
  if tcp.hasRst then .ok tcp
  else
    match c.capTcpState with
    | .established => do
        let data ← readTcpData frame l
        return { tcp with data := data }
    | .closed =>
        if c.sameAddr src c.capSrcAddr ∧ tcp.flags = thSyn then .ok tcp
        else do
          let _ ← l.tcpDataSize frame
          return tcp
    | _ => .ok tcp

def TcpConversation.readPacket (c : TcpConversation) (frame : Bytes) (l : Layer4)
    (packet : TransportPacket) : Outcome TransportPacket :=
  match packet.transport with
  | .udp _ => .ok packet
  | .tcp tcp => do
      let flags ← l.tcpFlags frame
      let tcp ← c.readTcp frame l packet.network.srcAddr { tcp with flags := flags }
      return { packet with transport := .tcp tcp }

instance : FrameReader TcpConversation := ⟨TcpConversation.readPacket⟩

/-- A UDP conversation reads the data of every UDP packet. -/
def UdpConversation.readPacket (_c : UdpConversation) (frame : Bytes) (l : Layer4)
    (packet : TransportPacket) : Outcome TransportPacket :=
  match packet.transport with
  | .tcp _ => .ok packet
  | .udp udp => do
      let dataSize ← l.udpDataSize frame
      let data ← rangeAt frame (l.packet + 8) dataSize
      return { packet with transport := .udp { udp with data := data } }

instance : FrameReader UdpConversation := ⟨UdpConversation.readPacket⟩

namespace Capture

variable {T : Type} [Conversation T] [FrameReader T]

open TypedConversationStore (getConversation)

/-- What becomes of a packet behind the parsing of its layers. -/
def dispatch (factory : ConversationFactory T) (store : TypedConversationStore T) (frame : Bytes)
    (l4 : Layer4) (header : TransportPacket) : Outcome (TypedConversationStore T) :=
  match getConversation factory store header with
  | (none, store) => .ok store
  | (some conversation, store) => do
      let packet ← FrameReader.readPacket conversation frame l4 header
      return { store with
        conversations := store.conversations.insert (factory.getKey header)
          (processCapturePacket conversation packet) }

/-- `packetHandler` on a record of `len` bytes of which those of `frame` were
captured. -/
def packetHandler (factory : ConversationFactory T) (datalinkType : Int)
    (store : TypedConversationStore T) (len : Nat) (frame : Bytes) :
    Outcome (TypedConversationStore T) :=
  if frame.length ≠ len then
    .error (.thrown (.runtimeError
      (ascii "packet not fully captured.  increase snap length on capture")))
  else do
    match ← networkLayer datalinkType frame with
    | none => return store
    | some l3 =>
        match ← transportLayer frame l3 with
        | none => return store
        | some l4 =>
            let header ← readHeader frame l3 l4
            dispatch factory store frame l4 header

end Capture

end PacketReplay
