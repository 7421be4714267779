import PacketReplay.Lib.CLibrary

/-!
# Packets

A `TransportPacket` by what the accessors of its network and transport layers give.
Addresses are as long as their family says. Ports are the 16 bits of the header as
the host reads them, `htons` and `ntohs` swapping their bytes. What the C library
does with the text of an address is a parameter, `Inet`.
-/

namespace PacketReplay

open Lib

inductive AddrFamily : Type
  | inet
  | inet6
  deriving DecidableEq, Repr

namespace AddrFamily

def addrSize : AddrFamily → Nat
  | inet => 4
  | inet6 => 16

end AddrFamily

/-- The address functions of the C library. -/
structure Inet : Type where
  /-- `inet_ntop`, which does not fail on an address of the family. -/
  ntop : AddrFamily → Bytes → Bytes
  /-- `inet_pton`: the address, if the text is one of the family. -/
  pton : AddrFamily → Bytes → Option Bytes
  /-- `getaddrinfo` on a numeric host: the family, or what `gai_strerror` says. -/
  getaddrinfo : Bytes → Except Bytes AddrFamily

/-- `htons` and `ntohs` on a little-endian host. -/
def swapBytes (port : UInt16) : UInt16 := (port <<< 8) ||| (port >>> 8)

/-- `htons` of an `int`. -/
def htons (port : Int) : UInt16 := swapBytes (UInt16.ofInt port)

def ntohs (port : UInt16) : UInt16 := swapBytes port

theorem swapBytes_swapBytes (port : UInt16) : swapBytes (swapBytes port) = port := by
  have bits : ∀ b : BitVec 16,
      (b <<< 8 ||| b >>> 8) <<< 8 ||| (b <<< 8 ||| b >>> 8) >>> 8 = b := by
    intro b
    ext i below
    grind
  exact UInt16.toBitVec_inj.mp (bits port.toBitVec)

theorem ofInt_toNat (port : UInt16) : UInt16.ofInt port.toNat = port := by
  apply UInt16.toNat_inj.mp
  have bound := port.toNat_lt
  rw [UInt16.ofInt, UInt16.toNat_ofNat']
  omega

theorem htons_toNat (port : UInt16) : htons port.toNat = swapBytes port := by
  rw [htons, ofInt_toNat]

/-- `htons` takes a port number to the 16 bits that are read back as that number. -/
theorem htons_eq_iff {n : Nat} (small : n < 2 ^ 16) {port : UInt16} :
    htons n = port ↔ n = (ntohs port).toNat := by
  have number : (UInt16.ofInt n).toNat = n := by
    rw [UInt16.ofInt, UInt16.toNat_ofNat']
    omega
  rw [htons, ntohs]
  constructor
  · intro same
    subst same
    rw [swapBytes_swapBytes, number]
  · intro same
    rw [← swapBytes_swapBytes port]
    congr 1
    rw [← UInt16.toNat_inj, number, same]

/-! ## Layers -/

structure NetworkLayer : Type where
  family : AddrFamily
  srcAddr : Bytes
  destAddr : Bytes
  srcAddr_length : srcAddr.length = family.addrSize
  destAddr_length : destAddr.length = family.addrSize
  deriving DecidableEq

/-- The flags of a TCP header. -/
def thFin : UInt8 := 0x01

def thSyn : UInt8 := 0x02

def thRst : UInt8 := 0x04

def thAck : UInt8 := 0x10

structure TcpLayer : Type where
  srcPort : UInt16
  destPort : UInt16
  flags : UInt8
  data : Bytes := []
  deriving DecidableEq, Repr

namespace TcpLayer

def hasSyn (t : TcpLayer) : Bool := t.flags &&& thSyn ≠ 0

def hasAck (t : TcpLayer) : Bool := t.flags &&& thAck ≠ 0

def hasRst (t : TcpLayer) : Bool := t.flags &&& thRst ≠ 0

def hasFin (t : TcpLayer) : Bool := t.flags &&& thFin ≠ 0

end TcpLayer

structure UdpLayer : Type where
  srcPort : UInt16
  destPort : UInt16
  data : Bytes := []
  deriving DecidableEq, Repr

inductive TransportLayer : Type
  | tcp (t : TcpLayer)
  | udp (u : UdpLayer)
  deriving DecidableEq, Repr

namespace TransportLayer

def srcPort : TransportLayer → UInt16
  | tcp t => t.srcPort
  | udp u => u.srcPort

def destPort : TransportLayer → UInt16
  | tcp t => t.destPort
  | udp u => u.destPort

end TransportLayer

structure TransportPacket : Type where
  network : NetworkLayer
  transport : TransportLayer
  deriving DecidableEq

namespace TransportPacket

def isTcp (p : TransportPacket) : Bool :=
  match p.transport with
  | .tcp _ => true
  | .udp _ => false

def isUdp (p : TransportPacket) : Bool := !p.isTcp

/-- The address and the port a packet comes from. -/
def source (p : TransportPacket) : Bytes × UInt16 := (p.network.srcAddr, p.transport.srcPort)

end TransportPacket

end PacketReplay
