import PacketReplay.Capture.Packet

/-!
# Addresses in dotted decimal

What is relied on about the text of an IPv4 address, `ReadsIpV4`, and functions on
dotted decimal that keep it.
-/

namespace PacketReplay

open Lib

namespace Inet

/-- The text of an IPv4 address is one, and is read back as the address. -/
structure ReadsIpV4 (inet : Inet) : Prop where
  pton_ntop : ∀ addr : Bytes, addr.length = 4 →
    inet.pton .inet (inet.ntop .inet addr) = some addr
  getaddrinfo_ntop : ∀ addr : Bytes, addr.length = 4 →
    inet.getaddrinfo (inet.ntop .inet addr) = .ok .inet

end Inet

/-- The bytes of an address in decimal, with dots between them. -/
def dotted (addr : Bytes) : Bytes := [46].intercalate (addr.map fun b => toDecimal b.toNat)

/-- A numeral below 256 without leading zeros. -/
def IsOctet (text : Bytes) : Prop :=
  digitsValue 10 text < 256 ∧ toDecimal (digitsValue 10 text) = text

instance (text : Bytes) : Decidable (IsOctet text) := inferInstanceAs (Decidable (_ ∧ _))

/-- The address that a text in dotted decimal denotes. -/
def readDotted (text : Bytes) : Option Bytes :=
  let octets := text.splitOn 46
  if octets.length = 4 ∧ ∀ octet ∈ octets, IsOctet octet then
    some (octets.map fun octet => UInt8.ofNat (digitsValue 10 octet))
  else none

theorem readDotted_dotted {addr : Bytes} (four : addr.length = 4) :
    readDotted (dotted addr) = some addr := by
  have octets : (dotted addr).splitOn 46 = addr.map fun b => toDecimal b.toNat := by
    refine List.splitOn_intercalate _ ?_ ?_
    · intro octet mem
      obtain ⟨b, -, rfl⟩ := List.mem_map.mp mem
      exact not_mem_toDecimal (by decide)
    · intro empty
      rw [List.map_eq_nil_iff.mp empty] at four
      cases four
  have canonical : ∀ octet ∈ addr.map (fun b => toDecimal b.toNat), IsOctet octet := by
    intro octet mem
    obtain ⟨b, -, rfl⟩ := List.mem_map.mp mem
    rw [IsOctet, digitsValue_toDecimal]
    exact ⟨b.toNat_lt, rfl⟩
  rw [readDotted, octets, if_pos ⟨by rw [List.length_map, four], canonical⟩, List.map_map]
  have back : ((fun octet => UInt8.ofNat (digitsValue 10 octet)) ∘
      fun b : UInt8 => toDecimal b.toNat) = id := by
    funext b
    rw [Function.comp_apply, digitsValue_toDecimal, UInt8.ofNat_toNat, id_eq]
  rw [back, List.map_id]

/-- The address functions on dotted decimal, without IPv6. -/
def dottedInet : Inet where
  ntop
    | .inet, addr => dotted addr
    | .inet6, _ => []
  pton
    | .inet, text => readDotted text
    | .inet6, _ => none
  getaddrinfo text :=
    if (readDotted text).isSome then .ok .inet
    else .error (ascii "Name or service not known")

theorem dottedInet_readsIpV4 : dottedInet.ReadsIpV4 where
  pton_ntop _ four := readDotted_dotted four
  getaddrinfo_ntop addr four := by
    have known : (readDotted (dotted addr)).isSome := by rw [readDotted_dotted four]; rfl
    exact if_pos known

/-- A packet between two hosts of the network 10.0.0.0/24. -/
def between (src dest : UInt8) (transport : TransportLayer) : TransportPacket :=
  ⟨⟨.inet, [10, 0, 0, src], [10, 0, 0, dest], rfl, rfl⟩, transport⟩

/-- The packets that open a connection between two hosts. -/
def handshake (src dest : UInt8) (srcPort destPort : UInt16) : List TransportPacket :=
  [between src dest (.tcp ⟨srcPort, destPort, thSyn, []⟩),
    between dest src (.tcp ⟨destPort, srcPort, thSyn ||| thAck, []⟩),
    between src dest (.tcp ⟨srcPort, destPort, thAck, []⟩)]

end PacketReplay
