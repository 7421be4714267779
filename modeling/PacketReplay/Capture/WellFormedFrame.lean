import PacketReplay.Capture.FrameBounds

/-!
# Well-formed frames

A frame built of its headers, with options of any size and any bytes behind the datagram.
`extracts_encode` says that the layers give back the addresses, the ports and the payload,
`recorded_exactly` that moreover the frame is recorded as the packet of these, whatever the
options and the bytes behind are.
-/

namespace PacketReplay

open Lib

/-- The options of a header, in words of four bytes. -/
structure HeaderOptions : Type where
  bytes : Bytes
  words : Nat
  length : bytes.length = words * 4
  few : words ≤ 10

/-- The link layer: both hardware addresses and the ether type, or the protocol family in
the byte order of either host. -/
inductive LinkHeader : Type
  | ethernet (addrs : Bytes) (addrs_length : addrs.length = 12)
  | null (bigEndian : Bool)

namespace LinkHeader

def datalinkType : LinkHeader → Int
  | ethernet _ _ => dltEn10mb
  | null _ => dltNull

/-- An `unsigned char` holds it. -/
theorem datalinkType_emod (link : LinkHeader) : link.datalinkType % 256 = link.datalinkType := by
  cases link <;> rfl

def length : LinkHeader → Nat
  | ethernet _ _ => 14
  | null _ => 4

def encode (family : AddrFamily) : LinkHeader → Bytes
  | ethernet addrs _ =>
      addrs ++ wordBytes (match family with | .inet => etherTypeIp | .inet6 => etherTypeIpV6)
  | null bigEndian => if bigEndian then [0, 0, 0, afInet] else [afInet, 0, 0, 0]

/-- A family that the link layer carries. -/
def Carries : LinkHeader → AddrFamily → Prop
  | ethernet _ _, _ => True
  | null _, family => family = .inet

end LinkHeader

/-- The fields of a network header besides lengths, protocol and addresses. -/
inductive IpHeader : Type
  | v4 (service : UInt8) (ident checksum : Bytes) (options : HeaderOptions)
      (ident_length : ident.length = 5) (checksum_length : checksum.length = 2)
  | v6 (flow : Bytes) (hopLimit : UInt8) (flow_length : flow.length = 4)

namespace IpHeader

def family : IpHeader → AddrFamily
  | v4 .. => .inet
  | v6 .. => .inet6

def length : IpHeader → Nat
  | v4 _ _ _ options _ _ => 20 + options.words * 4
  | v6 .. => 40

/-- The length field for data of `n` bytes. -/
def lengthField (n : Nat) : IpHeader → Nat
  | v4 _ _ _ options _ _ => 20 + options.words * 4 + n
  | v6 .. => n

/-- The header in front of `n` bytes of data. -/
def encode (protocol : UInt8) (src dest : Bytes) (n : Nat) : IpHeader → Bytes
  | v4 service ident checksum options _ _ =>
      [UInt8.ofNat (4 * 16 + (5 + options.words))] ++ ([service] ++
        (wordBytes (20 + options.words * 4 + n) ++ (ident ++ ([protocol] ++
          (checksum ++ (src ++ (dest ++ options.bytes)))))))
  | v6 flow hopLimit _ =>
      flow ++ (wordBytes n ++ ([protocol] ++ ([hopLimit] ++ (src ++ dest))))

end IpHeader

/-- The fields of a transport header besides ports and lengths. `sequence` stands for the
sequence and acknowledgement numbers, `window` for the window, the checksum and the urgent
pointer. -/
inductive TransportHeader : Type
  | tcp (sequence : Bytes) (reserved : Nat) (flags : UInt8) (window : Bytes)
      (options : HeaderOptions) (sequence_length : sequence.length = 8)
      (reserved_lt : reserved < 16) (window_length : window.length = 6)
  | udp (checksum : Bytes) (checksum_length : checksum.length = 2)

namespace TransportHeader

def protocol : TransportHeader → Protocol
  | tcp .. => .tcp
  | udp .. => .udp

/-- The number of the protocol. -/
def ipProto : TransportHeader → UInt8
  | tcp .. => ipProtoTcp
  | udp .. => ipProtoUdp

def length : TransportHeader → Nat
  | tcp _ _ _ _ options _ _ _ => 20 + options.words * 4
  | udp .. => 8

/-- The header in front of `n` bytes of payload. -/
def encode (srcPort destPort : UInt16) (n : Nat) : TransportHeader → Bytes
  | tcp sequence reserved flags window options _ _ _ =>
      wordBytes srcPort.toNat ++ (wordBytes destPort.toNat ++ (sequence ++
        ([UInt8.ofNat ((5 + options.words) * 16 + reserved)] ++ ([flags] ++
          (window ++ options.bytes)))))
  | udp checksum _ =>
      wordBytes srcPort.toNat ++ (wordBytes destPort.toNat ++ (wordBytes (8 + n) ++ checksum))

/-- The layer that carries this payload. -/
def layer (srcPort destPort : UInt16) (data : Bytes) : TransportHeader → TransportLayer
  | tcp _ _ flags _ _ _ _ _ =>
      .tcp { srcPort := srcPort, destPort := destPort, flags := flags, data := data }
  | udp .. => .udp { srcPort := srcPort, destPort := destPort, data := data }

end TransportHeader

/-- A frame by its parts: headers, payload, and what was captured behind the datagram. -/
structure WellFormedFrame : Type where
  link : LinkHeader
  ip : IpHeader
  srcAddr : Bytes
  destAddr : Bytes
  transport : TransportHeader
  srcPort : UInt16
  destPort : UInt16
  payload : Bytes
  trailing : Bytes
  carried : link.Carries ip.family
  srcAddr_length : srcAddr.length = ip.family.addrSize
  destAddr_length : destAddr.length = ip.family.addrSize
  fits : ip.lengthField (transport.length + payload.length) < 2 ^ 16

theorem ntohs_eq (port : UInt16) :
    UInt16.ofNat (port.toNat / 256 + port.toNat % 256 * 256) = ntohs port := by
  have bound := port.toNat_lt
  have high : port.toNat / 256 < 2 ^ 8 := by omega
  apply UInt16.toNat_inj.mp
  have low : port.toNat * 256 % 65536 = port.toNat % 256 * 2 ^ 8 := by omega
  have parts := Nat.shiftLeft_add_eq_or_of_lt high (port.toNat % 256)
  rw [Nat.shiftLeft_eq] at parts
  rw [ntohs, swapBytes, UInt16.toNat_or, UInt16.toNat_shiftLeft, UInt16.toNat_shiftRight,
    UInt16.toNat_ofNat', Nat.shiftLeft_eq, Nat.shiftRight_eq_div_pow]
  change _ = port.toNat * 256 % 65536 ||| port.toNat / 256
  rw [low, ← parts]
  omega

theorem portAt_of_occursAt {frame : Bytes} {i : Nat} {port : UInt16} (inside : i + 2 ≤ frame.length)
    (lies : OccursAt (wordBytes port.toNat) frame i) : portAt frame i = .ok (ntohs port) := by
  have fields := occursAt_append (u := [UInt8.ofNat (port.toNat / 256)]).mp lies
  have bound := port.toNat_lt
  rw [portAt, within_of inside, portD, byteD_of_occursAt fields.1, ← ntohs_eq]
  have low := byteD_of_occursAt fields.2
  rw [List.length_singleton] at low
  rw [low, UInt8.toNat_ofNat', UInt8.toNat_ofNat']
  congr 2
  omega

namespace Layer3

variable {frame addr : Bytes} {l : Layer3}

/-- Where the source address lies. -/
def srcAt (l : Layer3) : Nat :=
  match l.family with
  | .inet => l.packet + 12
  | .inet6 => l.packet + 8

/-- Where the destination address lies. -/
def destAt (l : Layer3) : Nat :=
  match l.family with
  | .inet => l.packet + 16
  | .inet6 => l.packet + 24

theorem getSrcAddr_of_occursAt (length : addr.length = l.family.addrSize)
    (inside : l.addrEnd ≤ frame.length) (lies : OccursAt addr frame l.srcAt) :
    l.getSrcAddr frame = .ok ⟨addr, length⟩ := by
  rcases l with ⟨family, packet⟩
  cases family with
  | inet =>
      have bounds : packet + 12 + 4 ≤ frame.length := le_trans (by simp [addrEnd]) inside
      exact (within_of bounds _).trans (congrArg _ (blockD_of_occursAt length lies))
  | inet6 =>
      have bounds : packet + 8 + 16 ≤ frame.length := le_trans (by simp [addrEnd]) inside
      exact (within_of bounds _).trans (congrArg _ (blockD_of_occursAt length lies))

theorem getDestAddr_of_occursAt (length : addr.length = l.family.addrSize)
    (inside : l.addrEnd ≤ frame.length) (lies : OccursAt addr frame l.destAt) :
    l.getDestAddr frame = .ok ⟨addr, length⟩ := by
  rcases l with ⟨family, packet⟩
  cases family with
  | inet => exact (within_of inside _).trans (congrArg _ (blockD_of_occursAt length lies))
  | inet6 => exact (within_of inside _).trans (congrArg _ (blockD_of_occursAt length lies))

end Layer3

namespace Layer4

variable (frame : Bytes) (l : Layer4)

def getSrcPort : Outcome UInt16 := portAt frame l.packet

def getDestPort : Outcome UInt16 := portAt frame (l.packet + 2)

/-- Where the data lies in the frame. -/
def getData : Outcome Nat :=
  match l.protocol with
  | .tcp => l.tcpData frame
  | .udp => .ok (l.packet + 8)

def getDataSize : Outcome Int :=
  match l.protocol with
  | .tcp => l.tcpDataSize frame
  | .udp => l.udpDataSize frame

end Layer4

namespace WellFormedFrame

variable (f : WellFormedFrame)

/-- The data of the network layer. -/
def segment : Bytes := f.transport.encode f.srcPort f.destPort f.payload.length ++ f.payload

def encode : Bytes :=
  f.link.encode f.ip.family ++ (f.ip.encode f.transport.ipProto f.srcAddr f.destAddr
    (f.transport.length + f.payload.length) ++ (f.segment ++ f.trailing))

/-- The packet that the frame carries, its ports as the host reads them. -/
def packet : TransportPacket where
  network := ⟨f.ip.family, f.srcAddr, f.destAddr, f.srcAddr_length, f.destAddr_length⟩
  transport := f.transport.layer (ntohs f.srcPort) (ntohs f.destPort) f.payload

/-- The network layer of the frame. -/
def layer3 : Layer3 := ⟨f.ip.family, f.link.length⟩

/-- Its transport layer. -/
def layer4 : Layer4 where
  protocol := f.transport.protocol
  packet := f.link.length + f.ip.length
  packetSize := f.transport.length + f.payload.length

/-! ## Where the fields lie -/

theorem length_link : (f.link.encode f.ip.family).length = f.link.length := by
  cases f.link with
  | ethernet addrs addrs_length =>
      simp only [LinkHeader.encode, LinkHeader.length, List.length_append, length_wordBytes,
        addrs_length]
  | null bigEndian => cases bigEndian <;> rfl

theorem length_ip (protocol : UInt8) (n : Nat) :
    (f.ip.encode protocol f.srcAddr f.destAddr n).length = f.ip.length := by
  have src := f.srcAddr_length
  have dest := f.destAddr_length
  cases ip : f.ip with
  | v4 service ident checksum options ident_length checksum_length =>
      rw [ip] at src dest
      simp only [IpHeader.encode, IpHeader.length, List.length_append, List.length_singleton,
        length_wordBytes, ident_length, checksum_length, src, dest, options.length,
        IpHeader.family, AddrFamily.addrSize]
      omega
  | v6 flow hopLimit flow_length =>
      rw [ip] at src dest
      simp only [IpHeader.encode, IpHeader.length, List.length_append, List.length_singleton,
        length_wordBytes, flow_length, src, dest, IpHeader.family, AddrFamily.addrSize]

theorem length_transport (n : Nat) :
    (f.transport.encode f.srcPort f.destPort n).length = f.transport.length := by
  cases f.transport with
  | tcp sequence reserved flags window options sequence_length reserved_lt window_length =>
      simp only [TransportHeader.encode, TransportHeader.length, List.length_append,
        List.length_singleton, length_wordBytes, sequence_length, window_length, options.length]
      omega
  | udp checksum checksum_length =>
      simp only [TransportHeader.encode, TransportHeader.length, List.length_append,
        length_wordBytes, checksum_length]

theorem length_segment : f.segment.length = f.transport.length + f.payload.length := by
  rw [segment, List.length_append, length_transport]

theorem length_encode :
    f.encode.length = f.link.length + (f.ip.length + (f.segment.length + f.trailing.length)) := by
  rw [encode, List.length_append, List.length_append, List.length_append, length_link, length_ip]

theorem lies_link : OccursAt (f.link.encode f.ip.family) f.encode 0 := List.prefix_append _ _

theorem lies_ip :
    OccursAt (f.ip.encode f.transport.ipProto f.srcAddr f.destAddr
      (f.transport.length + f.payload.length)) f.encode f.link.length := by
  rw [OccursAt, encode, ← length_link, List.drop_left]
  exact List.prefix_append _ _

theorem lies_segment : OccursAt f.segment f.encode (f.link.length + f.ip.length) := by
  rw [OccursAt, encode, ← List.drop_drop, ← length_link, List.drop_left,
    ← f.length_ip f.transport.ipProto (f.transport.length + f.payload.length), List.drop_left]
  exact List.prefix_append _ _

theorem lies_transport :
    OccursAt (f.transport.encode f.srcPort f.destPort f.payload.length) f.encode
        (f.link.length + f.ip.length) ∧
      OccursAt f.payload f.encode (f.link.length + f.ip.length + f.transport.length) := by
  have lies := occursAt_append.mp f.lies_segment
  rw [length_transport] at lies
  exact lies

/-! ## The link and network layers -/

theorem networkLayer_encode : networkLayer f.link.datalinkType f.encode = .ok (some f.layer3) := by
  have lies := f.lies_link
  have length := f.length_encode
  have carried := f.carried
  rw [networkLayer_eq, layer3]
  cases link : f.link with
  | ethernet addrs addrs_length =>
      rw [link] at lies length
      have ether := (occursAt_append.mp lies).2
      rw [addrs_length, Nat.zero_add] at ether
      have inside : LinkInside dltEn10mb f.encode := by
        have fourteen : 14 ≤ f.encode.length := by
          rw [length]
          exact Nat.le_add_right _ _
        exact fourteen
      rw [LinkHeader.datalinkType, within_of inside, networkD]
      cases family : f.ip.family with
      | inet =>
          rw [family] at ether
          rw [if_neg (by decide), if_pos rfl, wordD_of_occursAt (by decide) ether, if_pos rfl]
          rfl
      | inet6 =>
          rw [family] at ether
          rw [if_neg (by decide), if_pos rfl, wordD_of_occursAt (by decide) ether,
            if_neg (by decide), if_pos rfl]
          rfl
  | null bigEndian =>
      rw [link] at lies length carried
      have four : 4 ≤ f.encode.length := by
        rw [length]
        exact Nat.le_add_right _ _
      have inside : LinkInside dltNull f.encode := Or.inr four
      have family : byteD f.encode 0 = afInet ∨ byteD f.encode 3 = afInet := by
        cases bigEndian with
        | true =>
            have fields := occursAt_append (u := [0, 0, 0]) (v := [afInet]).mp lies
            exact Or.inr (byteD_of_occursAt fields.2)
        | false =>
            have fields := occursAt_append (u := [afInet]) (v := [0, 0, 0]).mp lies
            exact Or.inl (byteD_of_occursAt fields.1)
      rw [LinkHeader.datalinkType, within_of inside, networkD, if_pos rfl, if_pos family,
        show f.ip.family = .inet from carried]
      rfl

/-- The fields of the network header that are read. -/
structure ReadsNetwork : Prop where
  protocolEnd : f.layer3.protocolEnd ≤ f.encode.length
  addrEnd : f.layer3.addrEnd ≤ f.encode.length
  protocol : f.layer3.nextProtocolD f.encode = f.transport.ipProto
  data : f.layer3.dataD f.encode = f.link.length + f.ip.length
  dataEnd : f.layer3.dataEndD f.encode =
    f.link.length + f.ip.length + (f.transport.length + f.payload.length)
  srcAddr : OccursAt f.srcAddr f.encode f.layer3.srcAt
  destAddr : OccursAt f.destAddr f.encode f.layer3.destAt

theorem readsNetwork : f.ReadsNetwork := by
  have lies := f.lies_ip
  have length := f.length_encode
  have src := f.srcAddr_length
  have dest := f.destAddr_length
  have fits := f.fits
  cases ip : f.ip with
  | v4 service ident checksum options ident_length checksum_length =>
      rw [ip] at lies length src dest fits
      simp only [IpHeader.encode, occursAt_append, List.length_singleton, length_wordBytes,
        ident_length, checksum_length, src, dest, IpHeader.family, AddrFamily.addrSize] at lies
      rcases lies with ⟨first, -, total, -, protocol, -, srcAt, destAt, -⟩
      simp only [IpHeader.length] at length
      simp only [IpHeader.lengthField] at fits
      have few := options.few
      have firstByte := byteD_of_occursAt first
      constructor
      all_goals simp only [layer3, ip, IpHeader.family, IpHeader.length]
      · simp only [Layer3.protocolEnd]
        omega
      · simp only [Layer3.addrEnd]
        omega
      · exact byteD_of_occursAt protocol
      · simp only [Layer3.dataD, firstByte, UInt8.toNat_ofNat']
        omega
      · simp only [Layer3.dataEndD]
        rw [wordD_of_occursAt fits total]
        omega
      · exact srcAt
      · exact destAt
  | v6 flow hopLimit flow_length =>
      rw [ip] at lies length src dest fits
      simp only [IpHeader.encode, occursAt_append, List.length_singleton, length_wordBytes,
        flow_length, src, IpHeader.family, AddrFamily.addrSize] at lies
      rcases lies with ⟨-, total, protocol, -, srcAt, destAt⟩
      simp only [IpHeader.length] at length
      simp only [IpHeader.lengthField] at fits
      constructor
      all_goals simp only [layer3, ip, IpHeader.family, IpHeader.length]
      · simp only [Layer3.protocolEnd]
        omega
      · simp only [Layer3.addrEnd]
        omega
      · exact byteD_of_occursAt protocol
      · rfl
      · simp only [Layer3.dataEndD]
        rw [wordD_of_occursAt fits total]
      · exact srcAt
      · exact destAt

/-! ## The transport layer -/

theorem transportLayer_encode : transportLayer f.encode f.layer3 = .ok (some f.layer4) := by
  have reads := f.readsNetwork
  have size :
      ((f.link.length + f.ip.length + (f.transport.length + f.payload.length) : Nat) : Int) -
      (f.link.length + f.ip.length : Nat) = f.transport.length + f.payload.length := by omega
  rw [transportLayer_eq, within_of reads.protocolEnd, transportD, reads.protocol, reads.data,
    reads.dataEnd, size, layer4]
  cases f.transport with
  | tcp => rfl
  | udp => rfl

theorem length_le_encode :
    f.layer4.packet + f.transport.length + f.payload.length ≤ f.encode.length := by
  have packet : f.layer4.packet = f.link.length + f.ip.length := rfl
  rw [length_encode, length_segment]
  omega

theorem lies_ports :
    OccursAt (wordBytes f.srcPort.toNat) f.encode f.layer4.packet ∧
      OccursAt (wordBytes f.destPort.toNat) f.encode (f.layer4.packet + 2) := by
  have lies := f.lies_transport.1
  cases transport : f.transport with
  | tcp =>
      rw [transport, TransportHeader.encode, occursAt_append, occursAt_append] at lies
      exact ⟨lies.1, lies.2.1⟩
  | udp =>
      rw [transport, TransportHeader.encode, occursAt_append, occursAt_append] at lies
      exact ⟨lies.1, lies.2.1⟩

/-- The packet before its data is read. -/
def header : TransportPacket where
  network := f.packet.network
  transport := Layer4.ofPorts f.transport.protocol (ntohs f.srcPort) (ntohs f.destPort)

theorem eight_le_length : 8 ≤ f.transport.length := by
  cases f.transport with
  | tcp =>
      rw [TransportHeader.length]
      omega
  | udp => exact Nat.le_refl 8

theorem readHeader_encode : readHeader f.encode f.layer3 f.layer4 = .ok f.header := by
  have reads := f.readsNetwork
  have inside := f.length_le_encode
  have eight := f.eight_le_length
  have src := Layer3.getSrcAddr_of_occursAt f.srcAddr_length reads.addrEnd reads.srcAddr
  have dest := Layer3.getDestAddr_of_occursAt f.destAddr_length reads.addrEnd reads.destAddr
  have srcPort := portAt_of_occursAt (by omega) f.lies_ports.1
  have destPort := portAt_of_occursAt (by omega) f.lies_ports.2
  rw [readHeader, src, dest, srcPort, destPort]
  rfl

/-! ## The payload -/

/-- The offset and the flags of a TCP header. -/
theorem reads_tcp (tcp : f.transport.protocol = .tcp) :
    f.layer4.tcpHeaderLength f.encode = .ok f.transport.length ∧
      ∃ flags, f.layer4.tcpFlags f.encode = .ok flags ∧
        f.packet.transport = .tcp {
          srcPort := ntohs f.srcPort, destPort := ntohs f.destPort, flags := flags,
          data := f.payload } := by
  have lies := f.lies_transport.1
  have inside := f.length_le_encode
  cases transport : f.transport with
  | udp =>
      rw [transport] at tcp
      cases tcp
  | tcp sequence reserved flags window options sequence_length reserved_lt window_length =>
      rw [transport] at lies inside
      simp only [TransportHeader.encode, occursAt_append, List.length_singleton, length_wordBytes,
        sequence_length] at lies
      rcases lies with ⟨-, -, -, offset, flagsAt, -⟩
      simp only [TransportHeader.length] at inside
      have few := options.few
      have offsetInside : f.layer4.packet + 12 < f.encode.length := by omega
      have flagsInside : f.layer4.packet + 13 < f.encode.length := by omega
      have offsetByte : byteD f.encode (f.layer4.packet + 12) =
          UInt8.ofNat ((5 + options.words) * 16 + reserved) := byteD_of_occursAt offset
      constructor
      · rw [Layer4.tcpHeaderLength, byteAt, within_bind_of offsetInside, offsetByte,
          UInt8.toNat_ofNat', TransportHeader.length]
        refine congrArg Except.ok ?_
        omega
      · refine ⟨flags, ?_, ?_⟩
        · rw [Layer4.tcpFlags, byteAt, within_of flagsInside]
          exact congrArg Except.ok (byteD_of_occursAt flagsAt)
        · simp only [packet, transport, TransportHeader.layer]

/-- The length of a UDP header. -/
theorem reads_udp (udp : f.transport.protocol = .udp) :
    f.layer4.udpDataSize f.encode = .ok (f.payload.length : Int) ∧ f.transport.length = 8 ∧
      f.packet.transport = .udp {
        srcPort := ntohs f.srcPort, destPort := ntohs f.destPort, data := f.payload } := by
  have lies := f.lies_transport.1
  have inside := f.length_le_encode
  have fits := f.fits
  cases transport : f.transport with
  | tcp =>
      rw [transport] at udp
      cases udp
  | udp checksum checksum_length =>
      rw [transport] at lies inside fits
      simp only [TransportHeader.encode, occursAt_append, length_wordBytes] at lies
      rcases lies with ⟨-, -, length, -⟩
      simp only [TransportHeader.length] at inside fits
      have small : 8 + f.payload.length < 2 ^ 16 := by
        cases ip : f.ip with
        | v4 =>
            rw [ip, IpHeader.lengthField] at fits
            omega
        | v6 =>
            rw [ip, IpHeader.lengthField] at fits
            exact fits
      have lengthInside : f.layer4.packet + 4 + 2 ≤ f.encode.length := by omega
      have word : wordD f.encode (f.layer4.packet + 4) = 8 + f.payload.length :=
        wordD_of_occursAt small length
      refine ⟨?_, rfl, ?_⟩
      · rw [Layer4.udpDataSize, wordAt, within_bind_of lengthInside, word]
        refine congrArg Except.ok ?_
        omega
      · simp only [packet, transport, TransportHeader.layer]

theorem tcpDataSize_encode (tcp : f.transport.protocol = .tcp) :
    f.layer4.tcpDataSize f.encode = .ok (f.payload.length : Int) := by
  have whole : f.layer4.packetSize = f.transport.length + f.payload.length := rfl
  have size : f.layer4.packetSize - (f.transport.length : Int) = f.payload.length := by omega
  rw [Layer4.tcpDataSize, (f.reads_tcp tcp).1]
  exact congrArg Except.ok size

theorem rangeAt_encode :
    rangeAt f.encode (f.layer4.packet + f.transport.length) f.payload.length = .ok f.payload :=
  rangeAt_of_occursAt f.length_le_encode f.lies_transport.2

theorem readTcpData_encode (tcp : f.transport.protocol = .tcp) :
    readTcpData f.encode f.layer4 = .ok f.payload := by
  have data : f.layer4.tcpData f.encode = .ok (f.layer4.packet + f.transport.length) := by
    rw [Layer4.tcpData, (f.reads_tcp tcp).1]
    rfl
  rw [readTcpData, f.tcpDataSize_encode tcp, data]
  change (if (f.payload.length : Int) = 0 then _ else _) = _
  split
  · next empty =>
      have nothing : f.payload = [] := List.length_eq_zero_iff.mp (by omega)
      rw [nothing]
      rfl
  · exact f.rangeAt_encode

/-- The layers give the addresses, the ports and the payload of the frame. -/
structure Extracts : Prop where
  network : networkLayer f.link.datalinkType f.encode = .ok (some f.layer3)
  srcAddr : f.layer3.getSrcAddr f.encode = .ok ⟨f.srcAddr, f.srcAddr_length⟩
  destAddr : f.layer3.getDestAddr f.encode = .ok ⟨f.destAddr, f.destAddr_length⟩
  transport : transportLayer f.encode f.layer3 = .ok (some f.layer4)
  srcPort : f.layer4.getSrcPort f.encode = .ok (ntohs f.srcPort)
  destPort : f.layer4.getDestPort f.encode = .ok (ntohs f.destPort)
  dataSize : f.layer4.getDataSize f.encode = .ok (f.payload.length : Int)
  data : ∃ start, f.layer4.getData f.encode = .ok start ∧
    rangeAt f.encode start f.payload.length = .ok f.payload

theorem extracts_encode : f.Extracts := by
  have reads := f.readsNetwork
  have inside := f.length_le_encode
  have eight := f.eight_le_length
  constructor
  · exact f.networkLayer_encode
  · exact Layer3.getSrcAddr_of_occursAt _ reads.addrEnd reads.srcAddr
  · exact Layer3.getDestAddr_of_occursAt _ reads.addrEnd reads.destAddr
  · exact f.transportLayer_encode
  · exact portAt_of_occursAt (by omega) f.lies_ports.1
  · exact portAt_of_occursAt (by omega) f.lies_ports.2
  · rw [Layer4.getDataSize, layer4]
    cases protocol : f.transport.protocol with
    | tcp => exact f.tcpDataSize_encode protocol
    | udp => exact (f.reads_udp protocol).1
  · refine ⟨f.layer4.packet + f.transport.length, ?_, f.rangeAt_encode⟩
    rw [Layer4.getData]
    cases protocol : f.transport.protocol with
    | tcp =>
        simp only [layer4, protocol]
        change f.layer4.tcpData f.encode = _
        rw [Layer4.tcpData, (f.reads_tcp protocol).1]
        rfl
    | udp =>
        simp only [layer4, protocol, (f.reads_udp protocol).2.1]

/-! ## What is recorded -/

/-- A connection that is not established, or that is reset, takes no data. -/
theorem processTcp_data {c : TcpConversation} (src : Bytes) (tcp : TcpLayer)
    (idle : tcp.hasRst = true ∨ c.capTcpState ≠ .established) (data : Bytes) :
    c.processTcp src { tcp with data := data } = c.processTcp src tcp := by
  rcases idle with reset | other
  · have resets : ({ tcp with data := data } : TcpLayer).hasRst = true := reset
    rw [TcpConversation.processTcp, TcpConversation.processTcp, if_pos reset, if_pos resets]
  · rw [TcpConversation.processTcp, TcpConversation.processTcp]
    cases state : c.capTcpState with
    | established => exact absurd state other
    | closed => rfl
    | synSent => rfl
    | synReceived => rfl

theorem exists_readTcp (c : TcpConversation) (src : Bytes) (tcp : TcpLayer)
    (protocol : f.transport.protocol = .tcp) :
    ∃ whole, c.readTcp f.encode f.layer4 src tcp = .ok whole ∧
      c.processTcp src whole = c.processTcp src { tcp with data := f.payload } := by
  rw [TcpConversation.readTcp]
  by_cases reset : tcp.hasRst = true
  · rw [if_pos reset]
    exact ⟨tcp, rfl, (processTcp_data src tcp (.inl reset) _).symm⟩
  · rw [if_neg reset]
    cases state : c.capTcpState with
    | established =>
        rw [f.readTcpData_encode protocol]
        exact ⟨_, rfl, rfl⟩
    | synSent => exact ⟨tcp, rfl, (processTcp_data src tcp (.inr (by rw [state]; decide)) _).symm⟩
    | synReceived =>
        exact ⟨tcp, rfl, (processTcp_data src tcp (.inr (by rw [state]; decide)) _).symm⟩
    | closed =>
        refine ⟨tcp, ?_, (processTcp_data src tcp (.inr (by rw [state]; decide)) _).symm⟩
        rw [f.tcpDataSize_encode protocol]
        dsimp only
        split
        · rfl
        · rfl

/-- What a TCP conversation reads of the frame it records as the packet. -/
theorem exists_readPacket_tcp (c : TcpConversation) :
    ∃ p, c.readPacket f.encode f.layer4 f.header = .ok p ∧
      c.processCapturePacket p = c.processCapturePacket f.packet := by
  cases protocol : f.transport.protocol with
  | udp =>
      have carried := (f.reads_udp protocol).2.2
      have udp : f.header.transport = .udp {
          srcPort := ntohs f.srcPort, destPort := ntohs f.destPort } := by
        rw [header, protocol]
        rfl
      refine ⟨f.header, by rw [TcpConversation.readPacket, udp], ?_⟩
      rw [TcpConversation.processCapturePacket_udp udp,
        TcpConversation.processCapturePacket_udp carried]
  | tcp =>
      rcases (f.reads_tcp protocol).2 with ⟨flags, read, carried⟩
      have tcp : f.header.transport = .tcp {
          srcPort := ntohs f.srcPort, destPort := ntohs f.destPort, flags := 0 } := by
        rw [header, protocol]
        rfl
      rcases f.exists_readTcp c f.header.network.srcAddr {
        srcPort := ntohs f.srcPort, destPort := ntohs f.destPort, flags := flags } protocol with
        ⟨whole, readTcp, recorded⟩
      refine ⟨{ f.header with transport := .tcp whole }, ?_, ?_⟩
      · rw [TcpConversation.readPacket, tcp]
        simp only [read, ok_bind, readTcp]
        rfl
      · rw [TcpConversation.processCapturePacket_tcp carried,
          TcpConversation.processCapturePacket_tcp rfl]
        exact recorded

/-- What a UDP conversation reads of the frame it records as the packet. -/
theorem exists_readPacket_udp (c : UdpConversation) :
    ∃ p, c.readPacket f.encode f.layer4 f.header = .ok p ∧
      c.processCapturePacket p = c.processCapturePacket f.packet := by
  cases protocol : f.transport.protocol with
  | tcp =>
      rcases (f.reads_tcp protocol).2 with ⟨flags, -, carried⟩
      have tcp : f.header.transport = .tcp {
          srcPort := ntohs f.srcPort, destPort := ntohs f.destPort, flags := 0 } := by
        rw [header, protocol]
        rfl
      refine ⟨f.header, by rw [UdpConversation.readPacket, tcp], ?_⟩
      rw [UdpConversation.processCapturePacket_tcp tcp,
        UdpConversation.processCapturePacket_tcp carried]
  | udp =>
      rcases f.reads_udp protocol with ⟨size, length, carried⟩
      have udp : f.header.transport = .udp {
          srcPort := ntohs f.srcPort, destPort := ntohs f.destPort } := by
        rw [header, protocol]
        rfl
      have range := f.rangeAt_encode
      rw [length] at range
      have whole : f.packet = { f.header with transport := .udp {
          srcPort := ntohs f.srcPort, destPort := ntohs f.destPort, data := f.payload } } := by
        rw [← carried]
        rfl
      refine ⟨f.packet, ?_, rfl⟩
      rw [UdpConversation.readPacket, udp, whole]
      simp only [size, ok_bind, range]
      rfl

/-- A frame is recorded as the packet it carries. -/
theorem packetHandler_eq {T : Type} [Conversation T] [FrameReader T]
    {factory : ConversationFactory T} (reads : Capture.ReadsHeader factory)
    (readPacket : ∀ c : T, ∃ p, FrameReader.readPacket c f.encode f.layer4 f.header = .ok p ∧
      Conversation.processCapturePacket c p = Conversation.processCapturePacket c f.packet)
    (store : TypedConversationStore T) :
    Capture.packetHandler factory f.link.datalinkType store f.encode.length f.encode =
      .ok (TypedConversationStore.packetHandler factory store f.packet) := by
  have same : Capture.SameHeader f.header f.packet := by
    constructor
    · rfl
    · rw [header, packet]
      cases f.transport <;> rfl
    · rw [header, packet]
      cases f.transport <;> rfl
  rw [Capture.packetHandler, if_neg (not_not.mpr rfl), f.networkLayer_encode]
  simp only [ok_bind, f.transportLayer_encode, f.readHeader_encode]
  rw [Capture.dispatch, TypedConversationStore.packetHandler, reads.getConversation same,
    reads.getKey same]
  rcases TypedConversationStore.getConversation factory store f.packet with ⟨found, left⟩
  cases found with
  | none => rfl
  | some c =>
      rcases readPacket c with ⟨p, read, recorded⟩
      simp only [read, ok_bind, recorded]
      rfl

/-- The layers of a well-formed frame give its addresses, its ports and its payload, and it
is recorded as the packet of these, whatever its options are and whatever stands behind
the datagram. -/
theorem recorded_exactly (inet : Inet) (tcpStore : TypedConversationStore TcpConversation)
    (udpStore : TypedConversationStore UdpConversation) :
    f.Extracts ∧
      Capture.packetHandler (tcpConversationFactory inet) f.link.datalinkType tcpStore
          f.encode.length f.encode =
        .ok (TypedConversationStore.packetHandler (tcpConversationFactory inet) tcpStore f.packet) ∧
      Capture.packetHandler (udpConversationFactory inet) f.link.datalinkType udpStore
          f.encode.length f.encode =
        .ok (TypedConversationStore.packetHandler (udpConversationFactory inet) udpStore
          f.packet) :=
  ⟨f.extracts_encode,
    f.packetHandler_eq (Capture.tcp_readsHeader inet) f.exists_readPacket_tcp tcpStore,
    f.packetHandler_eq (Capture.udp_readsHeader inet) f.exists_readPacket_udp udpStore⟩

end WellFormedFrame

end PacketReplay
