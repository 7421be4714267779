import PacketReplay.Capture.Address
import PacketReplay.Capture.Frame

/-!
# Bounds of a frame

No length is checked while a frame is taken apart: `defined_packetHandler_iff` says
which lengths have to fit, in the frame and in the fields of its headers, for the
record to be handled within the captured bytes. What is then recorded is what the
parsed packet records (`exists_packetHandler_eq`).
-/

namespace PacketReplay

open Lib

open Conversation (processCapturePacket)

/-! ## The headers without bounds -/

/-- The link layer is read within the frame. -/
def LinkInside (datalinkType : Int) (frame : Bytes) : Prop :=
  if datalinkType = dltNull then
    0 < frame.length ∧ byteD frame 0 = afInet ∨ 4 ≤ frame.length
  else if datalinkType = dltEn10mb then 14 ≤ frame.length
  else True

instance (datalinkType : Int) (frame : Bytes) : Decidable (LinkInside datalinkType frame) := by
  unfold LinkInside
  infer_instance

/-- The network layer that the bytes say. -/
def networkD (datalinkType : Int) (frame : Bytes) : Option Layer3 :=
  if datalinkType = dltNull then
    if byteD frame 0 = afInet ∨ byteD frame 3 = afInet then some ⟨.inet, 4⟩ else none
  else if datalinkType = dltEn10mb then
    if wordD frame 12 = etherTypeIp then some ⟨.inet, 14⟩
    else if wordD frame 12 = etherTypeIpV6 then some ⟨.inet6, 14⟩
    else none
  else none

theorem networkLayer_eq (datalinkType : Int) (frame : Bytes) :
    networkLayer datalinkType frame =
      within (LinkInside datalinkType frame) (networkD datalinkType frame) := by
  unfold networkLayer LinkInside networkD
  split
  · refine within_bind_of_imp (by omega) fun nonempty => ?_
    by_cases first : byteD frame 0 = afInet
    · rw [if_pos first, if_pos (Or.inl first), within_of (Or.inl ⟨nonempty, first⟩)]
      rfl
    · rw [if_neg first]
      refine within_bind_of_imp (fun inside => by tauto) fun inside => ?_
      have four : 4 ≤ frame.length := inside
      rw [within_of (Or.inr four)]
      by_cases fourth : byteD frame 3 = afInet
      · rw [if_pos fourth, if_pos (Or.inr fourth)]
        rfl
      · rw [if_neg fourth, if_neg (not_or.mpr ⟨first, fourth⟩)]
        rfl
  · split
    · refine within_bind_of_imp id fun inside => ?_
      rw [within_of inside]
      split
      · rfl
      · split <;> rfl
    · exact (within_of trivial _).symm

/-- The protocol that the network header names. -/
def Layer3.nextProtocolD (frame : Bytes) (l : Layer3) : UInt8 :=
  match l.family with
  | .inet => byteD frame (l.packet + 9)
  | .inet6 => byteD frame (l.packet + 6)

/-- How far the network header is read to find the protocol. -/
def Layer3.protocolEnd (l : Layer3) : Nat :=
  match l.family with
  | .inet => l.packet + 10
  | .inet6 => l.packet + 7

/-- How far the network header is read to find the addresses. -/
def Layer3.addrEnd (l : Layer3) : Nat :=
  match l.family with
  | .inet => l.packet + 20
  | .inet6 => l.packet + 40

/-- Where the network header says that its data begins. -/
def Layer3.dataD (frame : Bytes) (l : Layer3) : Nat :=
  match l.family with
  | .inet => l.packet + (byteD frame l.packet).toNat % 16 * 4
  | .inet6 => l.packet + 40

/-- Where the network header says that its data ends. -/
def Layer3.dataEndD (frame : Bytes) (l : Layer3) : Nat :=
  match l.family with
  | .inet => l.packet + wordD frame (l.packet + 2)
  | .inet6 => l.packet + 40 + wordD frame (l.packet + 4)

/-- The transport layer that the network header says. -/
def transportD (frame : Bytes) (l : Layer3) : Option Layer4 :=
  let size : Int := l.dataEndD frame - l.dataD frame
  if l.nextProtocolD frame = ipProtoTcp then some ⟨.tcp, l.dataD frame, size⟩
  else if l.nextProtocolD frame = ipProtoUdp then some ⟨.udp, l.dataD frame, size⟩
  else none

theorem getData_eq {frame : Bytes} {l : Layer3} (inside : l.protocolEnd ≤ frame.length) :
    l.getData frame = .ok (l.dataD frame) := by
  rcases l with ⟨family, packet⟩
  cases family with
  | inet =>
      have first : packet < frame.length := by
        simp only [Layer3.protocolEnd] at inside
        omega
      simp only [Layer3.getData, Layer3.headerLength, byteAt, within_bind_of first]
      rfl
  | inet6 => rfl

theorem getDataSize_eq {frame : Bytes} {l : Layer3} (inside : l.protocolEnd ≤ frame.length) :
    l.getDataSize frame = .ok (l.dataEndD frame - l.dataD frame) := by
  rcases l with ⟨family, packet⟩
  cases family with
  | inet =>
      simp only [Layer3.protocolEnd] at inside
      have first : packet < frame.length := by omega
      have length : packet + 2 + 2 ≤ frame.length := by omega
      simp only [Layer3.getDataSize, Layer3.headerLength, byteAt, wordAt, within_bind_of first,
        within_bind_of length]
      refine congrArg Except.ok ?_
      simp only [Layer3.dataEndD, Layer3.dataD]
      omega
  | inet6 =>
      simp only [Layer3.protocolEnd] at inside
      have length : packet + 4 + 2 ≤ frame.length := by omega
      simp only [Layer3.getDataSize, wordAt, within_bind_of length]
      refine congrArg Except.ok ?_
      simp only [Layer3.dataEndD, Layer3.dataD]
      omega

theorem transportLayer_eq (frame : Bytes) (l : Layer3) :
    transportLayer frame l = within (l.protocolEnd ≤ frame.length) (transportD frame l) := by
  have next : l.getNextProtocol frame =
      within (l.protocolEnd ≤ frame.length) (l.nextProtocolD frame) := by
    rcases l with ⟨family, packet⟩
    cases family <;> rfl
  rw [transportLayer, next]
  refine within_bind_of_imp id fun inside => ?_
  rw [within_of inside, getData_eq inside, getDataSize_eq inside, transportD]
  split
  · rfl
  · split <;> rfl

/-- The addresses and ports that the headers say. -/
def headerD (frame : Bytes) (l3 : Layer3) (l4 : Layer4) : TransportPacket :=
  let srcPort := portD frame l4.packet
  let destPort := portD frame (l4.packet + 2)
  let transport := Layer4.ofPorts l4.protocol srcPort destPort
  match l3.family with
  | .inet =>
      let src := blockD frame (l3.packet + 12) 4
      let dest := blockD frame (l3.packet + 16) 4
      ⟨⟨.inet, src.1, dest.1, src.2, dest.2⟩, transport⟩
  | .inet6 =>
      let src := blockD frame (l3.packet + 8) 16
      let dest := blockD frame (l3.packet + 24) 16
      ⟨⟨.inet6, src.1, dest.1, src.2, dest.2⟩, transport⟩

theorem readHeader_eq (frame : Bytes) (l3 : Layer3) (l4 : Layer4) :
    readHeader frame l3 l4 =
      within (l3.addrEnd ≤ frame.length ∧ l4.packet + 4 ≤ frame.length)
        (headerD frame l3 l4) := by
  rcases l3 with ⟨family, packet⟩
  cases family with
  | inet =>
      simp only [readHeader, Layer3.getSrcAddr, Layer3.getDestAddr, Layer3.addrEnd, blockAt, portAt]
      refine within_bind_of_imp (by omega) fun src => ?_
      refine within_bind_of_imp (by omega) fun dest => ?_
      refine within_bind_of_imp (by omega) fun srcPort => ?_
      refine within_bind_of_imp (by omega) fun destPort => ?_
      exact (within_of (by omega) _).symm
  | inet6 =>
      simp only [readHeader, Layer3.getSrcAddr, Layer3.getDestAddr, Layer3.addrEnd, blockAt, portAt]
      refine within_bind_of_imp (by omega) fun src => ?_
      refine within_bind_of_imp (by omega) fun dest => ?_
      refine within_bind_of_imp (by omega) fun srcPort => ?_
      refine within_bind_of_imp (by omega) fun destPort => ?_
      exact (within_of (by omega) _).symm

theorem transport_headerD (frame : Bytes) (l3 : Layer3) (l4 : Layer4) :
    (headerD frame l3 l4).transport =
      Layer4.ofPorts l4.protocol (portD frame l4.packet) (portD frame (l4.packet + 2)) := by
  rcases l3 with ⟨family, packet⟩
  cases family <;> rfl

/-! ## The data that is recorded -/

namespace Layer4

variable (frame : Bytes) (l : Layer4)

/-- The length that the TCP header gives itself. -/
def tcpHeaderLengthD : Nat := (byteD frame (l.packet + 12)).toNat / 16 * 4

/-- The `RST` of the TCP header. -/
def tcpRstD : Bool := byteD frame (l.packet + 13) &&& thRst ≠ 0

/-- The length that the UDP header gives the datagram. -/
def udpLengthD : Nat := wordD frame (l.packet + 4)

end Layer4

/-- The flags of a TCP packet lie in the frame. For an established connection, unless
the packet resets it, the header ends where the data of the network layer ends, or in
front of it and that in the frame. -/
def TcpConversation.DataInside (c : TcpConversation) (frame : Bytes) (l : Layer4) : Prop :=
  l.protocol = .tcp → l.packet + 14 ≤ frame.length ∧
    (c.capTcpState = .established → l.tcpRstD frame = false →
      l.packetSize = l.tcpHeaderLengthD frame ∨
        l.tcpHeaderLengthD frame < l.packetSize ∧ l.packet + l.packetSize ≤ frame.length)

/-- A datagram is as long as its header at least, and lies in the frame. -/
def UdpConversation.DataInside (_c : UdpConversation) (frame : Bytes) (l : Layer4) : Prop :=
  l.protocol = .udp → l.packet + 6 ≤ frame.length ∧ 8 ≤ l.udpLengthD frame ∧
    l.packet + l.udpLengthD frame ≤ frame.length

theorem defined_readTcpData {frame : Bytes} {l : Layer4} (inside : l.packet + 14 ≤ frame.length) :
    Defined (readTcpData frame l) ↔
      l.packetSize = l.tcpHeaderLengthD frame ∨
        l.tcpHeaderLengthD frame < l.packetSize ∧ l.packet + l.packetSize ≤ frame.length := by
  have offset : l.packet + 12 < frame.length := by omega
  have length : l.tcpHeaderLength frame = .ok (l.tcpHeaderLengthD frame) := by
    rw [Layer4.tcpHeaderLength, byteAt, within_bind_of offset]
    rfl
  have size : l.tcpDataSize frame = .ok (l.packetSize - l.tcpHeaderLengthD frame) := by
    rw [Layer4.tcpDataSize, length]
    rfl
  have data : l.tcpData frame = .ok (l.packet + l.tcpHeaderLengthD frame) := by
    rw [Layer4.tcpData, length]
    rfl
  have read : readTcpData frame l =
      if l.packetSize - l.tcpHeaderLengthD frame = 0 then .ok []
      else rangeAt frame (l.packet + l.tcpHeaderLengthD frame)
        (l.packetSize - l.tcpHeaderLengthD frame) := by
    rw [readTcpData, size, data]
    rfl
  rw [read]
  split
  · exact iff_of_true (defined_ok _) (by omega)
  · rw [defined_rangeAt]
    omega

theorem TcpConversation.defined_readTcp {c : TcpConversation} {frame src : Bytes} {l : Layer4}
    (inside : l.packet + 14 ≤ frame.length) (tcp : TcpLayer) :
    Defined (c.readTcp frame l src tcp) ↔
      (c.capTcpState = .established → tcp.hasRst = false →
        l.packetSize = l.tcpHeaderLengthD frame ∨
          l.tcpHeaderLengthD frame < l.packetSize ∧ l.packet + l.packetSize ≤ frame.length) := by
  rw [readTcp]
  cases reset : tcp.hasRst with
  | true =>
      rw [if_pos rfl]
      exact iff_of_true (defined_ok _) fun _ noReset => by cases noReset
  | false =>
      rw [if_neg (by decide)]
      cases c.capTcpState with
      | synSent => exact iff_of_true (defined_ok _) fun est => by cases est
      | synReceived => exact iff_of_true (defined_ok _) fun est => by cases est
      | established =>
          rw [forall_prop_of_true rfl, forall_prop_of_true rfl, ← defined_readTcpData inside]
          exact defined_bind_ok
      | closed =>
          refine iff_of_true ?_ fun est => by cases est
          simp only
          split
          · exact defined_ok _
          · have offset : l.packet + 12 < frame.length := by omega
            rw [Layer4.tcpDataSize, Layer4.tcpHeaderLength, byteAt, within_bind_of offset]
            exact defined_ok _

theorem TcpConversation.defined_readPacket_iff (c : TcpConversation) (frame : Bytes) (l3 : Layer3)
    (l4 : Layer4) :
    Defined (c.readPacket frame l4 (headerD frame l3 l4)) ↔ c.DataInside frame l4 := by
  rw [readPacket, transport_headerD, DataInside]
  cases protocol : l4.protocol with
  | udp => exact iff_of_true (defined_ok _) fun tcp => by cases tcp
  | tcp =>
      rw [forall_prop_of_true rfl]
      refine defined_within_bind.trans (and_congr_right fun inside => ?_)
      exact defined_bind_ok.trans (defined_readTcp inside _)

theorem UdpConversation.defined_readPacket_iff (c : UdpConversation) (frame : Bytes) (l3 : Layer3)
    (l4 : Layer4) :
    Defined (c.readPacket frame l4 (headerD frame l3 l4)) ↔ c.DataInside frame l4 := by
  rw [readPacket, transport_headerD, DataInside]
  cases protocol : l4.protocol with
  | tcp => exact iff_of_true (defined_ok _) fun udp => by cases udp
  | udp =>
      rw [forall_prop_of_true rfl]
      simp only [Layer4.ofPorts, Layer4.udpDataSize, wordAt]
      by_cases header : l4.packet + 6 ≤ frame.length
      · rw [within_bind_of header]
        refine (defined_bind_ok.trans defined_rangeAt).trans ?_
        rw [Layer4.udpLengthD]
        omega
      · rw [within_bind_of_not header]
        exact iff_of_false (fun defined => defined _ rfl) fun inside => header inside.1

namespace Capture

/-! ## The record -/

section Record

variable {T : Type} [Conversation T] [FrameReader T] (factory : ConversationFactory T)
  (DataInside : T → Bytes → Layer4 → Prop)

open TypedConversationStore (getConversation)

/-- Each header that is read lies in the frame, and so does the data that the
conversation of the packet, if it has one, records. -/
def FrameInside (datalinkType : Int) (store : TypedConversationStore T) (frame : Bytes) : Prop :=
  LinkInside datalinkType frame ∧
    ∀ l3 ∈ networkD datalinkType frame, l3.protocolEnd ≤ frame.length ∧
      ∀ l4 ∈ transportD frame l3,
        (l3.addrEnd ≤ frame.length ∧ l4.packet + 4 ≤ frame.length) ∧
          ∀ c ∈ (getConversation factory store (headerD frame l3 l4)).1, DataInside c frame l4

variable {factory DataInside}

theorem defined_dispatch_iff {store : TypedConversationStore T} {frame : Bytes} {l4 : Layer4}
    {header : TransportPacket} {Inside : T → Prop}
    (reads : ∀ c, Defined (FrameReader.readPacket c frame l4 header) ↔ Inside c) :
    Defined (dispatch factory store frame l4 header) ↔
      ∀ c ∈ (getConversation factory store header).1, Inside c := by
  rw [dispatch]
  split
  · next left found =>
      rw [found]
      exact iff_of_true (defined_ok _) fun c mem => by cases mem
  · next conversation left found =>
      rw [found]
      refine (defined_bind_ok.trans (reads conversation)).trans ?_
      simp

/-- A record is handled without a read outside the frame exactly when its headers and
the data that is recorded lie in it. -/
theorem defined_packetHandler
    (reads : ∀ (c : T) frame l3 l4,
      Defined (FrameReader.readPacket c frame l4 (headerD frame l3 l4)) ↔ DataInside c frame l4)
    (datalinkType : Int) (store : TypedConversationStore T) (frame : Bytes) :
    Defined (packetHandler factory datalinkType store frame.length frame) ↔
      FrameInside factory DataInside datalinkType store frame := by
  rw [packetHandler, if_neg (not_not.mpr rfl), networkLayer_eq, FrameInside]
  refine defined_within_bind.trans (and_congr_right fun link => ?_)
  cases networkD datalinkType frame with
  | none => exact iff_of_true (defined_ok _) fun l3 mem => by cases mem
  | some l3 =>
      simp only [Option.mem_def, Option.some.injEq, forall_eq']
      rw [transportLayer_eq]
      refine defined_within_bind.trans (and_congr_right fun network => ?_)
      cases transportD frame l3 with
      | none => exact iff_of_true (defined_ok _) fun l4 mem => by cases mem
      | some l4 =>
          simp only [Option.some.injEq, forall_eq']
          rw [readHeader_eq]
          refine defined_within_bind.trans (and_congr_right fun header => ?_)
          exact defined_dispatch_iff fun c => reads c frame l3 l4

end Record

/-- A captured record is handled within its bytes, by a store of TCP or of UDP
conversations, exactly when its headers and the data that is recorded lie in it. -/
theorem defined_packetHandler_iff (inet : Inet) (datalinkType : Int) (frame : Bytes)
    (tcpStore : TypedConversationStore TcpConversation)
    (udpStore : TypedConversationStore UdpConversation) :
    (Defined (packetHandler (tcpConversationFactory inet) datalinkType tcpStore frame.length
        frame) ↔
      FrameInside (tcpConversationFactory inet) TcpConversation.DataInside datalinkType tcpStore
        frame) ∧
    (Defined (packetHandler (udpConversationFactory inet) datalinkType udpStore frame.length
        frame) ↔
      FrameInside (udpConversationFactory inet) UdpConversation.DataInside datalinkType udpStore
        frame) :=
  ⟨defined_packetHandler TcpConversation.defined_readPacket_iff datalinkType tcpStore frame,
    defined_packetHandler UdpConversation.defined_readPacket_iff datalinkType udpStore frame⟩

/-- A header of a datagram between two hosts that gives its length as 64. -/
def cutDatagram : Bytes :=
  List.replicate 12 0 ++ [0x08, 0x00] ++
    [0x45, 0x00, 0x00, 0x1c, 0x00, 0x00, 0x00, 0x00, 0x40, 0x11, 0x00, 0x00] ++
    [10, 0, 0, 1] ++ [10, 0, 0, 3] ++ [0x00, 0x07, 0x00, 0x35, 0x00, 0x40, 0x00, 0x00]

/-- The data of the datagram would lie behind the frame. -/
theorem not_defined_packetHandler :
    ¬ ∀ (inet : Inet) (datalinkType : Int) (frame : Bytes)
      (tcpStore : TypedConversationStore TcpConversation)
      (udpStore : TypedConversationStore UdpConversation),
      datalinkType = dltNull ∨ datalinkType = dltEn10mb →
        Defined (packetHandler (tcpConversationFactory inet) datalinkType tcpStore frame.length
          frame) ∧
        Defined (packetHandler (udpConversationFactory inet) datalinkType udpStore frame.length
          frame) := by
  intro defined
  have datagram := (defined dottedInet dltEn10mb cutDatagram ⟨∅, ∅⟩ ⟨∅, ∅⟩ (Or.inr rfl)).2
  revert datagram
  decide +kernel

/-! ## What is recorded -/

/-- The addresses and ports of two packets are the same. -/
structure SameHeader (p q : TransportPacket) : Prop where
  network : p.network = q.network
  srcPort : p.transport.srcPort = q.transport.srcPort
  destPort : p.transport.destPort = q.transport.destPort

/-- A factory that looks at the addresses and ports of a packet only. -/
structure ReadsHeader {T : Type} (factory : ConversationFactory T) : Prop where
  getKey : ∀ {p q}, SameHeader p q → factory.getKey p = factory.getKey q
  getTargetTestServerKeys : ∀ {p q}, SameHeader p q →
    factory.getTargetTestServerKeys p = factory.getTargetTestServerKeys q
  createConversation : ∀ {p q} server, SameHeader p q →
    factory.createConversation p server = factory.createConversation q server

theorem SameHeader.key {p q : TransportPacket} (same : SameHeader p q) :
    tcpIpGetKey p = tcpIpGetKey q := by
  apply tcpIpGetKey_congr
  · rw [same.network]
  · rw [TransportPacket.source, TransportPacket.source, same.network, same.srcPort]
  · rw [TransportPacket.dest, TransportPacket.dest, same.network, same.destPort]

theorem SameHeader.clientKeys {p q : TransportPacket} (same : SameHeader p q) (inet : Inet) :
    tcpIpGetTargetTestServerKeys inet p = tcpIpGetTargetTestServerKeys inet q := by
  rw [tcpIpGetTargetTestServerKeys, tcpIpGetTargetTestServerKeys, same.network, same.srcPort]

theorem SameHeader.ofPacket {p q : TransportPacket} (same : SameHeader p q) (inet : Inet)
    (server : Option TargetTestServer) :
    PacketConversation.ofPacket inet p server = PacketConversation.ofPacket inet q server := by
  unfold PacketConversation.ofPacket
  rw [same.network, same.srcPort, same.destPort]

theorem tcp_readsHeader (inet : Inet) : ReadsHeader (tcpConversationFactory inet) where
  getKey same := same.key
  getTargetTestServerKeys same := same.clientKeys inet
  createConversation server same := by
    simp only [tcpConversationFactory, TcpConversation.ofPacket, same.ofPacket inet server]

theorem udp_readsHeader (inet : Inet) : ReadsHeader (udpConversationFactory inet) where
  getKey same := same.key
  getTargetTestServerKeys same := same.clientKeys inet
  createConversation server same := by
    simp only [udpConversationFactory, UdpConversation.ofPacket, same.ofPacket inet server]

theorem readTcp_ports {c : TcpConversation} {frame src : Bytes} {l : Layer4} {tcp whole : TcpLayer}
    (read : c.readTcp frame l src tcp = .ok whole) :
    whole.srcPort = tcp.srcPort ∧ whole.destPort = tcp.destPort := by
  rw [TcpConversation.readTcp] at read
  split at read
  · cases read
    exact ⟨rfl, rfl⟩
  · split at read
    · rcases bind_eq_ok.mp read with ⟨data, -, result⟩
      cases result
      exact ⟨rfl, rfl⟩
    · split at read
      · cases read
        exact ⟨rfl, rfl⟩
      · rcases bind_eq_ok.mp read with ⟨size, -, result⟩
        cases result
        exact ⟨rfl, rfl⟩
    · cases read
      exact ⟨rfl, rfl⟩

theorem tcp_readPacket_header {c : TcpConversation} {frame : Bytes} {l : Layer4}
    {header packet : TransportPacket} (read : c.readPacket frame l header = .ok packet) :
    SameHeader packet header := by
  rw [TcpConversation.readPacket] at read
  split at read
  · cases read
    exact ⟨rfl, rfl, rfl⟩
  · next tcp transport =>
      rcases bind_eq_ok.mp read with ⟨flags, -, read⟩
      rcases bind_eq_ok.mp read with ⟨whole, readTcp, result⟩
      cases result
      have ports := readTcp_ports readTcp
      refine ⟨rfl, ?_, ?_⟩
      · rw [transport]
        exact ports.1
      · rw [transport]
        exact ports.2

section Recorded

variable {T : Type} {factory : ConversationFactory T}

theorem ReadsHeader.getConversation (reads : ReadsHeader factory) {p q : TransportPacket}
    (same : SameHeader p q) (store : TypedConversationStore T) :
    TypedConversationStore.getConversation factory store p =
      TypedConversationStore.getConversation factory store q := by
  have creates : factory.createConversation p = factory.createConversation q :=
    funext fun server => reads.createConversation server same
  unfold TypedConversationStore.getConversation TypedConversationStore.configured
  rw [reads.getKey same, reads.getTargetTestServerKeys same, creates]

variable [Conversation T] [FrameReader T]

/-- A record that is handled is ignored, or it is recorded as a packet with the
addresses and ports of the frame. -/
theorem exists_packetHandler_eq (reads : ReadsHeader factory)
    (keeps : ∀ (c : T) frame l header packet,
      FrameReader.readPacket c frame l header = .ok packet → SameHeader packet header)
    {datalinkType : Int} {store left : TypedConversationStore T} {len : Nat} {frame : Bytes}
    (handled : packetHandler factory datalinkType store len frame = .ok left) :
    left = store ∨
      ∃ packet, left = TypedConversationStore.packetHandler factory store packet := by
  rw [packetHandler] at handled
  split at handled
  · cases handled
  · rcases bind_eq_ok.mp handled with ⟨network, -, handled⟩
    cases network with
    | none =>
        cases handled
        exact Or.inl rfl
    | some l3 =>
        rcases bind_eq_ok.mp handled with ⟨transport, -, handled⟩
        cases transport with
        | none =>
            cases handled
            exact Or.inl rfl
        | some l4 =>
            rcases bind_eq_ok.mp handled with ⟨header, -, handled⟩
            refine Or.inr ?_
            rw [dispatch] at handled
            split at handled
            · next found =>
                cases handled
                refine ⟨header, ?_⟩
                rw [TypedConversationStore.packetHandler, found]
            · next conversation opened found =>
                rcases bind_eq_ok.mp handled with ⟨packet, read, result⟩
                cases result
                have same := keeps conversation frame l4 header packet read
                refine ⟨packet, ?_⟩
                rw [TypedConversationStore.packetHandler, reads.getConversation same, found,
                  reads.getKey same]

end Recorded

theorem exists_packetHandler_tcp {inet : Inet} {datalinkType : Int} {len : Nat} {frame : Bytes}
    {store left : TypedConversationStore TcpConversation}
    (handled :
      packetHandler (tcpConversationFactory inet) datalinkType store len frame = .ok left) :
    left = store ∨ ∃ packet,
      left = TypedConversationStore.packetHandler (tcpConversationFactory inet) store packet :=
  exists_packetHandler_eq (tcp_readsHeader inet)
    (fun _ _ _ _ _ read => tcp_readPacket_header read) handled

end Capture

end PacketReplay
