import PacketReplay.Capture.IpV6Text

/-!
# Where a conversation is replayed to

The test socket address of a conversation that a client spec configures: the test
address and port of the spec, and the captured ones for what the spec leaves out. A
spec with a test address and no port is replayed to port 65535, which `noPort` becomes
when it is converted to a port; `directed_iff` says that nothing else goes wrong.
-/

namespace PacketReplay

open Lib

open Conversation (toPacketConversation)

namespace ClientSpec

/-- Where the requests of a packet's conversation should go. -/
def destination (s : ClientSpec) (packet : TransportPacket) : SockAddr :=
  ⟨packet.network.family, (s.test.map (·.addr)).getD packet.network.destAddr,
    ((s.test.bind (·.port)).map fun port : Nat => htons port).getD packet.transport.destPort⟩

/-- The spec gives the port of its test server, if it has one, or the captured port is
the one that is taken instead. -/
def GivesPort (s : ClientSpec) (packet : TransportPacket) : Prop :=
  ∀ test ∈ s.test, test.port = none → packet.transport.destPort = 65535

/-- A port that is given goes through three conversions. -/
theorem htons_networkPort (port : Nat) :
    htons (htons (networkPort (some port))).toNat = htons port := by
  rw [networkPort, htons_toNat, htons_toNat, swapBytes_swapBytes]

theorem htons_noPort : htons (htons (networkPort none)).toNat = 65535 := rfl

/-- The conversation that is created with the test server of a spec. -/
theorem testSockAddr_ofPacket_iff {inet : Inet} (canonical : inet.Canonical) {s : ClientSpec}
    (size : ∀ test ∈ s.test, test.addr.length = s.family.addrSize) {packet : TransportPacket}
    (family : s.family = packet.network.family) :
    (PacketConversation.ofPacket inet packet (s.server inet)).testSockAddr = s.destination packet ↔
      s.GivesPort packet := by
  rw [server, destination, GivesPort]
  cases given : s.test with
  | none => simp [PacketConversation.ofPacket]
  | some test =>
      have addr : getAddrFromString inet packet.network.family (inet.ntop s.family test.addr) =
          test.addr := by
        rw [getAddrFromString, canonical.cstr_ntop (size test given), ← family,
          canonical.pton_ntop (size test given), Option.getD_some]
      have sockAddr : (PacketConversation.ofPacket inet packet
          (some ⟨inet.ntop s.family test.addr,
            (htons (networkPort test.port)).toNat⟩)).testSockAddr =
          ⟨packet.network.family, test.addr, htons (htons (networkPort test.port)).toNat⟩ := by
        rw [PacketConversation.ofPacket]
        simp only [addr]
      rw [Option.map_some, sockAddr]
      cases port : test.port with
      | none =>
          rw [htons_noPort]
          simp [port, eq_comm]
      | some n =>
          rw [htons_networkPort]
          simp [port]

end ClientSpec

namespace TypedConversationStore

variable {T : Type}

/-- A packet of an unknown flow finds an entry of the test servers. -/
structure Finds (inet : Inet) (store : TypedConversationStore T) (packet : TransportPacket)
    (entry : Bytes × Option TargetTestServer) : Prop where
  unknown : store.conversations.lookup (tcpIpGetKey packet) = none
  first : (tcpIpGetTargetTestServerKeys inet packet).find? (· ∈ store.testServers) = some entry.1
  filed : store.testServers.lookup entry.1 = some entry.2

theorem findSome?_of_find? {testServers : TestServers} {keys : List Bytes} {key : Bytes}
    (first : keys.find? (· ∈ testServers) = some key) :
    keys.findSome? testServers.lookup = testServers.lookup key := by
  induction keys with
  | nil => cases first
  | cons k keys ih =>
      rw [List.find?_cons] at first
      rw [List.findSome?_cons]
      cases found : testServers.lookup k with
      | none =>
          have absent : k ∉ testServers := AList.lookup_eq_none.mp found
          rw [decide_eq_false absent] at first
          exact ih first
      | some server =>
          have present : k ∈ testServers := AList.lookup_isSome.mp (by rw [found]; rfl)
          rw [decide_eq_true present] at first
          cases first
          exact found.symm

/-- The conversation of a packet that finds an entry is created with it. -/
theorem getConversation_of_finds {factory : ConversationFactory T} {inet : Inet}
    (getKey : factory.getKey = tcpIpGetKey)
    (keys : factory.getTargetTestServerKeys = tcpIpGetTargetTestServerKeys inet)
    {store : TypedConversationStore T} {packet : TransportPacket}
    {entry : Bytes × Option TargetTestServer} (finds : store.Finds inet packet entry) :
    (getConversation factory store packet).1 =
      some (factory.createConversation packet entry.2) := by
  have found : configured factory store.testServers packet = some entry.2 := by
    rw [configured, keys, ← finds.filed]
    exact findSome?_of_find? finds.first
  rw [getConversation, getKey, finds.unknown, found]
  rfl

/-- The sender of a packet is of the family of the spec that it finds. -/
theorem family_of_finds {inet : Inet} (canonical : inet.Canonical) {s : ClientSpec}
    (size : s.srcAddr.length = s.family.addrSize) {store : TypedConversationStore T}
    {packet : TransportPacket} (finds : store.Finds inet packet (s.key inet, s.server inet)) :
    s.family = packet.network.family := by
  have mem := List.mem_of_find?_eq_some finds.first
  rw [canonical.targetTestServerKeys_eq] at mem
  rcases List.mem_pair.mp mem with same | same
  · exact canonical.family_eq_of_clientKey_eq size packet.network.srcAddr_length same
  · exact canonical.family_eq_of_clientKey_eq size packet.network.srcAddr_length same

/-- For every accepted spec, a packet that creates a conversation through it has the
requests go where they should exactly when the spec gives the port of its test server,
if it has one, or the captured port is 65535. -/
theorem directed_iff {inet : Inet} (canonical : inet.Canonical) {spec : Bytes}
    {entry : Bytes × Option TargetTestServer}
    (accepted : tcpIpCreateTargetTestServer inet spec = .ok entry) :
    ∃ s, readSpec inet spec = some s ∧ ∀ packet : TransportPacket,
      (∀ store : TypedConversationStore TcpConversation, store.Finds inet packet entry →
        ∃ c, (getConversation (tcpConversationFactory inet) store packet).1 = some c ∧
          (c.testSockAddr = s.destination packet ↔ s.GivesPort packet)) ∧
      ∀ store : TypedConversationStore UdpConversation, store.Finds inet packet entry →
        ∃ c, (getConversation (udpConversationFactory inet) store packet).1 = some c ∧
          (c.testSockAddr = s.destination packet ↔ s.GivesPort packet) := by
  rcases create_eq_ok canonical accepted with ⟨s, read, rfl⟩
  rcases length_of_readSpec canonical read with ⟨size, testSize⟩
  refine ⟨s, read, fun packet => ⟨fun store finds => ?_, fun store finds => ?_⟩⟩
  · have family := family_of_finds canonical size finds
    exact ⟨_, getConversation_of_finds rfl rfl finds,
      s.testSockAddr_ofPacket_iff canonical testSize family⟩
  · have family := family_of_finds canonical size finds
    exact ⟨_, getConversation_of_finds rfl rfl finds,
      s.testSockAddr_ofPacket_iff canonical testSize family⟩

/-- The test servers with the spec `10.0.0.1:7:10.0.0.9:8080`. -/
theorem directed_iff_testPort :
    ∃ c, (getConversation (tcpConversationFactory numericInet)
        ⟨(∅ : TestServers).insert (ascii "10.0.0.1:1792") (some ⟨ascii "10.0.0.9", 8080⟩), ∅⟩
        (between 1 3 (.tcp ⟨htons 7, htons 80, thSyn, []⟩))).1 = some c ∧
      c.testSockAddr = ⟨.inet, [10, 0, 0, 9], htons 8080⟩ := by
  have accepted : tcpIpCreateTargetTestServer numericInet (ascii "10.0.0.1:7:10.0.0.9:8080") =
      .ok (ascii "10.0.0.1:1792", some ⟨ascii "10.0.0.9", 8080⟩) := by decide +kernel
  have known : readSpec numericInet (ascii "10.0.0.1:7:10.0.0.9:8080") =
      some ⟨.inet, [10, 0, 0, 1], some 7, some ⟨[10, 0, 0, 9], some 8080⟩⟩ := by decide +kernel
  rcases directed_iff numericInet_canonical accepted with ⟨s, read, directed⟩
  rw [known] at read
  cases read
  obtain ⟨c, created, sent⟩ := (directed (between 1 3 (.tcp ⟨htons 7, htons 80, thSyn, []⟩))).1
    ⟨(∅ : TestServers).insert (ascii "10.0.0.1:1792") (some ⟨ascii "10.0.0.9", 8080⟩), ∅⟩
    ⟨rfl, by decide +kernel, by decide +kernel⟩
  have given : (⟨.inet, [10, 0, 0, 1], some 7, some ⟨[10, 0, 0, 9], some 8080⟩⟩ :
      ClientSpec).GivesPort (between 1 3 (.tcp ⟨htons 7, htons 80, thSyn, []⟩)) := by
    intro test same none_given
    cases same
    cases none_given
  exact ⟨c, created, sent.mpr given⟩

/-- The spec `10.0.0.1:7:10.0.0.9` has a packet to port 80 replayed to port 65535. -/
theorem not_directed_withoutPort :
    ¬ ∀ inet : Inet, inet.Canonical → ∀ spec entry s,
      tcpIpCreateTargetTestServer inet spec = .ok entry → readSpec inet spec = some s →
      s.InRange → ∀ (store : TypedConversationStore TcpConversation) (packet : TransportPacket),
      store.Finds inet packet entry →
      ∀ c, (getConversation (tcpConversationFactory inet) store packet).1 = some c →
        c.testSockAddr = s.destination packet := by
  intro always
  have sent := always numericInet numericInet_canonical (ascii "10.0.0.1:7:10.0.0.9")
    (ascii "10.0.0.1:1792", some ⟨ascii "10.0.0.9", 65535⟩)
    ⟨.inet, [10, 0, 0, 1], some 7, some ⟨[10, 0, 0, 9], none⟩⟩
    (by decide +kernel) (by decide +kernel) (by decide)
    ⟨(∅ : TestServers).insert (ascii "10.0.0.1:1792") (some ⟨ascii "10.0.0.9", 65535⟩), ∅⟩
    (between 1 3 (.tcp ⟨htons 7, htons 80, thSyn, []⟩))
    ⟨rfl, by decide +kernel, by decide +kernel⟩ _ rfl
  revert sent
  decide +kernel

end TypedConversationStore

end PacketReplay
