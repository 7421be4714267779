import PacketReplay.Capture.Address
import PacketReplay.Capture.Store

/-!
# Packets of the other transport

A conversation ignores the packets of the other transport, but they go through
`getConversation` like its own and may open a conversation. `undisturbed` says when
that does no harm: behind such a packet the conversation is resumed by a packet of
the same sender and flow, before anything that it would have missed. On a capture of
this kind the other transport can be left out (`recorded_filter`).
-/

namespace PacketReplay

open Lib

open Conversation (toPacketConversation processCapturePacket)

/-! ## What a conversation depends on -/

/-- Packets of one flow and one sender make the same conversation. -/
theorem PacketConversation.ofPacket_congr {inet : Inet} {p q : TransportPacket}
    (same : tcpIpGetKey p = tcpIpGetKey q) (sender : p.source = q.source)
    (server : Option TargetTestServer) : ofPacket inet p server = ofPacket inet q server := by
  have receiver := dest_eq_of_key_eq same sender
  have srcAddr : p.network.srcAddr = q.network.srcAddr := congrArg Prod.fst sender
  have srcPort : p.transport.srcPort = q.transport.srcPort := congrArg Prod.snd sender
  have destAddr : p.network.destAddr = q.network.destAddr := congrArg Prod.fst receiver
  have destPort : p.transport.destPort = q.transport.destPort := congrArg Prod.snd receiver
  unfold ofPacket
  simp only [family_eq_of_key_eq same, srcAddr, srcPort, destAddr, destPort]

theorem tcpIpGetTargetTestServerKeys_congr (inet : Inet) {p q : TransportPacket}
    (same : tcpIpGetKey p = tcpIpGetKey q) (sender : p.source = q.source) :
    tcpIpGetTargetTestServerKeys inet p = tcpIpGetTargetTestServerKeys inet q := by
  have srcAddr : p.network.srcAddr = q.network.srcAddr := congrArg Prod.fst sender
  have srcPort : p.transport.srcPort = q.transport.srcPort := congrArg Prod.snd sender
  rw [tcpIpGetTargetTestServerKeys, tcpIpGetTargetTestServerKeys]
  simp only [family_eq_of_key_eq same, srcAddr, srcPort]

namespace TcpConversation

theorem sameAddr_iff {c : TcpConversation} {addr cap : Bytes}
    (size : addr.length = c.addrFamily.addrSize) (capSize : cap.length = c.addrFamily.addrSize) :
    c.sameAddr addr cap = true ↔ addr = cap := by
  rw [sameAddr, decide_eq_true_iff, memcmp_eq_zero_iff size.ge capSize.ge, ← size,
    List.take_length, size, ← capSize, List.take_length]

/-- A conversation that has just been created is only changed by a `SYN` without other
flags from its captured source. -/
theorem processTcp_created {inet : Inet} {f : TransportPacket} {server : Option TargetTestServer}
    {src : Bytes} {tcp : TcpLayer} (size : src.length = f.network.family.addrSize)
    (other : ¬ (src = f.network.srcAddr ∧ tcp.flags = thSyn)) :
    (ofPacket inet f server).processTcp src tcp = ofPacket inet f server := by
  rw [processTcp]
  split
  · rfl
  · have stays : ¬ ((ofPacket inet f server).sameAddr src f.network.srcAddr ∧
        tcp.flags = thSyn) := by
      rw [sameAddr_iff size f.network.srcAddr_length]
      exact other
    exact if_neg stays

end TcpConversation

/-! ## The condition -/

section Condition

variable (inet : Inet) (testServers : TestServers)

/-- The packet comes from a configured client. -/
def isClient (packet : TransportPacket) : Bool :=
  (tcpIpGetTargetTestServerKeys inet packet).any fun key => key ∈ testServers

/-- `q` would open a conversation in the place of `f`: without clients any packet
does, and with clients one of the same flow that comes from a client. -/
def rivals (f q : TransportPacket) : Bool :=
  testServers.entries.isEmpty || tcpIpGetKey q = tcpIpGetKey f && isClient inet testServers q

/-- `f` opens a conversation behind the packets of `before`. -/
def opens (before : List TransportPacket) (f : TransportPacket) : Bool :=
  (testServers.entries.isEmpty || isClient inet testServers f) &&
    before.all fun q => !rivals inet testServers f q

variable (own : TransportPacket → Bool) (inert : TransportPacket → TransportPacket → Bool)

/-- Behind `f`: the first own packet that would open a conversation in its place is of
its flow and from its sender, and own packets of its flow in front of that one are
inert. -/
def resumes (f : TransportPacket) : List TransportPacket → Bool
  | [] => true
  | q :: rest =>
      if own q then
        if rivals inet testServers f q then tcpIpGetKey q = tcpIpGetKey f && q.source = f.source
        else (tcpIpGetKey q ≠ tcpIpGetKey f || inert f q) && resumes f rest
      else resumes f rest

/-- Every packet of the other transport that opens a conversation has it resumed. -/
def undisturbed (before : List TransportPacket) : List TransportPacket → Bool
  | [] => true
  | p :: rest =>
      (own p || !opens inet testServers before p || resumes inet testServers own inert p rest) &&
        undisturbed (before ++ [p]) rest

end Condition

/-- A TCP packet that a conversation `f` has opened takes no notice of: all but a
`SYN` without other flags from the address of `f`. -/
def tcpInert (f q : TransportPacket) : Bool :=
  match q.transport with
  | .tcp tcp => !(tcp.flags = thSyn && q.network.srcAddr = f.network.srcAddr)
  | .udp _ => true

/-- There is no UDP packet that a conversation takes no notice of. -/
def udpInert (_f _q : TransportPacket) : Bool := false

namespace TypedConversationStore

/-- What the argument needs of a kind of conversations: what they ignore, what leaves
them as they were created, and what they are created from. -/
structure Captures {T : Type} [Conversation T] (inet : Inet) (factory : ConversationFactory T)
    (own : TransportPacket → Bool) (inert : TransportPacket → TransportPacket → Bool) : Prop where
  getKey : factory.getKey = tcpIpGetKey
  getTargetTestServerKeys :
    factory.getTargetTestServerKeys = tcpIpGetTargetTestServerKeys inet
  create_congr : ∀ {p q : TransportPacket}, tcpIpGetKey p = tcpIpGetKey q → p.source = q.source →
    ∀ server, factory.createConversation p server = factory.createConversation q server
  create_empty : ∀ f server,
    (toPacketConversation (factory.createConversation f server)).actionQueue = []
  ignores : ∀ (c : T) p, own p = false → processCapturePacket c p = c
  inert_created : ∀ {f q : TransportPacket} server, tcpIpGetKey q = tcpIpGetKey f →
    inert f q = true →
      processCapturePacket (factory.createConversation f server) q =
        factory.createConversation f server

theorem tcp_captures (inet : Inet) :
    Captures inet (tcpConversationFactory inet) TransportPacket.isTcp tcpInert where
  getKey := rfl
  getTargetTestServerKeys := rfl
  create_congr same sender server := by
    simp only [tcpConversationFactory, TcpConversation.ofPacket,
      PacketConversation.ofPacket_congr same sender]
  create_empty _ _ := rfl
  ignores c p other := by
    cases transport : p.transport with
    | tcp tcp => simp [TransportPacket.isTcp, transport] at other
    | udp udp => exact TcpConversation.processCapturePacket_udp transport c
  inert_created {f q} server same inert := by
    cases transport : q.transport with
    | udp udp => exact TcpConversation.processCapturePacket_udp transport _
    | tcp tcp =>
        have size : q.network.srcAddr.length = f.network.family.addrSize := by
          rw [q.network.srcAddr_length, family_eq_of_key_eq same]
        have other : ¬ (q.network.srcAddr = f.network.srcAddr ∧ tcp.flags = thSyn) := by
          rw [and_comm, not_and_or]
          simpa [tcpInert, transport] using inert
        exact (TcpConversation.processCapturePacket_tcp transport _).trans
          (TcpConversation.processTcp_created size other)

theorem udp_captures (inet : Inet) :
    Captures inet (udpConversationFactory inet) TransportPacket.isUdp udpInert where
  getKey := rfl
  getTargetTestServerKeys := rfl
  create_congr same sender server := by
    simp only [udpConversationFactory, UdpConversation.ofPacket,
      PacketConversation.ofPacket_congr same sender]
  create_empty _ _ := rfl
  ignores c p other := by
    cases transport : p.transport with
    | tcp tcp => exact UdpConversation.processCapturePacket_tcp transport c
    | udp udp => simp [TransportPacket.isUdp, TransportPacket.isTcp, transport] at other
  inert_created _ _ inert := by cases inert

/-! ## Stores that record the same -/

section Recorded

variable {T : Type} [Conversation T]

/-- The action queue under a key, unless it is empty. -/
def recordedAt (conversations : AList fun _ : Bytes => T) (key : Bytes) : Option (List Action) :=
  ((conversations.lookup key).map fun c => (toPacketConversation c).actionQueue).filter (· ≠ [])

theorem recordedAt_eq_none {conversations : AList fun _ : Bytes => T} {key : Bytes}
    (silent : ∀ c, conversations.lookup key = some c →
      (toPacketConversation c).actionQueue = []) : recordedAt conversations key = none := by
  rw [recordedAt, Option.filter_eq_none_iff]
  intro queue found
  obtain ⟨c, inStore, rfl⟩ := Option.map_eq_some_iff.mp found
  simp [silent c inStore]

/-- The keys with an action queue that is not empty. -/
def recordedEntries (conversations : AList fun _ : Bytes => T) :
    List (Bytes × List Action) :=
  (conversations.entries.map fun entry =>
    (entry.1, (toPacketConversation entry.2).actionQueue)).filter (·.2 ≠ [])

theorem recorded_eq (testServers : TestServers) (conversations : AList fun _ : Bytes => T) :
    recorded ⟨testServers, conversations⟩ =
      ((recordedEntries conversations).map Prod.snd : List _) := by
  rw [recorded, recordedEntries, List.filter_map, List.filter_map, List.map_map]
  rfl

theorem mem_recordedEntries {conversations : AList fun _ : Bytes => T} {key : Bytes}
    {queue : List Action} :
    (key, queue) ∈ recordedEntries conversations ↔
      recordedAt conversations key = some queue := by
  rw [recordedEntries, List.mem_filter, List.mem_map, recordedAt, Option.filter_eq_some_iff,
    Option.map_eq_some_iff]
  refine and_congr_left fun _ => ⟨?_, ?_⟩
  · intro given
    rcases given with ⟨entry, mem, same⟩
    cases same
    exact ⟨entry.2, AList.mem_lookup_iff.mpr mem, rfl⟩
  · intro given
    rcases given with ⟨c, found, rfl⟩
    exact ⟨⟨key, c⟩, AList.mem_lookup_iff.mp found, rfl⟩

theorem nodup_recordedEntries (conversations : AList fun _ : Bytes => T) :
    (recordedEntries conversations).Nodup := by
  refine List.Nodup.filter _ (List.Nodup.of_map Prod.fst ?_)
  rw [List.map_map]
  exact conversations.nodupKeys

/-- What is recorded is determined key by key. -/
theorem recorded_congr {testServers : TestServers} {s t : AList fun _ : Bytes => T}
    (same : ∀ key, recordedAt s key = recordedAt t key) :
    recorded ⟨testServers, s⟩ = recorded ⟨testServers, t⟩ := by
  have perm : (recordedEntries s).Perm (recordedEntries t) := by
    rw [List.perm_ext_iff_of_nodup (nodup_recordedEntries s) (nodup_recordedEntries t)]
    intro given
    rcases given with ⟨key, queue⟩
    rw [mem_recordedEntries, mem_recordedEntries, same]
  rw [recorded_eq, recorded_eq, Multiset.coe_eq_coe]
  exact perm.map Prod.snd

end Recorded

/-! ## Leaving the other transport out -/

section Leaving

variable {T : Type} [Conversation T] {inet : Inet} {factory : ConversationFactory T}
  {own : TransportPacket → Bool} {inert : TransportPacket → TransportPacket → Bool}
  {testServers : TestServers} {f q : TransportPacket} {ps : List TransportPacket}

theorem Captures.isSome_configured (captures : Captures inet factory own inert)
    (p : TransportPacket) :
    (configured factory testServers p).isSome = isClient inet testServers p := by
  rw [configured, captures.getTargetTestServerKeys, isClient, List.isSome_findSome?]
  congr 1
  funext key
  rw [Bool.eq_iff_iff, AList.lookup_isSome, decide_eq_true_iff]

theorem Captures.create_demux_congr (captures : Captures inet factory own inert)
    (same : tcpIpGetKey q = tcpIpGetKey f) (sender : q.source = f.source) :
    (demux factory testServers).create q = (demux factory testServers).create f := by
  simp only [demux, configured, captures.getTargetTestServerKeys,
    tcpIpGetTargetTestServerKeys_congr inet same sender, captures.create_congr same sender]

theorem Captures.ignores_demux (captures : Captures inet factory own inert) (c : T)
    (p : TransportPacket) (other : own p = false) :
    (demux factory testServers).process c p = c := captures.ignores c p other

theorem Captures.admits_demux (captures : Captures inet factory own inert)
    (clients : testServers.entries ≠ []) (p : TransportPacket) (none_yet : Bool) :
    (demux factory testServers).admits p none_yet = isClient inet testServers p := by
  simp [demux, captures.isSome_configured, clients]

theorem Captures.key_demux (captures : Captures inet factory own inert) (p : TransportPacket) :
    (demux factory testServers).key p = tcpIpGetKey p := by
  rw [demux, captures.getKey]

/-- With clients, a flow is resumed in the demultiplexer. -/
theorem Captures.resumes_demux (captures : Captures inet factory own inert)
    (clients : testServers.entries ≠ []) 
    (resumed : resumes inet testServers own inert f ps = true) :
    (demux factory testServers).Resumes own (tcpIpGetKey f)
      ((demux factory testServers).create f) ps := by
  induction ps with
  | nil => trivial
  | cons q rest ih =>
      rw [resumes] at resumed
      rw [Demux.Resumes, captures.key_demux, captures.admits_demux clients]
      cases mine : own q with
      | false =>
          rw [if_neg (by simp [mine])] at resumed
          rw [if_neg (by simp)]
          exact ih resumed
      | true =>
          rw [if_pos mine] at resumed
          by_cases same : tcpIpGetKey q = tcpIpGetKey f
          · rw [if_pos ⟨rfl, same⟩]
            cases client : isClient inet testServers q with
            | true =>
                rw [if_pos (by simp [rivals, same, client])] at resumed
                rw [if_pos rfl]
                exact captures.create_demux_congr same (by simpa [same] using resumed)
            | false =>
                rw [if_neg (by simp [rivals, clients, client])] at resumed
                rw [if_neg (by simp)]
                simp only [same, ne_eq, not_true_eq_false, decide_false, Bool.false_or,
                  Bool.and_eq_true] at resumed
                exact ⟨captures.inert_created _ same resumed.1, ih resumed.2⟩
          · rw [if_neg (by simp [rivals, clients, same])] at resumed
            rw [if_neg (by simp [same])]
            simp only [same, ne_eq, not_false_eq_true, decide_true, Bool.true_or,
              Bool.true_and] at resumed
            exact ih resumed

theorem Captures.undisturbed_demux (captures : Captures inet factory own inert)
    (clients : testServers.entries ≠ []) {key : Bytes} {before : List TransportPacket}
    (fresh : ∀ q ∈ before, tcpIpGetKey q = key → isClient inet testServers q = false)
    (calm : undisturbed inet testServers own inert before ps = true) :
    (demux factory testServers).Undisturbed own key ps := by
  induction ps generalizing before with
  | nil => trivial
  | cons p rest ih =>
      rw [undisturbed, Bool.and_eq_true] at calm
      rw [Demux.Undisturbed, captures.key_demux, captures.admits_demux clients]
      split
      · next opened =>
          obtain ⟨rfl, client⟩ := opened
          intro other
          refine captures.resumes_demux clients ?_
          have opener : opens inet testServers before p = true := by
            rw [opens, client, Bool.or_true, Bool.true_and, List.all_eq_true]
            intro q mem
            have noClient := fresh q mem
            simp only [rivals, List.isEmpty_eq_false_iff.mpr clients, Bool.false_or,
              Bool.not_eq_true', Bool.and_eq_false_imp, decide_eq_true_eq]
            exact noClient
          simpa [other, opener] using calm.1
      · next closed =>
          apply ih _ calm.2
          intro q mem same
          rcases List.mem_append.mp mem with earlier | last
          · exact fresh q earlier same
          · rw [List.mem_singleton.mp last] at same ⊢
            exact Bool.eq_false_iff.mpr fun client => closed ⟨same, client⟩

/-- Without clients any own packet is a rival: the first one resumes the flow. -/
theorem head_of_resumes (resumed : resumes inet ∅ own inert f ps = true)
    (q : TransportPacket) (first : q ∈ (ps.filter own).head?) :
    tcpIpGetKey q = tcpIpGetKey f ∧ q.source = f.source := by
  induction ps with
  | nil => cases first
  | cons p rest ih =>
      rw [resumes] at resumed
      cases mine : own p with
      | true =>
          rw [if_pos mine, if_pos (by rfl)] at resumed
          rw [List.filter_cons_of_pos mine, List.head?_cons, Option.mem_some_iff] at first
          rw [← first]
          simpa using resumed
      | false =>
          rw [if_neg (by simp [mine])] at resumed
          rw [List.filter_cons_of_neg (by simp [mine])] at first
          exact ih resumed first

/-- A packet of the other transport that comes first is one of the client whose own
packet comes first. -/
theorem Captures.head_demux (captures : Captures inet factory own inert)
    (calm : undisturbed inet ∅ own inert [] ps = true) :
    ∀ f ∈ ps.head?, own f = false → ∀ q ∈ (ps.filter own).head?,
      (demux factory ∅).key q = (demux factory ∅).key f ∧
        (demux factory ∅).create q = (demux factory ∅).create f := by
  intro f first other q next
  cases ps with
  | nil => cases first
  | cons p rest =>
      cases first
      rw [undisturbed, Bool.and_eq_true] at calm
      have resumed : PacketReplay.resumes inet ∅ own inert f rest = true := by
        simpa [other, opens] using calm.1
      rw [List.filter_cons_of_neg (by simp [other])] at next
      obtain ⟨same, sender⟩ := head_of_resumes resumed q next
      rw [captures.key_demux, captures.key_demux]
      exact ⟨same, captures.create_demux_congr same sender⟩

/-- Without a test server only the first client is recorded. -/
theorem Captures.recordedAt_filter_of_lone (captures : Captures inet factory own inert)
    (calm : undisturbed inet ∅ own inert [] ps = true) (key : Bytes) :
    recordedAt ((demux factory ∅).run ∅ ps) key =
      recordedAt ((demux factory ∅).run ∅ (ps.filter own)) key := by
  rcases Demux.run_filter_of_lone demux_lone captures.ignores_demux (captures.head_demux calm) with
    same | ⟨empty, f, lone⟩
  · rw [same]
  · have nothing : recordedAt (∅ : AList fun _ : Bytes => T) key = none :=
      recordedAt_eq_none fun c found => by rw [AList.lookup_empty] at found; cases found
    rw [empty, lone, nothing]
    refine recordedAt_eq_none fun c found => ?_
    have entry := AList.mem_lookup_iff.mp found
    rw [AList.singleton_entries, List.mem_singleton] at entry
    cases entry
    exact captures.create_empty f _

/-- With test servers each client is recorded by itself. -/
theorem Captures.recordedAt_filter_of_clients (captures : Captures inet factory own inert)
    (clients : testServers.entries ≠ [])
    (calm : undisturbed inet testServers own inert [] ps = true) (key : Bytes) :
    recordedAt ((demux factory testServers).run ∅ ps) key =
      recordedAt ((demux factory testServers).run ∅ (ps.filter own)) key := by
  have fixed := demux_fixed factory clients
  have calm_at : (demux factory testServers).Undisturbed own key ps :=
    captures.undisturbed_demux clients (by simp) calm
  have whole := Demux.lookup_run fixed (AList.lookup_empty key) ps
  have filtered := Demux.lookup_run fixed (AList.lookup_empty key) (ps.filter own)
  rcases Demux.record_filter captures.ignores_demux calm_at with same | ⟨missing, f, fresh⟩
  · rw [recordedAt, recordedAt, whole, filtered, same]
  · rw [recordedAt_eq_none, recordedAt_eq_none]
    · intro c found
      rw [filtered, missing] at found
      cases found
    · intro c found
      rw [whole, fresh] at found
      cases found
      exact captures.create_empty f _

/-- Leaving out the packets of the other transport does not change what is recorded. -/
theorem Captures.recorded_filter (captures : Captures inet factory own inert)
    (calm : undisturbed inet testServers own inert [] ps = true) :
    recorded (load factory ⟨testServers, ∅⟩ ps) =
      recorded (load factory ⟨testServers, ∅⟩ (ps.filter own)) := by
  rw [load_eq, load_eq]
  refine recorded_congr fun key => ?_
  by_cases clients : testServers.entries = []
  · obtain rfl : testServers = ∅ := AList.ext clients
    exact captures.recordedAt_filter_of_lone calm key
  · exact captures.recordedAt_filter_of_clients clients calm key

end Leaving

/-- A TCP store records the same without the UDP packets, and a UDP store without the
TCP packets, when no packet of the other transport disturbs it. -/
theorem recorded_eq_recorded_filter (inet : Inet) (testServers : TestServers)
    (packets : List TransportPacket) :
    (undisturbed inet testServers TransportPacket.isTcp tcpInert [] packets = true →
      recorded (load (tcpConversationFactory inet) ⟨testServers, ∅⟩ packets) =
        recorded (load (tcpConversationFactory inet) ⟨testServers, ∅⟩
          (packets.filter TransportPacket.isTcp))) ∧
    (undisturbed inet testServers TransportPacket.isUdp udpInert [] packets = true →
      recorded (load (udpConversationFactory inet) ⟨testServers, ∅⟩ packets) =
        recorded (load (udpConversationFactory inet) ⟨testServers, ∅⟩
          (packets.filter TransportPacket.isUdp))) :=
  ⟨(tcp_captures inet).recorded_filter, (udp_captures inet).recorded_filter⟩

/-- A client whose name service packet opens a conversation of its own. -/
theorem recorded_eq_recorded_filter_nameService :
    recorded (load (tcpConversationFactory dottedInet)
        ⟨(∅ : TestServers).insert (ascii "10.0.0.1") none, ∅⟩
        (between 1 2 (.udp ⟨9, 53, ascii "query"⟩) :: handshake 1 3 7 80)) =
      recorded (load (tcpConversationFactory dottedInet)
        ⟨(∅ : TestServers).insert (ascii "10.0.0.1") none, ∅⟩
        ((between 1 2 (.udp ⟨9, 53, ascii "query"⟩) :: handshake 1 3 7 80).filter
          TransportPacket.isTcp)) ∧
    recorded (load (udpConversationFactory dottedInet)
        ⟨(∅ : TestServers).insert (ascii "10.0.0.1") none, ∅⟩
        (between 1 2 (.udp ⟨9, 53, ascii "query"⟩) :: handshake 1 3 7 80)) =
      recorded (load (udpConversationFactory dottedInet)
        ⟨(∅ : TestServers).insert (ascii "10.0.0.1") none, ∅⟩
        ((between 1 2 (.udp ⟨9, 53, ascii "query"⟩) :: handshake 1 3 7 80).filter
          TransportPacket.isUdp)) :=
  ⟨(recorded_eq_recorded_filter _ _ _).1 (by decide +kernel),
    (recorded_eq_recorded_filter _ _ _).2 (by decide +kernel)⟩

/-- Without clients a name service packet takes the place of the connection. -/
theorem not_recorded_eq_recorded_filter :
    ¬ ∀ (inet : Inet) (testServers : TestServers) (packets : List TransportPacket),
      recorded (load (tcpConversationFactory inet) ⟨testServers, ∅⟩ packets) =
          recorded (load (tcpConversationFactory inet) ⟨testServers, ∅⟩
            (packets.filter TransportPacket.isTcp)) ∧
        recorded (load (udpConversationFactory inet) ⟨testServers, ∅⟩ packets) =
          recorded (load (udpConversationFactory inet) ⟨testServers, ∅⟩
            (packets.filter TransportPacket.isUdp)) := by
  intro same
  have tcp := (same dottedInet ∅
    (between 1 2 (.udp ⟨9, 53, ascii "query"⟩) :: handshake 1 3 7 80)).1
  revert tcp
  decide +kernel

end TypedConversationStore

end PacketReplay
