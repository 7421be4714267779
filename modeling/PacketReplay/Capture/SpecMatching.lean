import PacketReplay.Capture.IpV6Text
import PacketReplay.Lib.Registry

/-!
# Which spec a packet is matched with

The specs of a store are filed under texts, in which an IPv6 address is not told from a
shorter one with a port behind it: the spec `[fe80::1]:20480` is found by the packets of
`fe80::1:80`. `matchedExactly_iff` says when the right spec is found all the same,
however the specs of different clients are ordered; for IPv4 it always is
(`not_stray_of_inet`).
-/

namespace PacketReplay

open Lib

namespace SpecMatching

/-! ## The test servers of a list of specs -/

/-- The specs are added one after the other. -/
def addTargetTestServers (inet : Inet) (testServers : TestServers) (specs : List Bytes) :
    Outcome TestServers :=
  specs.foldlM (addTargetTestServer inet) testServers

/-- A spec that is accepted, with its ports in range. -/
structure Accepted (inet : Inet) (spec : Bytes) : Prop where
  created : ∃ entry, tcpIpCreateTargetTestServer inet spec = .ok entry
  inRange : ∀ s ∈ readSpec inet spec, s.InRange

/-- The client that a spec is for. -/
def sourceOf (inet : Inet) (spec : Bytes) : Option (AddrFamily × Bytes × Option Nat) :=
  (readSpec inet spec).map ClientSpec.source

/-- The text that stands for the client of a spec. -/
def keyOf (inet : Inet) (spec : Bytes) : Bytes :=
  match readSpec inet spec with
  | some s => s.key inet
  | none => []

/-- The test server for the client of a spec, if there is one. -/
def serverOf (inet : Inet) (spec : Bytes) : Option TargetTestServer :=
  (readSpec inet spec).bind (ClientSpec.server inet)

/-! ## The spec that is meant and the one that is found -/

section Matching

variable (inet : Inet) (specs : List Bytes) (packet : TransportPacket)

/-- The sender of a packet with its port number. -/
def senderPort : AddrFamily × Bytes × Option Nat :=
  (packet.network.family, packet.network.srcAddr, some (ntohs packet.transport.srcPort).toNat)

def senderAddr : AddrFamily × Bytes × Option Nat :=
  (packet.network.family, packet.network.srcAddr, none)

/-- The spec that is meant for a packet: the last for its address and port, or else the
last for its address. -/
def best : Option Bytes :=
  (lastWith (sourceOf inet) (some (senderPort packet)) specs).or
    (lastWith (sourceOf inet) (some (senderAddr packet)) specs)

/-- The keys of a packet. -/
def keyPort : Bytes :=
  clientKey inet packet.network.family packet.network.srcAddr (some packet.transport.srcPort)

def keyAddr : Bytes := clientKey inet packet.network.family packet.network.srcAddr none

/-- The spec that a packet finds. -/
def found : Option Bytes :=
  (lastWith (keyOf inet) (keyPort inet packet) specs).or
    (lastWith (keyOf inet) (keyAddr inet packet) specs)

/-- In whatever order the specs of different clients are added, a packet of an unknown
flow is taken for configured exactly when there is a spec for it, and it is given the
test server of the spec that is meant. -/
def MatchedExactly {T : Type} (factory : ConversationFactory T) : Prop :=
  ∀ other, Reordered (sourceOf inet) specs other →
    ∃ testServers, addTargetTestServers inet ∅ other = .ok testServers ∧
      TypedConversationStore.configured factory testServers packet =
        (best inet specs packet).map (serverOf inet)

/-- A spec for another client: it has no port, and the text of its address is that of
the sender with the port behind it; or the text of the sender's address is that of the
client with the port of the spec behind it, and no spec has the text of the sender with
the port. -/
def Stray (spec : Bytes) : Prop :=
  ∃ s, readSpec inet spec = some s ∧
    (s.srcPort = none ∧ s.key inet = keyPort inet packet ∨
      s.srcPort ≠ none ∧ s.key inet = keyAddr inet packet ∧
        ∀ other ∈ specs, keyOf inet other ≠ keyPort inet packet)

/-- The strays, those that a later spec for the same client replaces left out, lead to
the same test server as the spec that is meant. -/
def Unmistaken : Prop :=
  ∀ spec, lastWith (sourceOf inet) (sourceOf inet spec) specs = some spec →
    Stray inet specs packet spec →
      (best inet specs packet).map (serverOf inet) = some (serverOf inet spec)

end Matching

/-! ## Clients and their texts -/

section Keys

variable {inet : Inet}

theorem keyOf_eq {spec : Bytes} {s : ClientSpec} (read : readSpec inet spec = some s) :
    keyOf inet spec = s.key inet := by
  rw [keyOf, read]

theorem sourceOf_eq {spec : Bytes} {s : ClientSpec} (read : readSpec inet spec = some s) :
    sourceOf inet spec = some s.source := by
  rw [sourceOf, read, Option.map_some]

/-- Specs for one client have one text. -/
theorem keyOf_eq_of_sourceOf_eq {a b : Bytes} (same : sourceOf inet a = sourceOf inet b) :
    keyOf inet a = keyOf inet b := by
  rw [sourceOf, sourceOf] at same
  rw [keyOf, keyOf]
  cases readA : readSpec inet a with
  | none =>
      rw [readA, Option.map_none] at same
      rw [Option.map_eq_none_iff.mp same.symm]
  | some s =>
      rw [readA, Option.map_some] at same
      obtain ⟨t, readB, source⟩ := Option.map_eq_some_iff.mp same.symm
      simp only [ClientSpec.source, Prod.mk.injEq] at source
      simp only [readB, ClientSpec.key, source]

theorem keyOf_of_senderPort {packet : TransportPacket} {spec : Bytes}
    (source : sourceOf inet spec = some (senderPort packet)) :
    keyOf inet spec = keyPort inet packet := by
  obtain ⟨s, read, parts⟩ := Option.map_eq_some_iff.mp source
  simp only [ClientSpec.source, senderPort, Prod.mk.injEq] at parts
  have port : htons ((ntohs packet.transport.srcPort).toNat : Nat) = packet.transport.srcPort :=
    (htons_eq_iff (UInt16.toNat_lt _)).mpr rfl
  rw [keyOf_eq read, ClientSpec.key, keyPort, parts.1, parts.2.1, parts.2.2, Option.map_some, port]

theorem keyOf_of_senderAddr {packet : TransportPacket} {spec : Bytes}
    (source : sourceOf inet spec = some (senderAddr packet)) :
    keyOf inet spec = keyAddr inet packet := by
  obtain ⟨s, read, parts⟩ := Option.map_eq_some_iff.mp source
  simp only [ClientSpec.source, senderAddr, Prod.mk.injEq] at parts
  rw [keyOf_eq read, ClientSpec.key, keyAddr, parts.1, parts.2.1, parts.2.2, Option.map_none]

variable (canonical : inet.Canonical)

include canonical

theorem family_of_key {spec : Bytes} {s : ClientSpec} (read : readSpec inet spec = some s)
    {packet : TransportPacket} {port : Option UInt16}
    (same : s.key inet =
      clientKey inet packet.network.family packet.network.srcAddr port) :
    s.family = packet.network.family :=
  canonical.family_eq_of_clientKey_eq (length_of_readSpec canonical read).1
    packet.network.srcAddr_length same

/-- One text of an address stands for one client. -/
theorem srcAddr_of_ntop {spec : Bytes} {s : ClientSpec} (read : readSpec inet spec = some s)
    {packet : TransportPacket} (family : s.family = packet.network.family)
    (text : inet.ntop s.family s.srcAddr =
      inet.ntop packet.network.family packet.network.srcAddr) :
    s.srcAddr = packet.network.srcAddr := by
  have size := (length_of_readSpec canonical read).1
  rw [family] at size text
  exact canonical.ntop_injective size packet.network.srcAddr_length text

/-- A spec with a port that has the text of the sender and its port is for this sender. -/
theorem sourceOf_of_keyPort {spec : Bytes} {s : ClientSpec} {n : Nat}
    (read : readSpec inet spec = some s) (inRange : s.InRange) (port : s.srcPort = some n)
    {packet : TransportPacket} (same : s.key inet = keyPort inet packet) :
    sourceOf inet spec = some (senderPort packet) := by
  have family := family_of_key canonical read same
  rw [ClientSpec.key, port] at same
  obtain ⟨text, number⟩ := clientKey_some_inj same
  have addr := srcAddr_of_ntop canonical read family text
  have n_eq := (htons_eq_iff (inRange.1 n port)).mp number
  rw [sourceOf_eq read, ClientSpec.source, senderPort, family, addr, port, n_eq]

/-- A spec without a port that has the text of the sender's address is for this address. -/
theorem sourceOf_of_keyAddr {spec : Bytes} {s : ClientSpec} (read : readSpec inet spec = some s)
    (port : s.srcPort = none) {packet : TransportPacket}
    (same : s.key inet = keyAddr inet packet) :
    sourceOf inet spec = some (senderAddr packet) := by
  have family := family_of_key canonical read same
  rw [ClientSpec.key, port] at same
  have addr := srcAddr_of_ntop canonical read family same
  rw [sourceOf_eq read, ClientSpec.source, senderAddr, family, addr, port]

/-- An IPv4 text tells whether there is a port. -/
theorem srcPort_eq_none_iff {spec : Bytes} {s : ClientSpec} (read : readSpec inet spec = some s)
    {packet : TransportPacket} (family : packet.network.family = .inet) {port : Option UInt16}
    (same : s.key inet =
      clientKey inet packet.network.family packet.network.srcAddr port) :
    s.srcPort = none ↔ port = none := by
  have inet4 := family_of_key canonical read same
  have size := (length_of_readSpec canonical read).1
  have senderSize := packet.network.srcAddr_length
  rw [inet4, family] at size
  rw [family] at senderSize
  rw [ClientSpec.key, inet4, family] at same
  have colon := canonical.colon_mem_clientKey_iff size (s.srcPort.map fun n : Nat => htons n)
  rw [same, canonical.colon_mem_clientKey_iff senderSize, not_iff_not,
    Option.map_eq_none_iff] at colon
  exact colon.symm

/-- For packets of IPv4 there are no strays. -/
theorem not_stray_of_inet {specs : List Bytes} {packet : TransportPacket} {spec : Bytes}
    (family : packet.network.family = .inet) : ¬ Stray inet specs packet spec := by
  intro stray
  rcases stray with ⟨s, read, ⟨port, same⟩ | ⟨port, same, -⟩⟩
  · cases (srcPort_eq_none_iff canonical read family same).mp port
  · exact port ((srcPort_eq_none_iff canonical read family same).mpr rfl)

end Keys

/-! ## Looking up -/

section Exact

variable {inet : Inet} (canonical : inet.Canonical)

include canonical

theorem addTargetTestServers_eq {specs : List Bytes}
    (accepted : ∀ spec ∈ specs, Accepted inet spec) (testServers : TestServers) :
    addTargetTestServers inet testServers specs =
      .ok (specs.foldl (fun filed spec => filed.insert (keyOf inet spec) (serverOf inet spec))
        testServers) := by
  induction specs generalizing testServers with
  | nil => rfl
  | cons spec specs ih =>
      obtain ⟨first, rest⟩ := List.forall_mem_cons.mp accepted
      rcases first.created with ⟨entry, created⟩
      obtain ⟨s, read, rfl⟩ := create_eq_ok canonical created
      have added : addTargetTestServer inet testServers spec =
          .ok (testServers.insert (keyOf inet spec) (serverOf inet spec)) := by
        rw [addTargetTestServer, keyOf, serverOf, created, read]
        rfl
      rw [addTargetTestServers, List.foldlM_cons, added, List.foldl_cons, ← ih rest]
      rfl

section Lookup

variable {T : Type} {factory : ConversationFactory T}
  (keys : factory.getTargetTestServerKeys = tcpIpGetTargetTestServerKeys inet)
  {specs : List Bytes} {packet : TransportPacket}

include keys

/-- The loop over the keys of a packet finds the test server of the last spec that is
filed under the first of them with a spec. -/
theorem configured_foldl (specs : List Bytes) (packet : TransportPacket) :
    TypedConversationStore.configured factory
      (specs.foldl (fun filed spec => filed.insert (keyOf inet spec) (serverOf inet spec)) ∅)
      packet = (found inet specs packet).map (serverOf inet) := by
  rw [TypedConversationStore.configured, keys, canonical.targetTestServerKeys_eq, found,
    Option.map_or, keyPort, keyAddr]
  simp only [List.findSome?_cons, List.findSome?_nil, lookup_foldl_insert]
  cases lastWith (keyOf inet)
    (clientKey inet packet.network.family packet.network.srcAddr (some packet.transport.srcPort))
    specs with
  | some spec => rfl
  | none =>
      cases lastWith (keyOf inet)
        (clientKey inet packet.network.family packet.network.srcAddr none) specs with
      | some spec => rfl
      | none => rfl

theorem matchedExactly_iff_found (accepted : ∀ spec ∈ specs, Accepted inet spec) :
    MatchedExactly inet specs packet factory ↔
      ∀ other, Reordered (sourceOf inet) specs other →
        (found inet other packet).map (serverOf inet) =
          (best inet specs packet).map (serverOf inet) := by
  have add : ∀ other, Reordered (sourceOf inet) specs other →
      addTargetTestServers inet ∅ other = .ok
        (other.foldl (fun filed spec => filed.insert (keyOf inet spec) (serverOf inet spec))
          ∅) := by
    intro other reordered
    apply addTargetTestServers_eq canonical
    exact fun spec mem => accepted spec (reordered.mem_iff.mp mem)
  constructor
  · intro exactly other reordered
    obtain ⟨testServers, added, matched⟩ := exactly other reordered
    rw [add other reordered] at added
    cases added
    rw [← matched, configured_foldl canonical keys]
  · intro same other reordered
    refine ⟨_, add other reordered, ?_⟩
    rw [configured_foldl canonical keys, same other reordered]

end Lookup

variable {specs : List Bytes} {packet : TransportPacket}

/-- What is found where the strays do no harm. -/
theorem found_of_unmistaken (accepted : ∀ spec ∈ specs, Accepted inet spec)
    (unmistaken : Unmistaken inet specs packet) {other : List Bytes}
    (reordered : Reordered (sourceOf inet) specs other) :
    (found inet other packet).map (serverOf inet) =
      (best inet specs packet).map (serverOf inet) := by
  -- the last spec of a text is the last for its client, in both orders
  have last : ∀ key spec, lastWith (keyOf inet) key other = some spec →
      lastWith (sourceOf inet) (sourceOf inet spec) specs = some spec := by
    intro key spec filed
    rw [← reordered.lastWith_eq]
    exact lastWith_source (fun b _ same => keyOf_eq_of_sourceOf_eq same) filed
  have meaning : ∀ key spec, lastWith (keyOf inet) key other = some spec →
      ∃ s, readSpec inet spec = some s ∧ s.InRange ∧ s.key inet = key := by
    intro key spec filed
    obtain ⟨mem, same⟩ := mem_of_lastWith filed
    have known := accepted spec (reordered.mem_iff.mp mem)
    rcases known.created with ⟨entry, created⟩
    obtain ⟨s, read, -⟩ := create_eq_ok canonical created
    exact ⟨s, read, known.inRange s read, (keyOf_eq read).symm.trans same⟩
  rw [found]
  cases first : lastWith (keyOf inet) (keyPort inet packet) other with
  | some spec =>
      have current := last _ spec first
      obtain ⟨s, read, inRange, key⟩ := meaning _ spec first
      rw [Option.some_or, Option.map_some]
      cases port : s.srcPort with
      | none => exact (unmistaken spec current ⟨s, read, Or.inl ⟨port, key⟩⟩).symm
      | some n =>
          rw [sourceOf_of_keyPort canonical read inRange port key] at current
          rw [best, current]
          rfl
  | none =>
      have noneFirst : ∀ spec ∈ specs, keyOf inet spec ≠ keyPort inet packet :=
        fun spec mem => lastWith_eq_none_iff.mp first spec (reordered.mem_iff.mpr mem)
      have nonePort : lastWith (sourceOf inet) (some (senderPort packet)) specs = none :=
        reordered.lastWith_eq_none first fun spec source => keyOf_of_senderPort source
      rw [Option.none_or]
      cases second : lastWith (keyOf inet) (keyAddr inet packet) other with
      | some spec =>
          have current := last _ spec second
          obtain ⟨s, read, -, key⟩ := meaning _ spec second
          rw [Option.map_some]
          cases port : s.srcPort with
          | some n =>
              have has_port : s.srcPort ≠ none := by
                rw [port]
                exact Option.some_ne_none n
              exact (unmistaken spec current
                ⟨s, read, Or.inr ⟨has_port, key, noneFirst⟩⟩).symm
          | none =>
              rw [sourceOf_of_keyAddr canonical read port key] at current
              rw [best, nonePort, current]
              rfl
      | none =>
          have noneAddr : lastWith (sourceOf inet) (some (senderAddr packet)) specs = none :=
            reordered.lastWith_eq_none second fun spec source => keyOf_of_senderAddr source
          rw [best, nonePort, noneAddr]
          rfl

omit canonical in
/-- A stray can be what is found. -/
theorem exists_found_of_stray {spec : Bytes}
    (current : lastWith (sourceOf inet) (sourceOf inet spec) specs = some spec)
    (stray : Stray inet specs packet spec) :
    ∃ other, Reordered (sourceOf inet) specs other ∧ found inet other packet = some spec := by
  obtain ⟨other, reordered, last⟩ := exists_reordered_lastWith (keyOf inet)
    (fun b _ same => keyOf_eq_of_sourceOf_eq same) current
  refine ⟨other, reordered, ?_⟩
  rcases stray with ⟨s, read, filed⟩
  rw [keyOf_eq read] at last
  rcases filed with ⟨-, key⟩ | ⟨-, key, noneFirst⟩
  · rw [key] at last
    rw [found, last]
    rfl
  · have first : lastWith (keyOf inet) (keyPort inet packet) other = none := by
      rw [lastWith_eq_none_iff]
      exact fun b inOther => noneFirst b (reordered.mem_iff.mp inOther)
    rw [key] at last
    rw [found, first, last]
    rfl

/-- Packets are matched with the right spec, in every order of the specs for different
clients, exactly when the strays lead to the test server of the spec that is meant. -/
theorem matchedExactly_iff (accepted : ∀ spec ∈ specs, Accepted inet spec)
    (packet : TransportPacket) :
    (MatchedExactly inet specs packet (tcpConversationFactory inet) ↔
        Unmistaken inet specs packet) ∧
      (MatchedExactly inet specs packet (udpConversationFactory inet) ↔
        Unmistaken inet specs packet) := by
  have same_iff : (∀ other, Reordered (sourceOf inet) specs other →
      (found inet other packet).map (serverOf inet) =
        (best inet specs packet).map (serverOf inet)) ↔ Unmistaken inet specs packet := by
    constructor
    · intro same spec current stray
      obtain ⟨other, reordered, finds⟩ := exists_found_of_stray current stray
      rw [← same other reordered, finds, Option.map_some]
    · exact fun unmistaken other reordered =>
        found_of_unmistaken canonical accepted unmistaken reordered
  rw [matchedExactly_iff_found canonical rfl accepted,
    matchedExactly_iff_found canonical rfl accepted, same_iff]
  exact ⟨Iff.rfl, Iff.rfl⟩

end Exact

/-- A client with its port and the same client without. -/
theorem matchedExactly_iff_inet :
    MatchedExactly numericInet [ascii "10.0.0.1:80", ascii "10.0.0.1"]
      (between 1 3 (.tcp ⟨htons 80, htons 7, thSyn, []⟩)) (tcpConversationFactory numericInet) := by
  have accepted : ∀ spec ∈ [ascii "10.0.0.1:80", ascii "10.0.0.1"], Accepted numericInet spec := by
    intro spec mem
    rcases List.mem_pair.mp mem with rfl | rfl
    · exact ⟨⟨(ascii "10.0.0.1:20480", none), by decide +kernel⟩, by decide +kernel⟩
    · exact ⟨⟨(ascii "10.0.0.1", none), by decide +kernel⟩, by decide +kernel⟩
  refine (matchedExactly_iff numericInet_canonical accepted _).1.mpr ?_
  intro spec _ stray
  exact absurd stray (not_stray_of_inet numericInet_canonical rfl)

/-- The packets of `fe80::1:80` find the spec `[fe80::1]:20480`. -/
theorem not_matchedExactly_inet6 :
    ¬ ∀ inet : Inet, inet.Canonical → ∀ specs : List Bytes,
      (∀ spec ∈ specs, Accepted inet spec) →
      ∀ packet, MatchedExactly inet specs packet (tcpConversationFactory inet) := by
  intro always
  have accepted : ∀ spec ∈ [ascii "[fe80::1]:20480"], Accepted numericInet spec := by
    intro spec mem
    rw [List.mem_singleton.mp mem]
    exact ⟨⟨(ascii "fe80::1:80", none), by decide +kernel⟩, by decide +kernel⟩
  have exactly := always numericInet numericInet_canonical _ accepted
    ⟨⟨.inet6, [254, 128, 0, 0, 0, 0, 0, 0, 0, 0, 0, 0, 0, 1, 0, 128],
      [254, 128, 0, 0, 0, 0, 0, 0, 0, 0, 0, 0, 0, 0, 0, 2], rfl, rfl⟩,
      .tcp ⟨htons 7, htons 80, thSyn, []⟩⟩
  obtain ⟨testServers, added, matched⟩ := exactly _ fun _ => rfl
  rw [addTargetTestServers_eq numericInet_canonical accepted] at added
  cases added
  revert matched
  decide +kernel

end SpecMatching

end PacketReplay
