import PacketReplay.Capture.Address
import PacketReplay.Capture.Store

/-!
# Flows do not disturb each other

With clients configured, the conversation of a flow is decided by the packets of the
flow alone: it is what they record from the first one on whose sender is a client
(`flow_isolation`). So captures in which every flow has the same packets in the same
order record the same conversations, however the flows are interleaved.
-/

namespace PacketReplay

open Lib

open Conversation (processCapturePacket)

namespace TypedConversationStore

variable {T : Type} (factory : ConversationFactory T) (testServers : TestServers)

/-- The sender of a packet is a configured client. -/
def FromClient (packet : TransportPacket) : Prop :=
  ∃ key ∈ factory.getTargetTestServerKeys packet, key ∈ testServers

instance (packet : TransportPacket) : Decidable (FromClient factory testServers packet) :=
  inferInstanceAs (Decidable (∃ key ∈ _, _))

/-- The packets with a key, in capture order. -/
def flow (key : Bytes) (packets : List TransportPacket) : List TransportPacket :=
  packets.filter fun p => factory.getKey p = key

/-- The packets with a key from the first one on that comes from a client. -/
def flowHistory (key : Bytes) (packets : List TransportPacket) : List TransportPacket :=
  (flow factory key packets).dropWhile fun p => ¬ FromClient factory testServers p

/-- The conversation that the packets of one flow are recorded in, the first of which
creates it. -/
def recordFlow [Conversation T] : List TransportPacket → Option T
  | [] => none
  | p :: ps =>
      some ((p :: ps).foldl processCapturePacket
        (factory.createConversation p (configured factory testServers p).join))

section Isolation

variable {factory testServers}

theorem isSome_configured_iff {packet : TransportPacket} :
    (configured factory testServers packet).isSome = true ↔
      FromClient factory testServers packet := by
  rw [configured, List.isSome_findSome?, List.any_eq_true]
  simp only [FromClient, AList.lookup_isSome]

/-- Two stores with the same conversation under every key hold the same entries. -/
theorem entries_perm {s t : AList fun _ : Bytes => T}
    (same : ∀ key, s.lookup key = t.lookup key) : s.entries.Perm t.entries := by
  apply List.lookup_ext s.nodupKeys t.nodupKeys
  intro key conversation
  have here : s.entries.dlookup key = t.entries.dlookup key := same key
  rw [here]

variable [Conversation T]

/-- Behind the first conversation a packet is admitted when it comes from a client. -/
theorem admits_demux_iff {packet : TransportPacket} :
    (demux factory testServers).admits packet false = true ↔
      FromClient factory testServers packet := by
  rw [← isSome_configured_iff]
  simp [demux]

theorem history_demux (key : Bytes) (packets : List TransportPacket) :
    (demux factory testServers).history key packets =
      flowHistory factory testServers key packets := by
  rw [Demux.history, flowHistory, flow]
  congr 1
  funext packet
  rw [Bool.eq_iff_iff, Bool.not_eq_true', Bool.eq_false_iff, ne_eq,
    admits_demux_iff, decide_eq_true_iff]

/-- The conversation of a key is what its flow records. -/
theorem lookup_load (some_client : testServers.entries ≠ []) (key : Bytes)
    (packets : List TransportPacket) :
    (load factory ⟨testServers, ∅⟩ packets).conversations.lookup key =
      recordFlow factory testServers (flowHistory factory testServers key packets) := by
  rw [load_eq, Demux.lookup_run (demux_fixed factory some_client) (AList.lookup_empty key),
    Demux.record_eq, history_demux]
  cases flowHistory factory testServers key packets with
  | nil => rfl
  | cons p ps => rfl

theorem isSome_lookup_load_iff (some_client : testServers.entries ≠ []) (key : Bytes)
    (packets : List TransportPacket) :
    ((load factory ⟨testServers, ∅⟩ packets).conversations.lookup key).isSome = true ↔
      ∃ p ∈ packets, factory.getKey p = key ∧ FromClient factory testServers p := by
  have opened : flowHistory factory testServers key packets ≠ [] ↔
      ∃ p ∈ packets, factory.getKey p = key ∧ FromClient factory testServers p := by
    rw [← history_demux, Demux.history_ne_nil_iff]
    simp only [admits_demux_iff]
    rfl
  rw [lookup_load some_client, ← opened]
  cases flowHistory factory testServers key packets with
  | nil => simp [recordFlow]
  | cons p ps => simp [recordFlow]

end Isolation

/-- A flow has a conversation exactly when one of its packets comes from a client, and
what it keeps is what the flow records on its own from that packet on. Captures with
the same flows record the same conversations. -/
theorem flow_isolation [Conversation T] (some_client : testServers.entries ≠ [])
    (packets : List TransportPacket) :
    (∀ key, ((load factory ⟨testServers, ∅⟩ packets).conversations.lookup key).isSome = true ↔
      ∃ p ∈ packets, factory.getKey p = key ∧ FromClient factory testServers p) ∧
    (∀ key, (load factory ⟨testServers, ∅⟩ packets).conversations.lookup key =
      recordFlow factory testServers (flowHistory factory testServers key packets)) ∧
    ∀ other, (∀ key, flow factory key packets = flow factory key other) →
      (load factory ⟨testServers, ∅⟩ packets).conversations.entries.Perm
        (load factory ⟨testServers, ∅⟩ other).conversations.entries := by
  refine ⟨fun key => isSome_lookup_load_iff some_client key packets,
    fun key => lookup_load some_client key packets, fun other same => ?_⟩
  apply entries_perm
  intro key
  rw [lookup_load some_client, lookup_load some_client, flowHistory, flowHistory, same key]

/-- Two connections of one client, packet by packet. -/
theorem flow_isolation_twoConnections :
    (load (tcpConversationFactory dottedInet)
        ⟨(∅ : TestServers).insert (ascii "10.0.0.1") none, ∅⟩
        (handshake 1 3 7 80 ++ handshake 1 4 7 80)).conversations.entries.Perm
      (load (tcpConversationFactory dottedInet)
        ⟨(∅ : TestServers).insert (ascii "10.0.0.1") none, ∅⟩
        (handshake 1 4 7 80 ++ handshake 1 3 7 80)).conversations.entries := by
  refine (flow_isolation (tcpConversationFactory dottedInet) _ (by decide +kernel) _).2.2 _ ?_
  intro key
  have apart : ∀ p ∈ handshake 1 3 7 80, ∀ q ∈ handshake 1 4 7 80,
      tcpIpGetKey p ≠ tcpIpGetKey q := by decide +kernel
  rw [flow, flow, List.filter_append, List.filter_append]
  by_cases first : ∃ p ∈ handshake 1 3 7 80, tcpIpGetKey p = key
  · obtain ⟨p, mem, rfl⟩ := first
    have none_second : (handshake 1 4 7 80).filter
        (fun q => (tcpConversationFactory dottedInet).getKey q = tcpIpGetKey p) = [] := by
      rw [List.filter_eq_nil_iff]
      intro q other
      rw [decide_eq_true_iff]
      exact fun same => apart p mem q other same.symm
    rw [none_second, List.append_nil, List.nil_append]
  · have none_first : (handshake 1 3 7 80).filter
        (fun q => (tcpConversationFactory dottedInet).getKey q = key) = [] := by
      rw [List.filter_eq_nil_iff]
      intro q mem
      rw [decide_eq_true_iff]
      exact fun same => first ⟨q, mem, same⟩
    rw [none_first, List.append_nil, List.nil_append]

end TypedConversationStore

end PacketReplay
