import PacketReplay.Capture.Conversation
import PacketReplay.Capture.Key
import PacketReplay.Lib.Demux

/-!
# The conversation store

`TypedConversationStore` and the part of `Capture::packetHandler` behind the parsing
of a packet: the packet goes to the conversation that `getConversation` finds or
creates for it. The two maps are association lists, since nothing here depends on
the order in which a `std::map` goes through its entries. With its test servers fixed
a store is a demultiplexer (`conversations_load`).
-/

namespace PacketReplay

open Lib

/-- What the kinds of conversations override. -/
class Conversation (T : Type) : Type where
  toPacketConversation : T → PacketConversation
  processCapturePacket : T → TransportPacket → T

open Conversation (toPacketConversation processCapturePacket)

instance : Conversation TcpConversation where
  toPacketConversation := TcpConversation.toPacketConversation
  processCapturePacket := TcpConversation.processCapturePacket

instance : Conversation UdpConversation where
  toPacketConversation := UdpConversation.toPacketConversation
  processCapturePacket := UdpConversation.processCapturePacket

structure ConversationFactory (T : Type) : Type where
  getTargetTestServerKeys : TransportPacket → List Bytes
  getKey : TransportPacket → Bytes
  createConversation : TransportPacket → Option TargetTestServer → T

def tcpConversationFactory (inet : Inet) : ConversationFactory TcpConversation where
  getTargetTestServerKeys := tcpIpGetTargetTestServerKeys inet
  getKey := tcpIpGetKey
  createConversation := TcpConversation.ofPacket inet

def udpConversationFactory (inet : Inet) : ConversationFactory UdpConversation where
  getTargetTestServerKeys := tcpIpGetTargetTestServerKeys inet
  getKey := tcpIpGetKey
  createConversation := UdpConversation.ofPacket inet

/-- The configured clients by their keys. A client without a test server of its own
has a null pointer. -/
abbrev TestServers : Type := AList fun _ : Bytes => Option TargetTestServer

structure TypedConversationStore (T : Type) : Type where
  testServers : TestServers
  conversations : AList fun _ : Bytes => T := ∅

namespace TypedConversationStore

variable {T : Type}

/-- The loop over the keys of a packet: the entry of the first that is configured. -/
def configured (factory : ConversationFactory T) (testServers : TestServers)
    (packet : TransportPacket) : Option (Option TargetTestServer) :=
  (factory.getTargetTestServerKeys packet).findSome? fun key => testServers.lookup key

theorem configured_empty (factory : ConversationFactory T) (packet : TransportPacket) :
    configured factory ∅ packet = none := by
  rw [configured, List.findSome?_eq_none_iff]
  exact fun key _ => AList.lookup_empty key

/-- The conversation of a packet, if there is one, and the store with it. -/
def getConversation (factory : ConversationFactory T) (store : TypedConversationStore T)
    (packet : TransportPacket) : Option T × TypedConversationStore T :=
  let convKey := factory.getKey packet
  match store.conversations.lookup convKey with
  | some conversation => (some conversation, store)
  | none =>
      let found := configured factory store.testServers packet
      if found.isSome || store.testServers.entries.isEmpty && store.conversations.entries.isEmpty
      then
        let conversation := factory.createConversation packet found.join
        (some conversation,
          { store with conversations := store.conversations.insert convKey conversation })
      else (none, store)

/-- The end of `packetHandler`. The conversation is the one the map points to. -/
def packetHandler [Conversation T] (factory : ConversationFactory T)
    (store : TypedConversationStore T) (packet : TransportPacket) : TypedConversationStore T :=
  match getConversation factory store packet with
  | (none, store) => store
  | (some conversation, store) =>
      { store with
        conversations := store.conversations.insert (factory.getKey packet)
          (processCapturePacket conversation packet) }

/-- The loop over the packets of a capture. -/
def load [Conversation T] (factory : ConversationFactory T) (store : TypedConversationStore T)
    (packets : List TransportPacket) : TypedConversationStore T :=
  packets.foldl (packetHandler factory) store

/-- What is recorded: the action queues that are not empty. -/
def recorded [Conversation T] (store : TypedConversationStore T) : Multiset (List Action) :=
  (store.conversations.entries.map fun entry => (toPacketConversation entry.2).actionQueue).filter
    (· ≠ [])

/-! ## A store as a demultiplexer -/

/-- The demultiplexer of a store with these test servers. -/
def demux [Conversation T] (factory : ConversationFactory T) (testServers : TestServers) :
    Demux Bytes TransportPacket T where
  key := factory.getKey
  create packet :=
    factory.createConversation packet (configured factory testServers packet).join
  process := processCapturePacket
  admits packet none_yet :=
    (configured factory testServers packet).isSome || testServers.entries.isEmpty && none_yet

section Demultiplexing

variable [Conversation T] {factory : ConversationFactory T} {testServers : TestServers}

theorem packetHandler_eq (conversations : AList fun _ : Bytes => T) (packet : TransportPacket) :
    packetHandler factory ⟨testServers, conversations⟩ packet =
      ⟨testServers, (demux factory testServers).deliver conversations packet⟩ := by
  cases found : conversations.lookup (factory.getKey packet) with
  | some conversation =>
      rw [Demux.deliver_of_some found, packetHandler, getConversation]
      simp only [found]
      rfl
  | none =>
      cases admitted : (demux factory testServers).admits packet conversations.entries.isEmpty with
      | true =>
          rw [Demux.deliver_of_admitted found admitted, packetHandler, getConversation]
          simp only [demux] at admitted
          simp only [found, admitted, if_true, AList.insert_insert]
          rfl
      | false =>
          rw [Demux.deliver_of_not_admitted found admitted, packetHandler, getConversation]
          simp only [demux] at admitted
          simp only [found, admitted]
          rfl

/-- A capture is demultiplexed. -/
theorem load_eq (conversations : AList fun _ : Bytes => T) (packets : List TransportPacket) :
    load factory ⟨testServers, conversations⟩ packets =
      ⟨testServers, (demux factory testServers).run conversations packets⟩ := by
  induction packets generalizing conversations with
  | nil => rfl
  | cons packet packets ih =>
      rw [load, List.foldl_cons, packetHandler_eq, ← load, ih, Demux.run_cons]

/-- With clients configured a packet is admitted on its own account. -/
theorem demux_fixed (factory : ConversationFactory T) (some_client : testServers.entries ≠ [])
    (packet : TransportPacket) (none_yet : Bool) :
    (demux factory testServers).admits packet none_yet =
      (demux factory testServers).admits packet false := by
  simp [demux, some_client]

/-- Without clients the first packet opens the only conversation. -/
theorem demux_lone (packet : TransportPacket) (none_yet : Bool) :
    (demux factory ∅).admits packet none_yet = none_yet := by
  simp [demux, configured_empty]

end Demultiplexing

end TypedConversationStore

end PacketReplay
