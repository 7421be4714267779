import Mathlib.Data.List.Sort
import PacketReplay.Capture.FlowIsolation
import PacketReplay.Capture.OtherTransport

/-!
# The packet that opens a conversation

A conversation of a store that has loaded packets is what its flow has recorded, from the
packet on that opened it (`exists_opener`), and every such packet has opened a conversation
(`lookup_of_opens`).
-/

namespace PacketReplay

open Lib

namespace TypedConversationStore

/-- The conversations in the order of their keys. -/
def getConversations {T : Type} (store : TypedConversationStore T) : List T :=
  (store.conversations.entries.insertionSort fun a b => a.1 ≤ b.1).map Sigma.snd

theorem mem_getConversations {T : Type} {store : TypedConversationStore T} {c : T} :
    c ∈ store.getConversations ↔ ∃ key, store.conversations.lookup key = some c := by
  rw [getConversations, List.mem_map]
  constructor
  · rintro ⟨⟨key, d⟩, mem, rfl⟩
    rw [List.mem_insertionSort] at mem
    exact ⟨key, AList.mem_lookup_iff.mpr mem⟩
  · rintro ⟨key, found⟩
    exact ⟨⟨key, c⟩, (List.mem_insertionSort _).mpr (AList.mem_lookup_iff.mp found), rfl⟩

theorem nodupKeys_of_sorted {T : Type} {entries : List (Sigma fun _ : Bytes => T)}
    (sorted : entries.Pairwise fun a b => a.1 < b.1) : entries.NodupKeys := by
  rw [List.nodupKeys_iff_pairwise]
  refine sorted.imp fun {a b} less same => ?_
  rw [same] at less
  exact List.lt_irrefl b.1 less

/-- Conversations that are given in the order of their keys. -/
theorem getConversations_eq {T : Type} {store : TypedConversationStore T}
    {entries : List (Sigma fun _ : Bytes => T)}
    (sorted : entries.Pairwise fun a b => a.1 < b.1)
    (found : ∀ key, store.conversations.lookup key = entries.dlookup key) :
    store.getConversations = entries.map Sigma.snd := by
  have nodup := nodupKeys_of_sorted sorted
  have perm : store.conversations.entries.Perm entries :=
    entries_perm (t := ⟨entries, nodup⟩) found
  have total : Std.Total fun a b : Sigma fun _ : Bytes => T => a.1 ≤ b.1 :=
    ⟨fun a b => List.le_total a.1 b.1⟩
  have trans : IsTrans (Sigma fun _ : Bytes => T) fun a b => a.1 ≤ b.1 :=
    ⟨fun a b c => List.le_trans⟩
  have ordered := List.pairwise_insertionSort (fun a b : Sigma fun _ : Bytes => T => a.1 ≤ b.1)
    store.conversations.entries
  have same := List.Perm.eq_of_pairwise (fun a b one two less more => ?_) ordered
    (sorted.imp List.le_of_lt) ((List.perm_insertionSort _ _).trans perm)
  · rw [getConversations, same]
  · have inside := ((List.perm_insertionSort _ _).trans perm).subset one
    exact nodup.eq_of_fst_eq inside two (List.le_antisymm less more)

section Opener

variable {T : Type} {factory : ConversationFactory T} {testServers : TestServers}

/-- The packet that opens a conversation: the first of its flow that comes from a client,
or the first of the capture if there are no clients. -/
structure Opens (factory : ConversationFactory T) (testServers : TestServers)
    (packets before : List TransportPacket) (first : TransportPacket)
    (behind : List TransportPacket) : Prop where
  flow : flow factory (factory.getKey first) packets = before ++ first :: behind
  client : testServers.entries ≠ [] →
    FromClient factory testServers first ∧ ∀ p ∈ before, ¬ FromClient factory testServers p
  lone : testServers.entries = [] → before = [] ∧ packets.head? = some first

/-- A conversation is what its flow has recorded from the packet on that opened it. -/
theorem exists_opener [Conversation T] {packets : List TransportPacket} {key : Bytes} {c : T}
    (found : (load factory ⟨testServers, ∅⟩ packets).conversations.lookup key = some c) :
    ∃ before first behind, Opens factory testServers packets before first behind ∧
      factory.getKey first = key ∧ c = (first :: behind).foldl Conversation.processCapturePacket
        (factory.createConversation first (configured factory testServers first).join) := by
  by_cases some_client : testServers.entries = []
  · cases packets with
    | nil => cases found
    | cons p ps =>
        have none : testServers = ∅ := AList.ext some_client
        subst none
        rw [load_eq, Demux.run_cons_of_lone demux_lone, ← AList.insert_empty] at found
        by_cases same : key = factory.getKey p
        · subst same
          change AList.lookup (factory.getKey p) (AList.insert (factory.getKey p) _ ∅) = _ at found
          rw [AList.lookup_insert] at found
          cases found
          have whole : flow factory (factory.getKey p) (p :: ps) =
              p :: flow factory (factory.getKey p) ps := List.filter_cons_of_pos (by simp)
          refine ⟨[], p, flow factory (factory.getKey p) ps,
            ⟨whole, absurd rfl, fun _ => ⟨rfl, rfl⟩⟩, rfl, ?_⟩
          have created : (demux factory ∅).create p = factory.createConversation p none := by
            simp only [demux, configured_empty]
            rfl
          rw [← whole, configured_empty, created]
          rfl
        · change AList.lookup key (AList.insert (factory.getKey p) _ ∅) = _ at found
          rw [AList.lookup_insert_ne same] at found
          cases found
  · rw [lookup_load some_client] at found
    cases history : flowHistory factory testServers key packets with
    | nil =>
        rw [history] at found
        cases found
    | cons first behind =>
        rw [history] at found
        cases found
        have cut := List.takeWhile_append_dropWhile
          (p := fun p => ¬ FromClient factory testServers p) (l := flow factory key packets)
        rw [← flowHistory, history] at cut
        have inside : first ∈ flow factory key packets := by
          rw [← cut]
          exact List.mem_append_right _ List.mem_cons_self
        have same : factory.getKey first = key := by
          have mem := (List.mem_filter.mp inside).2
          exact of_decide_eq_true mem
        have client : FromClient factory testServers first := by
          have head := List.head?_dropWhile_not
            (fun p => decide (¬ FromClient factory testServers p)) (flow factory key packets)
          rw [← flowHistory, history] at head
          simpa using head
        refine ⟨_, first, behind, ⟨by rw [same, cut], fun _ => ⟨client, fun p mem => ?_⟩,
          fun none => absurd none some_client⟩, same, rfl⟩
        have mine := List.mem_takeWhile_imp mem
        exact of_decide_eq_true mine

/-- Such a packet has opened a conversation. -/
theorem lookup_of_opens [Conversation T] {packets before behind : List TransportPacket}
    {first : TransportPacket} (opens : Opens factory testServers packets before first behind) :
    (load factory ⟨testServers, ∅⟩ packets).conversations.lookup (factory.getKey first) =
      some ((first :: behind).foldl Conversation.processCapturePacket
        (factory.createConversation first (configured factory testServers first).join)) := by
  by_cases some_client : testServers.entries = []
  · obtain ⟨rfl, head⟩ := opens.lone some_client
    cases packets with
    | nil => cases head
    | cons p ps =>
        cases head
        have none : testServers = ∅ := AList.ext some_client
        subst none
        have created : (demux factory ∅).create first = factory.createConversation first none := by
          simp only [demux, configured_empty]
          rfl
        have flows : flow factory (factory.getKey first) (first :: ps) = first :: behind :=
          opens.flow
        rw [load_eq, Demux.run_cons_of_lone demux_lone, ← AList.insert_empty, configured_empty]
        change AList.lookup (factory.getKey first) (AList.insert (factory.getKey first) _ ∅) = _
        rw [AList.lookup_insert, ← flows, created]
        rfl
  · obtain ⟨client, others⟩ := opens.client some_client
    have history : flowHistory factory testServers (factory.getKey first) packets =
        first :: behind := by
      rw [flowHistory, opens.flow, List.dropWhile_append_of_pos (by simpa using others),
        List.dropWhile_cons_of_neg (by simpa using client)]
    rw [lookup_load some_client, history]
    rfl

end Opener

end TypedConversationStore

end PacketReplay
