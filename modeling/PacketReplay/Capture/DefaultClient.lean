import PacketReplay.Capture.OtherTransport

/-!
# The default client

Without client specs a store records one flow, which the first packet of the capture
decides, with its sender as the client. `selectsFirst_iff`: that is the flow of the
first connection request exactly when the capture begins with a packet of this flow
and this sender.
-/

namespace PacketReplay

open Lib

namespace TcpConversation

/-- A conversation keeps the captured source it was created with. -/
theorem capSrc_processCapturePacket (c : TcpConversation) (packet : TransportPacket) :
    (c.processCapturePacket packet).capSrcAddr = c.capSrcAddr ∧
      (c.processCapturePacket packet).capSrcPort = c.capSrcPort := by
  cases transport : packet.transport with
  | tcp tcp =>
      obtain ⟨state, socket, actions, step⟩ := c.exists_processTcp_eq packet.network.srcAddr tcp
      rw [processCapturePacket_tcp transport, step]
      exact ⟨rfl, rfl⟩
  | udp udp =>
      rw [processCapturePacket_udp transport]
      exact ⟨rfl, rfl⟩

theorem capSrc_foldl (c : TcpConversation) (packets : List TransportPacket) :
    (packets.foldl processCapturePacket c).capSrcAddr = c.capSrcAddr ∧
      (packets.foldl processCapturePacket c).capSrcPort = c.capSrcPort := by
  induction packets generalizing c with
  | nil => exact ⟨rfl, rfl⟩
  | cons packet packets ih =>
      obtain ⟨addr, port⟩ := c.capSrc_processCapturePacket packet
      rw [List.foldl_cons, (ih _).1, (ih _).2, addr, port]
      exact ⟨rfl, rfl⟩

end TcpConversation

/-! ## The first connection request -/

/-- `SYN` is set, `ACK` and `RST` are clear. -/
def isRequest (packet : TransportPacket) : Bool :=
  match packet.transport with
  | .tcp tcp => tcp.hasSyn && !tcp.hasAck && !tcp.hasRst
  | .udp _ => false

/-- The first connection request behind the packets of `before`. -/
structure FirstRequest (before : List TransportPacket) (request : TransportPacket) : Prop where
  isRequest : isRequest request = true
  noneBefore : ∀ p ∈ before, PacketReplay.isRequest p = false

/-- A `SYN` without other flags is a connection request. -/
theorem isRequest_of_thSyn {packet : TransportPacket} {tcp : TcpLayer}
    (transport : packet.transport = .tcp tcp) (syn : tcp.flags = thSyn) :
    isRequest packet = true := by
  rw [isRequest, transport]
  simp only [TcpLayer.hasSyn, TcpLayer.hasAck, TcpLayer.hasRst, syn]
  decide

/-- What is not a connection request is inert for a conversation just created. -/
theorem tcpInert_of_not_isRequest {f q : TransportPacket} (other : isRequest q = false) :
    tcpInert f q = true := by
  rw [tcpInert]
  split
  · next tcp transport =>
      have noSyn : tcp.flags ≠ thSyn := by
        intro syn
        rw [isRequest_of_thSyn transport syn] at other
        cases other
      simp [noSyn]
  · rfl

namespace TypedConversationStore

/-- The store has recorded the flow of the request and nothing else: from the request
on, with its sender as the client. -/
def SelectsFirst (inet : Inet) (before : List TransportPacket) (request : TransportPacket)
    (behind : List TransportPacket) : Prop :=
  ∃ conversation : TcpConversation,
    (load (tcpConversationFactory inet) ⟨∅, ∅⟩
        (before ++ request :: behind)).conversations.entries =
        [⟨tcpIpGetKey request, conversation⟩] ∧
      (conversation.capSrcAddr, conversation.capSrcPort) = request.source ∧
      conversation.actionQueue =
        (((request :: behind).filter fun p => tcpIpGetKey p = tcpIpGetKey request).foldl
          TcpConversation.processCapturePacket
          (TcpConversation.ofPacket inet request none)).actionQueue

/-- The only conversation is the one that the first packet creates. -/
theorem load_cons (inet : Inet) (p : TransportPacket) (ps : List TransportPacket) :
    (load (tcpConversationFactory inet) ⟨∅, ∅⟩ (p :: ps)).conversations.entries =
      [⟨tcpIpGetKey p, ((p :: ps).filter fun q => tcpIpGetKey q = tcpIpGetKey p).foldl
        TcpConversation.processCapturePacket (TcpConversation.ofPacket inet p none)⟩] := by
  have created : (demux (tcpConversationFactory inet) ∅).create p =
      TcpConversation.ofPacket inet p none := by
    simp only [demux, configured_empty]
    rfl
  rw [load_eq, Demux.run_cons_of_lone demux_lone, created, AList.singleton_entries]
  rfl

/-- Packets in front of the first request leave the conversation as it was created. -/
theorem foldl_of_noRequest (inet : Inet) {before : List TransportPacket}
    (noneBefore : ∀ p ∈ before, isRequest p = false) (request : TransportPacket)
    (behind : List TransportPacket) :
    ((before ++ behind).filter fun p => tcpIpGetKey p = tcpIpGetKey request).foldl
        TcpConversation.processCapturePacket (TcpConversation.ofPacket inet request none) =
      (behind.filter fun p => tcpIpGetKey p = tcpIpGetKey request).foldl
        TcpConversation.processCapturePacket (TcpConversation.ofPacket inet request none) := by
  have idle : (demux (tcpConversationFactory inet) ∅).converse (tcpIpGetKey request)
      (TcpConversation.ofPacket inet request none) before =
        TcpConversation.ofPacket inet request none := by
    refine Demux.converse_eq_self fun p mem same => ?_
    exact (tcp_captures inet).inert_created none same (tcpInert_of_not_isRequest (noneBefore p mem))
  have whole := Demux.converse_append (d := demux (tcpConversationFactory inet) ∅)
    (tcpIpGetKey request) (TcpConversation.ofPacket inet request none) before behind
  rw [idle] at whole
  exact whole

/-- The first request is selected exactly when the capture begins with its flow and
its sender. -/
theorem selectsFirst_iff (inet : Inet) (before : List TransportPacket) (request : TransportPacket)
    (behind : List TransportPacket) (first : FirstRequest before request) :
    SelectsFirst inet before request behind ↔
      ∀ p ∈ before.head?, tcpIpGetKey p = tcpIpGetKey request ∧ p.source = request.source := by
  constructor
  · rintro ⟨conversation, entries, client, -⟩ p opener
    cases before with
    | nil => cases opener
    | cons q before =>
        cases opener
        rw [List.cons_append, load_cons, List.cons.injEq] at entries
        obtain ⟨key, same⟩ := Sigma.mk.inj entries.1
        rw [← eq_of_heq same, (TcpConversation.capSrc_foldl _ _).1,
          (TcpConversation.capSrc_foldl _ _).2] at client
        exact ⟨key, client⟩
  · intro opener
    have queue := foldl_of_noRequest inet first.noneBefore request (request :: behind)
    refine ⟨_, ?_, ?_, congrArg (fun c : TcpConversation => c.actionQueue) queue⟩
    · cases before with
      | nil => exact load_cons inet request behind
      | cons p before =>
          obtain ⟨key, sender⟩ := opener p rfl
          rw [List.cons_append, load_cons, key, TcpConversation.ofPacket,
            PacketConversation.ofPacket_congr key sender]
          rfl
    · rw [(TcpConversation.capSrc_foldl _ _).1, (TcpConversation.capSrc_foldl _ _).2]
      rfl

/-- A capture that begins inside an earlier connection of the same client. -/
theorem selectsFirst_midStream :
    SelectsFirst dottedInet [between 1 3 (.tcp ⟨7, 80, thAck, ascii "late"⟩)]
      (between 1 3 (.tcp ⟨7, 80, thSyn, []⟩))
      [between 3 1 (.tcp ⟨80, 7, thSyn ||| thAck, []⟩)] := by
  refine (selectsFirst_iff _ _ _ _ ⟨by decide, by decide⟩).mpr fun p opener => ?_
  cases opener
  decide +kernel

/-- A packet of another flow in front of the request takes its place. -/
theorem not_selectsFirst :
    ¬ ∀ (inet : Inet) (before : List TransportPacket) (request : TransportPacket)
      (behind : List TransportPacket),
      (∀ p ∈ before ++ request :: behind, p.isTcp = true) → FirstRequest before request →
        SelectsFirst inet before request behind := by
  intro selects
  obtain ⟨conversation, entries, -⟩ := selects dottedInet
    [between 2 3 (.tcp ⟨9, 80, thAck, ascii "late"⟩)] (between 1 3 (.tcp ⟨7, 80, thSyn, []⟩)) []
    (by decide) ⟨by decide, by decide⟩
  rw [List.cons_append, load_cons, List.cons.injEq] at entries
  have key := (Sigma.mk.inj entries.1).1
  revert key
  decide +kernel

end TypedConversationStore

end PacketReplay
