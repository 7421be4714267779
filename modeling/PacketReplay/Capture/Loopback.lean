import PacketReplay.Capture.OtherTransport
import PacketReplay.Capture.TcpQueue

/-!
# Captures of the loopback interface

Who sent a packet is decided by its address alone, but for the payload of an
established connection. Where both endpoints have one address, `record` says what a
conversation makes of a packet that is taken for the client's and for the server's at
once. `recordsLike_iff` compares such a capture with that of the same packets between
two hosts: they agree as long as no packet of a handshake comes from the wrong side.
-/

namespace PacketReplay

open Lib

/-- A TCP packet of a flow by its sender, its flags and its payload. -/
structure Segment : Type where
  fromClient : Bool
  flags : UInt8
  data : Bytes := []
  deriving DecidableEq, Repr

namespace Segment

def hasSyn (s : Segment) : Bool := s.flags &&& thSyn ≠ 0

def hasAck (s : Segment) : Bool := s.flags &&& thAck ≠ 0

def hasRst (s : Segment) : Bool := s.flags &&& thRst ≠ 0

def hasFin (s : Segment) : Bool := s.flags &&& thFin ≠ 0

/-- What is recorded of the payload. -/
def actions (s : Segment) : List Action :=
  if s.data = [] then []
  else [{ type := if s.fromClient then .send else .recv, data := s.data }]

end Segment

/-- The two endpoints of a flow, which have different ports. -/
structure Endpoints : Type where
  family : AddrFamily
  clientAddr : Bytes
  serverAddr : Bytes
  clientPort : UInt16
  serverPort : UInt16
  clientAddr_length : clientAddr.length = family.addrSize
  serverAddr_length : serverAddr.length = family.addrSize
  ports : clientPort ≠ serverPort

namespace Endpoints

/-- The same flow with the server on the host of the client. -/
def loopback (e : Endpoints) : Endpoints :=
  { e with serverAddr := e.clientAddr, serverAddr_length := e.clientAddr_length }

def network (e : Endpoints) (fromClient : Bool) : NetworkLayer :=
  if fromClient then
    ⟨e.family, e.clientAddr, e.serverAddr, e.clientAddr_length, e.serverAddr_length⟩
  else ⟨e.family, e.serverAddr, e.clientAddr, e.serverAddr_length, e.clientAddr_length⟩

def layer (e : Endpoints) (s : Segment) : TcpLayer where
  srcPort := if s.fromClient then e.clientPort else e.serverPort
  destPort := if s.fromClient then e.serverPort else e.clientPort
  flags := s.flags
  data := s.data

def packet (e : Endpoints) (s : Segment) : TransportPacket :=
  ⟨e.network s.fromClient, .tcp (e.layer s)⟩

/-- The address is that of the client. -/
def looksClient (e : Endpoints) (s : Segment) : Bool :=
  (e.network s.fromClient).srcAddr = e.clientAddr

/-- The address is that of the server. -/
def looksServer (e : Endpoints) (s : Segment) : Bool :=
  (e.network s.fromClient).srcAddr = e.serverAddr

theorem network_family (e : Endpoints) (fromClient : Bool) :
    (e.network fromClient).family = e.family := by
  cases fromClient <;> rfl

theorem looksClient_of_ne {e : Endpoints} (differ : e.clientAddr ≠ e.serverAddr) (s : Segment) :
    e.looksClient s = s.fromClient := by
  rw [looksClient, network]
  cases s.fromClient with
  | true => exact decide_eq_true rfl
  | false => exact decide_eq_false (Ne.symm differ)

theorem looksServer_of_ne {e : Endpoints} (differ : e.clientAddr ≠ e.serverAddr) (s : Segment) :
    e.looksServer s = !s.fromClient := by
  rw [looksServer, network]
  cases s.fromClient with
  | true => exact decide_eq_false differ
  | false => exact decide_eq_true rfl

theorem looksClient_loopback (e : Endpoints) (s : Segment) : e.loopback.looksClient s = true := by
  rw [looksClient, network]
  cases s.fromClient <;> exact decide_eq_true rfl

theorem looksServer_loopback (e : Endpoints) (s : Segment) : e.loopback.looksServer s = true := by
  rw [looksServer, network]
  cases s.fromClient <;> exact decide_eq_true rfl

end Endpoints

/-! ## A conversation by its state and its queue -/

/-- The state and the queue of a conversation. -/
abbrev Recording : Type := TcpState × List Action

/-- What becomes of a recording with a packet that is taken for the client's, and one
that is taken for the server's. -/
def Segment.record (s : Segment) (client server : Bool) (r : Recording) : Recording :=
  if s.hasRst then (.closed, r.2)
  else
    match r.1 with
    | .closed => if client ∧ s.flags = thSyn then (.synSent, r.2) else r
    | .synSent => if server ∧ s.hasAck ∧ s.hasSyn then (.synReceived, r.2) else r
    | .synReceived =>
        if client ∧ s.hasAck then (.established, r.2 ++ [{ type := .connect }]) else r
    | .established =>
        if s.hasFin then (.closed, r.2 ++ s.actions ++ [{ type := .close }])
        else (.established, r.2 ++ s.actions)

namespace TcpConversation

def recording (c : TcpConversation) : Recording := (c.capTcpState, c.actionQueue)

/-- The endpoints are the captured ones. -/
structure Between (e : Endpoints) (c : TcpConversation) : Prop where
  family : c.addrFamily = e.family
  srcAddr : c.capSrcAddr = e.clientAddr
  destAddr : c.capDestAddr = e.serverAddr
  srcPort : c.capSrcPort = e.clientPort

theorem Between.recorded {e : Endpoints} {c d : TcpConversation} {packet : TransportPacket}
    (between : Between e c) (step : Recorded c packet d) : Between e d := by
  cases step with
  | quiet state socket idle reset => exact { between with }
  | connected completes => exact { between with }
  | continued established noReset noFin => exact { between with }
  | ended established noReset fin => exact { between with }

theorem between_ofPacket (inet : Inet) (e : Endpoints) {opening : Segment}
    (client : opening.fromClient = true) (server : Option TargetTestServer) :
    Between e (ofPacket inet (e.packet opening) server) := by
  have network : (e.packet opening).network =
      ⟨e.family, e.clientAddr, e.serverAddr, e.clientAddr_length, e.serverAddr_length⟩ := by
    rw [Endpoints.packet, client]
    rfl
  have port : (e.packet opening).transport.srcPort = e.clientPort := by
    simp [Endpoints.packet, Endpoints.layer, TransportLayer.srcPort, client]
  unfold ofPacket PacketConversation.ofPacket
  constructor
  · rw [network]
  · rw [network]
  · rw [network]
  · exact port

section Packet

variable {e : Endpoints} {c : TcpConversation}

theorem Between.sameAddr_src (between : Between e c) (s : Segment) :
    c.sameAddr (e.network s.fromClient).srcAddr c.capSrcAddr = e.looksClient s := by
  have size : (e.network s.fromClient).srcAddr.length = c.addrFamily.addrSize := by
    rw [(e.network s.fromClient).srcAddr_length, e.network_family, between.family]
  have capSize : c.capSrcAddr.length = c.addrFamily.addrSize := by
    rw [between.srcAddr, e.clientAddr_length, between.family]
  rw [Bool.eq_iff_iff, sameAddr_iff size capSize, between.srcAddr, Endpoints.looksClient,
    decide_eq_true_iff]

theorem Between.sameAddr_dest (between : Between e c) (s : Segment) :
    c.sameAddr (e.network s.fromClient).srcAddr c.capDestAddr = e.looksServer s := by
  have size : (e.network s.fromClient).srcAddr.length = c.addrFamily.addrSize := by
    rw [(e.network s.fromClient).srcAddr_length, e.network_family, between.family]
  have capSize : c.capDestAddr.length = c.addrFamily.addrSize := by
    rw [between.destAddr, e.serverAddr_length, between.family]
  rw [Bool.eq_iff_iff, sameAddr_iff size capSize, between.destAddr, Endpoints.looksServer,
    decide_eq_true_iff]

/-- The port tells the sender of a payload. -/
theorem Between.fromClient (between : Between e c) (s : Segment) :
    c.fromClient (e.packet s) = s.fromClient := by
  have addr := between.sameAddr_src s
  rw [TcpConversation.fromClient]
  cases sender : s.fromClient with
  | true =>
      have client : e.looksClient s = true := by
        rw [Endpoints.looksClient, sender]
        exact decide_eq_true rfl
      rw [client] at addr
      simp [Endpoints.packet, Endpoints.layer, TransportLayer.srcPort, sender, between.srcPort,
        sender ▸ addr]
  | false =>
      have other : ¬ e.serverPort = e.clientPort := Ne.symm e.ports
      simp [Endpoints.packet, Endpoints.layer, TransportLayer.srcPort, sender, between.srcPort,
        other]

theorem Between.dataActions (between : Between e c) (s : Segment) :
    c.dataActions (e.packet s) = s.actions := by
  rw [TcpConversation.dataActions, between.fromClient]
  rfl

/-- A conversation records a packet as its addresses are taken. -/
theorem Between.recording_processCapturePacket (between : Between e c) (s : Segment) :
    (c.processCapturePacket (e.packet s)).recording =
      s.record (e.looksClient s) (e.looksServer s) c.recording := by
  have src := between.sameAddr_src s
  have dest := between.sameAddr_dest s
  have step : c.processCapturePacket (e.packet s) =
      c.processTcp (e.network s.fromClient).srcAddr (e.layer s) := rfl
  rw [step, processTcp, Segment.record]
  by_cases reset : s.hasRst = true
  · rw [if_pos (show (e.layer s).hasRst = true from reset), if_pos reset]
    rfl
  · rw [if_neg (show ¬ (e.layer s).hasRst = true from reset), if_neg reset]
    cases state : c.capTcpState with
    | closed =>
        simp only [recording, state, closeProcessCapturePacket, src]
        split
        · next opens => exact (if_pos opens).symm
        · next stays =>
            rw [state]
            exact (if_neg stays).symm
    | synSent =>
        simp only [recording, state, synSentProcessCapturePacket, dest]
        split
        · next answers => exact (if_pos answers).symm
        · next stays =>
            rw [state]
            exact (if_neg stays).symm
    | synReceived =>
        simp only [recording, state, synRecvProcessCapturePacket, src]
        split
        · next completes => exact (if_pos completes).symm
        · next stays =>
            rw [state]
            exact (if_neg stays).symm
    | established =>
        have transport : (e.packet s).transport = .tcp (e.layer s) := rfl
        have layers := estProcess_eq (c := c) transport
        simp only [recording, state]
        rw [show (e.network s.fromClient) = (e.packet s).network from rfl, layers,
          between.dataActions]
        by_cases fin : s.hasFin = true
        · rw [if_pos (show (e.layer s).hasFin = true from fin), if_pos fin]
        · rw [if_neg (show ¬ (e.layer s).hasFin = true from fin), if_neg fin, state]

end Packet

/-! ## Packets from the wrong side -/

/-- A packet of a handshake that the other endpoint should have sent. -/
def Mistaken (state : TcpState) (s : Segment) : Prop :=
  match state with
  | .closed => s.fromClient = false ∧ s.flags = thSyn
  | .synSent => s.fromClient = true ∧ s.hasRst = false ∧ s.hasAck = true ∧ s.hasSyn = true
  | .synReceived => s.fromClient = false ∧ s.hasRst = false ∧ s.hasAck = true
  | .established => False

instance (state : TcpState) (s : Segment) : Decidable (Mistaken state s) := by
  unfold Mistaken
  cases state <;> infer_instance

theorem hasRst_of_syn {s : Segment} (syn : s.flags = thSyn) : s.hasRst = false := by
  rw [Segment.hasRst, syn]
  decide

/-- Only a packet from the wrong side is recorded otherwise on one host than between two. -/
theorem record_eq_iff (s : Segment) (r : Recording) :
    s.record true true r = s.record s.fromClient (!s.fromClient) r ↔ ¬ Mistaken r.1 s := by
  rcases r with ⟨state, queue⟩
  by_cases reset : s.hasRst = true
  · have right : ¬ Mistaken state s := by
      intro mistaken
      cases state with
      | closed =>
          rw [hasRst_of_syn mistaken.2] at reset
          cases reset
      | synSent =>
          rw [mistaken.2.1] at reset
          cases reset
      | synReceived =>
          rw [mistaken.2.1] at reset
          cases reset
      | established => exact mistaken
    rw [Segment.record, Segment.record, if_pos reset, if_pos reset]
    exact iff_of_true rfl right
  · rw [Segment.record, Segment.record, if_neg reset, if_neg reset]
    rw [Bool.not_eq_true] at reset
    cases state with
    | closed =>
        cases sender : s.fromClient with
        | true => simp [Mistaken, sender]
        | false => by_cases syn : s.flags = thSyn <;> simp [Mistaken, sender, syn]
    | synSent =>
        cases sender : s.fromClient with
        | true =>
            cases ack : s.hasAck <;> cases syn : s.hasSyn <;>
              simp [Mistaken, sender, reset, ack, syn]
        | false => simp [Mistaken, sender]
    | synReceived =>
        cases sender : s.fromClient with
        | true => simp [Mistaken, sender]
        | false => cases ack : s.hasAck <;> simp [Mistaken, sender, reset, ack]
    | established => exact iff_of_true rfl id

/-! ## Captures -/

/-- Behind every packet, what is recorded of the packets on one host is what is recorded
of them between two. -/
def RecordsLike (e : Endpoints) (one two : TcpConversation) (ss : List Segment) : Prop :=
  ∀ n, (one.captured ((ss.take n).map e.loopback.packet)).recording =
    (two.captured ((ss.take n).map e.packet)).recording

/-- Every packet of a handshake comes from the endpoint that has to send it. -/
def RightSides (e : Endpoints) (c : TcpConversation) : List Segment → Prop
  | [] => True
  | s :: ss => ¬ Mistaken c.capTcpState s ∧ RightSides e (c.processCapturePacket (e.packet s)) ss

instance (e : Endpoints) : ∀ (c : TcpConversation) (ss : List Segment),
    Decidable (RightSides e c ss)
  | _, [] => .isTrue trivial
  | c, s :: ss =>
      have := instDecidableRightSides e (c.processCapturePacket (e.packet s)) ss
      inferInstanceAs (Decidable (_ ∧ _))

theorem recordsLike_cons {e : Endpoints} {one two : TcpConversation} {s : Segment}
    {ss : List Segment} :
    RecordsLike e one two (s :: ss) ↔
      one.recording = two.recording ∧
        RecordsLike e (one.processCapturePacket (e.loopback.packet s))
          (two.processCapturePacket (e.packet s)) ss := by
  constructor
  · exact fun alike => ⟨alike 0, fun n => alike (n + 1)⟩
  · intro both n
    cases n with
    | zero => exact both.1
    | succ n => exact both.2 n

/-- Two conversations with one recording record a packet alike exactly when it does not
come from the wrong side. -/
theorem recording_eq_iff {e : Endpoints} (differ : e.clientAddr ≠ e.serverAddr)
    {one two : TcpConversation} (oneBetween : Between e.loopback one) (twoBetween : Between e two)
    (same : one.recording = two.recording) (s : Segment) :
    (one.processCapturePacket (e.loopback.packet s)).recording =
        (two.processCapturePacket (e.packet s)).recording ↔ ¬ Mistaken two.capTcpState s := by
  rw [oneBetween.recording_processCapturePacket, twoBetween.recording_processCapturePacket,
    e.looksClient_loopback, e.looksServer_loopback, Endpoints.looksClient_of_ne differ,
    Endpoints.looksServer_of_ne differ, same]
  exact record_eq_iff s two.recording

theorem recordsLike_iff {e : Endpoints} (differ : e.clientAddr ≠ e.serverAddr)
    {one two : TcpConversation} (oneBetween : Between e.loopback one) (twoBetween : Between e two)
    (same : one.recording = two.recording) (ss : List Segment) :
    RecordsLike e one two ss ↔ RightSides e two ss := by
  induction ss generalizing one two with
  | nil =>
      refine iff_of_true (fun n => ?_) trivial
      rw [List.take_nil]
      exact same
  | cons s ss ih =>
      have next := recording_eq_iff differ oneBetween twoBetween same s
      have oneNext := oneBetween.recorded (recorded_processCapturePacket one (e.loopback.packet s))
      have twoNext := twoBetween.recorded (recorded_processCapturePacket two (e.packet s))
      rw [recordsLike_cons, RightSides]
      constructor
      · intro both
        have alike := both.2 0
        simp only [List.take_zero, List.map_nil] at alike
        exact ⟨next.mp alike, (ih oneNext twoNext alike).mp both.2⟩
      · intro both
        exact ⟨same, (ih oneNext twoNext (next.mpr both.1)).mpr both.2⟩

/-- A capture of the loopback interface records what the same packets between two hosts
record, packet by packet, exactly when no packet of a handshake comes from the wrong
side. -/
theorem recordsLike_loopback_iff (inet : Inet) (e : Endpoints)
    (differ : e.clientAddr ≠ e.serverAddr) (opening : Segment)
    (client : opening.fromClient = true) (server other : Option TargetTestServer)
    (ss : List Segment) :
    RecordsLike e (ofPacket inet (e.loopback.packet opening) server)
        (ofPacket inet (e.packet opening) other) ss ↔
      RightSides e (ofPacket inet (e.packet opening) other) ss := by
  have one := between_ofPacket inet e.loopback client server
  have two := between_ofPacket inet e client other
  exact recordsLike_iff differ one two rfl ss

/-- A client on port 7 and a server on port 80, of different hosts. -/
def webEndpoints : Endpoints where
  family := .inet
  clientAddr := [127, 0, 0, 1]
  serverAddr := [10, 0, 0, 3]
  clientPort := 7
  serverPort := 80
  clientAddr_length := rfl
  serverAddr_length := rfl
  ports := by decide

/-- A connection with a request and its answer. -/
theorem recordsLike_loopback_iff_request :
    RecordsLike webEndpoints
      (ofPacket dottedInet (webEndpoints.loopback.packet ⟨true, thSyn, []⟩) none)
      (ofPacket dottedInet (webEndpoints.packet ⟨true, thSyn, []⟩) none)
      [⟨true, thSyn, []⟩, ⟨false, thSyn ||| thAck, []⟩, ⟨true, thAck, []⟩,
        ⟨true, thAck, ascii "GET"⟩, ⟨false, thAck, ascii "OK"⟩, ⟨false, thFin, []⟩] :=
  (recordsLike_loopback_iff dottedInet webEndpoints (by decide) _ rfl none none _).mpr
    (by decide +kernel)

/-- The answer to a request is sent twice, and on one host the copy is taken for the
acknowledgement of the client. -/
theorem not_recordsLike_loopback :
    ¬ ∀ (inet : Inet) (e : Endpoints), e.clientAddr ≠ e.serverAddr →
      ∀ (opening : Segment), opening.fromClient = true →
      ∀ (server : Option TargetTestServer) (ss : List Segment),
        ((ofPacket inet (e.loopback.packet opening) server).captured
            (ss.map e.loopback.packet)).actionQueue =
          ((ofPacket inet (e.packet opening) server).captured (ss.map e.packet)).actionQueue := by
  intro always
  have queues := always dottedInet webEndpoints (by decide) ⟨true, thSyn, []⟩ rfl none
    [⟨true, thSyn, []⟩, ⟨false, thSyn ||| thAck, []⟩, ⟨false, thSyn ||| thAck, []⟩]
  revert queues
  decide +kernel

end TcpConversation

end PacketReplay
