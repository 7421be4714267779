import PacketReplay.Capture.Address
import PacketReplay.Capture.Key
import PacketReplay.Capture.TcpQueue

/-!
# The payload of a connection

From the packet that completes the handshake to the first `FIN` or `RST`, what the
client sends should be recorded as `SEND` and the rest as `RECV`, byte for byte. The
completing packet itself is recorded as `CONNECT` and not looked at again, so its
payload is lost and its `FIN` goes unseen; `delivers_captured_iff` says when that does no harm.
-/

namespace PacketReplay

open Lib

/-- The data that a list of actions sends. -/
def sent (actions : List Action) : Bytes :=
  (actions.filter fun action => action.type = .send).flatMap Action.data

/-- The data that a list of actions receives. -/
def received (actions : List Action) : Bytes :=
  (actions.filter fun action => action.type = .recv).flatMap Action.data

theorem sent_append (before behind : List Action) :
    sent (before ++ behind) = sent before ++ sent behind := by
  rw [sent, List.filter_append, List.flatMap_append, ← sent, ← sent]

theorem received_append (before behind : List Action) :
    received (before ++ behind) = received before ++ received behind := by
  rw [received, List.filter_append, List.flatMap_append, ← received, ← received]

/-- The packets up to the first `FIN`, with it, or the first `RST`, without it. -/
def upToEnd : List TransportPacket → List TransportPacket
  | [] => []
  | p :: ps => if p.hasRst then [] else if p.hasFin then [p] else p :: upToEnd ps

namespace TcpConversation

/-- The payloads of the captured client endpoint. -/
def clientBytes (c : TcpConversation) (packets : List TransportPacket) : Bytes :=
  (packets.filter fun p => c.fromClient p).flatMap TransportPacket.payload

/-- The payloads of the other endpoint. -/
def serverBytes (c : TcpConversation) (packets : List TransportPacket) : Bytes :=
  (packets.filter fun p => !c.fromClient p).flatMap TransportPacket.payload

/-- The packet comes from the captured source address and port. -/
theorem fromClient_iff {c : TcpConversation} {packet : TransportPacket}
    (family : packet.network.family = c.addrFamily)
    (size : c.capSrcAddr.length = c.addrFamily.addrSize) :
    c.fromClient packet = true ↔ packet.source = (c.capSrcAddr, c.capSrcPort) := by
  have addrSize : packet.network.srcAddr.length = c.addrFamily.addrSize := by
    rw [packet.network.srcAddr_length, family]
  have same := memcmp_eq_zero_iff addrSize.ge size.ge
  rw [← addrSize, List.take_length, addrSize, ← size, List.take_length, size] at same
  rw [fromClient, Bool.and_eq_true, sameAddr, decide_eq_true_iff, decide_eq_true_iff, same,
    TransportPacket.source, Prod.mk.injEq]

variable {c d : TcpConversation} {packet : TransportPacket}

theorem clientBytes_cons (c : TcpConversation) (p : TransportPacket) (ps : List TransportPacket) :
    c.clientBytes (p :: ps) = c.clientBytes [p] ++ c.clientBytes ps := by
  rw [clientBytes, ← List.singleton_append, List.filter_append, List.flatMap_append, ← clientBytes,
    ← clientBytes]

theorem serverBytes_cons (c : TcpConversation) (p : TransportPacket) (ps : List TransportPacket) :
    c.serverBytes (p :: ps) = c.serverBytes [p] ++ c.serverBytes ps := by
  rw [serverBytes, ← List.singleton_append, List.filter_append, List.flatMap_append, ← serverBytes,
    ← serverBytes]

theorem sent_dataActions (c : TcpConversation) (p : TransportPacket) :
    sent (c.dataActions p) = c.clientBytes [p] := by
  unfold sent dataActions clientBytes
  by_cases empty : p.payload = []
  · cases client : c.fromClient p <;> simp [empty, client]
  · cases client : c.fromClient p <;> simp [empty, client]

theorem received_dataActions (c : TcpConversation) (p : TransportPacket) :
    received (c.dataActions p) = c.serverBytes [p] := by
  unfold received dataActions serverBytes
  by_cases empty : p.payload = []
  · cases client : c.fromClient p <;> simp [empty, client]
  · cases client : c.fromClient p <;> simp [empty, client]

/-- A payload is the client's or the other endpoint's. -/
theorem payload_eq_nil_iff (c : TcpConversation) (p : TransportPacket) :
    p.payload = [] ↔ c.clientBytes [p] = [] ∧ c.serverBytes [p] = [] := by
  unfold clientBytes serverBytes
  cases client : c.fromClient p <;> simp [client]

theorem Recorded.fromClient_eq (step : Recorded c packet d) : d.fromClient = c.fromClient := by
  cases step <;> rfl

theorem fromClient_captured (c : TcpConversation) (packets : List TransportPacket) :
    (c.captured packets).fromClient = c.fromClient :=
  captured_rule (fun _ d => d.fromClient = c.fromClient) rfl
    (fun _ _ _ ih step => step.fromClient_eq.trans ih) packets

/-! ## What is recorded behind a handshake -/

/-- The actions that are recorded for a connection: those behind its `CONNECT` and in
front of the next. -/
def connectionActions (c : TcpConversation) (before : List TransportPacket)
    (completing : TransportPacket) (behind : List TransportPacket) : List Action :=
  ((c.captured (before ++ completing :: behind)).actionQueue.drop
    (c.captured (before ++ [completing])).actionQueue.length).takeWhile fun a => a.type ≠ .connect

/-- What is recorded behind a state. -/
def added (c : TcpConversation) (packets : List TransportPacket) : List Action :=
  (c.captured packets).actionQueue.drop c.actionQueue.length

theorem actionQueue_captured (c : TcpConversation) (packets : List TransportPacket) :
    (c.captured packets).actionQueue = c.actionQueue ++ c.added packets := by
  rcases actionQueue_prefix_captured c packets with ⟨rest, queue⟩
  rw [added, ← queue, List.drop_left]

/-- The packet adds the given actions in front of what the others add. -/
theorem added_cons {actions : List Action} {packets : List TransportPacket}
    (step : (c.processCapturePacket packet).actionQueue = c.actionQueue ++ actions) :
    c.added (packet :: packets) = actions ++ (c.processCapturePacket packet).added packets := by
  have whole : (c.captured (packet :: packets)).actionQueue =
      c.actionQueue ++ (actions ++ (c.processCapturePacket packet).added packets) := by
    rw [← List.append_assoc, ← step, ← actionQueue_captured]
    rfl
  rw [added, whole, List.drop_left]

/-- Without a connection nothing is recorded in front of the next `CONNECT`. -/
theorem takeWhile_added_of_closed (packets : List TransportPacket)
    (closed : c.capTcpState ≠ .established) :
    (c.added packets).takeWhile (fun a => a.type ≠ .connect) = [] := by
  induction packets generalizing c with
  | nil => rw [added, show c.captured [] = c from rfl, List.drop_length, List.takeWhile_nil]
  | cons packet packets ih =>
      have step := recorded_processCapturePacket c packet
      generalize next : c.processCapturePacket packet = d at step
      cases step with
      | quiet state socket idle reset =>
          have none : (c.processCapturePacket packet).actionQueue = c.actionQueue ++ [] := by
            rw [next, List.append_nil]
          rw [added_cons none, List.nil_append, next]
          exact ih idle
      | connected completes =>
          have one : (c.processCapturePacket packet).actionQueue =
              c.actionQueue ++ [{ type := .connect }] := by
            rw [next]
            rfl
          rw [added_cons one]
          rfl
      | continued established noReset noFin => exact absurd established closed
      | ended established noReset fin => exact absurd established closed

theorem dataActions_eq (same : d.fromClient = c.fromClient) : d.dataActions = c.dataActions := by
  funext p
  rw [dataActions, dataActions, same]

/-- Payloads stand in front of the next `CONNECT`. -/
theorem takeWhile_dataActions (c : TcpConversation) (p : TransportPacket) (rest : List Action) :
    (c.dataActions p ++ rest).takeWhile (fun a => a.type ≠ .connect) =
      c.dataActions p ++ rest.takeWhile fun a => a.type ≠ .connect := by
  apply List.takeWhile_append_of_pos
  intro action mem
  refine decide_eq_true fun connect => ?_
  have kind := lease_of_mem_dataActions mem
  rw [Action.lease_eq_acquire.mpr connect] at kind
  cases kind

/-- In an established connection the payloads are recorded up to its end. -/
theorem takeWhile_added (packets : List TransportPacket)
    (established : c.capTcpState = .established) :
    ∃ closing, (closing = [] ∨ closing = [{ type := .close }]) ∧
      (c.added packets).takeWhile (fun a => a.type ≠ .connect) =
        (upToEnd packets).flatMap c.dataActions ++ closing := by
  induction packets generalizing c with
  | nil =>
      refine ⟨[], Or.inl rfl, ?_⟩
      rw [added, show c.captured [] = c from rfl, List.drop_length]
      rfl
  | cons packet packets ih =>
      have step := recorded_processCapturePacket c packet
      generalize next : c.processCapturePacket packet = d at step
      cases step with
      | quiet state socket idle reset =>
          have none : (c.processCapturePacket packet).actionQueue = c.actionQueue ++ [] := by
            rw [next, List.append_nil]
          refine ⟨[], Or.inl rfl, ?_⟩
          rw [added_cons none, List.nil_append, next, takeWhile_added_of_closed packets idle,
            upToEnd, if_pos (reset established)]
          rfl
      | connected completes =>
          rw [completes.1] at established
          cases established
      | continued est noReset noFin =>
          have data : (c.processCapturePacket packet).actionQueue =
              c.actionQueue ++ c.dataActions packet := by rw [next]
          let d : TcpConversation :=
            { c with actionQueue := c.actionQueue ++ c.dataActions packet }
          rcases ih (c := d) est with ⟨closing, closes, rest⟩
          rw [show d.dataActions = c.dataActions from dataActions_eq rfl] at rest
          refine ⟨closing, closes, ?_⟩
          rw [added_cons data, next, takeWhile_dataActions, rest, upToEnd,
            if_neg (by simp [noReset]), if_neg (by simp [noFin]), List.flatMap_cons,
            List.append_assoc]
      | ended est noReset fin =>
          have data : (c.processCapturePacket packet).actionQueue =
              c.actionQueue ++ (c.dataActions packet ++ [{ type := .close }]) := by
            rw [next, List.append_assoc]
          refine ⟨[{ type := .close }], Or.inr rfl, ?_⟩
          have idle : TcpState.closed ≠ .established := by decide
          rw [added_cons data, next, List.append_assoc, takeWhile_dataActions,
            List.singleton_append, List.takeWhile_cons_of_pos (by rfl),
            takeWhile_added_of_closed packets idle, upToEnd, if_neg (by simp [noReset]),
            if_pos fin, List.flatMap_singleton]

theorem sent_flatMap (c : TcpConversation) (packets : List TransportPacket) :
    sent (packets.flatMap c.dataActions) = c.clientBytes packets := by
  induction packets with
  | nil => rfl
  | cons p ps ih =>
      rw [List.flatMap_cons, sent_append, sent_dataActions, ih, clientBytes_cons c p ps]

theorem received_flatMap (c : TcpConversation) (packets : List TransportPacket) :
    received (packets.flatMap c.dataActions) = c.serverBytes packets := by
  induction packets with
  | nil => rfl
  | cons p ps ih =>
      rw [List.flatMap_cons, received_append, received_dataActions, ih, serverBytes_cons c p ps]

section Connection

variable {before : List TransportPacket} {completing : TransportPacket}

/-- What is recorded for a connection are the payloads behind the packet that
completes the handshake. -/
theorem connectionActions_eq (completes : (c.captured before).Completes completing)
    (behind : List TransportPacket) :
    sent (c.connectionActions before completing behind) = c.clientBytes (upToEnd behind) ∧
      received (c.connectionActions before completing behind) =
        c.serverBytes (upToEnd behind) := by
  have connected : (c.captured (before ++ [completing])).capTcpState = .established := by
    rw [captured_append]
    exact congrArg TcpConversation.capTcpState (processCapturePacket_of_completes completes)
  have same : (c.captured (before ++ [completing])).dataActions = c.dataActions :=
    dataActions_eq (c.fromClient_captured _)
  rcases takeWhile_added behind connected with ⟨closing, closes, recorded⟩
  have actions : c.connectionActions before completing behind =
      (upToEnd behind).flatMap c.dataActions ++ closing := by
    rw [connectionActions, List.append_cons before completing behind,
      captured_append c (before ++ [completing]) behind, ← same, ← recorded]
    rfl
  have noData : sent closing = [] ∧ received closing = [] := by
    rcases closes with rfl | rfl
    · exact ⟨rfl, rfl⟩
    · exact ⟨rfl, rfl⟩
  rw [actions, sent_append, received_append, sent_flatMap, received_flatMap, noData.1, noData.2,
    List.append_nil, List.append_nil]
  exact ⟨rfl, rfl⟩

end Connection

/-- The data recorded for a connection is that of the packets from the one that
completes the handshake to the end. -/
def Delivers (c : TcpConversation) (before : List TransportPacket) (completing : TransportPacket)
    (behind : List TransportPacket) : Prop :=
  sent (c.connectionActions before completing behind) =
      c.clientBytes (upToEnd (completing :: behind)) ∧
    received (c.connectionActions before completing behind) =
      c.serverBytes (upToEnd (completing :: behind))

/-- The data of a connection is recorded exactly when the packet that completes the
handshake has no payload or, where it has a `FIN`, what is recorded behind it up to the
next `FIN` or `RST` is its payload over again. -/
theorem delivers_captured_iff (c : TcpConversation) (before : List TransportPacket)
    (completing : TransportPacket) (behind : List TransportPacket)
    (completes : (c.captured before).Completes completing) :
    Delivers c before completing behind ↔
      if completing.hasFin then
        c.clientBytes (upToEnd behind) = c.clientBytes [completing] ∧
          c.serverBytes (upToEnd behind) = c.serverBytes [completing]
      else completing.payload = [] := by
  rcases connectionActions_eq completes behind with ⟨sends, receives⟩
  have noReset : ¬ completing.hasRst = true := by simp [completes.2.1]
  rw [Delivers, sends, receives, upToEnd, if_neg noReset]
  by_cases fin : completing.hasFin = true
  · rw [if_pos fin, if_pos fin]
  · rw [if_neg fin, if_neg fin, clientBytes_cons, serverBytes_cons, List.self_eq_append_left,
      List.self_eq_append_left, payload_eq_nil_iff c]

/-- A connection in which data is sent behind the handshake. -/
theorem delivers_captured_iff_hello :
    Delivers (ofPacket dottedInet (between 1 3 (.tcp ⟨7, 80, thSyn, []⟩)) none)
      [between 1 3 (.tcp ⟨7, 80, thSyn, []⟩), between 3 1 (.tcp ⟨80, 7, thSyn ||| thAck, []⟩)]
      (between 1 3 (.tcp ⟨7, 80, thAck, []⟩))
      [between 1 3 (.tcp ⟨7, 80, thAck, ascii "hello"⟩)] :=
  (delivers_captured_iff _ _ _ _ (by decide +kernel)).mpr (by decide +kernel)

/-- Data that comes with the last packet of the handshake is lost. -/
theorem not_delivers_withAck :
    ¬ ∀ (inet : Inet) (first : TransportPacket) (server : Option TargetTestServer)
      (before : List TransportPacket) (completing : TransportPacket)
      (behind : List TransportPacket),
      (∀ p ∈ before ++ completing :: behind, tcpIpGetKey p = tcpIpGetKey first) →
        ((ofPacket inet first server).captured before).Completes completing →
          Delivers (ofPacket inet first server) before completing behind := by
  intro delivers
  have data := (delivers dottedInet (between 1 3 (.tcp ⟨7, 80, thSyn, []⟩)) none
    [between 1 3 (.tcp ⟨7, 80, thSyn, []⟩), between 3 1 (.tcp ⟨80, 7, thSyn ||| thAck, []⟩)]
    (between 1 3 (.tcp ⟨7, 80, thAck, ascii "GET"⟩)) [] (by decide +kernel)
    (by decide +kernel)).1
  revert data
  decide +kernel

end TcpConversation

end PacketReplay
