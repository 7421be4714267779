import Mathlib.Data.List.Induction
import PacketReplay.Capture.Conversation
import PacketReplay.Lib.Lease

/-!
# The queue of a TCP conversation

What a packet adds to the queue and where it moves the state, said once as `Recorded`,
and what follows for the queue as a log of one socket: it never sends, receives or
closes without a connection (`disciplined_captured`), and it connects without one
exactly when no handshake is completed after a connection was reset
(`exclusive_captured_iff`).
-/

namespace PacketReplay

open Lib

/-- What an action does to the socket of a replay. -/
def Action.lease (action : Action) : Lease :=
  match action.type with
  | .connect => .acquire
  | .send => .use
  | .recv => .use
  | .close => .release

theorem Action.lease_eq_acquire {action : Action} :
    action.lease = .acquire ↔ action.type = .connect := by
  unfold lease
  cases action.type <;> decide

theorem Action.lease_eq_release {action : Action} :
    action.lease = .release ↔ action.type = .close := by
  unfold lease
  cases action.type <;> decide

namespace TransportPacket

/-- What a packet carries for a TCP conversation. -/
def payload (p : TransportPacket) : Bytes :=
  match p.transport with
  | .tcp tcp => tcp.data
  | .udp _ => []

def hasRst (p : TransportPacket) : Bool :=
  match p.transport with
  | .tcp tcp => tcp.hasRst
  | .udp _ => false

def hasFin (p : TransportPacket) : Bool :=
  match p.transport with
  | .tcp tcp => tcp.hasFin
  | .udp _ => false

def hasAck (p : TransportPacket) : Bool :=
  match p.transport with
  | .tcp tcp => tcp.hasAck
  | .udp _ => false

end TransportPacket

namespace TcpConversation

/-- The packet was sent by the captured client endpoint. -/
def fromClient (c : TcpConversation) (packet : TransportPacket) : Bool :=
  c.sameAddr packet.network.srcAddr c.capSrcAddr && packet.transport.srcPort = c.capSrcPort

/-- The packet moves `SYN_RECEIVED` to `ESTABLISHED`. -/
def Completes (c : TcpConversation) (packet : TransportPacket) : Prop :=
  c.capTcpState = .synReceived ∧ packet.hasRst = false ∧
    c.sameAddr packet.network.srcAddr c.capSrcAddr = true ∧ packet.hasAck = true

instance (c : TcpConversation) (packet : TransportPacket) : Decidable (c.Completes packet) :=
  inferInstanceAs (Decidable (_ ∧ _))

/-- The action that a payload is recorded as. -/
def dataActions (c : TcpConversation) (packet : TransportPacket) : List Action :=
  if packet.payload = [] then []
  else [{ type := if c.fromClient packet then .send else .recv, data := packet.payload }]

/-- A packet recorded in a conversation. -/
inductive Recorded (c : TcpConversation) (packet : TransportPacket) : TcpConversation → Prop
  | quiet (state : TcpState) (socket : Int) (idle : state ≠ .established)
      (reset : c.capTcpState = .established → packet.hasRst = true) :
      Recorded c packet { c with capTcpState := state, socket := socket }
  | connected (completes : c.Completes packet) :
      Recorded c packet ({ c with capTcpState := .established }.actionPush { type := .connect })
  | continued (established : c.capTcpState = .established) (noReset : packet.hasRst = false)
      (noFin : packet.hasFin = false) :
      Recorded c packet { c with actionQueue := c.actionQueue ++ c.dataActions packet }
  | ended (established : c.capTcpState = .established) (noReset : packet.hasRst = false)
      (fin : packet.hasFin = true) :
      Recorded c packet
        { c with
          capTcpState := .closed
          actionQueue := c.actionQueue ++ c.dataActions packet ++ [{ type := .close }] }

/-- In an established connection the payload is recorded, and behind it the end. -/
theorem estProcess_eq {c : TcpConversation} {packet : TransportPacket} {tcp : TcpLayer}
    (transport : packet.transport = .tcp tcp) :
    c.estProcessCapturePacket packet.network.srcAddr tcp =
      if tcp.hasFin then
        { c with
          capTcpState := .closed
          actionQueue := c.actionQueue ++ c.dataActions packet ++ [{ type := .close }] }
      else { c with actionQueue := c.actionQueue ++ c.dataActions packet } := by
  have port : packet.transport.srcPort = tcp.srcPort := by rw [transport]; rfl
  have payload : packet.payload = tcp.data := by rw [TransportPacket.payload, transport]
  unfold estProcessCapturePacket dataActions fromClient
  rw [port, payload]
  by_cases empty : tcp.data = []
  · simp [empty, actionPush, PacketConversation.actionPush]
  · by_cases client : c.sameAddr packet.network.srcAddr c.capSrcAddr ∧ tcp.srcPort = c.capSrcPort
    · simp [empty, client, actionPush, PacketConversation.actionPush]
    · have other : (c.sameAddr packet.network.srcAddr c.capSrcAddr &&
          decide (tcp.srcPort = c.capSrcPort)) = false := by
        simpa [Bool.and_eq_false_imp] using client
      simp [empty, client, other, actionPush, PacketConversation.actionPush]

theorem recorded_processCapturePacket (c : TcpConversation) (packet : TransportPacket) :
    Recorded c packet (c.processCapturePacket packet) := by
  cases transport : packet.transport with
  | udp udp =>
      rw [processCapturePacket_udp transport]
      have noReset : packet.hasRst = false := by rw [TransportPacket.hasRst, transport]
      have noFin : packet.hasFin = false := by rw [TransportPacket.hasFin, transport]
      have noPayload : packet.payload = [] := by rw [TransportPacket.payload, transport]
      by_cases established : c.capTcpState = .established
      · have same := Recorded.continued established noReset noFin
        rwa [dataActions, if_pos noPayload, List.append_nil] at same
      · exact .quiet c.capTcpState c.socket established fun est => absurd est established
  | tcp tcp =>
      have resets : packet.hasRst = tcp.hasRst := by rw [TransportPacket.hasRst, transport]
      have fins : packet.hasFin = tcp.hasFin := by rw [TransportPacket.hasFin, transport]
      have acks : packet.hasAck = tcp.hasAck := by rw [TransportPacket.hasAck, transport]
      rw [processCapturePacket_tcp transport, processTcp]
      split
      · next reset => exact .quiet .closed c.socket (by decide) fun _ => resets.trans reset
      · next noReset =>
          have noReset : packet.hasRst = false := resets.trans (Bool.eq_false_iff.mpr noReset)
          split
          · next closed =>
              rw [closeProcessCapturePacket]
              split
              · exact .quiet .synSent (-1) (by decide) (by simp [closed])
              · exact .quiet c.capTcpState c.socket (by simp [closed]) (by simp [closed])
          · next sent =>
              rw [synSentProcessCapturePacket]
              split
              · exact .quiet .synReceived c.socket (by decide) (by simp [sent])
              · exact .quiet c.capTcpState c.socket (by simp [sent]) (by simp [sent])
          · next received =>
              rw [synRecvProcessCapturePacket]
              split
              · next client =>
                  exact .connected ⟨received, noReset, client.1, acks.trans client.2⟩
              · exact .quiet c.capTcpState c.socket (by simp [received]) (by simp [received])
          · next established =>
              rw [estProcess_eq transport]
              split
              · next fin => exact .ended established noReset (fins.trans fin)
              · next noFin =>
                  exact .continued established noReset (fins.trans (Bool.eq_false_iff.mpr noFin))

theorem processCapturePacket_of_rst {packet : TransportPacket} (resets : packet.hasRst = true)
    (c : TcpConversation) : c.processCapturePacket packet = { c with capTcpState := .closed } := by
  cases transport : packet.transport with
  | udp udp => simp [TransportPacket.hasRst, transport] at resets
  | tcp tcp =>
      rw [TransportPacket.hasRst, transport] at resets
      rw [processCapturePacket_tcp transport, processTcp]
      exact if_pos resets

theorem processCapturePacket_of_completes {c : TcpConversation} {packet : TransportPacket}
    (completes : c.Completes packet) :
    c.processCapturePacket packet =
      { c with capTcpState := .established }.actionPush { type := .connect } := by
  rcases completes with ⟨received, noReset, client, acks⟩
  cases transport : packet.transport with
  | udp udp => simp [TransportPacket.hasAck, transport] at acks
  | tcp tcp =>
      rw [TransportPacket.hasRst, transport] at noReset
      rw [TransportPacket.hasAck, transport] at acks
      rw [processCapturePacket_tcp transport, processTcp, if_neg (by simp [noReset]), received]
      exact if_pos ⟨client, acks⟩

/-! ## Runs -/

/-- The packets recorded in a conversation, in order. -/
def captured (c : TcpConversation) (packets : List TransportPacket) : TcpConversation :=
  packets.foldl processCapturePacket c

theorem captured_append (c : TcpConversation) (before behind : List TransportPacket) :
    c.captured (before ++ behind) = (c.captured before).captured behind :=
  List.foldl_append

theorem recorded_captured (c : TcpConversation) (packets : List TransportPacket)
    (packet : TransportPacket) :
    Recorded (c.captured packets) packet (c.captured (packets ++ [packet])) := by
  rw [captured_append]
  exact recorded_processCapturePacket _ packet

/-- What holds at the start and is kept by each recorded packet holds of every run. -/
theorem captured_rule {c : TcpConversation} (motive : List TransportPacket → TcpConversation → Prop)
    (start : motive [] c)
    (step : ∀ packets packet d, motive packets (c.captured packets) →
      Recorded (c.captured packets) packet d → motive (packets ++ [packet]) d)
    (packets : List TransportPacket) : motive packets (c.captured packets) := by
  induction packets using List.reverseRecOn with
  | nil => exact start
  | append_singleton packets packet ih =>
      exact step packets packet _ ih (recorded_captured c packets packet)

/-- A conversation in which nothing is recorded yet. -/
structure Initial (c : TcpConversation) : Prop where
  closed : c.capTcpState = .closed
  empty : c.actionQueue = []

theorem initial_ofPacket (inet : Inet) (packet : TransportPacket)
    (server : Option TargetTestServer) : Initial (ofPacket inet packet server) :=
  ⟨rfl, rfl⟩

theorem lease_of_mem_dataActions {c : TcpConversation} {packet : TransportPacket}
    {action : Action} (mem : action ∈ c.dataActions packet) : action.lease = .use := by
  rw [dataActions] at mem
  split at mem
  · cases mem
  · rw [List.mem_singleton.mp mem, Action.lease]
    split
    · next connect => split at connect <;> cases connect
    · rfl
    · rfl
    · next close => split at close <;> cases close

/-! ## The queue uses a connection it has -/

/-- The queue is disciplined, and an established connection is one that it holds. -/
structure Sound (c : TcpConversation) : Prop where
  disciplined : Lease.Disciplined Action.lease c.actionQueue
  held : c.capTcpState = .established → Lease.held Action.lease c.actionQueue = true

theorem Initial.sound {c : TcpConversation} (initial : Initial c) : Sound c where
  disciplined := by
    rw [initial.empty]
    exact Lease.disciplined_nil
  held established := by
    rw [initial.closed] at established
    cases established

theorem Sound.recorded {c d : TcpConversation} {packet : TransportPacket} (sound : Sound c)
    (step : Recorded c packet d) : Sound d := by
  cases step with
  | quiet state socket idle reset => exact ⟨sound.disciplined, fun est => absurd est idle⟩
  | connected completes =>
      refine ⟨Lease.disciplined_append_singleton.mpr ⟨sound.disciplined, fun other => ?_⟩,
        fun _ => Lease.held_append_of_acquire rfl⟩
      exact absurd rfl other
  | continued established noReset noFin =>
      have holds := sound.held established
      refine ⟨sound.disciplined.append_uses holds fun _ => lease_of_mem_dataActions, fun _ => ?_⟩
      rw [Lease.held_append_of_uses fun _ => lease_of_mem_dataActions]
      exact holds
  | ended established noReset fin =>
      have holds := sound.held established
      refine ⟨Lease.disciplined_append_singleton.mpr ⟨?_, fun _ => ?_⟩, fun est => ?_⟩
      · exact sound.disciplined.append_uses holds fun _ => lease_of_mem_dataActions
      · rw [Lease.held_append_of_uses fun _ => lease_of_mem_dataActions]
        exact holds
      · cases est

theorem Sound.captured {c : TcpConversation} (sound : Sound c) (packets : List TransportPacket) :
    Sound (c.captured packets) :=
  captured_rule (fun _ d => Sound d) sound (fun _ _ _ ih step => ih.recorded step) packets

/-! ## Connections that are reset -/

/-- A connection is reset. -/
def IsReset (c : TcpConversation) (packets : List TransportPacket) : Prop :=
  ∃ before rst behind, packets = before ++ rst :: behind ∧
    (c.captured before).capTcpState = .established ∧ rst.hasRst = true

/-- A connection is reset, and a handshake is completed behind that. -/
def Reopened (c : TcpConversation) (packets : List TransportPacket) : Prop :=
  ∃ before rst between ack behind, packets = before ++ rst :: (between ++ ack :: behind) ∧
    (c.captured before).capTcpState = .established ∧ rst.hasRst = true ∧
    (c.captured (before ++ rst :: between)).Completes ack

theorem IsReset.append {c : TcpConversation} {packets : List TransportPacket}
    (reset : IsReset c packets) (behind : List TransportPacket) :
    IsReset c (packets ++ behind) := by
  rcases reset with ⟨before, rst, rest, rfl, established, resets⟩
  exact ⟨before, rst, rest ++ behind, by simp, established, resets⟩

theorem Reopened.append {c : TcpConversation} {packets : List TransportPacket}
    (reopened : Reopened c packets) (behind : List TransportPacket) :
    Reopened c (packets ++ behind) := by
  rcases reopened with ⟨before, rst, between, ack, rest, rfl, established, resets, completes⟩
  exact ⟨before, rst, between, ack, rest ++ behind, by simp, established, resets, completes⟩

/-- A connection that is held although none is established has been reset. -/
theorem isReset_of_held {c : TcpConversation} (initial : Initial c)
    (packets : List TransportPacket) :
    Lease.held Action.lease (c.captured packets).actionQueue = true →
      (c.captured packets).capTcpState ≠ .established → IsReset c packets := by
  apply captured_rule fun packets d =>
    Lease.held Action.lease d.actionQueue = true → d.capTcpState ≠ .established →
      IsReset c packets
  · intro holds broken
    rw [initial.empty] at holds
    cases holds
  · intro packets packet d ih step holds broken
    cases step with
    | quiet state socket idle reset =>
        by_cases established : (c.captured packets).capTcpState = .established
        · exact ⟨packets, packet, [], rfl, established, reset established⟩
        · exact (ih holds established).append [packet]
    | connected completes => exact absurd rfl broken
    | continued established noReset noFin => exact absurd established broken
    | ended established noReset fin =>
        rw [Lease.held_append_of_release rfl] at holds
        cases holds

/-- Without a connection reset and opened again the queue is exclusive. -/
theorem exclusive_captured {c : TcpConversation} (initial : Initial c)
    (packets : List TransportPacket) :
    ¬ Reopened c packets → Lease.Exclusive Action.lease (c.captured packets).actionQueue := by
  apply captured_rule fun packets d =>
    ¬ Reopened c packets → Lease.Exclusive Action.lease d.actionQueue
  · intro never
    rw [initial.empty]
    exact Lease.exclusive_nil
  · intro packets packet d ih step never
    have exclusive := ih fun reopened => never (reopened.append [packet])
    cases step with
    | quiet state socket idle reset => exact exclusive
    | connected completes =>
        refine Lease.exclusive_append_singleton.mpr ⟨exclusive, fun _ => ?_⟩
        rw [← Bool.not_eq_true]
        intro holds
        have broken : (c.captured packets).capTcpState ≠ .established := by
          rw [completes.1]
          decide
        rcases isReset_of_held initial packets holds broken with
          ⟨before, rst, between, rfl, established, resets⟩
        exact never ⟨before, rst, between, packet, [], by simp, established, resets, completes⟩
    | continued established noReset noFin =>
        exact exclusive.append_uses fun _ => lease_of_mem_dataActions
    | ended established noReset fin =>
        refine Lease.exclusive_append_singleton.mpr ⟨?_, fun other => by cases other⟩
        exact exclusive.append_uses fun _ => lease_of_mem_dataActions

/-- Behind a reset the connection stays held, as long as the queue is exclusive. -/
theorem held_of_exclusive {c : TcpConversation}
    (holds : Lease.held Action.lease c.actionQueue = true)
    (broken : c.capTcpState ≠ .established) (packets : List TransportPacket) :
    Lease.Exclusive Action.lease (c.captured packets).actionQueue →
      Lease.held Action.lease (c.captured packets).actionQueue = true ∧
        (c.captured packets).capTcpState ≠ .established := by
  apply captured_rule fun _ d => Lease.Exclusive Action.lease d.actionQueue →
    Lease.held Action.lease d.actionQueue = true ∧ d.capTcpState ≠ .established
  · exact fun _ => ⟨holds, broken⟩
  · intro packets packet d ih step exclusive
    cases step with
    | quiet state socket idle reset => exact ⟨(ih exclusive).1, idle⟩
    | connected completes =>
        rcases Lease.exclusive_append_singleton.mp exclusive with ⟨earlier, free⟩
        rw [(ih earlier).1] at free
        cases free rfl
    | continued established noReset noFin => exact absurd established (ih exclusive.of_append).2
    | ended established noReset fin =>
        exact absurd established (ih exclusive.of_append.of_append).2

/-- What was recorded stays in the queue. -/
theorem actionQueue_prefix_captured (c : TcpConversation) (packets : List TransportPacket) :
    c.actionQueue <+: (c.captured packets).actionQueue := by
  apply captured_rule fun _ d => c.actionQueue <+: d.actionQueue
  · exact List.prefix_rfl
  · intro packets packet d ih step
    apply ih.trans
    cases step with
    | quiet state socket idle reset => exact List.prefix_rfl
    | connected completes => exact List.prefix_append _ _
    | continued established noReset noFin => exact List.prefix_append _ _
    | ended established noReset fin =>
        rw [List.append_assoc]
        exact List.prefix_append _ _

/-- A connection that is reset and opened again is held twice. -/
theorem not_exclusive_of_reopened {c : TcpConversation} (initial : Initial c)
    {packets : List TransportPacket} (reopened : Reopened c packets) :
    ¬ Lease.Exclusive Action.lease (c.captured packets).actionQueue := by
  intro exclusive
  rcases reopened with ⟨before, rst, between, ack, behind, rfl, established, resets, completes⟩
  -- The reset records nothing, so the connection before it is held behind it.
  have holds := (initial.sound.captured before).held established
  have resetting : c.captured (before ++ [rst]) =
      { c.captured before with capTcpState := .closed } := by
    rw [captured_append]
    exact processCapturePacket_of_rst resets _
  have completing := processCapturePacket_of_completes completes
  have cut : before ++ rst :: (between ++ ack :: behind) =
      before ++ [rst] ++ between ++ [ack] ++ behind := by simp
  have upTo : before ++ rst :: between = before ++ [rst] ++ between := by simp
  rw [upTo] at completing
  rcases actionQueue_prefix_captured (c.captured (before ++ [rst] ++ between ++ [ack])) behind with
    ⟨rest, queue⟩
  rw [cut, captured_append, ← queue, captured_append] at exclusive
  have twice := exclusive.of_append
  rw [show (c.captured (before ++ [rst] ++ between)).captured [ack] = _ from completing] at twice
  rcases Lease.exclusive_append_singleton.mp twice with ⟨earlier, free⟩
  rw [captured_append, resetting] at earlier free
  have still := (held_of_exclusive (c := { c.captured before with capTcpState := .closed })
    holds (fun established => by cases established) between earlier).1
  rw [still] at free
  cases free rfl

/-- The queue is exclusive exactly when no connection is reset and opened again. -/
theorem exclusive_captured_iff {c : TcpConversation} (initial : Initial c)
    (packets : List TransportPacket) :
    Lease.Exclusive Action.lease (c.captured packets).actionQueue ↔ ¬ Reopened c packets := by
  constructor
  · exact fun exclusive reopened => not_exclusive_of_reopened initial reopened exclusive
  · exact exclusive_captured initial packets

end TcpConversation

end PacketReplay
