import PacketReplay.Capture.CaptureFile
import PacketReplay.Capture.SpecMatching
import PacketReplay.Capture.TcpSession
import PacketReplay.Replay.HttpExchange
import PacketReplay.Replay.Program

/-!
# The program for HTTP

`main` of `http_replay`: the options, the capture and the replay of what is recorded. On a
capture whose flows are those of HTTP connections it sends their requests in the order of
the flows, and reports the exchanges in which the server answers with another status or body,
up to where it stops (`main_plays`).
-/

namespace PacketReplay

open Lib
open SpecMatching (addTargetTestServers)

namespace HttpReplay

/-- An option as `getopt` takes it off the arguments. -/
inductive Opt : Type
  | client (spec : Bytes)
  | other

def printUsage (name : Bytes) : Bytes :=
  ascii "Usage: " ++ name ++ ascii "[-c <client spec>] <cap file>\n"

/-- The loop over the options, which an unknown one ends. -/
def parseOptions (inet : Inet) (testServers : TestServers) :
    List Opt → Outcome (Option TestServers)
  | [] => .ok (some testServers)
  | .client spec :: opts => do
      let testServers ← addTargetTestServer inet testServers spec
      parseOptions inet testServers opts
  | .other :: _ => .ok none

def replayAll (conversations : List TcpConversation) : HttpRun Unit :=
  Proc.each replayConversation conversations

/-- The body of the `try` block: whether it comes to its end. -/
def body (inet : Inet) (openOffline : Bytes → Except Bytes Capture.CaptureFile)
    (opts : List Opt) (operands : List Bytes) : HttpRun Bool := do
  match ← call (parseOptions inet ∅ opts) with
  | none => return false
  | some testServers =>
      match operands with
      | [file] => do
          let store ← call (Capture.load (tcpConversationFactory inet) ⟨testServers, ∅⟩
            (openOffline file))
          replayAll store.getConversations
          return true
      | _ => return false

def main (inet : Inet) (openOffline : Bytes → Except Bytes Capture.CaptureFile) (name : Bytes)
    (opts : List Opt) (operands : List Bytes) : HttpRun Exit := fun w =>
  (exitOf (printUsage name) (body inet openOffline opts operands w).1,
    (body inet openOffline opts operands w).2)

/-! ## Runs of the program -/

variable {inet : Inet} {openOffline : Bytes → Except Bytes Capture.CaptureFile} {file : Bytes}

theorem parseOptions_client (testServers : TestServers) (specs : List Bytes) :
    parseOptions inet testServers (specs.map .client) =
      (addTargetTestServers inet testServers specs).map some := by
  induction specs generalizing testServers with
  | nil => rfl
  | cons spec specs ih =>
      rw [List.map_cons, parseOptions, addTargetTestServers, List.foldlM_cons]
      cases addTargetTestServer inet testServers spec with
      | error f => rfl
      | ok added => exact ih added

/-- The body on a file that is loaded runs over the conversations. -/
theorem body_of_loaded {opts : List Opt} {testServers : TestServers}
    {store : TypedConversationStore TcpConversation}
    (parsed : parseOptions inet ∅ opts = .ok (some testServers))
    (loaded : Capture.load (tcpConversationFactory inet) ⟨testServers, ∅⟩
      (openOffline file) = .ok store) (w : HttpWorld) :
    body inet openOffline opts [file] w =
      ((replayAll store.getConversations w).1.map fun _ => true,
        (replayAll store.getConversations w).2) :=
  (Proc.bind_of_ok (call_of_ok parsed w)).trans ((Proc.bind_of_ok (call_of_ok loaded w)).trans
    (Proc.bind_pure_apply _ (fun _ => true) w))

/-! ## The reports -/

theorem reports_replayAll {conversations : List TcpConversation} {sessions : List (List Item)}
    (held : List.Forall₂ (fun c items => c.actionQueue = items.flatMap Item.actions)
      conversations sessions) (orderly : ∀ items ∈ sessions, Orderly items) {w : HttpWorld}
    {more : List (Except Nat Bytes)}
    (read : w.answers.read = sessions.flatten.flatMap Item.reads ++ more) :
    Reports w (replayAll conversations w) sessions.flatten more := by
  induction held generalizing w with
  | nil => exact reports_nil read
  | @cons conversation items conversations sessions queue _ ih =>
      obtain ⟨here, others⟩ := List.forall_mem_cons.mp orderly
      rw [List.flatten_cons, List.flatMap_append, List.append_assoc] at read
      have ready : (client conversation w).Ready items := ⟨Or.inl rfl, Or.inl rfl⟩
      have first : Reports w (replayConversation conversation w) items
          (sessions.flatten.flatMap Item.reads ++ more) := by
        rw [replayConversation, queue]
        exact HttpReplayClient.reports_run here ready read
      rw [List.flatten_cons]
      rcases runs : replayConversation conversation w with ⟨e | _, v⟩
      · have whole : replayAll (conversation :: conversations) w = (.error e, v) :=
          Proc.bind_of_error runs
        rw [whole]
        exact (runs ▸ first).append_of_error _ more
      · have whole : replayAll (conversation :: conversations) w = replayAll conversations v :=
          Proc.bind_of_ok runs
        rw [runs] at first
        rw [whole]
        exact first.append_of_ok (ih others (first.finished rfl).1)

end HttpReplay

/-! ## Captures of HTTP connections -/

/-- A connection that carries requests and their responses. -/
structure HttpConnection extends TcpConnection where
  exchanges : List Exchange
  carried : (data ++ [fin]).flatMap TcpSegment.actions =
    exchanges.flatMap fun e => (Item.exchange e).actions

namespace HttpConnection

def items (k : HttpConnection) : List Item :=
  .connect :: (k.exchanges.map .exchange ++ [.close])

theorem actions_eq (k : HttpConnection) :
    k.toTcpConnection.actions = k.items.flatMap Item.actions := by
  rw [items, List.flatMap_cons, List.flatMap_append, List.flatMap_singleton, List.flatMap_map,
    ← k.carried]
  rfl

end HttpConnection

/-- A flow of HTTP connections. -/
structure HttpFlow : Type where
  flow : TcpFlow
  first : HttpConnection
  others : List HttpConnection
  orderly : Orderly ((first :: others).flatMap HttpConnection.items)

namespace HttpFlow

def key (h : HttpFlow) : Bytes := tcpIpGetKey h.flow.opening

def items (h : HttpFlow) : List Item := (h.first :: h.others).flatMap HttpConnection.items

open TypedConversationStore

/-- The conversation that is recorded of the flow. -/
def conversation (inet : Inet) (testServers : TestServers) (h : HttpFlow) : TcpConversation :=
  { TcpConversation.ofPacket inet h.flow.opening
      (configured (tcpConversationFactory inet) testServers h.flow.opening).join with
    actionQueue := ((h.first :: h.others).map HttpConnection.toTcpConnection).flatMap
      TcpConnection.actions }

theorem actionQueue_eq (inet : Inet) (testServers : TestServers) (h : HttpFlow) :
    (h.conversation inet testServers).actionQueue = h.items.flatMap Item.actions := by
  have queue : (h.conversation inet testServers).actionQueue =
      (h.first :: h.others).flatMap fun k => k.toTcpConnection.actions := List.flatMap_map ..
  rw [queue, items, List.flatMap_assoc]
  exact congrArg (List.flatMap · _) (funext HttpConnection.actions_eq)

/-- The packets of a capture in which the flows are those that may open a conversation, in
the order of their keys. -/
structure Captured (inet : Inet) (testServers : TestServers) (packets : List TransportPacket)
    (flows : List HttpFlow) : Prop where
  connects : ∀ h ∈ flows, h.flow.Connects inet testServers packets h.first.toTcpConnection
    (h.others.map HttpConnection.toTcpConnection)
  ordered : flows.Pairwise fun h g => h.key < g.key
  whole : ∀ p ∈ packets,
    (testServers.entries ≠ [] → FromClient (tcpConversationFactory inet) testServers p) →
      (testServers.entries = [] → packets.head? = some p) → ∃ h ∈ flows, h.key = tcpIpGetKey p

/-- They are recorded, and nothing else. -/
theorem Captured.getConversations {inet : Inet} {testServers : TestServers}
    {packets : List TransportPacket} {flows : List HttpFlow}
    (captured : Captured inet testServers packets flows) :
    (load (tcpConversationFactory inet) ⟨testServers, ∅⟩ packets).getConversations =
      flows.map (conversation inet testServers) := by
  have recorded : ∀ h ∈ flows,
      (load (tcpConversationFactory inet) ⟨testServers, ∅⟩ packets).conversations.lookup h.key =
        some (h.conversation inet testServers) :=
    fun h mem => TcpFlow.lookup_load_of_connects h.flow (captured.connects h mem)
  have sorted : (flows.map fun h => (⟨h.key, h.conversation inet testServers⟩ :
      Sigma fun _ : Bytes => TcpConversation)).Pairwise fun a b => a.1 < b.1 :=
    List.pairwise_map.mpr captured.ordered
  have nodup := nodupKeys_of_sorted sorted
  refine (getConversations_eq sorted fun key => ?_).trans (List.map_map ..)
  by_cases known : ∃ h ∈ flows, h.key = key
  · obtain ⟨h, mem, rfl⟩ := known
    rw [recorded h mem]
    exact (List.mem_dlookup nodup (List.mem_map_of_mem mem)).symm
  · have missing : key ∉ (flows.map fun h => (⟨h.key, h.conversation inet testServers⟩ :
        Sigma fun _ : Bytes => TcpConversation)).keys := by
      intro inside
      obtain ⟨entry, mem, rfl⟩ := List.mem_map.mp inside
      obtain ⟨h, here, rfl⟩ := List.mem_map.mp mem
      exact known ⟨h, here, rfl⟩
    rw [List.dlookup_eq_none.mpr missing]
    rcases found : (load (tcpConversationFactory inet) ⟨testServers, ∅⟩
      packets).conversations.lookup key with _ | c
    · rfl
    · obtain ⟨before, p, behind, opens, same, -⟩ := exists_opener found
      have inside : p ∈ packets := by
        have flows : p ∈ TypedConversationStore.flow (tcpConversationFactory inet)
            ((tcpConversationFactory inet).getKey p) packets := by
          rw [opens.flow]
          exact List.mem_append_right before List.mem_cons_self
        exact (List.mem_filter.mp flows).1
      obtain ⟨h, mem, key⟩ := captured.whole p inside (fun some => (opens.client some).1)
        fun none => (opens.lone none).2
      exact absurd ⟨h, mem, key.trans same⟩ known

end HttpFlow

namespace HttpReplay

variable {inet : Inet} {openOffline : Bytes → Except Bytes Capture.CaptureFile} {file : Bytes}

/-- What the program does on a capture of HTTP flows: it replays them to their end, or it is
stopped in one of them. -/
structure Plays (flows : List HttpFlow) (answers : Answers)
    (r : Except Stop Exit × HttpWorld) : Prop where
  sent : wire 0 r.2.calls answers.write <+:
    spoken 0 ((flows.flatMap HttpFlow.items).flatMap Item.actions)
  ends : r.1 = .ok ⟨0, []⟩ ∨ r.1 = .error .blocked ∨ ∃ what, r.1 = .ok ⟨-1, what ++ ascii "\n"⟩
  finished : r.1 = .ok ⟨0, []⟩ →
    Serves answers r.2.calls (flows.flatMap HttpFlow.items) ∧
      wire 0 r.2.calls answers.write =
        spoken 0 ((flows.flatMap HttpFlow.items).flatMap Item.actions) ∧
      r.2.output = (flows.flatMap HttpFlow.items).flatMap Item.report ∧
      ∀ item ∈ flows.flatMap HttpFlow.items, ¬ item.Clashes
  stopped : r.1 ≠ .ok ⟨0, []⟩ → ∃ e, r.1 = exitOfRun (.error e) ∧
    StopsIn { answers := answers } r.2 (flows.flatMap HttpFlow.items) e

/-- What the conversations leave is what the program does. -/
theorem plays_of_reports {flows : List HttpFlow} {answers : Answers}
    {r : Except Stop Unit × HttpWorld} {more : List (Except Nat Bytes)}
    (reports : Reports { answers := answers } r (flows.flatMap HttpFlow.items) more) :
    Plays flows answers (exitOfRun r.1, r.2) := by
  rcases r with ⟨e | _, u⟩
  · have stops := reports.stopped e rfl
    obtain ⟨new, calls, part⟩ := stops.part
    have calls : u.calls = new := calls
    have ends : exitOfRun (.error e) = .error .blocked ∨
        ∃ what, exitOfRun (.error e) = .ok ⟨-1, what ++ ascii "\n"⟩ := by
      rcases stops.stops with rfl | ⟨what, rfl⟩
      · exact Or.inl rfl
      · exact Or.inr ⟨what, rfl⟩
    refine ⟨calls ▸ part 0, Or.inr ends, fun zero => ?_, fun _ => ⟨e, rfl, stops⟩⟩
    rcases ends with blocked | ⟨what, thrown⟩
    · cases blocked.symm.trans zero
    · cases thrown.symm.trans zero
  · obtain ⟨-, new, serves, reached⟩ := reports.finished rfl
    have calls : u.calls = new := (congrArg HttpWorld.calls reached).trans (List.nil_append _)
    have output : u.output = (flows.flatMap HttpFlow.items).flatMap Item.report :=
      (congrArg HttpWorld.output reached).trans (List.nil_append _)
    have whole := serves.carries.bytes 0
    rw [← calls] at serves whole
    exact ⟨whole ▸ List.prefix_rfl, Or.inl rfl, fun _ => ⟨serves, whole, output, serves.agree⟩,
      fun other => absurd rfl other⟩

/-- On a file of well-formed frames that carry HTTP connections, whatever packets of other
flows are between them: however the system cuts what is written, the program sends the
requests of the flows in the order of their keys, and however the server delivers its
responses, it reports the exchanges that differ from the captured ones. It stops only at a
call of `socket`, `connect` or `write` that fails or does not return, or at a response of
another framing, behind the reports of the exchanges that it has replayed to their end. -/
theorem main_plays {datalinkType : Int} {frames : List WellFormedFrame}
    (link : ∀ f ∈ frames, f.link.datalinkType = datalinkType)
    (opened : openOffline file = .ok (WellFormedFrame.file datalinkType frames))
    {specs : List Bytes} {testServers : TestServers}
    (added : addTargetTestServers inet ∅ specs = .ok testServers) {flows : List HttpFlow}
    (captured : HttpFlow.Captured inet testServers (frames.map WellFormedFrame.packet) flows)
    {answers : Answers} {more : List (Except Nat Bytes)}
    (read : answers.read = (flows.flatMap HttpFlow.items).flatMap Item.reads ++ more)
    (name : Bytes) :
    Plays flows answers
      (main inet openOffline name (specs.map .client) [file] { answers := answers }) := by
  have parsed : parseOptions inet ∅ (specs.map .client) = .ok (some testServers) := by
    rw [parseOptions_client]
    exact map_eq_ok.mpr ⟨testServers, added, rfl⟩
  have loaded : Capture.load (tcpConversationFactory inet) ⟨testServers, ∅⟩ (openOffline file) =
      .ok (TypedConversationStore.load (tcpConversationFactory inet) ⟨testServers, ∅⟩
        (frames.map WellFormedFrame.packet)) := by
    rw [opened]
    exact WellFormedFrame.load_file_tcp link inet _
  have held : List.Forall₂ (fun c items => c.actionQueue = items.flatMap Item.actions)
      (flows.map (HttpFlow.conversation inet testServers)) (flows.map HttpFlow.items) := by
    rw [List.forall₂_map_left_iff, List.forall₂_map_right_iff, List.forall₂_same]
    exact fun h _ => h.actionQueue_eq inet testServers
  have orderly : ∀ items ∈ flows.map HttpFlow.items, Orderly items := by
    intro items mem
    obtain ⟨h, -, rfl⟩ := List.mem_map.mp mem
    exact h.orderly
  rw [List.flatMap_def] at read
  have reports := reports_replayAll held orderly (w := { answers := answers }) read
  rw [← List.flatMap_def] at reports
  rw [main, body_of_loaded parsed loaded, captured.getConversations, exitOf_map_true]
  exact plays_of_reports reports

/-! ## A capture of two exchanges -/

/-- The flow between two hosts of the network 10.0.0.0/24. -/
def flowBetween (client server : UInt8) (clientPort serverPort : UInt16)
    (differ : client ≠ server) : TcpFlow where
  family := .inet
  clientAddr := [10, 0, 0, client]
  serverAddr := [10, 0, 0, server]
  clientPort := ntohs clientPort
  serverPort := ntohs serverPort
  clientAddr_length := WellFormedFrame.length_host client
  serverAddr_length := WellFormedFrame.length_host server
  distinct := fun same => differ (by simpa using congrArg Prod.fst same)

def greetingTcp : TcpFlow := flowBetween 1 3 49152 80 (by decide)

open HttpReplayClient (chunkedExchange greetingExchange greetingAnswers chunkedGreeting
  orderly_greetingItems)

/-- The chunked greeting, in one segment. -/
def chunkedSegment : Bytes :=
  chunkedGreeting.head.heading.bytes ++ ascii "2\r\nhi\r\n0\r\n\r\n"

def greetingConnection : HttpConnection where
  synAck := thSyn ||| thAck
  ack := thAck
  data := [⟨true, thAck, ascii "GET / HTTP/1.1\r\n\r\n"⟩, ⟨false, thAck, chunkedSegment⟩,
    ⟨true, thAck, ascii "GET / HTTP/1.1\r\n"⟩, ⟨true, thAck, ascii "\r\n"⟩,
    ⟨false, thAck, HttpResponseProcessor.greeting.bytes⟩, ⟨true, thAck, []⟩]
  fin := ⟨true, thFin ||| thAck, []⟩
  trailing := [⟨false, thFin ||| thAck, []⟩]
  synAck_flags := by decide
  ack_flags := by decide
  plain := by decide
  ends := by decide
  quiet := by decide
  exchanges := [chunkedExchange, greetingExchange]
  carried := rfl

def greetingFlow : HttpFlow := ⟨greetingTcp, greetingConnection, [], orderly_greetingItems⟩

/-- The frame of a packet of the flow. -/
def segmentFrame (s : TcpSegment) (small : s.payload.length < 2 ^ 15) : WellFormedFrame :=
  have fits : 20 + (20 + s.payload.length) < 2 ^ 16 := by omega
  let tcp : TransportHeader := .tcp (List.replicate 8 0) 0 s.flags (List.replicate 6 0)
    WellFormedFrame.noOptions rfl (by decide) rfl
  if s.client then .betweenHosts 1 3 tcp 49152 80 s.payload fits
  else .betweenHosts 3 1 tcp 80 49152 s.payload fits

/-- The exchanges with a packet of another flow in the middle of the handshake. -/
def greetingFrames : List WellFormedFrame :=
  [segmentFrame ⟨true, thSyn, []⟩ (by decide),
    segmentFrame ⟨false, thSyn ||| thAck, []⟩ (by decide),
    .betweenHosts 1 5 WellFormedFrame.bareUdp 7 53 (ascii "?") (by decide),
    segmentFrame ⟨true, thAck, []⟩ (by decide),
    segmentFrame ⟨true, thAck, ascii "GET / HTTP/1.1\r\n\r\n"⟩ (by decide),
    segmentFrame ⟨false, thAck, chunkedSegment⟩ (by decide),
    segmentFrame ⟨true, thAck, ascii "GET / HTTP/1.1\r\n"⟩ (by decide),
    segmentFrame ⟨true, thAck, ascii "\r\n"⟩ (by decide),
    segmentFrame ⟨false, thAck, HttpResponseProcessor.greeting.bytes⟩ (by decide),
    segmentFrame ⟨true, thAck, []⟩ (by decide),
    segmentFrame ⟨true, thFin ||| thAck, []⟩ (by decide),
    segmentFrame ⟨false, thFin ||| thAck, []⟩ (by decide)]

theorem captured_greeting : HttpFlow.Captured dottedInet ∅
    (greetingFrames.map WellFormedFrame.packet) [greetingFlow] := by
  have keys : ∀ p ∈ greetingFrames.map WellFormedFrame.packet,
      (greetingFrames.map WellFormedFrame.packet).head? = some p →
        tcpIpGetKey greetingTcp.opening = tcpIpGetKey p := by decide +kernel
  refine ⟨fun h mem => ?_, List.pairwise_singleton _ _, fun p mem _ lone =>
    ⟨_, List.mem_singleton_self _, keys p mem (lone rfl)⟩⟩
  rw [List.mem_singleton.mp mem]
  exact ⟨by decide +kernel, fun clients => absurd rfl clients, fun _ => by decide +kernel⟩

theorem main_plays_greeting :
    Plays [greetingFlow] greetingAnswers
      (main dottedInet (fun _ => .ok (WellFormedFrame.file dltNull greetingFrames))
        (ascii "http_replay") [] [ascii "http.pcap"] { answers := greetingAnswers }) := by
  have link : ∀ f ∈ greetingFrames, f.link.datalinkType = dltNull := by
    simp [greetingFrames, segmentFrame, WellFormedFrame.betweenHosts, LinkHeader.datalinkType]
  have added : addTargetTestServers dottedInet ∅ [] = .ok ∅ := rfl
  have read : greetingAnswers.read =
      ([greetingFlow].flatMap HttpFlow.items).flatMap Item.reads ++ [] := rfl
  exact main_plays link rfl added captured_greeting read _

end HttpReplay

end PacketReplay
