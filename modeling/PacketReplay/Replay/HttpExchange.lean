import PacketReplay.Http.Delivery
import PacketReplay.Replay.HttpWire

/-!
# What an HTTP replay reports

A queue of requests with the responses that were captured for them, replayed to a server
that sends other responses. However the responses are delivered, every exchange is compared
once, when both responses are complete, and what is reported are those that differ
(`reports_replay`). The length of a response stays behind in the headers, so chunked ones
are to come first.
-/

namespace PacketReplay

open Lib
open HttpResponseProcessor (contentLength)

/-- No chunked message comes behind one with a length. -/
def ChunkedFirst (messages : List Message) : Prop :=
  messages.Pairwise fun m n => m.framing = .contentLen → n.framing = .contentLen

instance (messages : List Message) : Decidable (ChunkedFirst messages) :=
  inferInstanceAs (Decidable (messages.Pairwise _))

/-- A request, the response that was captured for it and the one that the server sends. -/
structure Exchange : Type where
  request : List Bytes
  request_ne_nil : request ≠ []
  expected : Delivery
  actual : Delivery

namespace Exchange

/-- The `SEND`s of the request. -/
def sends (e : Exchange) : List Action :=
  e.request.map fun data => { type := .send, data := data }

def Clashes (e : Exchange) : Prop := e.expected.message.Clashes e.actual.message

/-- What is to be reported. -/
def report (e : Exchange) : Bytes :=
  if e.expected.message.Differs e.actual.message then
    ascii "detected difference in server response\n"
  else []

end Exchange

/-- A part of a conversation. -/
inductive Item : Type
  | connect
  | exchange (e : Exchange)
  | close

namespace Item

/-- The actions that a part is captured as. -/
def actions : Item → List Action
  | connect => [{ type := .connect }]
  | exchange e =>
      e.request.map (fun data => { type := .send, data := data }) ++
        e.expected.segments.map fun data => { type := .recv, data := data }
  | close => [{ type := .close }]

/-- What the server sends in it. -/
def reads : Item → List (Except Nat Bytes)
  | exchange e => e.actual.segments.map .ok
  | _ => []

/-- What is to be reported of it. -/
def report : Item → Bytes
  | exchange e => e.report
  | _ => []

/-- The response that was captured in it. -/
def expected : Item → List Message
  | exchange e => [e.expected.message]
  | _ => []

/-- The response of the server. -/
def actual : Item → List Message
  | exchange e => [e.actual.message]
  | _ => []

def Clashes : Item → Prop
  | exchange e => e.Clashes
  | _ => False

end Item

/-- Chunked responses come first, among those that were captured and those of the server. -/
structure Orderly (items : List Item) : Prop where
  expected : ChunkedFirst (items.flatMap Item.expected)
  actual : ChunkedFirst (items.flatMap Item.actual)

theorem Orderly.tail {item : Item} {items : List Item} (orderly : Orderly (item :: items)) :
    Orderly items where
  expected := (List.pairwise_append.mp (List.flatMap_cons ▸ orderly.expected)).2.1
  actual := (List.pairwise_append.mp (List.flatMap_cons ▸ orderly.actual)).2.1

namespace HttpResponseProcessor

variable {p : HttpResponseProcessor} {m : Message} {messages : List Message}

/-- The headers let the messages be read. -/
def Ready (p : HttpResponseProcessor) (messages : List Message) : Prop :=
  p.headers contentLength = none ∨ ∀ m ∈ messages, m.framing = .contentLen

theorem Ready.unsized (ready : p.Ready (m :: messages)) (chunked : m.framing = .chunked) :
    p.headers contentLength = none := by
  rcases ready with none | sized
  · exact none
  · rw [sized m List.mem_cons_self] at chunked
    cases chunked

theorem HasRead.ready (read : p.HasRead m) (first : ChunkedFirst (m :: messages)) :
    p.Ready messages := by
  cases framing : m.framing with
  | chunked => exact Or.inl (read.unsized framing)
  | contentLen => exact Or.inr fun n mem => (List.pairwise_cons.mp first).1 n mem framing

end HttpResponseProcessor

namespace HttpReplayClient

open HttpResponseProcessor (Blank HasRead Reading mismatch)

variable {c : HttpReplayClient} {m n : Message} {segments others left : List Bytes}
  {more : List (Except Nat Bytes)}

/-! ## A response is read -/

/-- A response that is complete is not read. -/
theorem readResponse_of_complete (complete : c.testProcessor.complete = .ok true)
    (answers : List (Except Nat Bytes)) :
    c.readResponse answers = (.ok (), { c with answers.read := answers }) := by
  cases answers with
  | nil =>
      unfold readResponse
      rw [complete]
  | cons answer answers =>
      unfold readResponse
      rw [complete]

/-- Another piece of a response that is not. -/
theorem readResponse_cons {segment : Bytes} {next : HttpResponseProcessor} {b : Bool}
    (incomplete : c.testProcessor.complete = .ok false) (nonempty : segment ≠ [])
    (processed : c.testProcessor.processData segment = (.ok b, next))
    (answers : List (Except Nat Bytes)) :
    c.readResponse (.ok segment :: answers) =
      readResponse { c.called (.read c.socket) with testProcessor := next } answers := by
  obtain ⟨a, rest, rfl⟩ := List.exists_cons_of_ne_nil nonempty
  conv_lhs => unfold readResponse
  rw [incomplete]
  have received : (c.called (.read c.socket)).receive (a :: rest) =
      (.ok (), { c.called (.read c.socket) with testProcessor := next }) := by
    have same : (c.called (.read c.socket)).testProcessor.processData (a :: rest) = (.ok b, next) :=
      processed
    rw [receive, same]
  simp only [received]
  rfl

/-- A response is read to its end, in as many calls as it comes in pieces. -/
theorem exists_readResponse (reading : Reading n c.testProcessor others)
    (nonempty : ∀ segment ∈ others, segment ≠ []) (more : List (Except Nat Bytes)) :
    ∃ t, t.HasRead n ∧ c.readResponse (others.map .ok ++ more) = (.ok (), { c with
      testProcessor := t
      calls := c.calls ++ List.replicate others.length (.read c.socket)
      answers.read := more }) := by
  induction others generalizing c with
  | nil =>
      cases reading with
      | done read =>
          refine ⟨c.testProcessor, read, (readResponse_of_complete read.complete more).trans ?_⟩
          rw [List.length_nil, List.replicate_zero, List.append_nil]
  | cons segment others ih =>
      obtain ⟨first, rest⟩ := List.forall_mem_cons.mp nonempty
      cases reading with
      | @more _ next _ _ _ incomplete processed goes =>
          obtain ⟨t, done, runs⟩ :=
            ih (c := { c.called (.read c.socket) with testProcessor := next }) goes rest
          refine ⟨t, done, ?_⟩
          rw [List.map_cons, List.cons_append, readResponse_cons incomplete first processed, runs,
            List.length_cons, List.replicate_succ, List.append_cons]
          rfl

/-! ## A response is expected -/

theorem expect_of_incomplete {data : Bytes} {next : HttpResponseProcessor} {b : Bool}
    (incomplete : c.expectedProcessor.complete = .ok false)
    (processed : c.expectedProcessor.processData data = (.ok b, next)) :
    c.expect data = (.ok (), { c with expectedProcessor := next }) := by
  rw [expect, incomplete]
  simp only [processed]

theorem check_of_incomplete (incomplete : c.expectedProcessor.complete = .ok false) :
    c.check = (.ok (), c) := by
  rw [check, incomplete]

/-- A `RECV` reads what is left of the response of the server. -/
theorem exists_recv {segment : Bytes} (expected : Reading m c.expectedProcessor (segment :: left))
    (actual : Reading n c.testProcessor others) (nonempty : ∀ segment ∈ others, segment ≠ [])
    (read : c.answers.read = others.map .ok ++ more) :
    ∃ next t, Reading m next left ∧ t.HasRead n ∧ c.recv segment = check { c with
      expectedProcessor := next
      testProcessor := t
      calls := c.calls ++ List.replicate others.length (.read c.socket)
      answers.read := more } := by
  cases expected with
  | @more _ next _ _ _ incomplete processed rest =>
      obtain ⟨t, done, runs⟩ := exists_readResponse
        (c := { c with expectedProcessor := next }) actual nonempty more
      refine ⟨next, t, rest, done, ?_⟩
      rw [recv, expect_of_incomplete incomplete processed]
      simp only [Result.andThen]
      rw [read, runs]

/-- What the `RECV`s of an exchange leave: the response of the server is read, and both are
compared, or there is the exception on a clash. -/
structure Received (c : HttpReplayClient) (r : Result) (m n : Message) (new : List Call)
    (more : List (Except Nat Bytes)) : Prop where
  calls : r.2.calls = c.calls ++ new
  answers : r.2.answers = { c.answers with read := more }
  output : r.1 = .ok () → r.2.output = c.output ++ if m.Differs n then
    ascii "detected difference in server response\n" else []
  read : r.1 = .ok () → r.2.expectedProcessor.HasRead m ∧ r.2.testProcessor.HasRead n
  agree : r.1 = .ok () → ¬ m.Clashes n
  stopped : ∀ e, r.1 = .error e → r.2.output = c.output ∧ m.Clashes n ∧ e = .fault mismatch

/-- Two responses that have been read. -/
theorem received_check (expected : c.expectedProcessor.HasRead m)
    (actual : c.testProcessor.HasRead n) : Received c c.check m n [] c.answers.read := by
  have idle : c.calls = c.calls ++ [] := (List.append_nil _).symm
  rcases expected.compare actual with ⟨clash, compared⟩ | ⟨agree, difference, compared, same⟩
  · have checked : c.check = (.error (.fault mismatch), c) := by
      simp only [check, expected.complete, compared]
    rw [checked]
    refine ⟨idle, rfl, fun finished => (by cases finished), fun finished => (by cases finished),
      fun finished => (by cases finished), ?_⟩
    intro e stopped
    cases stopped
    exact ⟨rfl, clash, rfl⟩
  · have checked : c.check = if difference = 0 then (.ok (), c)
        else (.ok (), { c with
          output := c.output ++ ascii "detected difference in server response\n" }) := by
      simp only [check, expected.complete, compared]
    rw [checked]
    by_cases none : difference = 0
    · rw [if_pos none]
      refine ⟨idle, rfl, fun _ => ?_, fun _ => ⟨expected, actual⟩, fun _ => agree,
        fun e stopped => by cases stopped⟩
      rw [if_neg (same.mp none), List.append_nil]
    · rw [if_neg none]
      refine ⟨idle, rfl, fun _ => ?_, fun _ => ⟨expected, actual⟩, fun _ => agree,
        fun e stopped => by cases stopped⟩
      rw [if_pos (not_not.mp (mt same.mpr none))]

/-- The `RECV`s of a response, the first of which reads that of the server. -/
theorem received_run (some_segment : segments ≠ [])
    (expected : Reading m c.expectedProcessor segments)
    (actual : Reading n c.testProcessor others) (nonempty : ∀ segment ∈ others, segment ≠ [])
    (read : c.answers.read = others.map .ok ++ more) :
    Received c (c.run (segments.map fun data => { type := .recv, data := data })) m n
      (List.replicate others.length (.read c.socket)) more := by
  induction segments generalizing c others with
  | nil => exact absurd rfl some_segment
  | cons segment left ih =>
      obtain ⟨next, t, rest, done, received⟩ := exists_recv expected actual nonempty read
      -- the client when the response of the server has been read
      generalize behind : ({ c with
        expectedProcessor := next
        testProcessor := t
        calls := c.calls ++ List.replicate others.length (.read c.socket)
        answers.read := more } : HttpReplayClient) = d at received
      have calls : d.calls = c.calls ++ List.replicate others.length (.read c.socket) :=
        behind ▸ rfl
      have answers : d.answers = { c.answers with read := more } := behind ▸ rfl
      have output : d.output = c.output := behind ▸ rfl
      have idle : Received d (c.run ((segment :: left).map
          fun data => { type := .recv, data := data })) m n [] more := by
        cases rest with
        | done whole =>
            have runs : c.run ([segment].map fun data => { type := .recv, data := data }) =
                c.recv segment := Proc.each_singleton (fun action c => execute c action) _ c
            rw [runs, received]
            have checked := received_check (c := d) (m := m) (n := n) (behind ▸ whole)
              (behind ▸ done)
            rwa [answers] at checked
        | @more _ _ _ segment' left incomplete processed rest =>
            rw [check_of_incomplete (behind ▸ incomplete)] at received
            have runs : c.run ((segment :: segment' :: left).map
                  fun data => { type := .recv, data := data }) =
                d.run ((segment' :: left).map fun data => { type := .recv, data := data }) :=
              Proc.bind_of_ok received
            rw [runs]
            have read : Reading n d.testProcessor [] := behind ▸ .done done
            exact ih (List.cons_ne_nil _ _) (behind ▸ .more incomplete processed rest) read
              (fun segment mem => by cases mem) (answers ▸ rfl)
      refine ⟨?_, ?_, fun finished => ?_, idle.read, idle.agree, fun e stopped => ?_⟩
      · rw [idle.calls, calls, List.append_nil]
      · rw [idle.answers, answers]
      · rw [idle.output finished, output]
      · obtain ⟨same, clash⟩ := idle.stopped e stopped
        exact ⟨same.trans output, clash⟩

/-! ## A request is sent -/

/-- What the `SEND`s of a request leave: the processors are reset, or a call has failed. -/
structure Sent (c : HttpReplayClient) (r : Result) (new : List Call) : Prop where
  calls : r.2.calls = c.calls ++ new
  writes : ∀ call ∈ new, call.writes = true
  output : r.2.output = c.output
  answers : r.1 = .ok () → r.2.answers = c.answers.behind new
  reset : r.1 = .ok () → r.2.expectedProcessor = c.expectedProcessor.reset ∧
    r.2.testProcessor = c.testProcessor.reset
  stopped : ∀ e, r.1 = .error e → c.answers.Fails new e

theorem exists_sent_send (c : HttpReplayClient) (data : Bytes) :
    ∃ new, Sent c (c.send data) new := by
  obtain ⟨new, sends⟩ := c.exists_sends data
  have writes : ∀ call ∈ new, call.writes = true := by
    intro call mem
    obtain ⟨left, rfl⟩ := sends.mine call mem
    rfl
  refine ⟨new, ?_⟩
  rcases sends.ends with ⟨finished, -⟩ | ⟨e, stopped, fails⟩
  · rw [finished]
    exact ⟨rfl, writes, rfl, fun _ => rfl, fun _ => ⟨rfl, rfl⟩, fun e stopped => by cases stopped⟩
  · rw [stopped]
    refine ⟨rfl, writes, rfl, fun finished => (by cases finished),
      fun finished => (by cases finished), fun f same => ?_⟩
    cases same
    exact fails

/-- The `SEND`s of a request. -/
theorem exists_sent_run {request : List Bytes} (some_data : request ≠ []) :
    ∃ new, Sent c (c.run (request.map fun data => { type := .send, data := data })) new := by
  induction request generalizing c with
  | nil => exact absurd rfl some_data
  | cons data request ih =>
      obtain ⟨new, first⟩ := c.exists_sent_send data
      rcases sending : c.send data with ⟨e | _, d⟩
      · have runs : c.run ((data :: request).map fun data => { type := .send, data := data }) =
            (.error e, d) := Proc.bind_of_error sending
        rw [runs]
        exact ⟨new, sending ▸ first⟩
      · have runs : c.run ((data :: request).map fun data => { type := .send, data := data }) =
            d.run (request.map fun data => { type := .send, data := data }) :=
          Proc.bind_of_ok sending
        rw [runs]
        rw [sending] at first
        by_cases more : request = []
        · subst more
          exact ⟨new, first⟩
        · obtain ⟨others, rest⟩ := ih (c := d) more
          have calls : d.calls = c.calls ++ new := first.calls
          have answers : d.answers = c.answers.behind new := first.answers rfl
          obtain ⟨expected, actual⟩ := first.reset rfl
          have expected : d.expectedProcessor = c.expectedProcessor.reset := expected
          have actual : d.testProcessor = c.testProcessor.reset := actual
          refine ⟨new ++ others, ?_, List.forall_mem_append.mpr ⟨first.writes, rest.writes⟩,
            rest.output.trans first.output, fun finished => ?_, fun finished => ?_,
            fun e stopped => ?_⟩
          · rw [rest.calls, calls, List.append_assoc]
          · rw [rest.answers finished, answers, Answers.behind_append]
          · -- a reset processor is reset to itself
            obtain ⟨left, right⟩ := rest.reset finished
            rw [expected] at left
            rw [actual] at right
            exact ⟨left, right⟩
          · exact .prepend new (answers ▸ rest.stopped e stopped)

end HttpReplayClient

/-! ## The replay of a conversation -/

/-- What the clients of a run of the program share. -/
structure HttpWorld : Type where
  answers : Answers
  calls : List Call := []
  output : Bytes := []

abbrev HttpRun (α : Type) : Type := Proc Stop HttpWorld α

namespace HttpReplay

/-- A new client, on what those before it have left. -/
def client (conversation : TcpConversation) (w : HttpWorld) : HttpReplayClient :=
  { HttpReplayClient.ofConversation conversation w.answers with
    calls := w.calls
    output := w.output }

/-- What a client leaves. -/
def left (c : HttpReplayClient) : HttpWorld := ⟨c.answers, c.calls, c.output⟩

def replayConversation (conversation : TcpConversation) : HttpRun Unit := fun w =>
  (((client conversation w).run conversation.actionQueue).1,
    left ((client conversation w).run conversation.actionQueue).2)

end HttpReplay

/-- The world behind calls, with more output. -/
def HttpWorld.after (w : HttpWorld) (new : List Call) (output : Bytes) : HttpWorld :=
  ⟨w.answers.behind new, w.calls ++ new, w.output ++ output⟩

theorem HttpWorld.after_silent (w : HttpWorld) (new : List Call) :
    w.after new [] = ⟨w.answers.behind new, w.calls ++ new, w.output⟩ := by
  rw [after, List.append_nil]

/-! ## What is replayed -/

/-- The calls of a part that is replayed to its end, on the answers that are left for it: in
an exchange the request is written and the response is read. -/
inductive Completes (left : Answers) : List Call → Item → Prop
  | connect {family : AddrFamily} {descriptor : Int} {addr : SockAddr} :
      Completes left [.socket family, .connect descriptor addr] .connect
  | exchange {x : Exchange} {writes : List Call} {socket : Int}
      (kinds : ∀ call ∈ writes, call.writes = true)
      (bytes : ∀ k, wire k writes left.write = spoken k x.sends) (agree : ¬ x.Clashes) :
      Completes left (writes ++ List.replicate x.actual.segments.length (.read socket))
        (.exchange x)
  | close {socket : Int} : Completes left [.close socket] .close

/-- The calls of a part that is stopped: the last one of its `CONNECT` or of its `SEND`s fails,
or the request is written, the response is read and the two responses clash. -/
inductive StoppedAt (left : Answers) : List Call → Item → Stop → Prop
  | socket {family : AddrFamily} {e : Stop} (fails : left.Fails [.socket family] e) :
      StoppedAt left [.socket family] .connect e
  | connect {family : AddrFamily} {descriptor : Int} {addr : SockAddr} {e : Stop}
      (fails : left.Fails [.socket family, .connect descriptor addr] e) :
      StoppedAt left [.socket family, .connect descriptor addr] .connect e
  | send {x : Exchange} {writes : List Call} {e : Stop}
      (kinds : ∀ call ∈ writes, call.writes = true)
      (bytes : ∀ k, wire k writes left.write <+: spoken k x.sends)
      (fails : left.Fails writes e) : StoppedAt left writes (.exchange x) e
  | clash {x : Exchange} {writes : List Call} {socket : Int}
      (kinds : ∀ call ∈ writes, call.writes = true)
      (bytes : ∀ k, wire k writes left.write = spoken k x.sends) (clashes : x.Clashes) :
      StoppedAt left (writes ++ List.replicate x.actual.segments.length (.read socket))
        (.exchange x) (.fault HttpResponseProcessor.mismatch)

/-- The calls of parts that are replayed to their end, one after the other. -/
inductive Serves : Answers → List Call → List Item → Prop
  | nil (answers : Answers) : Serves answers [] []
  | cons {answers : Answers} {new others : List Call} {item : Item} {items : List Item}
      (first : Completes answers new item) (rest : Serves (answers.behind new) others items) :
      Serves answers (new ++ others) (item :: items)

/-- Where a replay is stopped that leaves a world: in front are parts that are replayed to
their end, and reported, and the next one is stopped on the answers that these have left. -/
def StopsIn (w u : HttpWorld) (items : List Item) (e : Stop) : Prop :=
  ∃ done item rest front part, items = done ++ item :: rest ∧ Serves w.answers front done ∧
    StoppedAt (w.answers.behind front) part item e ∧ u.calls = w.calls ++ (front ++ part) ∧
      u.output = w.output ++ done.flatMap Item.report

/-- What a replay of parts leaves: all of them are replayed to their end and reported, or it is
stopped in one of them. -/
structure Reports (w : HttpWorld) (r : Except Stop Unit × HttpWorld) (items : List Item)
    (more : List (Except Nat Bytes)) : Prop where
  finished : r.1 = .ok () → r.2.answers.read = more ∧
    ∃ new, Serves w.answers new items ∧ r.2 = w.after new (items.flatMap Item.report)
  stopped : ∀ e, r.1 = .error e → StopsIn w r.2 items e

section Completes

variable {answers : Answers} {new others : List Call} {item : Item} {items behind : List Item}

/-- The `RECV`s of a response say nothing. -/
theorem spoken_recvs (k : Nat) (segments : List Bytes) :
    spoken k (segments.map fun data => { type := .recv, data := data }) = [] := by
  induction segments with
  | nil => rfl
  | cons segment segments ih => exact ih

theorem spoken_exchange (k : Nat) (x : Exchange) :
    spoken k (Item.exchange x).actions = spoken k x.sends := by
  rw [Item.actions, ← Exchange.sends, spoken_append, spoken_recvs, List.append_nil]

/-- The `SEND`s of a request make no connection, nor do the `RECV`s of its response. -/
theorem countP_connect_exchange (x : Exchange) :
    (Item.exchange x).actions.countP (fun a => a.type = .connect) = 0 := by
  rw [Item.actions, List.countP_append, List.countP_map, List.countP_map]
  simp [Function.comp_def]

/-- Behind the request the calls of `read` put nothing on the wire. -/
theorem carries_exchange {x : Exchange} {writes : List Call}
    (kinds : ∀ call ∈ writes, call.writes = true) {left : List (Except Nat Nat)}
    (bytes : ∀ k, wire k writes left = spoken k x.sends) (n : Nat) (socket : Int) :
    Carries (writes ++ List.replicate n (.read socket)) left (Item.exchange x).actions where
  connected := by
    have writing : writes.countP Call.connects = 0 := List.countP_eq_zero.mpr fun call mem =>
      Bool.eq_false_iff.mp (Call.kinds_of_writes (kinds call mem)).2.1
    have reading : (List.replicate n (Call.read socket)).countP Call.connects = 0 :=
      List.countP_replicate.trans (if_neg Bool.false_ne_true)
    rw [List.countP_append, writing, reading, countP_connect_exchange]
  bytes k := by
    have silent : ∀ call ∈ List.replicate n (Call.read socket), call.writes = false := by
      intro call mem
      rw [List.eq_of_mem_replicate mem]
      rfl
    rw [wire_append, bytes, wire_of_no_writes silent, List.append_nil, spoken_exchange]

theorem Completes.carries (completes : Completes answers new item) :
    Carries new answers.write item.actions := by
  cases completes with
  | connect => exact ⟨rfl, fun k => rfl⟩
  | exchange kinds bytes agree => exact carries_exchange kinds bytes _ _
  | close => exact ⟨rfl, fun k => rfl⟩

theorem Completes.agree (completes : Completes answers new item) : ¬ item.Clashes := by
  cases completes with
  | connect => exact id
  | exchange kinds bytes agree => exact agree
  | close => exact id

theorem Serves.singleton (completes : Completes answers new item) :
    Serves answers new [item] := by
  have serves := Serves.cons completes (.nil _)
  rwa [List.append_nil] at serves

theorem Serves.append (first : Serves answers new items)
    (second : Serves (answers.behind new) others behind) :
    Serves answers (new ++ others) (items ++ behind) := by
  induction first with
  | nil => exact second
  | cons completes _ ih =>
      rw [List.append_assoc]
      exact .cons completes (ih (Answers.behind_append ▸ second))

/-- The requests are on the wire. -/
theorem Serves.carries (serves : Serves answers new items) :
    Carries new answers.write (items.flatMap Item.actions) := by
  induction serves with
  | nil => exact .nil
  | cons completes _ ih => exact completes.carries.append ih

/-- A part that is stopped has put the bytes of its request on the wire, or the first of
them. -/
theorem StoppedAt.part {e : Stop} (stopped : StoppedAt answers new item e) (k : Nat) :
    wire k new answers.write <+: spoken k item.actions := by
  cases stopped with
  | socket fails => exact List.nil_prefix
  | connect fails => exact List.nil_prefix
  | send kinds bytes fails => exact spoken_exchange k _ ▸ bytes k
  | clash kinds bytes clashes =>
      exact (carries_exchange kinds bytes _ _).bytes k ▸ List.prefix_rfl

theorem Serves.agree (serves : Serves answers new items) : ∀ item ∈ items, ¬ item.Clashes := by
  induction serves with
  | nil => exact fun item mem => by cases mem
  | cons completes _ ih => exact List.forall_mem_cons.mpr ⟨completes.agree, ih⟩

end Completes

section Reports

variable {w v u : HttpWorld} {new others : List Call} {item : Item} {items behind : List Item}
  {e : Stop} {more rest : List (Except Nat Bytes)}

theorem StopsIn.append (stops : StopsIn w u items e) (behind : List Item) :
    StopsIn w u (items ++ behind) e := by
  obtain ⟨done, item, rest, front, part, rfl, stopped⟩ := stops
  exact ⟨done, item, rest ++ behind, front, part, List.append_assoc _ _ _, stopped⟩

theorem Serves.stopsIn (first : Serves w.answers new items)
    (second : StopsIn (w.after new (items.flatMap Item.report)) u behind e) :
    StopsIn w u (items ++ behind) e := by
  obtain ⟨done, item, rest, front, part, rfl, serves, stopped, calls, output⟩ := second
  refine ⟨items ++ done, item, rest, new ++ front, part, (List.append_assoc _ _ _).symm,
    first.append serves, ?_, ?_, ?_⟩
  · rw [Answers.behind_append]
    exact stopped
  · rw [calls, HttpWorld.after, List.append_assoc, List.append_assoc]
  · rw [output, HttpWorld.after, List.append_assoc, List.flatMap_append]

/-- A replay is stopped in the first parts, or it goes on behind them. -/
theorem Reports.append_of_error (first : Reports w (.error e, u) items more)
    (behind : List Item) (rest : List (Except Nat Bytes)) :
    Reports w (.error e, u) (items ++ behind) rest where
  finished ended := by cases ended
  stopped f same := by
    cases same
    exact (first.stopped e rfl).append behind

theorem Reports.append_of_ok {r : Except Stop Unit × HttpWorld}
    (first : Reports w (.ok (), v) items more) (second : Reports v r behind rest) :
    Reports w r (items ++ behind) rest := by
  obtain ⟨-, new, serves, reached⟩ := first.finished rfl
  have reached : v = w.after new (items.flatMap Item.report) := reached
  subst reached
  refine ⟨fun ended => ?_, fun e stopped => serves.stopsIn (second.stopped e stopped)⟩
  obtain ⟨left, others, also, last⟩ := second.finished ended
  refine ⟨left, new ++ others, serves.append also, last.trans ?_⟩
  simp only [HttpWorld.after, Answers.behind_append, List.flatMap_append, List.append_assoc]

theorem reports_nil (read : w.answers.read = more) : Reports w (.ok (), w) [] more := by
  have same : w = w.after [] [] := by
    rw [HttpWorld.after_silent, List.append_nil]
    rfl
  exact ⟨fun _ => ⟨read, [], .nil _, same⟩, fun e stopped => by cases stopped⟩

/-- The bytes of the requests in front are on the wire, and those of a part of the next. -/
theorem StopsIn.part (stops : StopsIn w u items e) : ∃ new, u.calls = w.calls ++ new ∧
    ∀ k, wire k new w.answers.write <+: spoken k (items.flatMap Item.actions) := by
  obtain ⟨done, item, rest, front, part, rfl, serves, stopped, calls, -⟩ := stops
  refine ⟨front ++ part, calls, fun k => ?_⟩
  rw [serves.carries.wire_append, List.flatMap_append, spoken_append,
    List.prefix_append_right_inj, List.flatMap_cons, spoken_append]
  exact (stopped.part _).trans (List.prefix_append _ _)

/-- A part is stopped by a call that blocks or throws, or by the exception on a clash. -/
theorem StopsIn.stops (stops : StopsIn w u items e) :
    e = .blocked ∨ ∃ what, e = .fault (.thrown (.runtimeError what)) := by
  obtain ⟨done, item, rest, front, part, -, -, stopped, -, -⟩ := stops
  cases stopped with
  | socket fails => exact fails.stops
  | connect fails => exact fails.stops
  | send kinds bytes fails => exact fails.stops
  | clash kinds bytes clashes => exact Or.inr ⟨_, rfl⟩

end Reports

/-! ## What is reported -/

namespace HttpReplayClient

open HttpReplay (client left replayConversation)
open HttpResponseProcessor (Reading)

variable {c : HttpReplayClient} {items : List Item} {more : List (Except Nat Bytes)}

/-- The processors can read the responses. -/
structure Ready (c : HttpReplayClient) (items : List Item) : Prop where
  expected : c.expectedProcessor.Ready (items.flatMap Item.expected)
  actual : c.testProcessor.Ready (items.flatMap Item.actual)

/-- What a part of a conversation leaves, and a client that can read those behind it. -/
structure Played (c : HttpReplayClient) (r : Result) (item : Item) (items : List Item)
    (more : List (Except Nat Bytes)) : Prop where
  reports : Reports (left c) (r.1, left r.2) [item] more
  ready : r.1 = .ok () → Ready r.2 items

theorem Played.of_error {item : Item} {d : HttpReplayClient} {e : Stop} {part : List Call}
    (stopped : StoppedAt c.answers part item e) (calls : d.calls = c.calls ++ part)
    (output : d.output = c.output) : Played c (.error e, d) item items more where
  reports := ⟨fun finished => (by cases finished), fun f same => by
    cases same
    exact ⟨[], item, [], [], part, rfl, .nil _, stopped, calls,
      output.trans (List.append_nil _).symm⟩⟩
  ready finished := by cases finished

theorem Played.of_ok {item : Item} {d : HttpReplayClient} {new : List Call}
    (completes : Completes c.answers new item) (world : left d = (left c).after new item.report)
    (read : d.answers.read = more) (ready : Ready d items) :
    Played c (.ok (), d) item items more where
  reports := ⟨fun _ => ⟨read, new, .singleton completes, by
    rw [List.flatMap_singleton]
    exact world⟩, fun e stopped => by cases stopped⟩
  ready _ := ready

theorem played_connect (ready : Ready c (.connect :: items)) (read : c.answers.read = more) :
    Played c (c.run Item.connect.actions) .connect items more := by
  have runs : c.run Item.connect.actions = c.connect :=
    Proc.each_singleton (fun action c => execute c action) _ c
  rw [runs]
  rcases c.connect_cases with
    ⟨e, socket, fails, stopped⟩ | ⟨descriptor, ⟨e, fails, stopped⟩ | ⟨-, finished⟩⟩
  · rw [stopped]
    exact .of_error (.socket fails) rfl rfl
  · rw [stopped]
    exact .of_error (.connect fails) rfl rfl
  · rw [finished]
    have world : left (c.connected descriptor) =
        (left c).after (c.connecting descriptor) Item.connect.report :=
      (HttpWorld.after_silent (left c) _).symm
    exact .of_ok .connect world read ⟨ready.expected, ready.actual⟩

theorem played_exchange {x : Exchange} (orderly : Orderly (.exchange x :: items))
    (ready : Ready c (.exchange x :: items))
    (read : c.answers.read = (Item.exchange x).reads ++ more) :
    Played c (c.run (Item.exchange x).actions) (.exchange x) items more := by
  obtain ⟨writes, sent⟩ := exists_sent_run (c := c) x.request_ne_nil
  obtain ⟨others, goes⟩ := c.exists_goes x.sends
  obtain rfl : others = writes := List.append_cancel_left (goes.calls.symm.trans sent.calls)
  rcases sending : c.run x.sends with ⟨e | _, d⟩
  · have runs : c.run (Item.exchange x).actions = (.error e, d) :=
      Proc.each_append_of_error sending _
    rw [← Exchange.sends, sending] at sent
    rw [runs]
    exact .of_error (.send sent.writes goes.part (sent.stopped e rfl)) sent.calls sent.output
  · have runs : c.run (Item.exchange x).actions =
        d.run (x.expected.segments.map fun data => { type := .recv, data := data }) :=
      Proc.each_append_of_ok sending
    rw [← Exchange.sends, sending] at sent
    rw [sending] at goes
    have calls : d.calls = c.calls ++ others := sent.calls
    have answers : d.answers = c.answers.behind others := sent.answers rfl
    have output : d.output = c.output := sent.output
    obtain ⟨resetLeft, resetRight⟩ := sent.reset rfl
    have resetLeft : d.expectedProcessor = c.expectedProcessor.reset := resetLeft
    have resetRight : d.testProcessor = c.testProcessor.reset := resetRight
    have expected : Reading x.expected.message d.expectedProcessor x.expected.segments := by
      rw [resetLeft]
      exact x.expected.reading (HttpResponseProcessor.blank_reset _) ready.expected.unsized
    have actual : Reading x.actual.message d.testProcessor x.actual.segments := by
      rw [resetRight]
      exact x.actual.reading (HttpResponseProcessor.blank_reset _) ready.actual.unsized
    have unread : d.answers.read = x.actual.segments.map .ok ++ more := by
      rw [answers, Answers.behind_of_writes sent.writes]
      exact read
    have received := received_run x.expected.segments_ne_nil expected actual
      x.actual.segments_nonempty unread
    have bytes := (goes.whole rfl).bytes
    have called := received.calls
    rw [calls, List.append_assoc] at called
    rw [runs]
    rcases ended : d.run (x.expected.segments.map fun data => { type := .recv, data := data }) with
      ⟨e | _, f⟩
    · rw [ended] at received called
      obtain ⟨same, clash, rfl⟩ := received.stopped e rfl
      exact .of_error (.clash sent.writes bytes clash) called (same.trans output)
    · rw [ended] at received called
      have left_answers : f.answers = c.answers.behind
          (others ++ List.replicate x.actual.segments.length (Call.read d.socket)) := by
        have last : f.answers = { d.answers with read := more } := received.answers
        rw [Answers.behind_append, ← answers, Answers.behind_reads, last, unread,
          List.drop_left' (List.length_map _)]
      have printed : f.output = c.output ++ (Item.exchange x).report :=
        (received.output rfl).trans (congrArg (· ++ _) output)
      have world : left f = (left c).after
          (others ++ List.replicate x.actual.segments.length (Call.read d.socket))
          (Item.exchange x).report := by
        rw [left, left_answers, printed, show f.calls = _ from called]
        rfl
      obtain ⟨expected, actual⟩ := received.read rfl
      exact .of_ok (.exchange sent.writes bytes (received.agree rfl)) world
        (congrArg Answers.read received.answers)
        ⟨expected.ready orderly.expected, actual.ready orderly.actual⟩

theorem played_close (ready : Ready c (.close :: items)) (read : c.answers.read = more) :
    Played c (c.run Item.close.actions) .close items more := by
  have runs : c.run Item.close.actions = c.close :=
    Proc.each_singleton (fun action c => execute c action) _ c
  have world : left c.close.2 = (left c).after [.close c.socket] Item.close.report :=
    (HttpWorld.after_silent (left c) [.close c.socket]).symm
  rw [runs]
  exact .of_ok .close world read ⟨ready.expected, ready.actual⟩

theorem played_run {item : Item} (orderly : Orderly (item :: items))
    (ready : Ready c (item :: items)) (read : c.answers.read = item.reads ++ more) :
    Played c (c.run item.actions) item items more := by
  cases item with
  | connect => exact played_connect ready read
  | exchange x => exact played_exchange orderly ready read
  | close => exact played_close ready read

theorem reports_run (orderly : Orderly items) (ready : Ready c items)
    (read : c.answers.read = items.flatMap Item.reads ++ more) :
    Reports (left c) ((c.run (items.flatMap Item.actions)).1,
      left (c.run (items.flatMap Item.actions)).2) items more := by
  induction items generalizing c with
  | nil => exact reports_nil read
  | cons item items ih =>
      rw [List.flatMap_cons, List.append_assoc] at read
      have played := played_run orderly ready read
      rw [List.flatMap_cons]
      rcases first : c.run item.actions with ⟨e | _, d⟩
      · have runs : c.run (item.actions ++ items.flatMap Item.actions) = (.error e, d) :=
          Proc.each_append_of_error first _
        rw [first] at played
        rw [runs]
        exact played.reports.append_of_error items more
      · have runs : c.run (item.actions ++ items.flatMap Item.actions) =
            d.run (items.flatMap Item.actions) := Proc.each_append_of_ok first
        rw [first] at played
        rw [runs]
        have left : d.answers.read = items.flatMap Item.reads ++ more :=
          (played.reports.finished rfl).1
        exact played.reports.append_of_ok (ih orderly.tail (played.ready rfl) left)

/-- However the responses are delivered, what is reported are the exchanges in which the
server sends a response that differs from the captured one. A replay is stopped at a
`CONNECT` or a `SEND`, on an answer that fails, or at an exchange of two responses that clash,
when all in front of it is replayed to its end. -/
theorem reports_replay {conversation : TcpConversation} {answers : Answers} {items : List Item}
    {more : List (Except Nat Bytes)} (orderly : Orderly items)
    (queue : conversation.actionQueue = items.flatMap Item.actions)
    (read : answers.read = items.flatMap Item.reads ++ more) :
    Reports { answers := answers } (replayConversation conversation { answers := answers })
      items more := by
  have ready : Ready (client conversation { answers := answers }) items := ⟨Or.inl rfl, Or.inl rfl⟩
  rw [replayConversation, queue]
  exact reports_run orderly ready read

/-! ## A conversation of two exchanges -/

open HttpResponseProcessor (greeting)

/-- The body of `greeting` in one chunk. -/
def chunkedGreeting : ChunkedResponse where
  head := {
    version := greeting.version
    code := greeting.code
    reason := ascii "OK"
    fields := [{
      name := ascii "Transfer-Encoding"
      value := ascii " chunked"
      name_clean := by decide
      name_colon := by decide
      value_clean := by decide }]
    version_clean := greeting.version_clean
    version_space := greeting.version_space
    code_length := by decide
    code_digits := greeting.code_digits
    reason_clean := by decide
    names := by decide +kernel }
  chunks := [{
    numeral := ascii "2"
    bytes := greeting.body
    digits := by decide +kernel
    leading := ⟨50, by decide, by decide⟩
    sized := by decide
    some := by decide
    small := by decide }]
  unsized := by decide +kernel
  encoded := by decide +kernel
  small := by decide

/-- `greeting` with other bytes in the body. -/
def otherGreeting : Response := { greeting with
  body := ascii "ho"
  sized := by decide +kernel
  sizes := by decide +kernel }

/-- A request for the chunked greeting, which the server sends in two pieces. -/
def chunkedExchange : Exchange where
  request := [ascii "GET / HTTP/1.1\r\n\r\n"]
  request_ne_nil := by decide
  expected := .chunked ⟨chunkedGreeting, ascii "2\r\nhi\r\n0\r\n\r\n", [], by decide, by decide,
    by decide +kernel⟩
  actual := .chunked ⟨chunkedGreeting, ascii "2\r\nh", [ascii "i\r\n0\r\n\r\n"], by decide,
    by decide, by decide +kernel⟩

/-- A request for `greeting` to a server that sends the other one, in two pieces. -/
def greetingExchange : Exchange where
  request := [ascii "GET / HTTP/1.1\r\n", ascii "\r\n"]
  request_ne_nil := by decide
  expected := .sized ⟨greeting, [greeting.bytes], by decide,
    ⟨_, rfl, List.prefix_append _ _⟩, by decide⟩
  actual := .sized ⟨otherGreeting, [otherGreeting.head ++ ascii "h", ascii "o"], by decide,
    ⟨_, rfl, List.prefix_append _ _⟩, by decide⟩

def greetingItems : List Item :=
  [.connect, .exchange chunkedExchange, .exchange greetingExchange, .close]

def greetingConversation : TcpConversation :=
  { TcpConversation.ofLayer dottedInet .inet ⟨ascii "10.0.0.3", 80⟩ with
    actionQueue := greetingItems.flatMap Item.actions }

/-- A server that takes the requests and sends the responses. -/
def greetingAnswers : Answers where
  socket := [.ok 3]
  connect := [.ok ()]
  write := [.ok 18, .ok 16, .ok 2]
  read := greetingItems.flatMap Item.reads

theorem orderly_greetingItems : Orderly greetingItems where
  expected := by decide
  actual := by decide

theorem reports_replay_greeting :
    Reports { answers := greetingAnswers }
      (replayConversation greetingConversation { answers := greetingAnswers }) greetingItems [] :=
  reports_replay orderly_greetingItems rfl (List.append_nil _).symm

end HttpReplayClient

end PacketReplay
