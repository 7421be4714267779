import PacketReplay.Capture.Conversation
import PacketReplay.Http.ResponseProcessor
import PacketReplay.Lib.Trace

/-!
# The HTTP client

`HttpReplayClient::replay`: the actions of a queue are executed in order until one of
them throws. What the system answers to the calls of a replay is a parameter, and the
calls that are made are kept in `calls`.
-/

namespace PacketReplay

open Lib

/-- The calls of a replay to the system. -/
inductive Call : Type
  | socket (family : AddrFamily)
  | connect (socket : Int) (addr : SockAddr)
  | write (socket : Int) (data : Bytes)
  | read (socket : Int)
  | close (socket : Int)
  deriving DecidableEq, Repr

/-- What the system answers, to each kind of call in the order of the calls: `errno`
when the call fails. A call behind the last answer does not return. -/
structure Answers : Type where
  socket : List (Except Nat Nat) := []
  connect : List (Except Nat Unit) := []
  write : List (Except Nat Nat) := []
  read : List (Except Nat Bytes) := []
  strerror : Nat → Bytes := fun _ => []

/-- Why an action is not finished. -/
inductive Stop : Type
  | fault (f : Fault)
  | blocked
  deriving DecidableEq, Repr

/-- The stop comes from the answer to a call: there is none, or the call has failed. -/
def Stop.From {α : Type} (stop : Stop) (failure : Nat → Exn) (answer : Option (Except Nat α)) :
    Prop :=
  answer = none ∧ stop = .blocked ∨
    ∃ errno, answer = some (.error errno) ∧ stop = .fault (.thrown (failure errno))

theorem Stop.From.defined {α : Type} {stop : Stop} {failure : Nat → Exn}
    {answer : Option (Except Nat α)} (stops : stop.From failure answer) (u : Undefined) :
    stop ≠ .fault (.undefined u) := by
  rcases stops with ⟨-, rfl⟩ | ⟨errno, -, rfl⟩
  · exact fun same => by cases same
  · exact fun same => by cases same

structure HttpReplayClient : Type where
  family : AddrFamily
  testSockAddr : SockAddr
  socket : Int := -1
  expectedProcessor : HttpResponseProcessor := {}
  testProcessor : HttpResponseProcessor := {}
  answers : Answers
  calls : List Call := []
  output : Bytes := []

namespace HttpReplayClient

/-- The outcome of an action and the client it leaves. -/
abbrev Result := Except Stop Unit × HttpReplayClient

def ofConversation (conversation : TcpConversation) (answers : Answers) : HttpReplayClient :=
  { family := conversation.addrFamily
    testSockAddr := conversation.testSockAddr
    answers := answers }

def throws (what : Bytes) : Except Stop Unit := .error (.fault (.thrown (.runtimeError what)))

/-- The exception of a call that failed. -/
def failed (c : HttpReplayClient) (call : String) (errno : Nat) : Except Stop Unit :=
  throws (ascii call ++ ascii " failed: " ++ c.answers.strerror errno ++ ascii " (" ++
    toDecimal errno ++ ascii ")")

def called (c : HttpReplayClient) (call : Call) : HttpReplayClient :=
  { c with calls := c.calls ++ [call] }

/-- Go on from a part of an action that is finished. -/
def Result.andThen (r : Result) (next : HttpReplayClient → Result) : Result :=
  match r with
  | (.ok (), c) => next c
  | stopped => stopped

/-- The call of `socket` in `CONNECT`. -/
def openSocket (c : HttpReplayClient) : Result :=
  match c.answers.socket with
  | [] => (.error .blocked, c.called (.socket c.family))
  | answer :: answers =>
      let c := { c.called (.socket c.family) with answers.socket := answers }
      match answer with
      | .error errno => (c.failed "socket" errno, { c with socket := -1 })
      | .ok descriptor => (.ok (), { c with socket := descriptor })

/-- The call of `connect` in `CONNECT`. -/
def connectSocket (c : HttpReplayClient) : Result :=
  match c.answers.connect with
  | [] => (.error .blocked, c.called (.connect c.socket c.testSockAddr))
  | answer :: answers =>
      let c := { c.called (.connect c.socket c.testSockAddr) with answers.connect := answers }
      match answer with
      | .error errno => (c.failed "connect" errno, c)
      | .ok () => (.ok (), c)

def connect (c : HttpReplayClient) : Result := c.openSocket.andThen connectSocket

/-- The loop that writes what is left of the data, on the answers that are left. -/
def writeAll (c : HttpReplayClient) (data : Bytes) : List (Except Nat Nat) → Result
  | [] =>
      if data = [] then (.ok (), { c with answers.write := [] })
      else (.error .blocked, c.called (.write c.socket data))
  | answer :: answers =>
      if data = [] then (.ok (), { c with answers.write := answer :: answers })
      else
        let c := c.called (.write c.socket data)
        match answer with
        | .ok 0 => (throws (ascii "write failed: connection closed"), c)
        | .ok n => writeAll c (data.drop n) answers
        | .error errno => (c.failed "write" errno, c)

def send (c : HttpReplayClient) (data : Bytes) : Result :=
  (c.writeAll data c.answers.write).andThen fun c =>
    (.ok (), { c with
      expectedProcessor := c.expectedProcessor.reset
      testProcessor := c.testProcessor.reset })

/-- What a call of `read` delivers. -/
def receive (c : HttpReplayClient) (data : Bytes) : Result :=
  match c.testProcessor.processData data with
  | (.error f, testProcessor) => (.error (.fault f), { c with testProcessor := testProcessor })
  | (.ok _, testProcessor) => (.ok (), { c with testProcessor := testProcessor })

/-- The loop that reads until the response is complete, on the answers that are left. -/
def readResponse (c : HttpReplayClient) : List (Except Nat Bytes) → Result
  | [] =>
      match c.testProcessor.complete with
      | .error f => (.error (.fault f), c)
      | .ok true => (.ok (), { c with answers.read := [] })
      | .ok false => (.error .blocked, c.called (.read c.socket))
  | answer :: answers =>
      match c.testProcessor.complete with
      | .error f => (.error (.fault f), c)
      | .ok true => (.ok (), { c with answers.read := answer :: answers })
      | .ok false =>
          match answer with
          | .error errno => (c.failed "read" errno, c.called (.read c.socket))
          | .ok [] =>
              (throws (ascii "read failed: connection closed"), c.called (.read c.socket))
          | .ok data =>
              ((c.called (.read c.socket)).receive data).andThen fun c => readResponse c answers

/-- What is expected is processed unless it is complete. -/
def expect (c : HttpReplayClient) (data : Bytes) : Result :=
  match c.expectedProcessor.complete with
  | .error f => (.error (.fault f), c)
  | .ok true => (.ok (), c)
  | .ok false =>
      match c.expectedProcessor.processData data with
      | (.error f, expectedProcessor) =>
          (.error (.fault f), { c with expectedProcessor := expectedProcessor })
      | (.ok _, expectedProcessor) => (.ok (), { c with expectedProcessor := expectedProcessor })

/-- A difference between two complete responses is reported. -/
def check (c : HttpReplayClient) : Result :=
  match c.expectedProcessor.complete with
  | .error f => (.error (.fault f), c)
  | .ok false => (.ok (), c)
  | .ok true =>
      match c.expectedProcessor.compare c.testProcessor with
      | .error f => (.error (.fault f), c)
      | .ok difference =>
          if difference = 0 then (.ok (), c)
          else (.ok (), { c with
            output := c.output ++ ascii "detected difference in server response\n" })

def recv (c : HttpReplayClient) (data : Bytes) : Result :=
  ((c.expect data).andThen fun c => c.readResponse c.answers.read).andThen check

def close (c : HttpReplayClient) : Result :=
  (.ok (), { c.called (.close c.socket) with socket := -1 })

def execute (c : HttpReplayClient) (action : Action) : Result :=
  match action.type with
  | .connect => c.connect
  | .send => c.send action.data
  | .recv => c.recv action.data
  | .close => c.close

/-- An action that was executed, and the socket that the client had then. -/
structure Executed : Type where
  action : Action
  socket : Int
  result : Except Stop Unit

/-- An action is taken from the queue and executed. -/
def step (c : HttpReplayClient) (action : Action) : Executed × HttpReplayClient :=
  (⟨action, c.socket, (c.execute action).1⟩, (c.execute action).2)

def stops (executed : Executed) : Bool :=
  match executed.result with
  | .ok () => false
  | .error _ => true

/-- The actions that are executed, each with the client it leaves. -/
def replay (c : HttpReplayClient) (queue : List Action) : List (Executed × HttpReplayClient) :=
  trace step stops c queue

/-! ## The socket -/

theorem socket_called (c : HttpReplayClient) (call : Call) : (c.called call).socket = c.socket :=
  rfl

theorem socket_writeAll (c : HttpReplayClient) (data : Bytes) (answers : List (Except Nat Nat)) :
    (c.writeAll data answers).2.socket = c.socket := by
  induction answers generalizing c data with
  | nil =>
      rw [writeAll]
      split <;> rfl
  | cons answer answers ih =>
      rw [writeAll]
      split
      · rfl
      · split
        · rfl
        · exact ih _ _
        · rfl

theorem Result.socket_andThen {r : Result} {next : HttpReplayClient → Result}
    (keeps : ∀ c, (next c).2.socket = c.socket) : (r.andThen next).2.socket = r.2.socket := by
  rw [andThen.eq_def]
  split
  · exact keeps _
  · rfl

theorem socket_send (c : HttpReplayClient) (data : Bytes) :
    (c.send data).2.socket = c.socket := by
  rw [send, Result.socket_andThen fun _ => rfl, socket_writeAll]

theorem socket_receive (c : HttpReplayClient) (data : Bytes) :
    (c.receive data).2.socket = c.socket := by
  rw [receive]
  split <;> rfl

theorem socket_readResponse (c : HttpReplayClient) (answers : List (Except Nat Bytes)) :
    (c.readResponse answers).2.socket = c.socket := by
  induction answers generalizing c with
  | nil =>
      unfold readResponse
      split <;> rfl
  | cons answer answers ih =>
      unfold readResponse
      split
      · rfl
      · rfl
      · split
        · rfl
        · rfl
        · rw [Result.socket_andThen ih, socket_receive, socket_called]

theorem socket_expect (c : HttpReplayClient) (data : Bytes) :
    (c.expect data).2.socket = c.socket := by
  rw [expect]
  split
  · rfl
  · rfl
  · split <;> rfl

theorem socket_check (c : HttpReplayClient) : c.check.2.socket = c.socket := by
  rw [check]
  split
  · rfl
  · rfl
  · split
    · rfl
    · split <;> rfl

theorem socket_recv (c : HttpReplayClient) (data : Bytes) :
    (c.recv data).2.socket = c.socket := by
  rw [recv, Result.socket_andThen socket_check,
    Result.socket_andThen fun c => c.socket_readResponse c.answers.read, socket_expect]

theorem socket_connectSocket (c : HttpReplayClient) :
    c.connectSocket.2.socket = c.socket := by
  rw [connectSocket.eq_def]
  split
  · rfl
  · split <;> rfl

theorem Result.of_andThen_ok {r : Result} {next : HttpReplayClient → Result}
    (finished : (r.andThen next).1 = .ok ()) : r.1 = .ok () := by
  rw [andThen.eq_def] at finished
  split at finished
  · rfl
  · exact finished

theorem socket_openSocket {c : HttpReplayClient} (opened : c.openSocket.1 = .ok ()) :
    0 ≤ c.openSocket.2.socket := by
  revert opened
  rw [openSocket.eq_def]
  split
  · intro opened
    cases opened
  · split
    · intro opened
      cases opened
    · exact fun _ => Int.natCast_nonneg _

/-- A `CONNECT` that is finished leaves a descriptor. -/
theorem socket_connect {c : HttpReplayClient} (connected : c.connect.1 = .ok ()) :
    0 ≤ c.connect.2.socket := by
  rw [connect, Result.socket_andThen socket_connectSocket]
  exact socket_openSocket (Result.of_andThen_ok connected)

end HttpReplayClient

end PacketReplay
