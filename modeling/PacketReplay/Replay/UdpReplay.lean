import PacketReplay.Capture.Store
import PacketReplay.Lib.Proc
import PacketReplay.PacketValidator
import PacketReplay.Replay.HttpReplay

/-!
# The UDP client

`UdpReplayClient` and the loop of `main` that makes a client for each conversation,
replays it and destroys it. What the system answers is in the world that a run goes
through, and what the run does is kept there as events. The clients share a validator
that each of them deletes.
-/

namespace PacketReplay

open Lib

/-- The calls of a run that returned, each with its answer. -/
inductive UdpEvent : Type
  | socket (family : AddrFamily) (answer : Except Nat Nat)
  | sendto (socket : Int) (data : Bytes) (addr : SockAddr) (answer : Except Nat Nat)
  | recvfrom (socket : Int) (size : Nat) (answer : Except Nat Bytes)
  | close (socket : Int)
  | newValidator
  | validate (expected actual : Bytes)
  | deleteValidator
  deriving DecidableEq

/-- What the system answers, to each kind of call in the order of the calls. A datagram is
answered to `recvfrom` whole. A call behind the last answer does not return. -/
structure UdpAnswers : Type where
  socket : List (Except Nat Nat) := []
  sendto : List (Except Nat Nat) := []
  recvfrom : List (Except Nat Bytes) := []
  strerror : Nat → Bytes := fun _ => []

/-- The answers that are left, and what has been done. -/
structure UdpWorld extends UdpAnswers where
  /-- The validator has been made and not deleted. -/
  validatorLive : Bool := false
  events : List UdpEvent := []
  output : Bytes := []

/-- What `validate` of a validator says about an expected and an actual packet. -/
abbrev Validator : Type := Bytes → Bytes → Outcome Bool

abbrev UdpRun (α : Type) : Type := Proc Stop UdpWorld α

namespace UdpWorld

def log (w : UdpWorld) (event : UdpEvent) : UdpWorld := { w with events := w.events ++ [event] }

def happens (event : UdpEvent) : UdpRun Unit := Proc.modify fun w => w.log event

def throws {α : Type} (e : Exn) : UdpRun α := Proc.stop (.fault (.thrown e))

/-- The exception of a call that failed. -/
def failure (w : UdpWorld) (call : String) (errno : Nat) : Exn :=
  .runtimeError (ascii call ++ ascii " failed: " ++ w.strerror errno ++ ascii " (" ++
    toDecimal errno ++ ascii ")")

/-- A call to the system: the next answer of its kind, which is an exception when the call
failed. -/
def ask {α : Type} (call : String) (answers : UdpWorld → List (Except Nat α))
    (left : UdpWorld → List (Except Nat α) → UdpWorld) (event : Except Nat α → UdpEvent) :
    UdpRun α := fun w =>
  match answers w with
  | [] => (.error .blocked, w)
  | .error errno :: behind =>
      throws (w.failure call errno) ((left w behind).log (event (.error errno)))
  | .ok a :: behind => (.ok a, (left w behind).log (event (.ok a)))

/-- The socket that is opened for a family. -/
def openSocket (family : AddrFamily) : UdpRun Nat :=
  ask "socket" (·.socket) (fun w behind => { w with socket := behind }) (.socket family)

/-- A datagram is sent, whatever number of bytes is answered. -/
def sendDatagram (socket : Int) (data : Bytes) (addr : SockAddr) : UdpRun Unit := do
  let _ ← ask "sendto" (·.sendto) (fun w behind => { w with sendto := behind })
    (.sendto socket data addr)
  return

/-- What of a datagram fits into a buffer. -/
def receiveDatagram (socket : Int) (size : Nat) : UdpRun Bytes := do
  let datagram ← ask "recvfrom" (·.recvfrom) (fun w behind => { w with recvfrom := behind })
    (.recvfrom socket size)
  return datagram.take size

/-- `new PacketValidator()`. -/
def makeValidator : UdpRun Unit := Proc.modify fun w =>
  { w.log .newValidator with validatorLive := true }

/-- `validator_->validate`, through a pointer to an object that has to be there. -/
def validated (validator : Validator) (expected actual : Bytes) : UdpRun Bool := fun w =>
  if w.validatorLive then
    ((validator expected actual).mapError .fault, w.log (.validate expected actual))
  else (.error (.fault (.undefined .indeterminateValue)), w)

/-- `delete validator_`. -/
def deleteValidator : UdpRun Unit := fun w =>
  if w.validatorLive then
    (.ok (), { w.log .deleteValidator with validatorLive := false })
  else (.error (.fault (.undefined .indeterminateValue)), w)

/-- The report of a response that is not valid. -/
def difference : Bytes := ascii "detected difference in server response\n"

def report : UdpRun Unit := Proc.modify fun w => { w with output := w.output ++ difference }

end UdpWorld

open UdpWorld

structure UdpReplayClient : Type where
  testSockAddr : SockAddr
  validator : Validator
  socket : Int

namespace UdpReplayClient

/-- The constructor, which opens the socket. -/
def create (conversation : UdpConversation) (validator : Validator) : UdpRun UdpReplayClient := do
  let socket ← openSocket conversation.addrFamily
  return ⟨conversation.testSockAddr, validator, socket⟩

def send (c : UdpReplayClient) (data : Bytes) : UdpRun Unit :=
  sendDatagram c.socket data c.testSockAddr

/-- What was received is compared with what is expected. -/
def judge (c : UdpReplayClient) (expected actual : Bytes) : UdpRun Unit := do
  let valid ← validated c.validator expected actual
  if valid then return else report

def recv (c : UdpReplayClient) (data : Bytes) : UdpRun Unit := do
  let received ← receiveDatagram c.socket (data.length + 1024)
  c.judge data received

/-- The `switch`, which has no case for the other types. -/
def execute (c : UdpReplayClient) (action : Action) : UdpRun Unit :=
  match action.type with
  | .send => c.send action.data
  | .recv => c.recv action.data
  | .connect => return
  | .close => return

def replay (c : UdpReplayClient) (queue : List Action) : UdpRun Unit := Proc.each c.execute queue

/-- The destructor. -/
def destroy (c : UdpReplayClient) : UdpRun Unit := do
  if 0 ≤ c.socket then happens (.close c.socket)
  deleteValidator

/-- The life of a client. An exception of its replay destroys it on the way out; a call
that does not return does not, and there is no way out of what is undefined. -/
def live (c : UdpReplayClient) (queue : List Action) : UdpRun Unit := fun w =>
  match c.replay queue w with
  | (.error (.fault (.thrown e)), left) => (c.destroy >>= fun _ => throws e) left
  | (.ok (), left) => c.destroy left
  | stopped => stopped

/-- An iteration of the loop over the conversations. -/
def replayConversation (validator : Validator) (conversation : UdpConversation) : UdpRun Unit := do
  let client ← create conversation validator
  client.live conversation.actionQueue

/-- The loop over the conversations. -/
def replayAll (validator : Validator) (conversations : List UdpConversation) : UdpRun Unit :=
  Proc.each (replayConversation validator) conversations

/-- The validator is made once, for all conversations. -/
def run (validator : Validator) (conversations : List UdpConversation) : UdpRun Unit := do
  makeValidator
  replayAll validator conversations

/-! ## What an action does -/

section Actions

variable (c : UdpReplayClient) (data : Bytes) (w : UdpWorld)

theorem execute_apply (action : Action) :
    c.execute action w =
      match action.type with
      | .send => c.send action.data w
      | .recv => c.recv action.data w
      | .connect => (.ok (), w)
      | .close => (.ok (), w) := by
  rw [execute]
  cases action.type <;> rfl

theorem ask_cases {α : Type} (call : String) (answers : UdpWorld → List (Except Nat α))
    (left : UdpWorld → List (Except Nat α) → UdpWorld) (event : Except Nat α → UdpEvent) :
    (answers w = [] ∧ ask call answers left event w = (.error .blocked, w)) ∨
      (∃ errno behind, answers w = .error errno :: behind ∧
        ask call answers left event w = (.error (.fault (.thrown (w.failure call errno))),
          (left w behind).log (event (.error errno)))) ∨
      ∃ a behind, answers w = .ok a :: behind ∧
        ask call answers left event w = (.ok a, (left w behind).log (event (.ok a))) := by
  rw [ask]
  rcases answers w with _ | ⟨errno | a, behind⟩
  · exact Or.inl ⟨rfl, rfl⟩
  · exact Or.inr (Or.inl ⟨errno, behind, rfl, rfl⟩)
  · exact Or.inr (Or.inr ⟨a, behind, rfl, rfl⟩)

theorem send_cases :
    (w.sendto = [] ∧ c.send data w = (.error .blocked, w)) ∨
      (∃ errno behind, w.sendto = .error errno :: behind ∧
        c.send data w = (.error (.fault (.thrown (w.failure "sendto" errno))),
          { w with sendto := behind }.log (.sendto c.socket data c.testSockAddr (.error errno)))) ∨
      ∃ n behind, w.sendto = .ok n :: behind ∧
        c.send data w = (.ok (),
          { w with sendto := behind }.log (.sendto c.socket data c.testSockAddr (.ok n))) := by
  rcases ask_cases w "sendto" (·.sendto) (fun w behind => { w with sendto := behind })
    (.sendto c.socket data c.testSockAddr) with
    ⟨none_left, asked⟩ | ⟨errno, behind, answers, asked⟩ | ⟨n, behind, answers, asked⟩
  · exact Or.inl ⟨none_left, Proc.bind_of_error asked⟩
  · exact Or.inr (Or.inl ⟨errno, behind, answers, Proc.bind_of_error asked⟩)
  · exact Or.inr (Or.inr ⟨n, behind, answers, Proc.bind_of_ok asked⟩)

/-- The world behind a datagram that was received. -/
def received (w : UdpWorld) (datagram : Bytes) (behind : List (Except Nat Bytes)) : UdpWorld :=
  { w with recvfrom := behind }.log (.recvfrom c.socket (data.length + 1024) (.ok datagram))

theorem recv_cases :
    (w.recvfrom = [] ∧ c.recv data w = (.error .blocked, w)) ∨
      (∃ errno behind, w.recvfrom = .error errno :: behind ∧
        c.recv data w = (.error (.fault (.thrown (w.failure "recvfrom" errno))),
          { w with recvfrom := behind }.log
            (.recvfrom c.socket (data.length + 1024) (.error errno)))) ∨
      ∃ datagram behind, w.recvfrom = .ok datagram :: behind ∧
        c.recv data w = c.judge data (datagram.take (data.length + 1024))
          (c.received data w datagram behind) := by
  rcases ask_cases w "recvfrom" (·.recvfrom) (fun w behind => { w with recvfrom := behind })
    (.recvfrom c.socket (data.length + 1024)) with
    ⟨none_left, asked⟩ | ⟨errno, behind, answers, asked⟩ | ⟨datagram, behind, answers, asked⟩
  · exact Or.inl ⟨none_left, Proc.bind_of_error (Proc.bind_of_error asked)⟩
  · exact Or.inr (Or.inl ⟨errno, behind, answers, Proc.bind_of_error (Proc.bind_of_error asked)⟩)
  · refine Or.inr (Or.inr ⟨datagram, behind, answers, Proc.bind_of_ok ?_⟩)
    exact Proc.bind_of_ok asked

/-- The answer of a validator that is there. -/
theorem judge_of_live {expected actual : Bytes} (live : w.validatorLive = true) :
    c.judge expected actual w =
      match c.validator expected actual with
      | .error f => (.error (.fault f), w.log (.validate expected actual))
      | .ok true => (.ok (), w.log (.validate expected actual))
      | .ok false => (.ok (), { w.log (.validate expected actual) with
          output := w.output ++ difference }) := by
  rcases verdict : c.validator expected actual with f | valid
  · refine Proc.bind_of_error ?_
    rw [validated, if_pos live, verdict]
    rfl
  · have answered : validated c.validator expected actual w =
        (.ok valid, w.log (.validate expected actual)) := by
      rw [validated, if_pos live, verdict]
      rfl
    refine (Proc.bind_of_ok answered).trans ?_
    cases valid <;> rfl

/-- A validator that has been deleted is not asked. -/
theorem judge_of_dead {expected actual : Bytes} (dead : w.validatorLive = false) :
    c.judge expected actual w = (.error (.fault (.undefined .indeterminateValue)), w) := by
  refine Proc.bind_of_error ?_
  rw [validated, dead]
  rfl

/-- What an iteration of the loop does: a client lives when its socket is opened. -/
theorem replayConversation_cases (validator : Validator) (conversation : UdpConversation) :
    (w.socket = [] ∧ replayConversation validator conversation w = (.error .blocked, w)) ∨
      (∃ errno behind, w.socket = .error errno :: behind ∧
        replayConversation validator conversation w =
          (.error (.fault (.thrown (w.failure "socket" errno))),
            { w with socket := behind }.log (.socket conversation.addrFamily (.error errno)))) ∨
      ∃ n behind, w.socket = .ok n :: behind ∧
        replayConversation validator conversation w =
          live ⟨conversation.testSockAddr, validator, n⟩ conversation.actionQueue
            ({ w with socket := behind }.log (.socket conversation.addrFamily (.ok n))) := by
  rcases ask_cases w "socket" (·.socket) (fun w behind => { w with socket := behind })
    (.socket conversation.addrFamily) with
    ⟨none_left, asked⟩ | ⟨errno, behind, answers, asked⟩ | ⟨n, behind, answers, asked⟩
  · exact Or.inl ⟨none_left, Proc.bind_of_error (Proc.bind_of_error asked)⟩
  · exact Or.inr (Or.inl ⟨errno, behind, answers, Proc.bind_of_error (Proc.bind_of_error asked)⟩)
  · refine Or.inr (Or.inr ⟨n, behind, answers, Proc.bind_of_ok ?_⟩)
    exact Proc.bind_of_ok asked

end Actions

end UdpReplayClient

end PacketReplay
