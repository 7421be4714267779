import PacketReplay.Capture.Conversation
import PacketReplay.Script.Base64
import PacketReplay.Script.DataBlock
import PacketReplay.Script.Properties

/-!
# Scripts

`ConversationSerializer`: a conversation written as a script and read back. Writing
gives the text, reading takes a stream. Indices into the data of an action are
natural numbers, as on data shorter than `2 ^ 31` bytes.
-/

namespace PacketReplay

open Lib

namespace ConversationSerializer

def testAddressProp : Bytes := ascii "TestAddress"

def testPortProp : Bytes := ascii "TestPort"

def encodingProp : Bytes := ascii "Encoding"

def protocolProp : Bytes := ascii "Protocol"

def base64Encoding : Bytes := ascii "BASE64"

def actionTypeToString : ActionType → Bytes
  | .connect => ascii "CONNECT"
  | .send => ascii "SEND"
  | .recv => ascii "RECV"
  | .close => ascii "CLOSE"

def stringToActionType (type : Bytes) : Outcome ActionType :=
  if type = ascii "CONNECT" then .ok .connect
  else if type = ascii "SEND" then .ok .send
  else if type = ascii "RECV" then .ok .recv
  else if type = ascii "CLOSE" then .ok .close
  else .error (.thrown (.runtimeError (ascii "invalid action type " ++ type)))

/-! ## Writing -/

/-- The body of the loop over `data[i]`, for the index below `n` and those below it.
The difference in `i > data_size - 50` wraps for shorter data, and nothing is greater
than it then. -/
def binaryScan (data : Bytes) : Nat → Bool
  | 0 => false
  | i + 1 =>
      if 50 ≤ data.length ∧ data.length - 50 < i then
        match data[i]? with
        | some c => if !isprint c && !isspace c then true else binaryScan data i
        | none => false
      else false

/-- `is_binary`, where the loop begins at the `int` of `data_size - 1`. -/
def isBinary (data : Bytes) : Bool := binaryScan data (toInt32 (data.length - 1) + 1).toNat

/-- What stands between the tags. -/
def payload (data : Bytes) : Bytes := if isBinary data then Base64.toBase64 data else data

/-- The text up to the line of the start tag. -/
def writeActionHead (order : Properties.EntryOrder) (action : Action) : Bytes :=
  actionTypeToString action.type ++ ascii "\n" ++
    (if isBinary action.data then
      Properties.write order ((∅ : Properties).put encodingProp base64Encoding)
    else []) ++
    dataStartTag ++ ascii "\n"

def writeAction (order : Properties.EntryOrder) (action : Action) : Bytes :=
  writeActionHead order action ++ payload action.data ++ dataEndTag ++ ascii "\n"

/-- `write_headers`, for a conversation and its protocol. -/
def writeHeaders (inet : Inet) (order : Properties.EntryOrder) (protocol : Bytes)
    (conversation : PacketConversation) : Bytes :=
  let props := (∅ : Properties).put protocolProp protocol
  let portStr := toDecimal (ntohs conversation.testSockAddr.port).toNat
  -- the address is translated, and nothing is done with the text
  let _ipStr := inet.ntop conversation.addrFamily conversation.testSockAddr.addr
  Properties.write order (props.put testPortProp portStr)

def separator : Bytes := ascii "##############################"

/-- `write`. -/
def write (inet : Inet) (order : Properties.EntryOrder) (protocol : Bytes)
    (conversation : PacketConversation) : Bytes :=
  writeHeaders inet order protocol conversation ++
    conversation.actionQueue.flatMap fun action =>
      ascii "\n" ++ separator ++ ascii "\n\n" ++ writeAction order action

/-! ## Lines -/

def isComment (line : Bytes) : Bool := (line.dropWhile isspace).head? = some 35

/-- The static `getline`: the next line that is no comment. -/
def getline (input : IStream) : Option Bytes × IStream :=
  match _read : input.getline lf with
  | (none, input) => (none, input)
  | (some line, input) => if isComment line then getline input else (some line, input)
termination_by input.rest.length
decreasing_by
  have shorter := IStream.length_getline (by rw [_read])
  rwa [_read] at shorter

/-- A relation that goes along with what is read from a stream. -/
structure Along (R : IStream → IStream → Prop) : Prop where
  trans : ∀ {s t u}, R s t → R t u → R s u
  line : ∀ s, R s (s.getline lf).2
  block : ∀ {s t data}, readActionData s = .ok (data, t) → R s t

theorem consumes_along : Along IStream.Consumes where
  trans first second := first.trans second
  line s := s.getline_consumes lf
  block := readActionData_consumes

theorem Along.getline {R : IStream → IStream → Prop} (along : Along R) (input : IStream) :
    R input (getline input).2 := by
  induction left : input.rest.length using Nat.strongRecOn generalizing input with
  | ind bound ih =>
      have first := along.line input
      rw [ConversationSerializer.getline]
      split
      · next behind read =>
          rw [read] at first
          exact first
      · next line behind read =>
          have shorter := IStream.length_getline (by rw [read])
          rw [read] at first shorter
          split
          · exact along.trans first (ih _ (left ▸ shorter) behind rfl)
          · exact first

/-- A line delivered has been taken out of the stream. -/
theorem length_getline {input : IStream} {line : Bytes} (read : (getline input).1 = some line) :
    (getline input).2.rest.length < input.rest.length := by
  rw [getline] at read ⊢
  split at read
  · cases read
  · next next behind got =>
      have shorter := IStream.length_getline (by rw [got])
      rw [got] at shorter
      have further := consumes_along.getline behind
      split
      · exact further.1.trans_lt shorter
      · exact shorter

/-- The next line, when it is no comment. -/
theorem getline_good {line : Bytes} (clean : lf ∉ line) (noComment : isComment line = false)
    (behind : Bytes) : getline (.of (line ++ lf :: behind)) = (some line, .of behind) := by
  rw [getline, IStream.getline_good clean]
  simp [noComment]

/-! ## Reading -/

def subPrefix : Bytes := ascii "$\x7b"

def subSuffix : Bytes := ascii "\x7d"

/-- The loop of `create_action`. The third argument of `substr` is a length, not an
index. -/
def subTokensFrom (view : Bytes) (start : Nat) : List SubToken :=
  match _open : findFrom subPrefix view start with
  | none => []
  | some startIdx =>
      match _close : findFrom subSuffix view (startIdx + subPrefix.length) with
      | none => []
      | some endIdx =>
          ⟨(view.drop (startIdx + subPrefix.length)).take endIdx, startIdx,
            endIdx + subSuffix.length⟩ :: subTokensFrom view (endIdx + subSuffix.length)
termination_by view.length - start
decreasing_by
  have opens := findFrom_bounds (by decide) _open
  have closes := findFrom_bounds (by decide) _close
  have lengths : subPrefix.length = 2 ∧ subSuffix.length = 1 := by decide
  omega

def createAction (type : ActionType) (data : Bytes) : Action :=
  ⟨type, data, subTokensFrom data 0⟩

/-- The first loop of `read_actions`: the type on the next line that is not blank. -/
def readType (input : IStream) : Outcome (Option ActionType × IStream) :=
  match _read : getline input with
  | (none, input) => .ok (none, input)
  | (some line, input) =>
      if trim line = [] then readType input
      else (stringToActionType (trim line)).map fun type => (some type, input)
termination_by input.rest.length
decreasing_by
  have shorter := length_getline (by rw [_read])
  rwa [_read] at shorter

/-- The second loop of `read_actions`: the properties, and the data if there is a
start tag. -/
def readProperties (input : IStream) (prop : Properties) :
    Outcome (Properties × Bytes × IStream) :=
  match _read : getline input with
  | (none, input) => .ok (prop, [], input)
  | (some line, input) =>
      if trim line = [] then readProperties input prop
      else if trim line = dataStartTag then
        (readActionData input).map fun block => (prop, block.1, block.2)
      else readProperties input (prop.putLine (trim line))
termination_by input.rest.length
decreasing_by
  all_goals
    have shorter := length_getline (by rw [_read])
    rwa [_read] at shorter

/-- The data of an action as its properties say it is encoded. -/
def decodeData (prop : Properties) (data : Bytes) : Outcome Bytes :=
  if prop.lookup encodingProp = some base64Encoding then Base64.fromBase64 data else .ok data

/-- One round of the loop of `read_actions`. -/
def readAction (input : IStream) : Outcome (Option Action × IStream) := do
  let found ← readType input
  let block ← readProperties found.2 ∅
  match found.1 with
  | none => return (none, block.2.2)
  | some type => do
      let data ← decodeData block.1 block.2.1
      return (some (createAction type data), block.2.2)

theorem Along.readType {R : IStream → IStream → Prop} (along : Along R)
    {input behind : IStream} {type : Option ActionType}
    (read : readType input = .ok (type, behind)) : R input behind := by
  induction left : input.rest.length using Nat.strongRecOn generalizing input with
  | ind bound ih =>
      have first := along.getline input
      rw [ConversationSerializer.readType] at read
      split at read
      · next got =>
          cases read
          rwa [got] at first
      · next line next got =>
          have shorter := length_getline (by rw [got])
          rw [got] at first shorter
          split at read
          · exact along.trans first (ih _ (left ▸ shorter) read rfl)
          · rw [map_eq_ok] at read
            obtain ⟨type, -, same⟩ := read
            cases same
            exact first

theorem Along.readProperties {R : IStream → IStream → Prop} (along : Along R)
    {input behind : IStream} {prop found : Properties} {data : Bytes}
    (read : readProperties input prop = .ok (found, data, behind)) : R input behind := by
  induction left : input.rest.length using Nat.strongRecOn generalizing input prop with
  | ind bound ih =>
      have first := along.getline input
      rw [ConversationSerializer.readProperties] at read
      split at read
      · next got =>
          cases read
          rwa [got] at first
      · next line next got =>
          have shorter := length_getline (by rw [got])
          rw [got] at first shorter
          split at read
          · exact along.trans first (ih _ (left ▸ shorter) read rfl)
          · split at read
            · rw [map_eq_ok] at read
              obtain ⟨block, found, same⟩ := read
              cases same
              exact along.trans first (along.block found)
            · exact along.trans first (ih _ (left ▸ shorter) read rfl)

theorem Along.readAction {R : IStream → IStream → Prop} (along : Along R)
    {input behind : IStream} {action : Option Action}
    (read : readAction input = .ok (action, behind)) : R input behind := by
  rw [ConversationSerializer.readAction, bind_eq_ok] at read
  obtain ⟨⟨type, next⟩, found, read⟩ := read
  rw [bind_eq_ok] at read
  obtain ⟨⟨prop, data, last⟩, block, read⟩ := read
  have whole := along.trans (along.readType found) (along.readProperties block)
  cases type with
  | none =>
      cases read
      exact whole
  | some type =>
      rw [bind_eq_ok] at read
      obtain ⟨decoded, -, same⟩ := read
      cases same
      exact whole

/-- A round leaves less than it has found: characters, or the last time that the stream is
good. -/
theorem readAction_left {input behind : IStream} {action : Option Action}
    (atStart : ¬ input.eof = true) (noFailure : ¬ input.fail = true)
    (round : readAction input = .ok (action, behind)) :
    (behind.rest.length + if behind.good then 1 else 0) <
      input.rest.length + if input.good then 1 else 0 := by
  have consumes := consumes_along.readAction round
  have good : input.good = true := by simp [IStream.good, atStart, noFailure]
  rw [if_pos good]
  split
  · next still =>
      have shorter := consumes.2 still
      omega
  · have bound := consumes.1
    omega

/-- The loop of `read_actions`: the actions it pushes. On a stream that has failed
before its end the loop would not end. -/
def readActions (input : IStream) : Outcome (List Action) :=
  if input.eof then .ok []
  else if input.fail then .error (.undefined .noProgress)
  else
    match _read : readAction input with
    | .error e => .error e
    | .ok (action, behind) => (readActions behind).map fun actions => action.toList ++ actions
termination_by input.rest.length + if input.good then 1 else 0
decreasing_by
  next atStart noFailure => exact readAction_left atStart noFailure _read

/-- The actions that `read_actions` has pushed when it returns or throws. -/
def pushedActions (input : IStream) : List Action :=
  if input.eof then []
  else if input.fail then []
  else
    match _read : readAction input with
    | .error _ => []
    | .ok (action, behind) => action.toList ++ pushedActions behind
termination_by input.rest.length + if input.good then 1 else 0
decreasing_by
  next atStart noFailure => exact readAction_left atStart noFailure _read

/-- Where it returns they are all there are. -/
theorem pushedActions_of_ok {input : IStream} {actions : List Action}
    (read : readActions input = .ok actions) : pushedActions input = actions := by
  induction input using readActions.induct generalizing actions with
  | case1 input ended =>
      rw [readActions, if_pos ended] at read
      rw [pushedActions, if_pos ended]
      exact Except.ok.inj read
  | case2 input open_ failed =>
      rw [readActions, if_neg open_, if_pos failed] at read
      cases read
  | case3 input open_ sound e threw =>
      rw [readActions, if_neg open_, if_neg sound, threw] at read
      cases read
  | case4 input open_ sound action behind round ih =>
      rw [readActions, if_neg open_, if_neg sound, round] at read
      rw [pushedActions, if_neg open_, if_neg sound, round]
      obtain ⟨later, rest, rfl⟩ := map_eq_ok.mp read
      exact congrArg _ (ih rest)

/-- The first loop of `read`: the properties up to a blank line. -/
def readHeaders (input : IStream) (headers : Properties) : Properties × IStream :=
  match _read : getline input with
  | (none, input) => (headers, input)
  | (some line, input) =>
      if trimLeft line = [] then (headers, input)
      else readHeaders input (headers.putLine (trimLeft line))
termination_by input.rest.length
decreasing_by
  have shorter := length_getline (by rw [_read])
  rwa [_read] at shorter

theorem Along.readHeaders {R : IStream → IStream → Prop} (along : Along R) (input : IStream)
    (headers : Properties) : R input (readHeaders input headers).2 := by
  induction left : input.rest.length using Nat.strongRecOn generalizing input headers with
  | ind bound ih =>
      have first := along.getline input
      rw [ConversationSerializer.readHeaders]
      split
      · next got => rwa [got] at first
      · next line next got =>
          have shorter := length_getline (by rw [got])
          rw [got] at first shorter
          split
          · exact first
          · exact along.trans first (ih _ (left ▸ shorter) next _ rfl)

/-- `read`. A script of a protocol that is neither TCP nor UDP has no conversation to
read its actions into. -/
def read (inet : Inet) (input : IStream) : Outcome TcpConversation := do
  let script := readHeaders input ∅
  let headers := script.1
  let address ← headers.get testAddressProp
  match inet.getaddrinfo (cstr address) with
  | .error text =>
      throw (.thrown (.runtimeError
        (ascii "Unsupported address: " ++ address ++ ascii " " ++ text)))
  | .ok .inet6 =>
      throw (.thrown (.runtimeError (ascii "Unsupported address family: " ++ address)))
  | .ok .inet => do
      let protocol ← headers.get protocolProp
      if protocol = TcpConversation.protName then do
        let port ← headers.getAsInt testPortProp
        let conversation := TcpConversation.ofLayer inet .inet ⟨address, port⟩
        let actions ← readActions script.2
        return actions.foldl TcpConversation.actionPush conversation
      else if protocol = UdpConversation.protName then
        throw (.thrown (.runtimeError (ascii "UDP script not supported")))
      else throw (.undefined .nullPointer)

end ConversationSerializer

end PacketReplay
