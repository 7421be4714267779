import Mathlib.Logic.Function.Basic
import PacketReplay.Lib.Trace
import PacketReplay.Util
import PacketReplay.Http.ChunkedProcessor

/-!
# The response processor

`HttpResponseProcessor`: the head is gathered in `headerStr` until the blank line
is there, then parsed, and the bytes behind it go to a data processor chosen by the
headers. A call returns its outcome and the object it leaves, also when it throws.
Lengths and positions are natural numbers: a segment is no longer than an `int`
holds, and heads are taken to be no longer either.
-/

namespace PacketReplay

open Lib

/-- The data processor of responses with a `content-length`. `payload` is
`payload_[0..payload_read_)`, the part of the buffer that has been written. -/
structure ContentLenProcessor : Type where
  payloadSize : Nat
  payload : Bytes := []
  fits : payload.length ≤ payloadSize
  small : payloadSize < 2 ^ 31

namespace ContentLenProcessor

/-- A buffer that nothing has been written to. -/
def ofSize (payloadSize : Nat) (small : payloadSize < 2 ^ 31) : ContentLenProcessor :=
  ⟨payloadSize, [], Nat.zero_le _, small⟩

@[simp] theorem ofSize_payloadSize (n : Nat) (small : n < 2 ^ 31) :
    (ofSize n small).payloadSize = n := rfl

theorem toNat_toInt32_lt (n : Int) : (toInt32 n).toNat < 2 ^ 31 := by
  have bound : toInt32 n < (2 ^ 32 + 1) / 2 := Int.bmod_lt (by omega)
  omega

/-- The constructor, on the value of the header: the length becomes an `int`, and
an array of negative length cannot be had. -/
def new (contentLength : Bytes) : Outcome ContentLenProcessor :=
  match stoul contentLength with
  | .error e => .error e
  | .ok n =>
      if 0 ≤ toInt32 n then .ok (ofSize (toInt32 n).toNat (toNat_toInt32_lt n))
      else .error (.thrown .badArrayNewLength)

def isComplete (p : ContentLenProcessor) : Bool := p.payloadSize = p.payload.length

/-- The `memcpy` of `process`, when there is room for the bytes. -/
def copy (p : ContentLenProcessor) (data : Bytes)
    (fits : (p.payload ++ data).length ≤ p.payloadSize) : ContentLenProcessor :=
  { p with payload := p.payload ++ data, fits := fits }

/-- `process`: the bytes are copied with no regard to the room left for them. -/
def process (p : ContentLenProcessor) (data : Bytes) : Outcome Bool × ContentLenProcessor :=
  if fits : (p.payload ++ data).length ≤ p.payloadSize then
    (.ok (p.copy data fits).isComplete, p.copy data fits)
  else (.error (.undefined .outOfBounds), p)

theorem process_of_fits {p : ContentLenProcessor} {data : Bytes}
    (fits : (p.payload ++ data).length ≤ p.payloadSize) :
    p.process data = (.ok (p.copy data fits).isComplete, p.copy data fits) :=
  dif_pos fits

theorem process_of_overrun {p : ContentLenProcessor} {data : Bytes}
    (overrun : ¬ (p.payload ++ data).length ≤ p.payloadSize) :
    p.process data = (.error (.undefined .outOfBounds), p) :=
  dif_neg overrun

end ContentLenProcessor

/-- The two framings of a payload. -/
inductive DataProcessor : Type
  | contentLen (p : ContentLenProcessor)
  | chunked (p : ChunkedProcessor)

/-- The framing of a payload, without its state. -/
inductive Framing : Type
  | contentLen
  | chunked
  deriving DecidableEq, Repr

namespace DataProcessor

def framing : DataProcessor → Framing
  | contentLen _ => .contentLen
  | chunked _ => .chunked

def isComplete : DataProcessor → Bool
  | contentLen p => p.isComplete
  | chunked p => p.complete

/-- The decoded payload. -/
def body : DataProcessor → Bytes
  | contentLen p => p.payload
  | chunked p => p.data

def process : DataProcessor → Bytes → Outcome Bool × DataProcessor
  | contentLen p, data => ((p.process data).1, contentLen (p.process data).2)
  | chunked p, data => ((p.process data).1, chunked (p.process data).2)

/-- `compare`. The difference of the sizes of two chunked payloads is converted to
an `int`. -/
def compare : DataProcessor → DataProcessor → Outcome Int
  | contentLen p, contentLen other =>
      if other.payloadSize ≠ p.payloadSize then .ok (p.payloadSize - other.payloadSize)
      else memcmp p.payload other.payload p.payloadSize
  | chunked p, chunked other =>
      let sizeDiff := toInt32 (p.data.length - other.data.length)
      if sizeDiff ≠ 0 then .ok sizeDiff else strncmp p.data other.data p.data.length
  | _, _ => .error (.thrown (.runtimeError (ascii "response used different transfer encoding")))

end DataProcessor

structure HttpResponseProcessor : Type where
  headerStr : Bytes := []
  headers : Bytes → Option Bytes := fun _ => none
  statusCode : Int32 := -1
  dataProcessor : Option DataProcessor := none

namespace HttpResponseProcessor

/-- The outcome of a call and the object it leaves. -/
abbrev Result (α : Type) := Outcome α × HttpResponseProcessor

/-- Go on from a call that returned. -/
def Result.andThen {α β : Type} (r : Result α) (next : HttpResponseProcessor → Result β) :
    Result β :=
  match r with
  | (.ok _, p) => next p
  | (.error e, p) => (.error e, p)

/-- `reset`: the headers stay. -/
def reset (p : HttpResponseProcessor) : HttpResponseProcessor :=
  { p with headerStr := [], statusCode := -1, dataProcessor := none }

/-- `(*data_processor_).isComplete()`. -/
def dataComplete (p : HttpResponseProcessor) : Outcome Bool :=
  match p.dataProcessor with
  | none => .error (.undefined .nullPointer)
  | some d => .ok d.isComplete

def complete (p : HttpResponseProcessor) : Outcome Bool :=
  if p.statusCode ≠ -1 then p.dataComplete else .ok false

/-- `(*data_processor_).process(data, data_len)`, whose result nobody looks at. -/
def processBody (p : HttpResponseProcessor) (data : Bytes) : Result Unit :=
  match p.dataProcessor with
  | none => (.error (.undefined .nullPointer), p)
  | some d =>
      ((d.process data).1.map fun _ => (), { p with dataProcessor := some (d.process data).2 })

/-! ## Parsing the head -/

/-- The second word of the status line. -/
def statusToken (token : Bytes) : Option Bytes := do
  let first ← getlineUpTo 32 token
  let second ← getlineUpTo 32 first.2
  return second.1

/-- The status code after the status line, the old one when it has one word only. -/
def parseStatus (token : Bytes) (statusCode : Int32) : Outcome Int32 :=
  match statusToken token with
  | none => .ok statusCode
  | some word => (stoul word).map Int32.ofNat

/-- The key and the value of a header line. -/
def headerField (token : Bytes) : Bytes × Bytes :=
  let key := (getlineUpTo 58 token).getD ([], [])
  let value := (getlineUpTo cr key.2).getD ([], [])
  (toLower (trim key.1), trim value.1)

/-- `headers_[key] = value` for every line. -/
def putHeaders (headers : Bytes → Option Bytes) (lines : List Bytes) : Bytes → Option Bytes :=
  lines.foldl (fun headers token =>
    Function.update headers (headerField token).1 (some (headerField token).2)) headers

def parseHeader (p : HttpResponseProcessor) (headerStr : Bytes) : Result Unit :=
  match getlineUpTo lf headerStr with
  | none => (.ok (), p)
  | some (token, rest) =>
      match parseStatus token p.statusCode with
      | .error e => (.error e, p)
      | .ok statusCode =>
          (.ok (), { p with
            statusCode := statusCode
            headers := putHeaders p.headers (getlines lf rest) })

def contentLength : Bytes := ascii "content-length"

def transferEncoding : Bytes := ascii "transfer-encoding"

/-- There is a `transfer-encoding`, and `strcasecmp((*it).second.c_str(), "chunked") == 0`. -/
def ChunkedIn (headers : Bytes → Option Bytes) : Prop :=
  ∃ value ∈ headers transferEncoding, strcasecmp (cstr value) (ascii "chunked") = 0

instance (headers : Bytes → Option Bytes) : Decidable (ChunkedIn headers) :=
  inferInstanceAs (Decidable (∃ _ ∈ headers transferEncoding, _ = _))

/-- The data processor the headers call for. -/
def newDataProcessor (headers : Bytes → Option Bytes) : Outcome DataProcessor :=
  match headers contentLength with
  | some value => (ContentLenProcessor.new value).map .contentLen
  | none =>
      if ChunkedIn headers then .ok (.chunked {})
      else .error (.thrown (.runtimeError (ascii "unsupported HTTP encoding")))

def createDataProcessor (p : HttpResponseProcessor) : Result Unit :=
  match newDataProcessor p.headers with
  | .error e => (.error e, p)
  | .ok d => (.ok (), { p with dataProcessor := some d })

/-- Hand over what stands behind the head, if anything does. -/
def processLeftOver (p : HttpResponseProcessor) (pos : Nat) : Result Unit :=
  if pos + 4 < p.headerStr.length then
    (p.processBody (p.headerStr.drop (pos + 4))).andThen fun p =>
      (.ok (), { p with headerStr := p.headerStr.take (pos + 4) })
  else (.ok (), p)

/-- What the call that finds the blank line at `pos` does. -/
def processHead (p : HttpResponseProcessor) (pos : Nat) : Result Unit :=
  ((p.parseHeader (p.headerStr.take pos)).andThen createDataProcessor).andThen
    fun p => p.processLeftOver pos

/-! ## The calls -/

/-- The blank line that ends the head. -/
def headEnd : Bytes := crlf ++ crlf

/-- The part of `processData` before the data processor is asked whether it is
complete. -/
def consume (p : HttpResponseProcessor) (data : Bytes) : Result Unit :=
  if p.statusCode = -1 then
    let origLen := p.headerStr.length
    let p := { p with headerStr := p.headerStr ++ data }
    if 3 < origLen + data.length then
      let findStart := if origLen < 3 then 0 else origLen - 3
      match findFrom headEnd p.headerStr findStart with
      | some pos => p.processHead pos
      | none => (.ok (), p)
    else (.ok (), p)
  else p.processBody data

def processData (p : HttpResponseProcessor) (data : Bytes) : Result Bool :=
  (p.consume data).andThen fun p => (p.dataComplete, p)

/-- `compare`. -/
def compare (p other : HttpResponseProcessor) : Outcome Int :=
  match p.complete, other.complete with
  | .error e, _ => .error e
  | .ok true, .error e => .error e
  | .ok true, .ok true =>
      let ret := p.statusCode - other.statusCode
      if ret ≠ 0 then .ok ret.toInt
      else
        match p.dataProcessor, other.dataProcessor with
        | some d, some e => d.compare e
        | _, _ => .error (.undefined .nullPointer)
  | .ok _, _ =>
      .error (.thrown (.runtimeError
        (ascii "internal failure: invalid state for response processor")))

/-- A call of undefined behaviour ends a run; after one that throws, the caller may
go on. -/
def ends : Outcome Bool → Bool
  | .error (.undefined _) => true
  | _ => false

/-- The calls that feed the segments in order. -/
def feed (p : HttpResponseProcessor) (segments : List Bytes) : List (Result Bool) :=
  trace processData ends p segments

/-- The processor left when the segments have been fed in order. -/
def fed (p : HttpResponseProcessor) (segments : List Bytes) : HttpResponseProcessor :=
  leaves processData ends p segments

/-- The decoded payload, empty while there is no data processor. -/
def body (p : HttpResponseProcessor) : Bytes := (p.dataProcessor.map DataProcessor.body).getD []

end HttpResponseProcessor

end PacketReplay
