import PacketReplay.Http.ResponseProcessor

/-!
# Resetting a response processor

`reset` leaves the parsed headers in place, and a later head is parsed into them.
Two processors are alike when they differ in headers that do not choose another
framing; `observations_eq_of_alike` says that no run tells them apart, and
`reset_observations_iff` that a reset processor behaves as a new one exactly when
the headers it kept choose no framing.
-/

namespace PacketReplay

open Lib

namespace HttpResponseProcessor

/-! ## What a caller sees -/

/-- What can be seen of a call and of the processor behind it. -/
structure Observed : Type where
  result : Outcome Bool
  complete : Outcome Bool
  statusCode : Int32
  framing : Option Framing
  body : Bytes
  deriving DecidableEq

def observe (r : Result Bool) : Observed :=
  ⟨r.1, r.2.complete, r.2.statusCode, r.2.dataProcessor.map DataProcessor.framing, r.2.body⟩

/-- What is seen of the calls that feed the segments in order. -/
def observations (p : HttpResponseProcessor) (segments : List Bytes) : List Observed :=
  (p.feed segments).map observe

/-- The calls of a client. -/
inductive Op : Type
  | processData (data : Bytes)
  | reset
  deriving DecidableEq, Repr

def act (p : HttpResponseProcessor) : Op → Result Bool
  | .processData data => p.processData data
  | .reset => (.ok false, p.reset)

/-- A new processor after a history of calls. -/
def after (history : List Op) : HttpResponseProcessor := leaves act ends {} history

/-! ## Headers that choose the same framing -/

/-- The headers choose a framing. -/
def Framed (headers : Bytes → Option Bytes) : Prop :=
  headers contentLength ≠ none ∨ ChunkedIn headers

/-- Two sets of headers that choose the same data processor. -/
def SameFraming (headers others : Bytes → Option Bytes) : Prop :=
  headers contentLength = others contentLength ∧ (ChunkedIn headers ↔ ChunkedIn others)

theorem SameFraming.update {headers others : Bytes → Option Bytes}
    (same : SameFraming headers others) (key : Bytes) (value : Option Bytes) :
    SameFraming (Function.update headers key value) (Function.update others key value) := by
  obtain ⟨length, chunked⟩ := same
  constructor
  · simp only [Function.update_apply, length]
  · unfold ChunkedIn at chunked ⊢
    simp only [Function.update_apply]
    split
    · rfl
    · exact chunked

theorem SameFraming.putHeaders {headers others : Bytes → Option Bytes}
    (same : SameFraming headers others) (lines : List Bytes) :
    SameFraming (putHeaders headers lines) (putHeaders others lines) := by
  induction lines generalizing headers others with
  | nil => exact same
  | cons line lines ih => exact ih (same.update _ _)

theorem SameFraming.newDataProcessor {headers others : Bytes → Option Bytes}
    (same : SameFraming headers others) : newDataProcessor headers = newDataProcessor others := by
  obtain ⟨length, chunked⟩ := same
  simp only [HttpResponseProcessor.newDataProcessor, length, chunked]

/-- Headers that choose no framing are like no headers. -/
theorem sameFraming_none_iff {headers : Bytes → Option Bytes} :
    SameFraming headers (fun _ => none) ↔ ¬ Framed headers := by
  unfold SameFraming Framed ChunkedIn
  simp

/-! ## Processors alike -/

structure Alike (p q : HttpResponseProcessor) : Prop where
  headerStr : p.headerStr = q.headerStr
  statusCode : p.statusCode = q.statusCode
  dataProcessor : p.dataProcessor = q.dataProcessor
  headers : SameFraming p.headers q.headers

/-- Calls with one outcome that leave processors alike. -/
def AlikeResults {α : Type} (r s : Result α) : Prop := r.1 = s.1 ∧ Alike r.2 s.2

theorem AlikeResults.andThen {α β : Type} {r s : Result α}
    {next : HttpResponseProcessor → Result β} (alike : AlikeResults r s)
    (kept : ∀ p q, Alike p q → AlikeResults (next p) (next q)) :
    AlikeResults (r.andThen next) (s.andThen next) := by
  obtain ⟨r₁, r₂⟩ := r
  obtain ⟨s₁, s₂⟩ := s
  obtain ⟨same, alike⟩ := alike
  cases same
  cases r₁ with
  | ok a => exact kept _ _ alike
  | error e => exact ⟨rfl, alike⟩

variable {p q : HttpResponseProcessor}

theorem Alike.dataComplete (alike : Alike p q) : p.dataComplete = q.dataComplete := by
  rw [HttpResponseProcessor.dataComplete, HttpResponseProcessor.dataComplete,
    alike.dataProcessor]

theorem Alike.processBody (alike : Alike p q) (data : Bytes) :
    AlikeResults (p.processBody data) (q.processBody data) := by
  unfold HttpResponseProcessor.processBody
  rw [alike.dataProcessor]
  cases q.dataProcessor with
  | none => exact ⟨rfl, alike⟩
  | some d => exact ⟨rfl, alike.headerStr, alike.statusCode, rfl, alike.headers⟩

theorem Alike.parseHeader (alike : Alike p q) (headerStr : Bytes) :
    AlikeResults (p.parseHeader headerStr) (q.parseHeader headerStr) := by
  unfold HttpResponseProcessor.parseHeader
  cases getlineUpTo lf headerStr with
  | none => exact ⟨rfl, alike⟩
  | some line =>
      obtain ⟨token, rest⟩ := line
      simp only [alike.statusCode]
      cases parseStatus token q.statusCode with
      | error e => exact ⟨rfl, alike⟩
      | ok statusCode =>
          exact ⟨rfl, alike.headerStr, rfl, alike.dataProcessor, alike.headers.putHeaders _⟩

theorem Alike.createDataProcessor (alike : Alike p q) :
    AlikeResults p.createDataProcessor q.createDataProcessor := by
  unfold HttpResponseProcessor.createDataProcessor
  rw [alike.headers.newDataProcessor]
  cases newDataProcessor q.headers with
  | error e => exact ⟨rfl, alike⟩
  | ok d => exact ⟨rfl, alike.headerStr, alike.statusCode, rfl, alike.headers⟩

theorem Alike.processLeftOver (alike : Alike p q) (pos : Nat) :
    AlikeResults (p.processLeftOver pos) (q.processLeftOver pos) := by
  unfold HttpResponseProcessor.processLeftOver
  rw [alike.headerStr]
  split
  · refine (alike.processBody _).andThen fun p q alike => ?_
    exact ⟨rfl, by rw [alike.headerStr], alike.statusCode, alike.dataProcessor, alike.headers⟩
  · exact ⟨rfl, alike⟩

theorem Alike.processHead (alike : Alike p q) (pos : Nat) :
    AlikeResults (p.processHead pos) (q.processHead pos) := by
  unfold HttpResponseProcessor.processHead
  rw [alike.headerStr]
  refine ((alike.parseHeader _).andThen fun p q alike => ?_).andThen fun p q alike => ?_
  · exact alike.createDataProcessor
  · exact alike.processLeftOver pos

theorem Alike.consume (alike : Alike p q) (data : Bytes) :
    AlikeResults (p.consume data) (q.consume data) := by
  unfold HttpResponseProcessor.consume
  rw [alike.headerStr, alike.statusCode]
  have appended : Alike
      { p with headerStr := q.headerStr ++ data, statusCode := q.statusCode }
      { q with headerStr := q.headerStr ++ data } :=
    ⟨rfl, rfl, alike.dataProcessor, alike.headers⟩
  split
  · simp only
    split
    · split
      · exact appended.processHead _
      · exact ⟨rfl, appended⟩
    · exact ⟨rfl, appended⟩
  · exact alike.processBody data

theorem Alike.processData (alike : Alike p q) (data : Bytes) :
    AlikeResults (p.processData data) (q.processData data) := by
  refine (alike.consume data).andThen fun p q alike => ?_
  exact ⟨alike.dataComplete, alike⟩

theorem AlikeResults.observe {r s : Result Bool} (alike : AlikeResults r s) :
    observe r = observe s := by
  obtain ⟨same, alike⟩ := alike
  unfold HttpResponseProcessor.observe complete body
  rw [same, alike.statusCode, alike.dataComplete, alike.dataProcessor]

/-- No run tells processors alike apart. -/
theorem observations_eq_of_alike (alike : Alike p q) (segments : List Bytes) :
    p.observations segments = q.observations segments :=
  trace_map_eq_of_simulation Alike
    (fun _ _ data alike => (alike.processData data).1)
    (fun _ _ data alike => (alike.processData data).observe)
    (fun _ _ data alike _ => (alike.processData data).2) alike segments

/-! ## Headers left behind -/

/-- A head that nothing follows, and what its lines are. -/
structure HeadOnly (head : Bytes) (lines : List Bytes) : Prop where
  ends : find headEnd head = some (head.length - 4)
  long : 4 ≤ head.length
  parses : ∃ token rest statusCode,
    getlineUpTo lf (head.take (head.length - 4)) = some (token, rest) ∧
    parseStatus token (-1) = .ok statusCode ∧ getlines lf rest = lines

/-- The framing that a head chooses, filed into old headers. -/
theorem framing_processData_headers {head : Bytes} {lines : List Bytes}
    (headOnly : HeadOnly head lines) (headers : Bytes → Option Bytes) :
    (observe (processData { headers := headers } head)).framing =
      match newDataProcessor (putHeaders headers lines) with
      | .ok d => some d.framing
      | .error _ => none := by
  obtain ⟨found, long, token, rest, statusCode, line, status, rfl⟩ := headOnly
  unfold processData consume
  rw [if_pos rfl]
  simp only [List.nil_append, List.length_nil, Nat.zero_add]
  rw [if_pos (by omega), if_pos (by omega), findFrom_zero, found]
  simp only [processHead, parseHeader, line, status]
  unfold createDataProcessor
  simp only [Result.andThen]
  cases newDataProcessor (putHeaders headers (getlines lf rest)) with
  | error e => rfl
  | ok d =>
      simp only [processLeftOver]
      rw [if_neg (by omega)]
      rfl

theorem observations_singleton (p : HttpResponseProcessor) (segment : Bytes) :
    p.observations [segment] = [observe (p.processData segment)] := by
  rw [observations, feed, trace]
  split <;> rfl

def chunkedHead : Bytes := ascii "HTTP/1.1 200 OK\r\nTransfer-Encoding: chunked\r\n\r\n"

def bareHead : Bytes := ascii "HTTP/1.1 200 OK\r\n\r\n"

theorem headOnly_chunkedHead : HeadOnly chunkedHead [ascii "Transfer-Encoding: chunked"] where
  ends := by decide
  long := by decide
  parses := ⟨ascii "HTTP/1.1 200 OK\r", ascii "Transfer-Encoding: chunked", 200, by decide,
    by decide +kernel, by decide +kernel⟩

theorem headOnly_bareHead : HeadOnly bareHead [] where
  ends := by decide
  long := by decide
  parses := ⟨ascii "HTTP/1.1 200 OK", [], 200, by decide, by decide +kernel, by decide +kernel⟩

theorem putHeaders_chunked (headers : Bytes → Option Bytes) :
    putHeaders headers [ascii "Transfer-Encoding: chunked"] =
      Function.update headers transferEncoding (some (ascii "chunked")) := by
  have field : headerField (ascii "Transfer-Encoding: chunked") =
      (transferEncoding, ascii "chunked") := by
    decide
  rw [putHeaders, List.foldl_cons, field]
  rfl

/-- A length left behind keeps a chunked response from being chunked. -/
theorem framing_chunkedHead_of_length {headers : Bytes → Option Bytes} {value : Bytes}
    (length : headers contentLength = some value) :
    (observe (processData { headers := headers } chunkedHead)).framing ≠ some .chunked := by
  have kept : Function.update headers transferEncoding (some (ascii "chunked")) contentLength =
      some value := by
    rw [Function.update_of_ne (by decide), length]
  rw [framing_processData_headers headOnly_chunkedHead, putHeaders_chunked]
  simp only [newDataProcessor, kept]
  cases ContentLenProcessor.new value with
  | error e => simp [Except.map]
  | ok c => simp [Except.map, DataProcessor.framing]

theorem framing_chunkedHead :
    (observe (processData {} chunkedHead)).framing = some .chunked := by
  rw [framing_processData_headers headOnly_chunkedHead, putHeaders_chunked]
  decide

/-- The chunked framing left behind is chosen by a response that names none. -/
theorem framing_bareHead_of_chunked {headers : Bytes → Option Bytes}
    (length : headers contentLength = none) (chunked : ChunkedIn headers) :
    (observe (processData { headers := headers } bareHead)).framing = some .chunked := by
  have created : newDataProcessor headers = .ok (.chunked {}) := by
    rw [newDataProcessor, length]
    exact if_pos chunked
  rw [framing_processData_headers headOnly_bareHead, putHeaders, List.foldl_nil, created]
  rfl

theorem framing_bareHead : (observe (processData {} bareHead)).framing = none := by
  rw [framing_processData_headers headOnly_bareHead]
  decide

/-- A reset processor behaves as a new one exactly when the headers of the history
choose no framing. -/
theorem reset_observations_iff (history : List Op) :
    (∀ segments, (after history).reset.observations segments = observations {} segments) ↔
      ¬ Framed (after history).headers := by
  constructor
  · intro same framed
    have first (head : Bytes) :
        observe (processData { headers := (after history).headers } head) =
          observe (processData {} head) := by
      have single := same [head]
      rw [observations_singleton, observations_singleton, List.singleton_inj] at single
      exact single
    rcases length : (after history).headers contentLength with _ | value
    · rcases framed with present | chunked
      · exact present length
      · have alike := congrArg Observed.framing (first bareHead)
        rw [framing_bareHead_of_chunked length chunked, framing_bareHead] at alike
        cases alike
    · have alike := congrArg Observed.framing (first chunkedHead)
      rw [framing_chunkedHead] at alike
      exact framing_chunkedHead_of_length length alike
  · intro unframed segments
    have alike : Alike (after history).reset {} :=
      ⟨rfl, rfl, rfl, sameFraming_none_iff.mpr unframed⟩
    exact observations_eq_of_alike alike segments

/-- A response with a length, and after the reset a chunked one: its headers choose
the length again. -/
theorem not_reset_observations_lengthThenChunked :
    ¬ ∀ history segments,
      (after history).reset.observations segments = observations {} segments := by
  intro fresh
  have same := fresh [.processData (ascii "HTTP/1.1 200 OK\r\nContent-Length: 0\r\n\r\n")]
    [ascii "HTTP/1.1 200 OK\r\nTransfer-Encoding: chunked\r\n\r\n0\r\n\r\n"]
  revert same
  decide +kernel

end HttpResponseProcessor

end PacketReplay
