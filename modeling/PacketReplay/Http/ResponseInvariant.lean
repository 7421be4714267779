import PacketReplay.Http.ResponseProcessor
import PacketReplay.Lib.Checked

/-!
# The status code and the data processor

That a response has its status code is meant to say that there is a data processor for
its body. `Agrees` is this invariant. A call on a processor without a status code keeps it
and asks no missing data processor exactly when it `Settles` the head: it brings the end of
the head, and of that head the status line gives a code exactly when the headers give a
framing, unless the number on the status line is none. `consistent_iff` says so of whole
runs.
-/

namespace PacketReplay

open Lib

namespace HttpResponseProcessor

/-- A call of the interface. -/
inductive Call : Type
  | reset
  | processData (data : Bytes)
  deriving DecidableEq, Repr

/-- The answer to a call, that of `reset` standing for its return. -/
def answer (p : HttpResponseProcessor) : Call → Result Bool
  | .reset => (.ok false, p.reset)
  | .processData data => p.processData data

/-- There is a status code exactly when there is a data processor. -/
def Agrees (p : HttpResponseProcessor) : Prop :=
  p.statusCode ≠ -1 ↔ p.dataProcessor.isSome = true

instance (p : HttpResponseProcessor) : Decidable p.Agrees := inferInstanceAs (Decidable (_ ↔ _))

/-- The call did not use a missing data processor, and the invariant holds behind it. -/
def Right (r : Result Bool) : Prop := r.1 ≠ .error (.undefined .nullPointer) ∧ r.2.Agrees

/-- The invariant holds in every state of the run, and no call of it uses a missing data
processor. -/
def Consistent (p : HttpResponseProcessor) (calls : List Call) : Prop :=
  p.Agrees ∧ ∀ r ∈ trace answer ends p calls, Right r

/-! ## The call that brings the head -/

/-- Where a call finds the end of the head. -/
def findHead (p : HttpResponseProcessor) (data : Bytes) : Option Nat :=
  if 3 < p.headerStr.length + data.length then
    findFrom headEnd (p.headerStr ++ data)
      (if p.headerStr.length < 3 then 0 else p.headerStr.length - 3)
  else none

theorem consume_of_found {p : HttpResponseProcessor} (unset : p.statusCode = -1) {data : Bytes}
    {pos : Nat} (found : p.findHead data = some pos) :
    p.consume data = ({ p with headerStr := p.headerStr ++ data }).processHead pos := by
  rw [findHead] at found
  rw [consume, if_pos unset]
  split at found
  · next long => simp only [if_pos long, found]
  · cases found

theorem consume_of_not_found {p : HttpResponseProcessor} (unset : p.statusCode = -1)
    {data : Bytes} (absent : p.findHead data = none) :
    p.consume data = (.ok (), { p with headerStr := p.headerStr ++ data }) := by
  rw [findHead] at absent
  rw [consume, if_pos unset]
  split at absent
  · next long => simp only [if_pos long, absent]
  · next short => simp only [if_neg short]

/-- The status code and the headers after a head on a processor without a code. -/
def readHead (headers : Bytes → Option Bytes) (head : Bytes) :
    Outcome (Int32 × (Bytes → Option Bytes)) :=
  match getlineUpTo lf head with
  | none => .ok (-1, headers)
  | some (token, rest) =>
      (parseStatus token (-1)).map fun status => (status, putHeaders headers (getlines lf rest))

theorem parseHeader_eq_readHead {p : HttpResponseProcessor} (unset : p.statusCode = -1)
    (head : Bytes) :
    p.parseHeader head =
      match readHead p.headers head with
      | .error e => (.error e, p)
      | .ok (status, headers) => (.ok (), { p with statusCode := status, headers := headers }) := by
  rw [parseHeader, readHead]
  cases getlineUpTo lf head with
  | none =>
      have same : p = { p with statusCode := -1, headers := p.headers } := by rw [← unset]
      exact congrArg _ same
  | some line =>
      simp only [unset]
      cases parseStatus line.1 (-1) with
      | error e => rfl
      | ok status => rfl

/-- The status line gives a code exactly when the headers give a framing, or its number
is none. -/
def HeadSettles (headers : Bytes → Option Bytes) (head : Bytes) : Prop :=
  ∀ status headers', readHead headers head = .ok (status, headers') →
    (status ≠ -1 ↔ ∃ d, newDataProcessor headers' = .ok d)

/-- A call on a processor without a status code brings the end of a head that settles. -/
def Settles (p : HttpResponseProcessor) : Call → Prop
  | .reset => True
  | .processData data =>
      p.statusCode = -1 → ∃ pos ∈ p.findHead data,
        HeadSettles p.headers ((p.headerStr ++ data).take pos)

/-! ## What a call leaves -/

theorem agrees_reset (p : HttpResponseProcessor) : p.reset.Agrees := by
  rw [Agrees, reset]
  simp

/-- The chunk decoder has no data processor to miss. -/
theorem chunked_process_ne_null (p : ChunkedProcessor) (data : Bytes) :
    (p.process data).1 ≠ .error (.undefined .nullPointer) := by
  apply blockLoop_induct fun r : ChunkedProcessor.Result => r.1 ≠ .error (.undefined .nullPointer)
  · exact fun _ _ _ _ _ (_ : True) _ _ => trivial
  · intro p c rest r inv ok exit
    simp only [ChunkedProcessor.processStep] at exit
    split_ifs at exit <;> cases exit <;> exact fun absurd => by cases absurd
  · intro p inv absurd
    cases absurd
  · trivial
  · exact LoopAlong.of_forall (fun _ _ _ => trivial) p data

theorem process_ne_null (d : DataProcessor) (data : Bytes) :
    (d.process data).1 ≠ .error (.undefined .nullPointer) := by
  cases d with
  | contentLen p =>
      rw [DataProcessor.process, ContentLenProcessor.process]
      split
      · exact fun absurd => by cases absurd
      · exact fun absurd => by cases absurd
  | chunked p => exact chunked_process_ne_null p data

/-! ## Faults of the head -/

theorem defined_readHead (headers : Bytes → Option Bytes) (head : Bytes) :
    Defined (readHead headers head) := by
  rw [readHead]
  split
  · exact defined_ok _
  · rw [parseStatus]
    split
    · exact defined_ok _
    · next word _ =>
        intro u undefined
        exact defined_stoul word u (map_eq_error.mp (map_eq_error.mp undefined))

theorem defined_newDataProcessor (headers : Bytes → Option Bytes) :
    Defined (newDataProcessor headers) := by
  rw [newDataProcessor]
  split
  · next value _ =>
      intro u undefined
      have created := map_eq_error.mp undefined
      rw [ContentLenProcessor.new] at created
      split at created
      · next e number =>
          cases created
          exact defined_stoul value u number
      · split at created <;> cases created
  · split
    · exact defined_ok _
    · exact defined_thrown _

/-! ## One call -/

/-- A call that has left a data processor asks it, and the invariant holds if there is a
status code. -/
theorem right_of_present {α : Type} {r : Result α} {d : DataProcessor}
    (there : r.2.dataProcessor = some d) (fault : r.1 ≠ .error (.undefined .nullPointer)) :
    Right (r.andThen fun p => (p.dataComplete, p)) ↔ r.2.statusCode ≠ -1 := by
  have agrees : r.2.Agrees ↔ r.2.statusCode ≠ -1 := by
    rw [Agrees, there]
    exact iff_true_right rfl
  rcases r with ⟨outcome, p⟩
  cases outcome with
  | error e =>
      have misses : (.error e : Outcome Bool) ≠ .error (.undefined .nullPointer) :=
        fun same => fault (by cases same; rfl)
      exact (and_iff_right misses).trans agrees
  | ok a =>
      have asks : p.dataComplete ≠ .error (.undefined .nullPointer) := by
        rw [dataComplete, show p.dataProcessor = some d from there]
        exact fun absurd => by cases absurd
      exact (and_iff_right asks).trans agrees

/-- A call that goes wrong, but not for want of a data processor, without having left one. -/
theorem right_of_thrown {p : HttpResponseProcessor} (missing : p.dataProcessor = none) {e : Fault}
    (fault : e ≠ .undefined .nullPointer) : Right (.error e, p) ↔ p.statusCode = -1 := by
  have misses : (.error e : Outcome Bool) ≠ .error (.undefined .nullPointer) :=
    fun same => fault (by cases same; rfl)
  rw [Right, and_iff_right misses, Agrees, missing]
  simp

/-- A data processor that is asked to process what it is given is still there. -/
theorem processBody_there {p : HttpResponseProcessor} {d : DataProcessor}
    (there : p.dataProcessor = some d) (data : Bytes) :
    (p.processBody data).1 ≠ .error (.undefined .nullPointer) ∧
      (p.processBody data).2.statusCode = p.statusCode ∧
      ∃ d', (p.processBody data).2.dataProcessor = some d' := by
  rw [processBody, there]
  exact ⟨fun same => process_ne_null d data (map_eq_error.mp same), rfl, _, rfl⟩

theorem processLeftOver_there {p : HttpResponseProcessor} {d : DataProcessor}
    (there : p.dataProcessor = some d) (pos : Nat) :
    (p.processLeftOver pos).1 ≠ .error (.undefined .nullPointer) ∧
      (p.processLeftOver pos).2.statusCode = p.statusCode ∧
      ∃ d', (p.processLeftOver pos).2.dataProcessor = some d' := by
  rw [processLeftOver]
  split
  · rcases processBody_there there (p.headerStr.drop (pos + 4)) with ⟨fault, status, d', left⟩
    rcases body : p.processBody (p.headerStr.drop (pos + 4)) with ⟨outcome, q⟩
    rw [body] at fault status left
    cases outcome with
    | ok a => exact ⟨fun absurd => (by cases absurd), status, d', left⟩
    | error e => exact ⟨fun same => fault (by cases same; rfl), status, d', left⟩
  · exact ⟨fun absurd => (by cases absurd), rfl, d, there⟩

/-- The call that brings the end of a head is right exactly when the head settles. -/
theorem right_processHead_iff {p : HttpResponseProcessor} (unset : p.statusCode = -1)
    (missing : p.dataProcessor = none) (pos : Nat) :
    Right ((p.processHead pos).andThen fun p => (p.dataComplete, p)) ↔
      HeadSettles p.headers (p.headerStr.take pos) := by
  have reads := defined_readHead p.headers (p.headerStr.take pos)
  rw [processHead, parseHeader_eq_readHead unset, HeadSettles]
  cases read : readHead p.headers (p.headerStr.take pos) with
  | error e =>
      have fault : e ≠ .undefined .nullPointer := by
        intro same
        subst same
        exact reads _ read
      refine iff_of_true ((right_of_thrown missing fault).mpr unset) ?_
      intro status headers' absurd
      cases absurd
  | ok result =>
      rcases result with ⟨status, headers⟩
      have creates := defined_newDataProcessor headers
      have settles : (∀ status' headers', (.ok (status, headers) : Outcome _) =
          .ok (status', headers') → (status' ≠ -1 ↔ ∃ d, newDataProcessor headers' = .ok d)) ↔
          (status ≠ -1 ↔ ∃ d, newDataProcessor headers = .ok d) := by
        constructor
        · exact fun all => all status headers rfl
        · intro one status' headers' same
          cases same
          exact one
      rw [settles]
      simp only [Result.andThen, createDataProcessor]
      cases created : newDataProcessor headers with
      | error e =>
          have fault : e ≠ .undefined .nullPointer := by
            intro same
            subst same
            exact creates _ created
          have none_made : ¬ ∃ d, (.error e : Outcome DataProcessor) = .ok d := by
            intro some_made
            rcases some_made with ⟨d, absurd⟩
            cases absurd
          refine (right_of_thrown (p := { p with statusCode := status, headers := headers })
            missing fault).trans ?_
          rw [iff_false_right none_made, not_not]
      | ok d =>
          have made : ∃ d', (.ok d : Outcome DataProcessor) = .ok d' := ⟨d, rfl⟩
          rw [iff_true_right made]
          have left := processLeftOver_there (p := { p with
            statusCode := status, headers := headers, dataProcessor := some d }) rfl pos
          rcases left with ⟨fault, same, d', there⟩
          have right := right_of_present there fault
          rw [same] at right
          exact right

/-- A call keeps the invariant and misses no data processor exactly when it settles. -/
theorem right_answer_iff {p : HttpResponseProcessor} (agrees : p.Agrees) (call : Call) :
    Right (p.answer call) ↔ p.Settles call := by
  cases call with
  | reset => exact iff_of_true ⟨fun absurd => (by cases absurd), agrees_reset p⟩ trivial
  | processData data =>
      rw [answer, processData, Settles]
      by_cases unset : p.statusCode = -1
      · have missing : p.dataProcessor = none := by
          have none_there : ¬ p.dataProcessor.isSome = true := fun there => agrees.mpr there unset
          simpa using none_there
        rw [imp_iff_right unset]
        cases found : p.findHead data with
        | none =>
            rw [consume_of_not_found unset found]
            refine iff_of_false (fun right => right.1 ?_) fun some_found => ?_
            · simp only [Result.andThen, dataComplete, missing]
            · rcases some_found with ⟨pos, absurd, -⟩
              cases absurd
        | some pos =>
            rw [consume_of_found unset found]
            refine (right_processHead_iff (p := { p with headerStr := p.headerStr ++ data })
              unset missing pos).trans ?_
            simp
      · rcases Option.isSome_iff_exists.mp (agrees.mp unset) with ⟨d, there⟩
        rw [consume, if_neg unset]
        rcases processBody_there there data with ⟨fault, status, d', left⟩
        refine iff_of_true ((right_of_present left fault).mpr ?_) fun same => absurd same unset
        rw [status]
        exact unset

/-! ## Runs -/

/-- In a run on a fresh processor the status code is set exactly when there is a data
processor, and no call misses one, exactly when every call on a processor without a
status code brings the end of a head that settles. -/
theorem consistent_iff (calls : List Call) :
    Consistent {} calls ↔ EachCall answer ends Settles {} calls := by
  have fresh : ({} : HttpResponseProcessor).Agrees := by decide
  rw [Consistent, and_iff_right fresh]
  exact forall_trace_iff Agrees (fun _ call agrees => right_answer_iff agrees call)
    (fun _ _ right => right.2) fresh calls

/-- A head with a status code and without a framing. -/
theorem not_consistent_unframed :
    ¬ ∀ calls, ∀ r ∈ trace answer ends {} calls, r.2.Agrees := by
  intro always
  have agrees := always [.processData (ascii "HTTP/1.1 200 OK\r\n\r\n")] _ List.mem_cons_self
  revert agrees
  decide +kernel

end HttpResponseProcessor

end PacketReplay
