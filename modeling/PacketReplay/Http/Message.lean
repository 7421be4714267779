import PacketReplay.Http.HeaderParsing
import PacketReplay.Http.ResponseCompare
import PacketReplay.Http.ResponseSegments

/-!
# Messages that are read

A processor that has been reset finds the head of a message in the first segment and hands
what stands behind it to the data processor that the headers choose. `Reading` says that it
reads the message in the segments that are left, and is complete behind the last of them and
not before; `HasRead.compare` what two processors make of the messages they have read.
-/

namespace PacketReplay

open Lib
open HttpResponseProcessor (headEnd contentLength)

/-- What tells two bodies apart. Chunked ones of one length are compared up to a NUL. -/
def Framing.Differ : Framing → Bytes → Bytes → Prop
  | .contentLen, a, b => a ≠ b
  | .chunked, a, b => a.length ≠ b.length ∨ DifferBeforeNul a b

instance (framing : Framing) (a b : Bytes) : Decidable (framing.Differ a b) :=
  match framing with
  | .contentLen => inferInstanceAs (Decidable (a ≠ b))
  | .chunked => inferInstanceAs (Decidable (_ ∨ _))

/-- A response as it is compared. -/
structure Message : Type where
  status : Int32
  framing : Framing
  body : Bytes
  small : body.length < 2 ^ 31

namespace Message

/-- What is reported. -/
def Differs (m n : Message) : Prop := m.status ≠ n.status ∨ m.framing.Differ m.body n.body

instance (m n : Message) : Decidable (m.Differs n) := inferInstanceAs (Decidable (_ ∨ _))

/-- What is not compared: other framings with one status. -/
def Clashes (m n : Message) : Prop := m.status = n.status ∧ m.framing ≠ n.framing

end Message

/-- The head of a response up to the blank line, and what is made of it. -/
structure Heading : Type where
  text : Bytes
  status : Int32
  fields : List Field
  found : ∀ rest, find headEnd (text ++ headEnd ++ rest) = some text.length
  parses : ∀ p : HttpResponseProcessor, p.parseHeader text =
    (.ok (), { p with statusCode := status, headers := fileFields p.headers fields })
  status_ne : status ≠ -1

/-- The head with the blank line. -/
def Heading.bytes (h : Heading) : Bytes := h.text ++ headEnd

namespace Response

def heading (r : Response) : Heading where
  text := r.headText
  status := r.status
  fields := r.fields
  found := r.find_headEnd
  parses := r.parseHeader_headText
  status_ne := r.status_ne

end Response

namespace Head

/-- A code of three digits is not the one that stands for no status. -/
theorem status_ne (h : Head) : h.status ≠ -1 := by
  have bound := digitsValue_lt h.code_digits
  rw [h.code_length] at bound
  have small : digitsValue 10 h.code < 2 ^ 31 := by omega
  intro same
  have value : h.status.toInt = digitsValue 10 h.code := Int32.toInt_ofNat_of_lt small
  rw [same] at value
  have negative : (-1 : Int32).toInt = -1 := by decide
  omega

def heading (h : Head) : Heading where
  text := h.text
  status := h.status
  fields := h.fields
  found rest := by
    rw [text, List.append_assoc, List.append_assoc]
    exact find_headEnd_lines h.statusLine_clean h.fields rest
  parses := h.parseHeader_eq
  status_ne := h.status_ne

end Head

namespace HttpResponseProcessor

/-- A processor that is new, or has been reset. -/
structure Blank (p : HttpResponseProcessor) : Prop where
  headerStr : p.headerStr = []
  statusCode : p.statusCode = -1
  dataProcessor : p.dataProcessor = none

theorem blank_reset (p : HttpResponseProcessor) : p.reset.Blank := ⟨rfl, rfl, rfl⟩

theorem Blank.complete {p : HttpResponseProcessor} (blank : p.Blank) :
    p.complete = .ok false := by
  rw [HttpResponseProcessor.complete, blank.statusCode]
  rfl

/-- The processor with another data processor. -/
def withData (p : HttpResponseProcessor) (d : DataProcessor) : HttpResponseProcessor :=
  { p with dataProcessor := some d }

section Calls

variable {p q : HttpResponseProcessor} {d e : DataProcessor} {b : Bool}

theorem complete_withData (parsed : q.statusCode ≠ -1) (d : DataProcessor) :
    (q.withData d).complete = .ok d.isComplete := if_pos parsed

/-- Once the head is parsed, a call hands its bytes to the data processor. -/
theorem processData_withData (parsed : q.statusCode ≠ -1) {segment : Bytes}
    (processed : d.process segment = (.ok b, e)) :
    (q.withData d).processData segment = (.ok e.isComplete, q.withData e) := by
  have body : (q.withData d).processBody segment = (.ok (), q.withData e) := by
    change ((d.process segment).1.map _, q.withData (d.process segment).2) = _
    rw [processed]
    rfl
  have unparsed : ¬ (q.withData d).statusCode = -1 := parsed
  rw [processData, consume, if_neg unparsed, body]
  rfl

/-- What stands behind the head is handed on, if anything does. -/
theorem processLeftOver_withData {tail : Bytes} (text : Bytes)
    (strung : p.headerStr = text ++ headEnd ++ tail) (processed : d.process tail = (.ok b, e))
    (idle : tail = [] → e = d) :
    ∃ q : HttpResponseProcessor, q.statusCode = p.statusCode ∧ q.headers = p.headers ∧
      (p.withData d).processLeftOver text.length = (.ok (), q.withData e) := by
  have size : (text ++ headEnd).length = text.length + 4 := List.length_append
  have behind : (p.withData d).headerStr.drop (text.length + 4) = tail := by
    change p.headerStr.drop _ = _
    rw [strung, ← size, List.drop_left]
  have total : (p.withData d).headerStr.length = text.length + 4 + tail.length := by
    change p.headerStr.length = _
    rw [strung, List.length_append, size]
  rw [processLeftOver, total, behind]
  cases tail with
  | nil =>
      rw [idle rfl]
      exact ⟨p, rfl, rfl, if_neg (Nat.lt_irrefl _)⟩
  | cons c tail =>
      refine ⟨{ p with headerStr := (p.withData d).headerStr.take (text.length + 4) }, rfl, rfl, ?_⟩
      rw [if_pos (by rw [List.length_cons]; omega)]
      have body : (p.withData d).processBody (c :: tail) = (.ok (), p.withData e) := by
        change ((d.process (c :: tail)).1.map _, p.withData (d.process (c :: tail)).2) = _
        rw [processed]
        rfl
      rw [body]
      rfl

/-- The first call on a blank processor, with a head in it. -/
theorem processData_heading (blank : p.Blank) (h : Heading) {tail : Bytes}
    (created : newDataProcessor (fileFields p.headers h.fields) = .ok d)
    (processed : d.process tail = (.ok b, e)) (idle : tail = [] → e = d) :
    ∃ q : HttpResponseProcessor, q.statusCode = h.status ∧
      q.headers = fileFields p.headers h.fields ∧
      p.processData (h.bytes ++ tail) = (.ok e.isComplete, q.withData e) := by
  obtain ⟨headerStr, headers, statusCode, dataProcessor⟩ := p
  obtain ⟨rfl, rfl, rfl⟩ := blank
  have long : 3 < (h.bytes ++ tail).length := by
    rw [Heading.bytes, List.append_assoc, List.length_append, List.length_append]
    have four : headEnd.length = 4 := rfl
    omega
  have text : (h.bytes ++ tail).take h.text.length = h.text := by
    rw [Heading.bytes, List.append_assoc, List.take_left]
  have found := h.found tail
  rw [← Heading.bytes] at found
  obtain ⟨q, status, kept, answer⟩ := processLeftOver_withData (p := {
    headerStr := h.bytes ++ tail
    statusCode := h.status
    headers := fileFields headers h.fields }) h.text rfl processed idle
  refine ⟨q, status, kept, ?_⟩
  have consumed : consume { headers := headers } (h.bytes ++ tail) = (.ok (), q.withData e) := by
    rw [consume, if_pos rfl]
    simp only [List.nil_append, List.length_nil, Nat.zero_add]
    rw [if_pos long, if_pos (by omega : 0 < 3), findFrom_zero, found]
    simp only [processHead, text, h.parses, Result.andThen, createDataProcessor, created]
    exact answer
  rw [processData, consumed]
  rfl

end Calls

/-! ## Reading -/

/-- The processor has read the message. -/
structure HasRead (p : HttpResponseProcessor) (m : Message) : Prop where
  complete : p.complete = .ok true
  status : p.statusCode = m.status
  payload : ∃ d, p.dataProcessor = some d ∧ d.framing = m.framing ∧ d.body = m.body
  /-- A chunked message leaves no length behind. -/
  unsized : m.framing = .chunked → p.headers contentLength = none

/-- The processor reads the message in the segments that are left. -/
inductive Reading (m : Message) : HttpResponseProcessor → List Bytes → Prop
  | done {p : HttpResponseProcessor} (read : p.HasRead m) : Reading m p []
  | more {p next : HttpResponseProcessor} {b : Bool} {segment : Bytes} {left : List Bytes}
      (incomplete : p.complete = .ok false) (processed : p.processData segment = (.ok b, next))
      (rest : Reading m next left) : Reading m p (segment :: left)

section Compare

variable {p q : HttpResponseProcessor} {m n : Message}

theorem hasRead_withData {d : DataProcessor} (parsed : q.statusCode = m.status)
    (some_status : m.status ≠ -1) (complete : d.isComplete = true)
    (framing : d.framing = m.framing) (body : d.body = m.body)
    (unsized : m.framing = .chunked → q.headers contentLength = none) :
    (q.withData d).HasRead m where
  complete := by
    rw [complete_withData (parsed ▸ some_status), complete]
  status := parsed
  payload := ⟨d, rfl, framing, body⟩
  unsized := unsized

/-- Payloads of one framing are compared, when an `int` holds their lengths. -/
theorem exists_compare {d e : DataProcessor} (framings : d.framing = e.framing)
    (left : d.isComplete = true) (right : e.isComplete = true) (smallLeft : d.body.length < 2 ^ 31)
    (smallRight : e.body.length < 2 ^ 31) :
    ∃ r, d.compare e = .ok r ∧ (r = 0 ↔ ¬ d.framing.Differ d.body e.body) := by
  cases d with
  | contentLen c =>
      cases e with
      | chunked f => cases framings
      | contentLen f =>
          obtain ⟨r, result, same⟩ := payloadsDecide_contentLen left right
          exact ⟨r, result, same.trans not_not.symm⟩
  | chunked c =>
      cases e with
      | contentLen f => cases framings
      | chunked f =>
          have lengths : toInt32 (c.data.length - f.data.length) = 0 ↔
              c.data.length = f.data.length := by
            change c.data.length < _ at smallLeft
            change f.data.length < _ at smallRight
            rw [toInt32_sub_eq_zero_iff, Nat.mod_eq_of_lt (by omega), Nat.mod_eq_of_lt (by omega)]
          change ∃ r, (DataProcessor.chunked c).compare (.chunked f) = .ok r ∧
            (r = 0 ↔ ¬ (c.data.length ≠ f.data.length ∨ DifferBeforeNul c.data f.data))
          simp only [DataProcessor.compare, ne_eq, lengths, ite_not]
          by_cases sizes : c.data.length = f.data.length
          · obtain ⟨r, result⟩ := exists_strncmp sizes.le
            have differ := strncmp_ne_zero_iff (a := c.data) (b := f.data)
            simp only [result, Except.ok.injEq, exists_eq_left'] at differ
            rw [if_pos sizes, result, ← differ]
            exact ⟨r, rfl, by simp [sizes]⟩
          · rw [if_neg sizes]
            refine ⟨_, rfl, fun same => absurd (lengths.mp same) sizes, fun same => ?_⟩
            exact absurd (Or.inl sizes) same

theorem compare_of_framings {d e : DataProcessor} (framings : d.framing ≠ e.framing) :
    d.compare e =
      .error (.thrown (.runtimeError (ascii "response used different transfer encoding"))) := by
  cases d with
  | contentLen c =>
      cases e with
      | contentLen f => exact absurd rfl framings
      | chunked f => rfl
  | chunked c =>
      cases e with
      | contentLen f => rfl
      | chunked f => exact absurd rfl framings

/-- The exception on other framings. -/
def mismatch : Fault :=
  .thrown (.runtimeError (ascii "response used different transfer encoding"))

/-- Two messages that have been read are compared, unless they clash. -/
theorem HasRead.compare (left : p.HasRead m) (right : q.HasRead n) :
    m.Clashes n ∧ p.compare q = .error mismatch ∨
      ¬ m.Clashes n ∧ ∃ r, p.compare q = .ok r ∧ (r = 0 ↔ ¬ m.Differs n) := by
  obtain ⟨d, thereLeft, framingLeft, bodyLeft⟩ := left.payload
  obtain ⟨e, thereRight, framingRight, bodyRight⟩ := right.payload
  obtain ⟨_, some_left, doneLeft⟩ := exists_dataProcessor_of_complete left.complete
  obtain ⟨_, some_right, doneRight⟩ := exists_dataProcessor_of_complete right.complete
  rw [thereLeft, Option.some.injEq] at some_left
  rw [thereRight, Option.some.injEq] at some_right
  subst some_left some_right
  have smallLeft := m.small
  have smallRight := n.small
  rw [compare_of_complete left.complete right.complete thereLeft thereRight, left.status,
    right.status, Message.Clashes, Message.Differs]
  rw [← bodyLeft] at smallLeft ⊢
  rw [← bodyRight] at smallRight ⊢
  rw [← framingLeft, ← framingRight]
  by_cases status : m.status = n.status
  · rw [if_pos status]
    by_cases framings : d.framing = e.framing
    · obtain ⟨r, result, same⟩ := exists_compare framings doneLeft doneRight smallLeft smallRight
      refine Or.inr ⟨fun clash => clash.2 framings, r, result, ?_⟩
      rw [same, or_iff_right (not_not.mpr status)]
    · exact Or.inl ⟨⟨status, framings⟩, compare_of_framings framings⟩
  · rw [if_neg status]
    refine Or.inr ⟨fun clash => status clash.1, _, rfl, ?_⟩
    exact iff_of_false (toInt_sub_ne_zero status) (not_not.mpr (Or.inl status))

end Compare

end HttpResponseProcessor

end PacketReplay
