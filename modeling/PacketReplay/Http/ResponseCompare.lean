import PacketReplay.Http.ResponseReset

/-!
# Comparing two responses

`compare` is meant to return 0 exactly on equal status codes and equal bodies. It
does for responses with a length. Two chunked bodies of one size are compared as C
strings, so a difference behind a NUL byte goes unseen; `compare_decides_iff` says
exactly which pairs are told apart as they should be.
-/

namespace PacketReplay

open Lib

namespace HttpResponseProcessor

/-- `compare` returns, and 0 exactly on equal status codes and equal bodies. -/
def Decides (p q : HttpResponseProcessor) : Prop :=
  ∃ r, p.compare q = .ok r ∧ (r = 0 ↔ p.statusCode = q.statusCode ∧ p.body = q.body)

/-- The payload of a complete processor. -/
theorem exists_dataProcessor_of_complete {p : HttpResponseProcessor}
    (complete : p.complete = .ok true) : ∃ d, p.dataProcessor = some d ∧ d.isComplete = true := by
  unfold HttpResponseProcessor.complete dataComplete at complete
  split at complete
  · cases framed : p.dataProcessor with
    | none =>
        rw [framed] at complete
        cases complete
    | some d =>
        rw [framed] at complete
        exact ⟨d, rfl, Except.ok.inj complete⟩
  · cases complete

theorem compare_of_complete {p q : HttpResponseProcessor} {d e : DataProcessor}
    (left : p.complete = .ok true) (right : q.complete = .ok true)
    (framedLeft : p.dataProcessor = some d) (framedRight : q.dataProcessor = some e) :
    p.compare q =
      if p.statusCode = q.statusCode then d.compare e
      else .ok (p.statusCode - q.statusCode).toInt := by
  have zero : p.statusCode - q.statusCode = 0 ↔ p.statusCode = q.statusCode := by
    rw [Int32.sub_eq_iff_eq_add, Int32.zero_add]
  unfold HttpResponseProcessor.compare
  simp only [left, right, framedLeft, framedRight, ne_eq, zero, ite_not]

theorem toInt_sub_ne_zero {a b : Int32} (differ : a ≠ b) : (a - b).toInt ≠ 0 := by
  intro zero
  have same : a - b = 0 := Int32.toInt_inj.mp zero
  rw [Int32.sub_eq_iff_eq_add, Int32.zero_add] at same
  exact differ same

/-- Whether the payloads settle the comparison of equal status codes. -/
def PayloadsDecide (d e : DataProcessor) : Prop :=
  ∃ r, d.compare e = .ok r ∧ (r = 0 ↔ d.body = e.body)

theorem decides_iff {p q : HttpResponseProcessor} {d e : DataProcessor}
    (left : p.complete = .ok true) (right : q.complete = .ok true)
    (framedLeft : p.dataProcessor = some d) (framedRight : q.dataProcessor = some e) :
    Decides p q ↔ p.statusCode ≠ q.statusCode ∨ PayloadsDecide d e := by
  have bodies : p.body = d.body ∧ q.body = e.body := by
    simp [HttpResponseProcessor.body, framedLeft, framedRight]
  unfold Decides PayloadsDecide
  rw [compare_of_complete left right framedLeft framedRight, bodies.1, bodies.2]
  by_cases status : p.statusCode = q.statusCode
  · simp [status]
  · rw [if_neg status]
    have nonzero := toInt_sub_ne_zero status
    simp only [Except.ok.injEq, exists_eq_left', nonzero, status, false_and, ne_eq,
      not_false_eq_true, true_or]

/-- Complete payloads of a given length are compared byte by byte. -/
theorem payloadsDecide_contentLen {c d : ContentLenProcessor} (left : c.isComplete = true)
    (right : d.isComplete = true) : PayloadsDecide (.contentLen c) (.contentLen d) := by
  have sizeLeft : c.payloadSize = c.payload.length := of_decide_eq_true left
  have sizeRight : d.payloadSize = d.payload.length := of_decide_eq_true right
  unfold PayloadsDecide
  simp only [DataProcessor.compare, DataProcessor.body]
  by_cases sizes : d.payloadSize = c.payloadSize
  · have inLeft : c.payloadSize ≤ c.payload.length := sizeLeft.le
    have inRight : c.payloadSize ≤ d.payload.length := by omega
    obtain ⟨r, result⟩ := exists_memcmp inLeft inRight
    have zero := memcmp_eq_zero_iff inLeft inRight
    rw [result, Except.ok.injEq, List.take_of_length_le sizeLeft.ge,
      List.take_of_length_le (by omega)] at zero
    rw [if_neg (not_not.mpr sizes)]
    exact ⟨r, result, zero⟩
  · rw [if_pos sizes]
    refine ⟨_, rfl, fun same => absurd same (by omega), fun same => ?_⟩
    rw [same] at sizeLeft
    omega

/-- What tells two different chunked bodies apart. -/
def ToldApart (a b : Bytes) : Prop :=
  a.length % 2 ^ 32 ≠ b.length % 2 ^ 32 ∨ DifferBeforeNul a b

instance (a b : Bytes) : Decidable (ToldApart a b) := inferInstanceAs (Decidable (_ ∨ _))

theorem payloadsDecide_chunked_iff {c d : ChunkedProcessor} :
    PayloadsDecide (.chunked c) (.chunked d) ↔ c.data = d.data ∨ ToldApart c.data d.data := by
  unfold PayloadsDecide ToldApart
  simp only [DataProcessor.compare, DataProcessor.body, ne_eq, toInt32_sub_eq_zero_iff, ite_not]
  by_cases same : c.data = d.data
  · simp [same, strncmp_self]
  · by_cases sizes : c.data.length % 2 ^ 32 = d.data.length % 2 ^ 32
    · rw [if_pos sizes, ← strncmp_ne_zero_iff]
      simp only [same, sizes, iff_false, not_true_eq_false, false_or, ne_eq]
    · rw [if_neg sizes]
      have nonzero : toInt32 (c.data.length - d.data.length) ≠ 0 :=
        mt toInt32_sub_eq_zero_iff.mp sizes
      simp only [Except.ok.injEq, exists_eq_left', nonzero, same, sizes, not_false_eq_true,
        true_or, or_true]

/-- The framing of the payload, if it has been chosen. -/
def framing (p : HttpResponseProcessor) : Option Framing :=
  p.dataProcessor.map DataProcessor.framing

/-- Two complete processors of one framing are compared as they should be exactly
when they are not chunked, have different status codes or the same body, or have
bodies that are told apart. -/
theorem compare_decides_iff (p q : HttpResponseProcessor) (left : p.complete = .ok true)
    (right : q.complete = .ok true) (framings : p.framing = q.framing) :
    Decides p q ↔
      p.framing = some .contentLen ∨ p.statusCode ≠ q.statusCode ∨ p.body = q.body ∨
        ToldApart p.body q.body := by
  obtain ⟨d, framedLeft, doneLeft⟩ := exists_dataProcessor_of_complete left
  obtain ⟨e, framedRight, doneRight⟩ := exists_dataProcessor_of_complete right
  unfold framing at framings
  rw [decides_iff left right framedLeft framedRight, framing, body, body, framedLeft, framedRight]
  rw [framedLeft, framedRight] at framings
  cases d with
  | contentLen c =>
      cases e with
      | contentLen f =>
          have decided := payloadsDecide_contentLen doneLeft doneRight
          simp [decided, DataProcessor.framing]
      | chunked f => cases framings
  | chunked c =>
      cases e with
      | contentLen f => cases framings
      | chunked f =>
          rw [payloadsDecide_chunked_iff]
          simp [DataProcessor.framing, DataProcessor.body]

/-- A chunked response with the given chunks, in one call. -/
def chunkedResponse (chunks : String) : HttpResponseProcessor :=
  after [.processData (chunkedHead ++ ascii chunks)]

/-- Bodies that differ in their last byte, in other chunks. -/
theorem compare_decides_iff_hello :
    Decides (chunkedResponse "5\r\nhello\r\n0\r\n\r\n")
      (chunkedResponse "2\r\nhe\r\n3\r\nllx\r\n0\r\n\r\n") :=
  (compare_decides_iff _ _ (by decide +kernel) (by decide +kernel) (by decide +kernel)).mpr
    (by decide +kernel)

/-- Bodies that differ behind a NUL byte compare equal. -/
theorem not_decides_nul :
    ¬ ∀ p q : HttpResponseProcessor, p.complete = .ok true → q.complete = .ok true →
      p.framing = q.framing → Decides p q := by
  intro decides
  obtain ⟨r, result, zero⟩ := decides (chunkedResponse "3\r\na\x00b\r\n0\r\n\r\n")
    (chunkedResponse "3\r\na\x00c\r\n0\r\n\r\n") (by decide +kernel) (by decide +kernel)
    (by decide +kernel)
  have equal : (chunkedResponse "3\r\na\x00b\r\n0\r\n\r\n").compare
      (chunkedResponse "3\r\na\x00c\r\n0\r\n\r\n") = .ok 0 := by
    decide +kernel
  rw [result, Except.ok.injEq] at equal
  have bodies := (zero.mp equal).2
  revert bodies
  decide +kernel

end HttpResponseProcessor

end PacketReplay
