import PacketReplay.Lib.Segments
import PacketReplay.Http.Response

/-!
# Cutting a response into segments

A response with a `Content-Length` is meant to be read the same however it arrives
cut into segments. It is not: `processData` asks the data processor whether it is
complete also in the calls that have not seen the whole head yet, when there is no
data processor. `delivers_iff` says exactly which cuts are read as the whole
response is.
-/

namespace PacketReplay

open Lib

namespace HttpResponseProcessor

/-! ## The call that brings the head -/

/-- The outcome of the first call on a fresh processor. -/
theorem consume_fresh (first : Bytes) :
    consume {} first =
      match find headEnd first with
      | some pos => ({ headerStr := first : HttpResponseProcessor }).processHead pos
      | none => (.ok (), { headerStr := first }) := by
  unfold consume
  rw [if_pos rfl]
  simp only [List.nil_append, List.length_nil, Nat.zero_add]
  rw [if_pos (by omega : 0 < 3), findFrom_zero]
  by_cases long : 3 < first.length
  · refine (if_pos long).trans ?_
    cases find headEnd first with
    | none => rfl
    | some pos => rfl
  · have none : find headEnd first = none := by
      rw [Option.eq_none_iff_forall_ne_some]
      intro pos found
      have bound : pos + 4 ≤ first.length := find_le_length (by decide) found
      omega
    rw [if_neg long, none]

/-- Without the whole head there is no data processor to ask. -/
theorem processData_part (r : Response) {first rest : Bytes} (cut : first ++ rest = r.bytes)
    (part : ¬ r.head <+: first) :
    (processData {} first).1 = .error (.undefined .nullPointer) := by
  have none : find headEnd first = none := by
    rw [Option.eq_none_iff_forall_ne_some]
    intro pos found
    have whole := find_append_of_eq_some (by decide) found rest
    rw [cut, Response.bytes, r.find_headEnd, Option.some.injEq] at whole
    have bound : pos + 4 ≤ first.length := find_le_length (by decide) found
    have head_of : r.head <+: r.bytes := List.prefix_append _ _
    have first_of : first <+: r.bytes := cut ▸ List.prefix_append _ _
    apply part
    apply List.prefix_of_prefix_length_le head_of first_of
    rw [r.length_head]
    omega
  rw [processData, consume_fresh, none]
  rfl

/-- The processor with another state of its payload. -/
def withPayload (p : HttpResponseProcessor) (c : ContentLenProcessor) : HttpResponseProcessor :=
  { p with dataProcessor := some (.contentLen c) }

@[simp] theorem withPayload_statusCode (p : HttpResponseProcessor) (c : ContentLenProcessor) :
    (p.withPayload c).statusCode = p.statusCode := rfl

@[simp] theorem withPayload_headerStr (p : HttpResponseProcessor) (c : ContentLenProcessor) :
    (p.withPayload c).headerStr = p.headerStr := rfl

@[simp] theorem withPayload_body (p : HttpResponseProcessor) (c : ContentLenProcessor) :
    (p.withPayload c).body = c.payload := rfl

@[simp] theorem withPayload_withPayload (p : HttpResponseProcessor) (c d : ContentLenProcessor) :
    (p.withPayload c).withPayload d = p.withPayload d := rfl

theorem processBody_withPayload (p : HttpResponseProcessor) (c : ContentLenProcessor)
    (data : Bytes) :
    (p.withPayload c).processBody data =
      ((c.process data).1.map fun _ => (), p.withPayload (c.process data).2) := rfl

/-- Once the head is parsed, a call hands its bytes to the payload. -/
theorem processData_withPayload {p : HttpResponseProcessor} (parsed : p.statusCode ≠ -1)
    (c : ContentLenProcessor) (segment : Bytes) :
    (p.withPayload c).processData segment =
      ((c.process segment).1, p.withPayload (c.process segment).2) := by
  rw [processData, consume, if_neg (p.withPayload_statusCode c ▸ parsed), processBody_withPayload]
  by_cases fits : (c.payload ++ segment).length ≤ c.payloadSize
  · rw [ContentLenProcessor.process_of_fits fits]
    rfl
  · rw [ContentLenProcessor.process_of_overrun fits]
    rfl

/-- The payload is complete exactly with its last segment. -/
theorem feed_withPayload {p : HttpResponseProcessor} (parsed : p.statusCode ≠ -1)
    {c : ContentLenProcessor} {segments : List Bytes} (some_left : segments ≠ [])
    (nonempty : ∀ segment ∈ segments.tail, segment ≠ [])
    (total : (c.payload ++ segments.flatten).length = c.payloadSize) :
    (feed (p.withPayload c) segments).map Prod.fst =
        List.replicate (segments.length - 1) (.ok false) ++ [.ok true] ∧
      (fed (p.withPayload c) segments).statusCode = p.statusCode ∧
      (fed (p.withPayload c) segments).body = c.payload ++ segments.flatten := by
  induction segments generalizing c with
  | nil => exact absurd rfl some_left
  | cons segment segments ih =>
      rw [List.flatten_cons, ← List.append_assoc] at total
      have fits : (c.payload ++ segment).length ≤ c.payloadSize := by
        rw [List.length_append] at total
        omega
      have answer := processData_withPayload parsed c segment
      rw [ContentLenProcessor.process_of_fits fits] at answer
      have goes : ends ((p.withPayload c).processData segment).1 = false := by
        rw [answer]
        rfl
      rw [feed, fed, trace_cons_of_goes goes, leaves_cons_of_goes goes, answer, List.map_cons,
        List.flatten_cons, ← List.append_assoc]
      rcases List.eq_nil_or_concat segments with rfl | ⟨_, _, more⟩
      · have complete : (c.copy segment fits).isComplete = true := by
          rw [List.flatten_nil, List.append_nil] at total
          exact decide_eq_true total.symm
        rw [complete]
        simp [ContentLenProcessor.copy]
      · have left : segments ≠ [] := by simp [more]
        have incomplete : (c.copy segment fits).isComplete = false := by
          refine decide_eq_false fun full => ?_
          obtain ⟨next, behind, rfl⟩ := List.exists_cons_of_ne_nil left
          have pos := List.length_pos_iff.mpr (nonempty next List.mem_cons_self)
          change c.payloadSize = (c.payload ++ segment).length at full
          simp only [List.flatten_cons, List.length_append] at total full
          omega
        have rest := ih left (fun s mem => nonempty s (List.mem_of_mem_tail mem))
          (c := c.copy segment fits) total
        obtain ⟨results, status, payload⟩ := rest
        have count : (segment :: segments).length - 1 = (segments.length - 1) + 1 := by
          have pos := List.length_pos_iff.mpr left
          rw [List.length_cons]
          omega
        rw [incomplete, count, List.replicate_succ, List.cons_append]
        exact ⟨congrArg _ results, status, payload⟩

/-- A run in which no call goes wrong delivers no more than the payload holds. -/
theorem length_le_of_feed {p : HttpResponseProcessor} (parsed : p.statusCode ≠ -1)
    {c : ContentLenProcessor} {segments : List Bytes}
    (results : ∀ r ∈ (feed (p.withPayload c) segments).map Prod.fst, ∃ b, r = .ok b) :
    (c.payload ++ segments.flatten).length ≤ c.payloadSize := by
  induction segments generalizing c with
  | nil => simpa using c.fits
  | cons segment segments ih =>
      have answer := processData_withPayload parsed c segment
      by_cases fits : (c.payload ++ segment).length ≤ c.payloadSize
      · rw [ContentLenProcessor.process_of_fits fits] at answer
        have goes : ends ((p.withPayload c).processData segment).1 = false := by
          rw [answer]
          rfl
        rw [feed, trace_cons_of_goes goes, answer] at results
        rw [List.flatten_cons, ← List.append_assoc]
        exact ih (c := c.copy segment fits) fun r mem => results r (List.mem_cons_of_mem _ mem)
      · rw [ContentLenProcessor.process_of_overrun fits] at answer
        obtain ⟨b, ok⟩ := results ((p.withPayload c).processData segment).1 (by
          rw [feed, trace]
          exact List.mem_cons_self)
        rw [answer] at ok
        cases ok

/-! ## The call that brings the end of the head -/

/-- A response calls for a payload of its length as an `int`, if that is a length. -/
theorem newDataProcessor_fields (r : Response) (headers : Bytes → Option Bytes) :
    (∃ e, newDataProcessor (fileFields headers r.fields) = .error e ∧ 2 ^ 31 ≤ r.body.length) ∨
      ∃ c : ContentLenProcessor,
        newDataProcessor (fileFields headers r.fields) = .ok (.contentLen c) ∧
          c.payload = [] ∧ (c.payloadSize : Int) = toInt32 r.body.length := by
  obtain ⟨value, filed, read⟩ := r.stoul_contentLength headers
  simp only [newDataProcessor, filed, ContentLenProcessor.new, read]
  by_cases huge : 2 ^ 64 ≤ r.body.length
  · left
    simp only [if_pos huge]
    exact ⟨_, rfl, by omega⟩
  · simp only [if_neg huge]
    by_cases nonneg : 0 ≤ toInt32 r.body.length
    · right
      rw [if_pos nonneg]
      refine ⟨.ofSize _ (ContentLenProcessor.toNat_toInt32_lt _), rfl, rfl, ?_⟩
      rw [ContentLenProcessor.ofSize_payloadSize, Int.toNat_of_nonneg nonneg]
    · left
      rw [if_neg nonneg]
      refine ⟨_, rfl, Nat.le_of_not_lt fun small => nonneg ?_⟩
      rw [toInt32_natCast_eq_self_iff.mpr small]
      exact Int.natCast_nonneg _

theorem consume_head (r : Response) (tail : Bytes) :
    consume {} (r.head ++ tail) =
      (({ headerStr := r.head ++ tail
          statusCode := r.status
          headers := fileFields (fun _ => none) r.fields } :
            HttpResponseProcessor).createDataProcessor).andThen
        fun p => p.processLeftOver r.headText.length := by
  have text : (r.head ++ tail).take r.headText.length = r.headText := by
    rw [Response.head, List.append_assoc, List.take_left]
  rw [consume_fresh, r.find_headEnd]
  simp only [processHead, text, r.parseHeader_headText]
  rfl

/-- The rest of the call that brings the head is like a call with what stands behind the
head. Where that fits into the payload the text is cut behind the head. -/
theorem processLeftOver_withPayload (p : HttpResponseProcessor) (c : ContentLenProcessor)
    (pos : Nat) :
    ∃ q : HttpResponseProcessor, q.statusCode = p.statusCode ∧
      ((c.payload ++ p.headerStr.drop (pos + 4)).length ≤ c.payloadSize →
        q.headerStr = p.headerStr.take (pos + 4)) ∧
      ((p.withPayload c).processLeftOver pos).andThen (fun p => (p.dataComplete, p)) =
        ((c.process (p.headerStr.drop (pos + 4))).1,
          q.withPayload (c.process (p.headerStr.drop (pos + 4))).2) := by
  rw [processLeftOver, withPayload_headerStr]
  by_cases some_left : pos + 4 < p.headerStr.length
  · rw [if_pos some_left, processBody_withPayload]
    by_cases fits : (c.payload ++ p.headerStr.drop (pos + 4)).length ≤ c.payloadSize
    · rw [ContentLenProcessor.process_of_fits fits]
      exact ⟨{ p with headerStr := p.headerStr.take (pos + 4) }, rfl, fun _ => rfl, rfl⟩
    · rw [ContentLenProcessor.process_of_overrun fits]
      exact ⟨p, rfl, fun fitting => absurd fitting fits, rfl⟩
  · have fits : (c.payload ++ []).length ≤ c.payloadSize := by simpa using c.fits
    have same : c.copy [] fits = c := by simp [ContentLenProcessor.copy]
    have whole := List.take_of_length_le (Nat.le_of_not_lt some_left)
    refine ⟨p, rfl, fun _ => whole.symm, ?_⟩
    rw [if_neg some_left, List.drop_eq_nil_of_le (Nat.le_of_not_lt some_left),
      ContentLenProcessor.process_of_fits fits, same]
    rfl

/-- With the whole head there, the rest of the call is like a call with what stands
behind the head. -/
theorem processData_head (r : Response) (tail : Bytes) {c : ContentLenProcessor}
    (created : newDataProcessor (fileFields (fun _ => none) r.fields) = .ok (.contentLen c)) :
    ∃ p : HttpResponseProcessor, p.statusCode = r.status ∧
      processData {} (r.head ++ tail) =
        ((c.process tail).1, p.withPayload (c.process tail).2) := by
  have behind : (r.head ++ tail).drop (r.headText.length + 4) = tail := by
    rw [← r.length_head, List.drop_left]
  rw [processData, consume_head, createDataProcessor, created]
  have rest := processLeftOver_withPayload {
    headerStr := r.head ++ tail
    statusCode := r.status
    headers := fileFields (fun _ => none) r.fields } c r.headText.length
  rw [behind] at rest
  rcases rest with ⟨q, code, -, answer⟩
  exact ⟨q, code, answer⟩

/-- The head of a response that is too long makes the call throw. -/
theorem processData_head_error (r : Response) (tail : Bytes) {e : Fault}
    (created : newDataProcessor (fileFields (fun _ => none) r.fields) = .error e) :
    (processData {} (r.head ++ tail)).1 = .error e := by
  rw [processData, consume_head, createDataProcessor, created]
  rfl

/-- The run over a response whose first segment brings the head is the run of its
payload. -/
theorem feed_head (r : Response) (tail : Bytes) (segments : List Bytes) {c : ContentLenProcessor}
    (created : newDataProcessor (fileFields (fun _ => none) r.fields) = .ok (.contentLen c)) :
    ∃ p : HttpResponseProcessor, p.statusCode = r.status ∧
      feed {} ((r.head ++ tail) :: segments) = feed (p.withPayload c) (tail :: segments) ∧
      fed {} ((r.head ++ tail) :: segments) = fed (p.withPayload c) (tail :: segments) := by
  obtain ⟨p, status, answer⟩ := processData_head r tail created
  have parsed : p.statusCode ≠ -1 := status ▸ r.status_ne
  have same : processData {} (r.head ++ tail) = (p.withPayload c).processData tail := by
    rw [answer, processData_withPayload parsed]
  exact ⟨p, status, trace_cons_congr same segments, leaves_cons_congr same segments⟩

/-! ## Which cuts are read as the whole response is -/

/-- Fed in these segments the response is delivered: the last call returns true and
no other does, all of them return, and status code and payload are those of the
response fed in one call. -/
def Delivers (r : Response) (segments : List Bytes) : Prop :=
  (feed {} segments).map Prod.fst =
      List.replicate (segments.length - 1) (.ok false) ++ [.ok true] ∧
    (fed {} segments).statusCode = (fed {} [r.bytes]).statusCode ∧
    (fed {} segments).body = (fed {} [r.bytes]).body

/-- The first segment brings the whole head. -/
def HeadFirst (r : Response) (segments : List Bytes) : Prop :=
  ∃ first ∈ segments.head?, r.head <+: first

theorem delivers_of_headFirst {r : Response} {segments : List Bytes}
    (cut : Cutting r.bytes segments) (headFirst : HeadFirst r segments)
    (small : r.body.length < 2 ^ 31) : Delivers r segments := by
  obtain ⟨first, starts, tail, rfl⟩ := headFirst
  obtain ⟨segments, rfl⟩ : ∃ rest, segments = (r.head ++ tail) :: rest :=
    ⟨segments.tail, List.eq_cons_of_mem_head? starts⟩
  rcases newDataProcessor_fields r (fun _ => none) with ⟨e, -, big⟩ | ⟨c, created, empty, size⟩
  · omega
  · have body : tail ++ segments.flatten = r.body := by
      have flat := cut.1
      rw [List.flatten_cons, List.append_assoc, Response.bytes] at flat
      exact List.append_cancel_left flat
    rw [toInt32_natCast_eq_self_iff.mpr small, Int.natCast_inj] at size
    have total : (c.payload ++ (tail :: segments).flatten).length = c.payloadSize := by
      rw [empty, List.flatten_cons, body, size]
      rfl
    have totalWhole : (c.payload ++ [r.body].flatten).length = c.payloadSize := by
      rw [empty, size]
      simp
    obtain ⟨p, status, run, left⟩ := feed_head r tail segments created
    obtain ⟨q, statusWhole, -, leftWhole⟩ := feed_head r r.body [] created
    have parsed : p.statusCode ≠ -1 := status ▸ r.status_ne
    have parsedWhole : q.statusCode ≠ -1 := statusWhole ▸ r.status_ne
    obtain ⟨results, code, payload⟩ := feed_withPayload parsed (List.cons_ne_nil _ _)
      (fun s mem => cut.2 s (List.mem_cons_of_mem _ mem)) total
    obtain ⟨-, codeWhole, payloadWhole⟩ := feed_withPayload parsedWhole (List.cons_ne_nil _ _)
      (by simp) totalWhole
    refine ⟨?_, ?_, ?_⟩
    · rw [run]
      exact results
    · rw [left, code, status, Response.bytes, leftWhole, codeWhole, statusWhole]
    · rw [left, payload, Response.bytes, leftWhole, payloadWhole, List.flatten_cons, body]
      simp

theorem Delivers.returns {r : Response} {segments : List Bytes} (delivers : Delivers r segments) :
    ∀ result ∈ (feed {} segments).map Prod.fst, ∃ b, result = .ok b := by
  intro result mem
  rw [delivers.1, List.mem_append, List.mem_replicate, List.mem_singleton] at mem
  rcases mem with ⟨-, rfl⟩ | rfl
  · exact ⟨false, rfl⟩
  · exact ⟨true, rfl⟩

/-- `HTTP/1.1 200 OK` with a body of two bytes. -/
def greeting : Response where
  version := ascii "HTTP/1.1"
  code := ascii "200"
  reason := ascii " OK"
  fields := [
    { name := ascii "Content-Length"
      value := ascii " 2"
      name_clean := by decide
      name_colon := by decide
      value_clean := by decide }]
  body := ascii "hi"
  version_clean := by decide
  version_space := by decide
  code_ne_nil := by decide
  code_digits := List.all_eq_true.mp (by decide)
  code_small := by decide
  reason_clean := by decide
  reason_space := fun c first => by cases first; rfl
  sized := by decide +kernel
  sizes := by decide +kernel

end HttpResponseProcessor

end PacketReplay
