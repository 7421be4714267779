import PacketReplay.Http.ChunkedEncoding
import PacketReplay.Http.ChunkedSegments
import PacketReplay.Http.Message

/-!
# Responses that are delivered

Responses of both framings with the segments that they come in, the head in the first. One
with a length is read in whatever segments. A chunked one is when every call resumes behind
its size lines, unless a length has been left behind in the headers (`Delivery.reading`).
-/

namespace PacketReplay

open Lib
open HttpResponseProcessor (contentLength transferEncoding HeadFirst)

/-! ## Chunks byte by byte -/

namespace ChunkDecoder

variable {d e : ChunkDecoder} {text body : Bytes}

theorem complete_of_step {c : UInt8} (goes : step d c = .more e) : e.complete = d.complete := by
  rw [step] at goes
  cases phase : d.phase with
  | sizeLine line =>
      simp only [phase, readLine] at goes
      split_ifs at goes <;> (injection goes with same; exact same ▸ rfl)
  | chunkData size read =>
      simp only [phase] at goes
      split_ifs at goes <;> (injection goes with same; exact same ▸ rfl)
  | lineFeed size =>
      simp only [phase] at goes
      split_ifs at goes
      injection goes with same
      exact same ▸ rfl
  | stuck =>
      simp only [phase] at goes
      injection goes with same
      exact same ▸ rfl

theorem complete_of_drive (goes : drive step d text = .more e) : e.complete = d.complete := by
  induction text generalizing d with
  | nil =>
      cases goes
      rfl
  | cons c text ih =>
      rw [drive_cons] at goes
      cases first : step d c with
      | more next =>
          rw [first] at goes
          exact (ih goes).trans (complete_of_step first)
      | halt r =>
          rw [first] at goes
          cases goes

/-- The decoder ends with the text and not before. -/
structure Awaits (d : ChunkDecoder) (text body : Bytes) : Prop where
  ends : drive step d text = .halt ⟨true, body, false⟩
  goes : ∀ a b, text = a ++ b → b ≠ [] → ∃ e, drive step d a = .more e ∧ e.complete = false

theorem Awaits.drop {a b : Bytes} (awaits : Awaits d (a ++ b) body) (left : b ≠ []) :
    ∃ e, drive step d a = .more e ∧ e.complete = false ∧ Awaits e b body := by
  obtain ⟨e, driven, incomplete⟩ := awaits.goes a b rfl left
  have ends := awaits.ends
  rw [drive_append, driven] at ends
  refine ⟨e, driven, incomplete, ends, fun a' b' same more => ?_⟩
  obtain ⟨f, goes, further⟩ := awaits.goes (a ++ a') b' (by rw [same, List.append_assoc]) more
  rw [drive_append, driven] at goes
  exact ⟨f, goes, further⟩

/-- A text without its last byte is taken without an end. -/
theorem awaits_of_last {c : UInt8} (goes : drive step d text = .more e)
    (incomplete : d.complete = false) (ends : step e c = .halt ⟨true, body, false⟩) :
    Awaits d (text ++ [c]) body where
  ends := by
    rw [drive_append, goes]
    change (step e c).bind _ = _
    rw [ends]
    rfl
  goes a b same left := by
    obtain ⟨init, last, rfl⟩ := (List.eq_nil_or_concat' _).resolve_left left
    rw [← List.append_assoc] at same
    obtain ⟨rfl, -⟩ := List.append_inj' same rfl
    rw [drive_append] at goes
    cases first : drive step d a with
    | halt r =>
        rw [first] at goes
        cases goes
    | more f => exact ⟨f, rfl, (complete_of_drive first).trans incomplete⟩

/-- The line of a numeral. -/
theorem drive_numeral {numeral : Bytes} {n : Nat} (some : numeral ≠ [])
    (digits : ∀ c ∈ numeral, isdigit 16 c = true) (value : digitsValue 16 numeral = n)
    (small : n < 2 ^ 31) (fits : numeral.length + 2 ≤ tmpSiz) (data : Bytes) :
    drive step ⟨.sizeLine [], data, false⟩ (numeral ++ crlf) =
      .more ⟨.chunkData n 0, data, false⟩ := by
  have found := ChunkedProcessor.lineEnd_of_digits digits []
  rw [List.append_nil] at found
  have length : (numeral ++ crlf).length = numeral.length + 2 := List.length_append
  have below : ¬ 2 ^ 64 ≤ digitsValue 16 numeral := by omega
  have number := strtoul_hex (c := cr) some digits (by decide) (by decide) [lf]
  rw [if_neg below, value] at number
  have text : cstr (numeral ++ crlf) = numeral ++ cr :: [lf] :=
    cstr_eq_self (ChunkedProcessor.clean_of_digits digits)
  have line : drive step ⟨.sizeLine [], data, false⟩ (numeral ++ crlf) =
      readLine ⟨.sizeLine [], data, false⟩ ([] ++ (numeral ++ crlf)) :=
    drive_sizeLine_end (d := ⟨.sizeLine [], data, false⟩) found length (length.trans_le fits)
      (List.append_ne_nil_of_left_ne_nil some _)
  refine line.trans ?_
  have size : toInt32 (n : Nat) = n := toInt32_natCast_eq_self_iff.mpr small
  rw [readLine, List.nil_append, text, number]
  dsimp only
  rw [if_neg (mt List.length_eq_zero_iff.mp some), size, sizeRead,
    if_neg (not_lt.mpr (Int.natCast_nonneg n))]

theorem drive_chunk (c : HexChunk) (data : Bytes) :
    drive step ⟨.sizeLine [], data, false⟩ c.encode =
      .more ⟨.sizeLine [], data ++ c.bytes, false⟩ := by
  have some : c.numeral ≠ [] := by
    intro empty
    obtain ⟨d, first, -⟩ := c.leading
    rw [empty] at first
    cases first
  have fits : c.numeral.length + 2 ≤ tmpSiz := by
    have short := c.length_numeral_le
    have room : tmpSiz = 1024 := rfl
    omega
  have bytes : drive step ⟨.chunkData c.bytes.length 0, data, false⟩ c.bytes =
      .more ⟨.chunkData c.bytes.length (0 + c.bytes.length), data ++ c.bytes, false⟩ :=
    drive_chunkData (d := ⟨.chunkData c.bytes.length 0, data, false⟩) (by omega)
  rw [HexChunk.encode, ← List.append_assoc, drive_append,
    drive_numeral some c.digits c.sized c.small fits, Verdict.bind_more, drive_append, bytes]
  simp [step, crlf, c.some]

theorem drive_chunks (cs : List HexChunk) (data : Bytes) :
    drive step ⟨.sizeLine [], data, false⟩ (cs.map HexChunk.encode).flatten =
      .more ⟨.sizeLine [], data ++ (cs.map HexChunk.bytes).flatten, false⟩ := by
  induction cs generalizing data with
  | nil => simp
  | cons c cs ih =>
      rw [List.map_cons, List.flatten_cons, drive_append, drive_chunk, Verdict.bind_more, ih,
        List.map_cons, List.flatten_cons, List.append_assoc]

/-- An encoding is decoded with its last byte. -/
theorem awaits_encodeAll (cs : List HexChunk) :
    Awaits ⟨.sizeLine [], [], false⟩ (HexChunk.encodeAll cs)
      (cs.map HexChunk.bytes).flatten := by
  have text : HexChunk.encodeAll cs =
      (cs.map HexChunk.encode).flatten ++ ((ascii "0" ++ crlf) ++ [cr]) ++ [lf] := by
    rw [HexChunk.encodeAll, List.append_assoc, List.append_assoc, List.append_assoc]
    rfl
  rw [text]
  refine awaits_of_last (e := ⟨.lineFeed 0, (cs.map HexChunk.bytes).flatten, false⟩) ?_ rfl rfl
  rw [drive_append, drive_chunks, Verdict.bind_more, drive_append,
    drive_numeral (n := 0) (by decide) (List.all_eq_true.mp (by decide)) (by decide) (by decide)
      (by decide)]
  rfl

end ChunkDecoder

/-! ## Chunks in segments -/

namespace ChunkedProcessor

open ChunkDecoder (Awaits)

/-- The processor decodes a body in the segments that are left. -/
inductive Decoding (body : Bytes) : ChunkedProcessor → List Bytes → Prop
  | done {p : ChunkedProcessor} (complete : p.complete = true) (data : p.data = body) :
      Decoding body p []
  | more {p : ChunkedProcessor} {segment : Bytes} {left : List Bytes} (sound : Sound p)
      (incomplete : p.complete = false) (resumes : Along call CallResumes p (segment :: left))
      (awaits : Awaits p.decoder (segment :: left).flatten body) :
      Decoding body p (segment :: left)

variable {p : ChunkedProcessor} {segment body : Bytes} {left : List Bytes}

theorem Decoding.process (decoding : Decoding body p (segment :: left))
    (nonempty : ∀ segment ∈ left, segment ≠ []) :
    ∃ b next, p.process segment = (.ok b, next) ∧ Decoding body next left := by
  cases decoding with
  | more sound incomplete resumes awaits =>
    obtain ⟨here, rest⟩ := resumes
    have refines := sound.process_refines here
    have leaves := sound.process_leaves here
    rw [call] at refines rest
    rw [List.flatten_cons] at awaits
    rcases left with _ | ⟨other, left⟩
    · have ends := awaits.ends
      rw [List.flatten_nil, List.append_nil, ← refines] at ends
      rcases answer : p.process segment with ⟨e | b, next⟩
      · rw [answer] at ends
        have threw := congrArg Observed.threw (Verdict.halt.inj ends)
        cases threw
      · rw [answer] at ends
        cases b with
        | false => cases ends
        | true =>
            have observed := Verdict.halt.inj ends
            exact ⟨true, next, rfl, .done (congrArg Observed.complete observed)
              (congrArg Observed.data observed)⟩
    · have some_left : (other :: left).flatten ≠ [] := by
        rw [List.flatten_cons]
        exact List.append_ne_nil_of_left_ne_nil (nonempty other List.mem_cons_self) _
      obtain ⟨e, driven, further, awaits⟩ := awaits.drop some_left
      rw [← refines] at driven
      rcases answer : p.process segment with ⟨e | b, next⟩
      · rw [answer] at driven
        cases driven
      · rw [answer] at driven rest leaves
        cases b with
        | true => cases driven
        | false =>
            obtain rfl := Verdict.more.inj driven
            exact ⟨false, next, rfl, .more (leaves next rfl) further (rest next rfl) awaits⟩

end ChunkedProcessor

/-! ## Responses -/

/-- A chunked response. -/
structure ChunkedResponse : Type where
  head : Head
  chunks : List HexChunk
  unsized : ∀ f ∈ head.fields, f.key ≠ contentLength
  encoded : ∃ f ∈ lastWith Field.key transferEncoding head.fields,
    strcasecmp (cstr f.content) (ascii "chunked") = 0
  small : (chunks.map HexChunk.bytes).flatten.length < 2 ^ 31

namespace ChunkedResponse

def message (r : ChunkedResponse) : Message where
  status := r.head.status
  framing := .chunked
  body := (r.chunks.map HexChunk.bytes).flatten
  small := r.small

/-- Its headers choose its framing where no length is in them. -/
theorem newDataProcessor_fields (r : ChunkedResponse) {headers : Bytes → Option Bytes}
    (unsized : headers contentLength = none) :
    fileFields headers r.head.fields contentLength = none ∧
      HttpResponseProcessor.newDataProcessor (fileFields headers r.head.fields) =
        .ok (.chunked {}) := by
  have none := (fileFields_of_absent r.unsized headers).trans unsized
  obtain ⟨f, last, chunked⟩ := r.encoded
  have filed := fileFields_eq headers r.head.fields transferEncoding
  rw [Option.mem_def.mp last] at filed
  refine ⟨none, ?_⟩
  rw [HttpResponseProcessor.newDataProcessor, none]
  exact if_pos ⟨f.content, filed, chunked⟩

end ChunkedResponse

/-- A response with a length, in segments. -/
structure SizedDelivery : Type where
  response : Response
  segments : List Bytes
  cut : Cutting response.bytes segments
  headFirst : HeadFirst response segments
  small : response.body.length < 2 ^ 31

/-- A chunked response in segments: what stands behind the head in the first, and the
others. -/
structure ChunkedDelivery : Type where
  response : ChunkedResponse
  tail : Bytes
  rest : List Bytes
  cut : (tail :: rest).flatten = HexChunk.encodeAll response.chunks
  nonempty : ∀ segment ∈ rest, segment ≠ []
  resumes : ChunkedProcessor.RunResumes (tail :: rest)

/-- A response and the segments that it comes in. -/
inductive Delivery : Type
  | sized (d : SizedDelivery)
  | chunked (d : ChunkedDelivery)

namespace Delivery

def message : Delivery → Message
  | sized d => ⟨d.response.status, .contentLen, d.response.body, d.small⟩
  | chunked d => d.response.message

def segments : Delivery → List Bytes
  | sized d => d.segments
  | chunked d => (d.response.head.heading.bytes ++ d.tail) :: d.rest

theorem segments_nonempty (d : Delivery) : ∀ segment ∈ d.segments, segment ≠ [] := by
  intro segment mem
  cases d with
  | sized d => exact d.cut.2 segment mem
  | chunked d =>
      rcases List.mem_cons.mp mem with rfl | behind
      · rw [Heading.bytes, List.append_assoc]
        exact List.append_ne_nil_of_right_ne_nil _ (List.append_ne_nil_of_left_ne_nil (by decide) _)
      · exact d.nonempty segment behind

theorem segments_ne_nil (d : Delivery) : d.segments ≠ [] := by
  cases d with
  | sized d =>
      obtain ⟨first, starts, -⟩ := d.headFirst
      intro none
      have none : d.segments = [] := none
      rw [none] at starts
      cases starts
  | chunked d => exact List.cons_ne_nil _ _

end Delivery

/-! ## Reading -/

namespace HttpResponseProcessor

variable {p q : HttpResponseProcessor} {m : Message} {left : List Bytes}

/-- What is left of a body with a length. -/
theorem reading_contentLen {c : ContentLenProcessor} (parsed : q.statusCode = m.status)
    (some_status : m.status ≠ -1) (framing : m.framing = .contentLen)
    (size : c.payloadSize = m.body.length) (rest : c.payload ++ left.flatten = m.body)
    (nonempty : ∀ segment ∈ left, segment ≠ []) : Reading m (q.withData (.contentLen c)) left := by
  have notChunked : m.framing = .chunked → q.headers contentLength = none := by
    intro chunked
    rw [framing] at chunked
    cases chunked
  induction left generalizing c with
  | nil =>
      rw [List.flatten_nil, List.append_nil] at rest
      have complete : c.isComplete = true := decide_eq_true (by rw [size, rest])
      exact .done (hasRead_withData parsed some_status complete framing.symm rest notChunked)
  | cons segment left ih =>
      obtain ⟨first, others⟩ := List.forall_mem_cons.mp nonempty
      rw [List.flatten_cons, ← List.append_assoc] at rest
      have total := congrArg List.length rest
      rw [List.length_append, ← size, List.length_append] at total
      have pos := List.length_pos_iff.mpr first
      have incomplete : c.isComplete = false := decide_eq_false (by omega)
      have fits : (c.payload ++ segment).length ≤ c.payloadSize := by
        rw [List.length_append]
        omega
      have processed : (DataProcessor.contentLen c).process segment =
          (.ok (c.copy segment fits).isComplete, .contentLen (c.copy segment fits)) := by
        rw [DataProcessor.process, ContentLenProcessor.process_of_fits fits]
      refine .more ?_ (processData_withData (parsed ▸ some_status) processed) ?_
      · rw [complete_withData (parsed ▸ some_status)]
        exact congrArg Except.ok incomplete
      · exact ih (c := c.copy segment fits) size rest others

/-- What is left of a chunked body. -/
theorem reading_chunked {c : ChunkedProcessor} (parsed : q.statusCode = m.status)
    (some_status : m.status ≠ -1) (framing : m.framing = .chunked)
    (unsized : q.headers contentLength = none) (decoding : c.Decoding m.body left)
    (nonempty : ∀ segment ∈ left, segment ≠ []) : Reading m (q.withData (.chunked c)) left := by
  induction left generalizing c with
  | nil =>
      cases decoding with
      | done complete data =>
          exact .done (hasRead_withData parsed some_status complete framing.symm data
            fun _ => unsized)
  | cons segment left ih =>
      obtain ⟨-, others⟩ := List.forall_mem_cons.mp nonempty
      have incomplete : c.complete = false := by
        cases decoding with
        | more sound incomplete resumes awaits => exact incomplete
      obtain ⟨b, next, processed, rest⟩ := decoding.process others
      have processed : (DataProcessor.chunked c).process segment = (.ok b, .chunked next) := by
        rw [DataProcessor.process, processed]
      refine .more ?_ (processData_withData (parsed ▸ some_status) processed) (ih rest others)
      rw [complete_withData (parsed ▸ some_status)]
      exact congrArg Except.ok incomplete

end HttpResponseProcessor

namespace Delivery

open HttpResponseProcessor

variable {p : HttpResponseProcessor}

theorem reading_sized (d : SizedDelivery) (blank : p.Blank) :
    Reading (sized d).message p d.segments := by
  obtain ⟨first, starts, tail, rfl⟩ := d.headFirst
  obtain ⟨left, segments⟩ : ∃ left, d.segments = (d.response.head ++ tail) :: left :=
    ⟨d.segments.tail, List.eq_cons_of_mem_head? starts⟩
  have nonempty : ∀ segment ∈ left, segment ≠ [] := by
    intro segment mem
    refine d.cut.2 segment ?_
    rw [segments]
    exact List.mem_cons_of_mem _ mem
  have body : tail ++ left.flatten = d.response.body := by
    have flat := d.cut.1
    rw [segments, List.flatten_cons, List.append_assoc, Response.bytes] at flat
    exact List.append_cancel_left flat
  have small := d.small
  rcases newDataProcessor_fields d.response p.headers with ⟨e, -, big⟩ | ⟨c, created, empty, size⟩
  · omega
  · rw [toInt32_natCast_eq_self_iff.mpr small, Int.natCast_inj] at size
    have total := congrArg List.length body
    rw [List.length_append] at total
    have fits : (c.payload ++ tail).length ≤ c.payloadSize := by
      rw [empty, List.nil_append]
      omega
    have processed : (DataProcessor.contentLen c).process tail =
        (.ok (c.copy tail fits).isComplete, .contentLen (c.copy tail fits)) := by
      rw [DataProcessor.process, ContentLenProcessor.process_of_fits fits]
    have idle : tail = [] → DataProcessor.contentLen (c.copy tail fits) = .contentLen c := by
      rintro rfl
      simp [ContentLenProcessor.copy]
    obtain ⟨q, status, -, answer⟩ :=
      processData_heading blank d.response.heading created processed idle
    rw [segments]
    refine .more blank.complete answer (reading_contentLen status d.response.status_ne rfl size ?_
      nonempty)
    change (c.payload ++ tail) ++ left.flatten = d.response.body
    rw [empty, List.nil_append, body]

theorem reading_chunked (d : ChunkedDelivery) (blank : p.Blank)
    (unsized : p.headers contentLength = none) :
    Reading (chunked d).message p (chunked d).segments := by
  obtain ⟨none, created⟩ := d.response.newDataProcessor_fields unsized
  have awaits := ChunkDecoder.awaits_encodeAll d.response.chunks
  rw [← d.cut] at awaits
  have decoding : ChunkedProcessor.Decoding (chunked d).message.body {} (d.tail :: d.rest) :=
    .more ChunkedProcessor.Sound.init rfl d.resumes awaits
  obtain ⟨b, next, processed, rest⟩ := decoding.process d.nonempty
  have idle : d.tail = [] → DataProcessor.chunked next = .chunked {} := by
    intro empty
    rw [empty, ChunkedProcessor.process_nil] at processed
    cases processed
    rfl
  have handed : (DataProcessor.chunked {}).process d.tail = (.ok b, .chunked next) := by
    rw [DataProcessor.process, processed]
  obtain ⟨q, status, headers, answer⟩ :=
    processData_heading blank d.response.head.heading created handed idle
  exact .more blank.complete answer (HttpResponseProcessor.reading_chunked status
    d.response.head.status_ne rfl ((congrFun headers _).trans none) rest d.nonempty)

/-- A delivery is read by a processor that is blank, unless it is chunked and a length has
been left behind. -/
theorem reading (d : Delivery) (blank : p.Blank)
    (unsized : d.message.framing = .chunked → p.headers contentLength = none) :
    Reading d.message p d.segments := by
  cases d with
  | sized d => exact reading_sized d blank
  | chunked d => exact reading_chunked d blank (unsized rfl)

end Delivery

end PacketReplay
