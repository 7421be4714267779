import PacketReplay.Http.ChunkedProcessor

/-!
# Chunk decoding byte by byte

`ChunkDecoder` says what a chunked body means one byte at a time: the size line is
collected up to its CRLF and read as a hexadecimal number, that many bytes are
data, and CR LF closes the chunk. `ChunkedProcessor.decoder` reads a processor as
a decoder. The size phase of the processor copies ahead into its scratch buffer
and then derives its position from a pointer into that buffer. `Resumes` is the
condition under which this lands just behind the size line, and
`process_refines` shows that a call all of whose iterations meet it does what the
decoder does on the bytes of the segment.
-/

namespace PacketReplay

open Lib

/-- Where a decoder is within the body. -/
inductive ChunkPhase : Type
  | sizeLine (line : Bytes)
  | chunkData (size read : Int)
  | lineFeed (size : Int)
  /-- A size no `int` holds was read: nothing more is decoded. -/
  | stuck
  deriving DecidableEq, Repr

structure ChunkDecoder : Type where
  phase : ChunkPhase
  data : Bytes
  complete : Bool
  deriving DecidableEq, Repr

namespace ChunkDecoder

open ChunkedProcessor (Observed lineEnd)

def threw (d : ChunkDecoder) : Observed := ⟨d.complete, d.data, true⟩

/-- The phase after a complete size line. -/
def sizeRead (size : Int) : ChunkPhase := if size < 0 then .stuck else .chunkData size 0

/-- Read a complete size line. -/
def readLine (d : ChunkDecoder) (line : Bytes) : Verdict ChunkDecoder Observed :=
  let number := strtoul 16 (cstr line)
  if number.2 = 0 then .halt d.threw
  else .more { d with phase := sizeRead (toInt32 number.1) }

/-- One byte of a chunked body. -/
def step (d : ChunkDecoder) (c : UInt8) : Verdict ChunkDecoder Observed :=
  match d.phase with
  | .sizeLine line =>
      if (lineEnd (line ++ [c])).isSome then d.readLine (line ++ [c])
      else if (line ++ [c]).length = tmpSiz then .halt d.threw
      else .more { d with phase := .sizeLine (line ++ [c]) }
  | .chunkData size read =>
      if read = size then
        if c = cr then .more { d with phase := .lineFeed size } else .halt d.threw
      else .more { d with phase := .chunkData size (read + 1), data := d.data ++ [c] }
  | .lineFeed size =>
      if c = lf then
        if size = 0 then .halt ⟨true, d.data, false⟩
        else .more { d with phase := .sizeLine [] }
      else .halt d.threw
  | .stuck => .more d

end ChunkDecoder

namespace ChunkedProcessor

/-! ## Size lines -/

theorem lineEnd_append {buf : Bytes} {i : Nat} (found : lineEnd buf = some i) (t : Bytes) :
    lineEnd (buf ++ t) = some i := by
  obtain ⟨more, split⟩ := cstr_prefix_append buf t
  rw [lineEnd, ← split]
  exact find_append_of_eq_some (by decide) found more

theorem lineEnd_take {buf : Bytes} {i n : Nat} (found : lineEnd buf = some i)
    (within : i + 2 ≤ n) : lineEnd (buf.take n) = some i := by
  rw [lineEnd, cstr_take]
  exact find_take (by decide) found within

theorem lineEnd_le {buf : Bytes} {i : Nat} (found : lineEnd buf = some i) :
    i + 2 ≤ buf.length :=
  (find_le_length crlf_ne_nil found).trans (cstr_isPrefix buf).length_le

theorem lineEnd_take_eq_none {buf : Bytes} {i n : Nat} (found : lineEnd buf = some i)
    (before : n < i + 2) : lineEnd (buf.take n) = none := by
  cases early : lineEnd (buf.take n) with
  | none => rfl
  | some j =>
      have same := lineEnd_append early (buf.drop n)
      rw [List.take_append_drop, found, Option.some.injEq] at same
      have fits := lineEnd_le early
      rw [List.length_take] at fits
      omega

theorem lineEnd_eq_none_of_append {buf t : Bytes} (absent : lineEnd (buf ++ t) = none) :
    lineEnd buf = none := by
  cases early : lineEnd buf with
  | none => rfl
  | some i =>
      rw [lineEnd_append early t] at absent
      cases absent

/-- The bytes of a buffer up to its size line, and behind it. -/
theorem cstr_eq_line {buf : Bytes} {i : Nat} (found : lineEnd buf = some i) :
    cstr buf = buf.take i ++ cr :: lf :: (cstr buf).drop (i + 2) := by
  obtain ⟨at_i, -, -⟩ := find_eq_some_iff.mp found
  obtain ⟨after, split⟩ := at_i
  have shorter : i ≤ (cstr buf).length := by
    have := find_le_length crlf_ne_nil found
    omega
  have front : (cstr buf).take i = buf.take i := by
    obtain ⟨more, whole⟩ := cstr_isPrefix buf
    conv_rhs => rw [← whole, List.take_append_of_le_length shorter]
  have back : (cstr buf).drop (i + 2) = after := by
    rw [← List.drop_drop, ← split]
    rfl
  rw [back, ← front]
  conv_lhs => rw [← List.take_append_drop i (cstr buf), ← split]
  rfl

/-- A size line that is not blank carries its number whatever lies behind it. -/
theorem strtoul_line {buf : Bytes} {i : Nat} (found : lineEnd buf = some i)
    (text : ∃ b ∈ buf.take i, isspace b = false) :
    strtoul 16 (cstr buf) = strtoul 16 (buf.take i) := by
  rw [cstr_eq_line found]
  exact strtoul_append_stop text (by decide) (by decide) _

/-- There is no number on a blank size line. -/
theorem strtoul_blank_line {buf : Bytes} {i : Nat} (found : lineEnd buf = some i)
    (blank : ∀ b ∈ buf.take i, isspace b = true) :
    strtoul 16 (cstr (buf.take (i + 2))) = (0, 0) := by
  have front : (buf.take (i + 2)).take i = buf.take i := by
    rw [List.take_take, Nat.min_eq_left (by omega)]
  have behind : (cstr (buf.take (i + 2))).drop (i + 2) = [] := by
    rw [cstr_take, List.drop_eq_nil_of_le (by rw [List.length_take]; omega)]
  refine strtoul_blank ?_
  intro b mem
  rw [cstr_eq_line (lineEnd_take found le_rfl), front, behind, List.mem_append] at mem
  rcases mem with front | ending
  · exact blank b front
  · rcases List.mem_pair.mp ending with rfl | rfl
    · rfl
    · rfl

/-- No number in the buffer, none on the size line either. -/
theorem strtoul_line_stop_eq_zero {buf : Bytes} {i : Nat} (found : lineEnd buf = some i)
    (none : (strtoul 16 (cstr buf)).2 = 0) :
    (strtoul 16 (cstr (buf.take (i + 2)))).2 = 0 := by
  have shorter : lineEnd (buf.take (i + 2)) = some i := lineEnd_take found le_rfl
  have front : (buf.take (i + 2)).take i = buf.take i := by
    rw [List.take_take, Nat.min_eq_left (by omega)]
  by_cases text : ∃ b ∈ buf.take i, isspace b = false
  · rw [strtoul_line found text] at none
    rw [strtoul_line shorter (front.symm ▸ text), front, none]
  · push Not at text
    rw [strtoul_blank_line found fun b mem => by simpa using text b mem]

end ChunkedProcessor

/-! ## Runs of the decoder -/

namespace ChunkDecoder

open ChunkedProcessor

variable {d : ChunkDecoder} {line segment : Bytes}

/-- Bytes that leave the size line open are collected. -/
theorem drive_sizeLine (unfinished : lineEnd (line ++ segment) = none)
    (fits : (line ++ segment).length < tmpSiz) :
    drive step { d with phase := .sizeLine line } segment =
      .more { d with phase := .sizeLine (line ++ segment) } := by
  induction segment generalizing line with
  | nil => rw [drive_nil, List.append_nil]
  | cons c segment ih =>
      rw [List.append_cons] at unfinished fits ⊢
      have here : lineEnd (line ++ [c]) = none := lineEnd_eq_none_of_append unfinished
      have room : (line ++ [c]).length ≠ tmpSiz := by
        rw [List.length_append] at fits
        omega
      rw [drive_cons, step]
      simp only [here, Option.isSome_none, Bool.false_eq_true, ↓reduceIte, room]
      exact ih unfinished fits

/-- A size line that fills the scratch buffer is an error. -/
theorem drive_sizeLine_full (unfinished : lineEnd (line ++ segment) = none)
    (full : (line ++ segment).length = tmpSiz) (nonempty : segment ≠ []) (rest : Bytes) :
    drive step { d with phase := .sizeLine line } (segment ++ rest) = .halt d.threw := by
  obtain ⟨init, c, rfl⟩ := (List.eq_nil_or_concat' _).resolve_left nonempty
  rw [← List.append_assoc] at unfinished full
  have room : (line ++ init).length < tmpSiz := by
    rw [List.length_append, List.length_singleton] at full
    omega
  rw [drive_append, drive_append, drive_sizeLine (lineEnd_eq_none_of_append unfinished) room,
    Verdict.bind_more, drive_cons, step]
  simp only [unfinished, Option.isSome_none, Bool.false_eq_true, ↓reduceIte, full]
  rfl

/-- The byte that ends a size line reads it. -/
theorem drive_sizeLine_end {i : Nat} (found : lineEnd (line ++ segment) = some i)
    (ends : (line ++ segment).length = i + 2) (fits : (line ++ segment).length ≤ tmpSiz)
    (nonempty : segment ≠ []) :
    drive step { d with phase := .sizeLine line } segment = d.readLine (line ++ segment) := by
  obtain ⟨init, c, rfl⟩ := (List.eq_nil_or_concat' _).resolve_left nonempty
  rw [← List.append_assoc] at found ends fits ⊢
  have size : (line ++ init).length + 1 = i + 2 := by
    rw [← ends, List.length_append, List.length_append, List.length_singleton,
      List.length_append]
  have unfinished : lineEnd (line ++ init) = none := by
    have early := lineEnd_take_eq_none (n := (line ++ init).length) found (by omega)
    rwa [List.take_left] at early
  rw [drive_append, drive_sizeLine unfinished (by omega), Verdict.bind_more, drive_cons, step]
  simp only [found, Option.isSome_some, ↓reduceIte]
  exact Verdict.bind_more_right _

/-- Bytes within the chunk are data. -/
theorem drive_chunkData {size read : Int} (fits : read + segment.length ≤ size) :
    drive step { d with phase := .chunkData size read } segment =
      .more { d with
        phase := .chunkData size (read + segment.length), data := d.data ++ segment } := by
  induction segment generalizing d read with
  | nil => simp
  | cons c segment ih =>
      rw [List.length_cons] at fits
      have inside : read ≠ size := by omega
      rw [drive_cons, step]
      simp only [inside, ↓reduceIte, Verdict.bind_more]
      rw [ih (d := { d with data := d.data ++ [c] }) (by omega)]
      simp only [List.append_assoc, List.singleton_append, List.length_cons]
      congr 3
      omega

theorem drive_stuck (segment : Bytes) :
    drive step { d with phase := .stuck } segment = .more { d with phase := .stuck } :=
  drive_of_fixed (fun _ => rfl) segment

/-- The data never shrinks. -/
theorem data_le_of_step {c : UInt8} {d' : ChunkDecoder} (goes : step d c = .more d') :
    d.data.length ≤ d'.data.length := by
  rw [step] at goes
  cases phase : d.phase with
  | sizeLine line =>
      simp only [phase, readLine] at goes
      split_ifs at goes <;> injection goes with same <;> exact same ▸ le_rfl
  | chunkData size read =>
      simp only [phase] at goes
      split_ifs at goes <;> cases goes
      · exact le_rfl
      · rw [List.length_append]
        exact Nat.le_add_right _ _
  | lineFeed size =>
      simp only [phase] at goes
      split_ifs at goes
      cases goes
      exact le_rfl
  | stuck =>
      simp only [phase] at goes
      cases goes
      exact le_rfl

theorem data_le_of_drive {d' : ChunkDecoder} (goes : drive step d segment = .more d') :
    d.data.length ≤ d'.data.length := by
  induction segment generalizing d with
  | nil =>
      cases goes
      exact le_rfl
  | cons c segment ih =>
      rw [drive_cons] at goes
      cases next : step d c with
      | halt o =>
          rw [next] at goes
          cases goes
      | more d₁ =>
          rw [next, Verdict.bind_more] at goes
          exact (data_le_of_step next).trans (ih goes)

/-- Behind a size line the decoder does not stay where it is. -/
theorem drive_chunkData_ne {size : Int} (some : segment ≠ []) :
    drive step { d with phase := .chunkData size 0 } segment ≠
      .more { d with phase := .chunkData size 0 } := by
  intro stays
  obtain ⟨c, segment, rfl⟩ := List.exists_cons_of_ne_nil some
  rw [drive_cons, step] at stays
  by_cases empty : (0 : Int) = size
  · -- an empty chunk: only CR LF can follow, and LF ends the body
    subst empty
    by_cases isCr : c = cr
    · simp only [isCr, ↓reduceIte, Verdict.bind_more] at stays
      cases segment with
      | nil => simp at stays
      | cons c₂ segment =>
          rw [drive_cons, step] at stays
          by_cases isLf : c₂ = lf <;> simp [isLf] at stays
    · simp [isCr] at stays
  · simp only [empty, ↓reduceIte, Verdict.bind_more] at stays
    have grows := data_le_of_drive stays
    simp at grows

end ChunkDecoder

/-! ## The processor as a decoder -/

namespace ChunkedProcessor

/-- The phase of the decoder that a processor stands for. -/
def phase (p : ChunkedProcessor) : ChunkPhase :=
  if p.chunkSize < 0 then
    if (lineEnd p.tmpBuf).isSome then .stuck else .sizeLine p.tmpBuf
  else if p.chunkEndCharCount = 0 then .chunkData p.chunkSize p.chunkRead
  else .lineFeed p.chunkSize

def decoder (p : ChunkedProcessor) : ChunkDecoder := ⟨p.phase, p.data, p.complete⟩

/-- The verdict of the decoder that a result stands for. -/
def decoderVerdict (r : Result) : Verdict ChunkDecoder Observed := (verdict r).map decoder id

@[simp] theorem decoderVerdict_false (p : ChunkedProcessor) :
    decoderVerdict (.ok false, p) = .more p.decoder := rfl

@[simp] theorem decoderVerdict_true (p : ChunkedProcessor) :
    decoderVerdict (.ok true, p) = .halt ⟨p.complete, p.data, false⟩ := rfl

@[simp] theorem decoderVerdict_error (e : Fault) (p : ChunkedProcessor) :
    decoderVerdict (.error e, p) = .halt ⟨p.complete, p.data, true⟩ := rfl

/-- What holds of a processor between two iterations of its loop. -/
structure Sound (p : ChunkedProcessor) : Prop where
  endCount : p.chunkEndCharCount ≤ 1
  sizeRead : p.chunkSize < 0 → p.chunkRead = 0 ∧ p.chunkEndCharCount = 0
  sizeRoom : p.chunkSize < 0 → p.tmpBuf.length ≤ tmpSiz ∧
    (lineEnd p.tmpBuf = none → p.tmpBuf.length < tmpSiz)
  /-- A size line left in the scratch buffer carries a size that is no `int`. -/
  overflowed : p.chunkSize < 0 → ∀ i, lineEnd p.tmpBuf = some i →
    (∃ b ∈ p.tmpBuf.take i, isspace b = false) ∧
      (strtoul 16 (p.tmpBuf.take i)).2 ≠ 0 ∧ toInt32 (strtoul 16 (p.tmpBuf.take i)).1 < 0
  dataRead : 0 ≤ p.chunkSize → p.chunkRead ≤ p.chunkSize
  endRead : 0 ≤ p.chunkSize → p.chunkEndCharCount ≠ 0 → p.chunkRead = p.chunkSize

theorem Sound.init : Sound {} where
  endCount := Nat.zero_le 1
  sizeRead := fun _ => ⟨rfl, rfl⟩
  sizeRoom := fun _ => ⟨Nat.zero_le _, fun _ => by decide⟩
  overflowed := fun _ i found => by cases found
  dataRead := fun size => absurd size (by decide)
  endRead := fun size => absurd size (by decide)

/-- Where an iteration that reads the number `number` in the scratch buffer goes on
from, counted from the bytes that earlier calls left there. -/
def resumeAt (p : ChunkedProcessor) (number : Nat × Nat) (data : Bytes) : Nat :=
  p.tmpBuf.length + min (number.2 + 2) data.length

/-- The iteration at the bytes `data` resumes behind the size line. If it completes
the line and there is a number to read, the number is on that line rather than
behind it, and the position it goes on from is the one just behind the line feed.
Behind a size that is no `int` any later position does as well. -/
def ResumesBehind (p : ChunkedProcessor) (data : Bytes) (i : Nat) : Prop :=
  let number := strtoul 16 (cstr (p.fill data))
  number.2 ≠ 0 →
    (∃ b ∈ (p.fill data).take i, isspace b = false) ∧
      (p.resumeAt number data = i + 2 ∨ toInt32 number.1 < 0 ∧ i + 2 < p.resumeAt number data)

def Resumes (p : ChunkedProcessor) (c : UInt8) (rest : Bytes) : Prop :=
  p.chunkSize < 0 → lineEnd p.tmpBuf = none →
    ∀ i, lineEnd (p.fill (c :: rest)) = some i → p.ResumesBehind (c :: rest) i

instance (p : ChunkedProcessor) (data : Bytes) (i : Nat) : Decidable (p.ResumesBehind data i) :=
  inferInstanceAs (Decidable (_ → _))

instance (p : ChunkedProcessor) (c : UInt8) (rest : Bytes) : Decidable (Resumes p c rest) :=
  match found : lineEnd (p.fill (c :: rest)) with
  | none => .isTrue fun _ _ i same => by rw [found] at same; cases same
  | some i =>
      decidable_of_iff
        (p.chunkSize < 0 → lineEnd p.tmpBuf = none → p.ResumesBehind (c :: rest) i)
        ⟨fun holds size unfinished j same => by
          cases found.symm.trans same
          exact holds size unfinished,
         fun holds size unfinished => holds size unfinished i found⟩

/-! ## One iteration -/

section Iteration

variable {p : ChunkedProcessor} {c : UInt8} {rest : Bytes}

theorem length_fill_le (room : p.tmpBuf.length ≤ tmpSiz) (data : Bytes) :
    (p.fill data).length ≤ tmpSiz := by
  rw [fill, List.length_append, List.length_take]
  omega

/-- The scratch buffer cut behind a size line: its old bytes, and those of the
segment that complete the line. -/
theorem take_fill {data : Bytes} {n : Nat} (after : p.tmpBuf.length ≤ n)
    (within : n ≤ (p.fill data).length) :
    (p.fill data).take n = p.tmpBuf ++ data.take (n - p.tmpBuf.length) := by
  rw [fill, List.length_append, List.length_take] at within
  rw [fill, List.take_append, List.take_of_length_le after, List.take_take,
    Nat.min_eq_left (by omega)]

/-- The iteration of the size phase, by what the scratch buffer then holds. -/
theorem processStep_of_size (c : UInt8) (rest : Bytes) (size : p.chunkSize < 0) :
    (lineEnd (p.fill (c :: rest)) = none ∧ (p.fill (c :: rest)).length = tmpSiz ∧
      ∃ e, p.processStep c rest = .exit (.error e, { p with tmpBuf := p.fill (c :: rest) })) ∨
    (lineEnd (p.fill (c :: rest)) = none ∧ (p.fill (c :: rest)).length ≠ tmpSiz ∧
      p.processStep c rest = .exit (.ok false, { p with tmpBuf := p.fill (c :: rest) })) ∨
    (∃ i e, lineEnd (p.fill (c :: rest)) = some i ∧
      (strtoul 16 (cstr (p.fill (c :: rest)))).2 = 0 ∧
      p.processStep c rest = .exit (.error e, { p with
        tmpBuf := p.fill (c :: rest)
        chunkSize := toInt32 (strtoul 16 (cstr (p.fill (c :: rest)))).1 })) ∨
    (∃ i, lineEnd (p.fill (c :: rest)) = some i ∧
      (strtoul 16 (cstr (p.fill (c :: rest)))).2 ≠ 0 ∧
      p.processStep c rest = .next { p with
        tmpBuf := p.fill (c :: rest)
        chunkSize := toInt32 (strtoul 16 (cstr (p.fill (c :: rest)))).1 }
        ((strtoul 16 (cstr (p.fill (c :: rest)))).2 + 2)) := by
  rw [processStep, if_pos size]
  cases found : lineEnd (p.fill (c :: rest)) with
  | none =>
      by_cases full : (p.fill (c :: rest)).length = tmpSiz
      · exact .inl ⟨rfl, full, _, by simp [found, full]; rfl⟩
      · exact .inr (.inl ⟨rfl, full, by simp [found, full]⟩)
  | some i =>
      by_cases none : (strtoul 16 (cstr (p.fill (c :: rest)))).2 = 0
      · exact .inr (.inr (.inl ⟨i, _, rfl, none, by simp [found, none]; rfl⟩))
      · exact .inr (.inr (.inr ⟨i, rfl, none, by simp [found, none]⟩))

theorem decoder_sizeLine (size : p.chunkSize < 0) (unfinished : lineEnd p.tmpBuf = none) :
    p.decoder = { p.decoder with phase := .sizeLine p.tmpBuf } := by
  simp [decoder, phase, size, unfinished]

theorem decoder_stuck {i : Nat} (size : p.chunkSize < 0) (found : lineEnd p.tmpBuf = some i) :
    p.decoder = { p.decoder with phase := .stuck } := by
  simp [decoder, phase, size, found]

/-- A size line in the scratch buffer stays what it was when more is copied
behind it. -/
theorem Sound.strtoul_fill (sound : Sound p) (size : p.chunkSize < 0) {i : Nat}
    (found : lineEnd p.tmpBuf = some i) (data : Bytes) :
    (strtoul 16 (cstr (p.fill data))).2 ≠ 0 ∧
      toInt32 (strtoul 16 (cstr (p.fill data))).1 < 0 := by
  obtain ⟨text, ended, negative⟩ := sound.overflowed size i found
  have later : lineEnd (p.fill data) = some i := lineEnd_append found _
  have front : (p.fill data).take i = p.tmpBuf.take i := by
    have fits := lineEnd_le found
    rw [fill, List.take_append_of_le_length (by omega)]
  rw [strtoul_line later (front ▸ text), front]
  exact ⟨ended, negative⟩

/-- The line that an iteration completes ends in the bytes it copies. -/
theorem length_lt_of_completed {i : Nat} {data : Bytes} (unfinished : lineEnd p.tmpBuf = none)
    (found : lineEnd (p.fill data) = some i) : p.tmpBuf.length < i + 2 := by
  by_contra long
  have early := lineEnd_take (n := p.tmpBuf.length) found (by omega)
  rw [fill, List.take_left, unfinished] at early
  cases early

/-- The decoder reads the line that an iteration completes. -/
theorem drive_completed_line {i : Nat} {data : Bytes} (size : p.chunkSize < 0)
    (unfinished : lineEnd p.tmpBuf = none) (room : p.tmpBuf.length ≤ tmpSiz)
    (found : lineEnd (p.fill data) = some i) :
    drive ChunkDecoder.step p.decoder (data.take (i + 2 - p.tmpBuf.length)) =
      p.decoder.readLine ((p.fill data).take (i + 2)) := by
  have within := lineEnd_le found
  have short := length_lt_of_completed unfinished found
  have cut : (p.fill data).take (i + 2) = _ := take_fill short.le within
  have ends : ((p.fill data).take (i + 2)).length = i + 2 := by
    rw [List.length_take, Nat.min_eq_left within]
  have line := lineEnd_take (n := i + 2) found le_rfl
  have bound := length_fill_le room data
  rw [decoder_sizeLine size unfinished]
  rw [cut] at ends line ⊢
  refine ChunkDecoder.drive_sizeLine_end line ends (by omega) ?_
  intro empty
  rw [empty, List.append_nil] at ends
  omega

/-- The number of a completed line is the one the whole scratch buffer starts with. -/
theorem strtoul_completed_line {i : Nat} {data : Bytes} (found : lineEnd (p.fill data) = some i)
    (text : ∃ b ∈ (p.fill data).take i, isspace b = false) :
    strtoul 16 (cstr ((p.fill data).take (i + 2))) = strtoul 16 (cstr (p.fill data)) := by
  have front : ((p.fill data).take (i + 2)).take i = (p.fill data).take i := by
    rw [List.take_take, Nat.min_eq_left (by omega)]
  rw [strtoul_line (lineEnd_take found le_rfl) (front.symm ▸ text), front,
    strtoul_line found text]

/-- The decoder on `n` bytes that reach behind the completed line: it reads the
line, then goes on behind it. -/
theorem drive_consumed {i n : Nat} {data : Bytes} (size : p.chunkSize < 0)
    (unfinished : lineEnd p.tmpBuf = none) (room : p.tmpBuf.length ≤ tmpSiz)
    (found : lineEnd (p.fill data) = some i)
    (behind : i + 2 - p.tmpBuf.length ≤ min n data.length) :
    drive ChunkDecoder.step p.decoder (data.take n) =
      (p.decoder.readLine ((p.fill data).take (i + 2))).bind fun d =>
        drive ChunkDecoder.step d ((data.drop (i + 2 - p.tmpBuf.length)).take
          (min n data.length - (i + 2 - p.tmpBuf.length))) := by
  rw [List.take_eq_take_min, drive_take_drop (i + 2 - p.tmpBuf.length), List.take_take,
    Nat.min_eq_left behind, drive_completed_line size unfinished room found, List.drop_take]

/-- The decoder on bytes that do not reach the end of the line. -/
theorem drive_early {i n : Nat} {data : Bytes} (size : p.chunkSize < 0)
    (unfinished : lineEnd p.tmpBuf = none) (room : p.tmpBuf.length ≤ tmpSiz)
    (found : lineEnd (p.fill data) = some i)
    (early : min n data.length < i + 2 - p.tmpBuf.length) :
    drive ChunkDecoder.step p.decoder (data.take n) =
      .more { p.decoder with phase := .sizeLine (p.tmpBuf ++ data.take (min n data.length)) } := by
  have within := lineEnd_le found
  have short := length_lt_of_completed unfinished found
  have front : p.tmpBuf ++ data.take (min n data.length) =
      (p.fill data).take (p.tmpBuf.length + min n data.length) := by
    rw [take_fill (by omega) (by omega), Nat.add_sub_cancel_left]
  have line := lineEnd_take_eq_none (n := p.tmpBuf.length + min n data.length) found (by omega)
  have bound := length_fill_le room data
  have fits : (p.tmpBuf ++ data.take (min n data.length)).length < tmpSiz := by
    rw [front, List.length_take]
    omega
  rw [← front] at line
  rw [List.take_eq_take_min, decoder_sizeLine size unfinished,
    ChunkDecoder.drive_sizeLine line fits]

/-- A processor that has taken a size reads the chunk, or is stuck on a negative size. -/
theorem Sound.decoder_sized (sound : Sound p) (size : p.chunkSize < 0) {line : Bytes} {i : Nat}
    (found : lineEnd line = some i) (number : Int) :
    ({ p with tmpBuf := line, chunkSize := number } : ChunkedProcessor).decoder =
      { p.decoder with phase := ChunkDecoder.sizeRead number } := by
  obtain ⟨noneRead, noneEnded⟩ := sound.sizeRead size
  by_cases negative : number < 0
  · simp [decoder, phase, ChunkDecoder.sizeRead, negative, found]
  · simp [decoder, phase, ChunkDecoder.sizeRead, negative, noneRead, noneEnded]

/-- An iteration of the size phase does what the decoder does. -/
theorem Sound.size_step (sound : Sound p) (resumes : Resumes p c rest) (size : p.chunkSize < 0) :
    (p.processStep c rest).Agrees ChunkDecoder.step decoder decoderVerdict p
      (c :: rest) := by
  obtain ⟨room, space⟩ := sound.sizeRoom size
  rcases processStep_of_size c rest size with
    ⟨absent, full, e, answer⟩ | ⟨absent, notFull, answer⟩ | ⟨i, e, found, none, answer⟩ |
      ⟨i, found, some, answer⟩
  all_goals rw [answer]
  · -- the scratch buffer is full and holds no line
    have unfinished : lineEnd p.tmpBuf = none := lineEnd_eq_none_of_append absent
    have before := space unfinished
    refine (congrArg₂ (drive ChunkDecoder.step) (decoder_sizeLine size unfinished)
      (List.take_append_drop (min (c :: rest).length (tmpSiz - p.tmpBuf.length))
        (c :: rest)).symm).trans ?_
    refine ChunkDecoder.drive_sizeLine_full absent full ?_ _
    intro empty
    rw [fill, empty, List.append_nil] at full
    omega
  · -- the line goes on in a later segment
    have unfinished : lineEnd p.tmpBuf = none := lineEnd_eq_none_of_append absent
    have whole : p.fill (c :: rest) = p.tmpBuf ++ c :: rest := by
      have bound := length_fill_le room (c :: rest)
      rw [fill, List.length_append, List.length_take] at notFull bound
      rw [fill, List.take_of_length_le (by omega)]
    have bound := length_fill_le room (c :: rest)
    rw [whole] at absent notFull bound ⊢
    refine (congrArg (drive _ · _) (decoder_sizeLine size unfinished)).trans ?_
    rw [ChunkDecoder.drive_sizeLine absent (by omega)]
    simp [decoder, phase, size, absent]
  · -- there is no number, neither on the line nor behind it
    cases unfinished : lineEnd p.tmpBuf with
    | some j => exact absurd none (sound.strtoul_fill size unfinished _).1
    | none =>
        rw [BlockStep.Agrees, drive_take_drop (i + 2 - p.tmpBuf.length),
          drive_completed_line size unfinished room found, ChunkDecoder.readLine,
          if_pos (strtoul_line_stop_eq_zero found none)]
        rfl
  · cases unfinished : lineEnd p.tmpBuf with
    | some j =>
        obtain ⟨-, negative⟩ := sound.strtoul_fill size unfinished (c :: rest)
        refine ⟨Nat.succ_pos _, ?_⟩
        rw [decoder_stuck size unfinished, ChunkDecoder.drive_stuck]
        simp [decoder, phase, negative, found]
    | none =>
        obtain ⟨text, position⟩ := resumes size unfinished i found some
        have number := strtoul_completed_line found text
        refine ⟨Nat.succ_pos _, ?_⟩
        have behind : i + 2 - p.tmpBuf.length ≤
            min ((strtoul 16 (cstr (p.fill (c :: rest)))).2 + 2) (c :: rest).length := by
          unfold resumeAt at position
          omega
        rw [drive_consumed size unfinished room found behind, ChunkDecoder.readLine, number,
          if_neg some, Verdict.bind_more, sound.decoder_sized size found]
        by_cases negative : toInt32 (strtoul 16 (cstr (p.fill (c :: rest)))).1 < 0
        · simp only [ChunkDecoder.sizeRead, if_pos negative, ChunkDecoder.drive_stuck]
        · have nothing : min ((strtoul 16 (cstr (p.fill (c :: rest)))).2 + 2) (c :: rest).length -
              (i + 2 - p.tmpBuf.length) = 0 := by
            unfold resumeAt at position
            omega
          rw [nothing, List.take_zero, drive_nil]

/-- The iteration of a sound processor behind the size line, by phase. -/
theorem Sound.processStep_of_data (sound : Sound p) (c : UInt8) (rest : Bytes)
    (size : 0 ≤ p.chunkSize) :
    (p.chunkRead = p.chunkSize ∧ p.chunkEndCharCount = 0 ∧ c = cr ∧
      p.processStep c rest = .next { p with chunkEndCharCount := 1 } 1) ∨
    (p.chunkRead = p.chunkSize ∧ p.chunkEndCharCount = 0 ∧ c ≠ cr ∧
      ∃ e, p.processStep c rest = .exit (.error e, p)) ∨
    (p.chunkRead = p.chunkSize ∧ p.chunkEndCharCount = 1 ∧ c = lf ∧ p.chunkSize = 0 ∧
      p.processStep c rest = .exit (.ok true, { p with complete := true })) ∨
    (p.chunkRead = p.chunkSize ∧ p.chunkEndCharCount = 1 ∧ c = lf ∧ p.chunkSize ≠ 0 ∧
      p.processStep c rest = .next { p with
        chunkSize := -1, chunkRead := 0, tmpBuf := [], chunkEndCharCount := 0 } 1) ∨
    (p.chunkRead = p.chunkSize ∧ p.chunkEndCharCount = 1 ∧ c ≠ lf ∧
      ∃ e, p.processStep c rest = .exit (.error e, p)) ∨
    (p.chunkRead < p.chunkSize ∧ p.chunkEndCharCount = 0 ∧ ∃ n : Nat, 0 < n ∧
      (((c :: rest).take n).length : Int) = n ∧ p.chunkRead + n ≤ p.chunkSize ∧
      p.processStep c rest = .next { p with
        data := p.data ++ (c :: rest).take n, chunkRead := p.chunkRead + n } n) := by
  have notSize : ¬ p.chunkSize < 0 := not_lt.mpr size
  rw [processStep, if_neg notSize]
  by_cases read : p.chunkRead = p.chunkSize
  · rw [if_pos read]
    by_cases first : p.chunkEndCharCount = 0
    · rw [if_pos first]
      by_cases isCr : c = cr
      · exact .inl ⟨read, first, isCr, by rw [if_pos isCr]⟩
      · exact .inr (.inl ⟨read, first, isCr, _, by rw [if_neg isCr]⟩)
    · have second : p.chunkEndCharCount = 1 := by
        have := sound.endCount
        omega
      rw [if_neg first, if_pos second]
      by_cases isLf : c = lf
      · rw [if_pos isLf]
        by_cases last : p.chunkSize = 0
        · exact .inr (.inr (.inl ⟨read, second, isLf, last, by rw [if_pos last]⟩))
        · exact .inr (.inr (.inr (.inl ⟨read, second, isLf, last, by rw [if_neg last]⟩)))
      · exact .inr (.inr (.inr (.inr (.inl ⟨read, second, isLf, _, by rw [if_neg isLf]⟩))))
  · have unread : p.chunkRead < p.chunkSize := lt_of_le_of_ne (sound.dataRead size) read
    have notEnding : p.chunkEndCharCount = 0 := by
      by_contra ending
      exact read (sound.endRead size ending)
    have forward : ¬ min ((c :: rest).length : Int) (p.chunkSize - p.chunkRead) < 0 := by omega
    obtain ⟨n, copyLen⟩ :
        ∃ n : Nat, min ((c :: rest).length : Int) (p.chunkSize - p.chunkRead) = n :=
      ⟨_, (Int.toNat_of_nonneg (not_lt.mp forward)).symm⟩
    have pos : 0 < (c :: rest).length := Nat.succ_pos _
    refine .inr (.inr (.inr (.inr (.inr ⟨unread, notEnding, n, by omega, ?_, by omega, ?_⟩))))
    · rw [List.length_take]
      omega
    · simp only [if_neg read, copyLen]
      rfl

/-- An iteration behind the size line does what the decoder does. -/
theorem Sound.data_step (sound : Sound p) (size : 0 ≤ p.chunkSize) :
    (p.processStep c rest).Agrees ChunkDecoder.step decoder decoderVerdict p
      (c :: rest) := by
  have notSize : ¬ p.chunkSize < 0 := not_lt.mpr size
  rcases sound.processStep_of_data c rest size with
    ⟨read, first, isCr, answer⟩ | ⟨read, first, notCr, e, answer⟩ |
      ⟨read, second, isLf, last, answer⟩ | ⟨read, second, isLf, more, answer⟩ |
      ⟨read, second, notLf, e, answer⟩ | ⟨unread, first, n, pos, copied, fits, answer⟩
  all_goals rw [answer]
  · -- the carriage return behind the chunk
    refine ⟨Nat.one_pos, ?_⟩
    simp [decoder, first, ChunkDecoder.step, read, isCr, phase, notSize]
  · simp [BlockStep.Agrees, decoder, phase, notSize, first, ChunkDecoder.step, read, notCr,
      ChunkDecoder.threw]
  · -- the line feed behind the last chunk
    simp [BlockStep.Agrees, decoder, phase, second, ChunkDecoder.step, isLf, last]
  · -- the line feed behind any other chunk
    refine ⟨Nat.one_pos, ?_⟩
    have noLine : lineEnd [] = none := rfl
    simp [decoder, phase, notSize, second, ChunkDecoder.step, isLf, more, noLine]
  · simp [BlockStep.Agrees, decoder, phase, notSize, second, ChunkDecoder.step, notLf,
      ChunkDecoder.threw]
  · refine ⟨pos, ?_⟩
    have start : p.decoder = { p.decoder with phase := .chunkData p.chunkSize p.chunkRead } := by
      rw [decoder, phase, if_neg notSize, if_pos first]
    rw [start, ChunkDecoder.drive_chunkData (by omega), copied]
    simp [decoder, phase, notSize, first]

theorem Sound.step_agrees (sound : Sound p) (resumes : Resumes p c rest) :
    (p.processStep c rest).Agrees ChunkDecoder.step decoder decoderVerdict p
      (c :: rest) := by
  rcases lt_or_ge p.chunkSize 0 with size | size
  · exact sound.size_step resumes size
  · exact sound.data_step size

/-- Only an iteration that resumes behind its size line does what the decoder does. -/
theorem Sound.resumes_of_agrees (sound : Sound p)
    (agrees : (p.processStep c rest).Agrees ChunkDecoder.step decoder decoderVerdict p
      (c :: rest)) : Resumes p c rest := by
  intro size unfinished i found some
  obtain ⟨room, -⟩ := sound.sizeRoom size
  have short := length_lt_of_completed unfinished found
  rcases processStep_of_size c rest size with
    ⟨absent, -⟩ | ⟨absent, -⟩ | ⟨j, e, -, none, -⟩ | ⟨j, -, -, answer⟩
  · rw [found] at absent
    cases absent
  · rw [found] at absent
    cases absent
  · exact absurd none some
  · rw [answer] at agrees
    obtain ⟨-, agrees⟩ := agrees
    set number := strtoul 16 (cstr (p.fill (c :: rest))) with number_def
    rw [sound.decoder_sized size found] at agrees
    rcases Nat.lt_or_ge (min (number.2 + 2) (c :: rest).length) (i + 2 - p.tmpBuf.length) with
      early | behind
    · -- the decoder is still on the line
      exfalso
      rw [drive_early size unfinished room found early] at agrees
      simp only [Verdict.more.injEq, ChunkDecoder.mk.injEq, ChunkDecoder.sizeRead] at agrees
      split at agrees <;> cases agrees.1
    · rw [drive_consumed size unfinished room found behind] at agrees
      by_cases text : ∃ b ∈ (p.fill (c :: rest)).take i, isspace b = false
      · refine ⟨text, ?_⟩
        rw [ChunkDecoder.readLine, strtoul_completed_line found text, ← number_def, if_neg some,
          Verdict.bind_more] at agrees
        unfold resumeAt
        by_contra! away
        have nonneg : ¬ toInt32 number.1 < 0 := fun negative => by
          have := away.2 negative
          omega
        rw [ChunkDecoder.sizeRead, if_neg nonneg] at agrees
        refine ChunkDecoder.drive_chunkData_ne ?_ agrees
        rw [ne_eq, List.take_eq_nil_iff, List.drop_eq_nil_iff]
        omega
      · -- a blank line carries no number
        exfalso
        push Not at text
        rw [ChunkDecoder.readLine,
          strtoul_blank_line found fun b mem => by simpa using text b mem] at agrees
        cases agrees

/-- An iteration does what the decoder does exactly when it resumes behind its size line. -/
theorem Sound.step_agrees_iff (sound : Sound p) :
    (p.processStep c rest).Agrees ChunkDecoder.step decoder decoderVerdict p
      (c :: rest) ↔ Resumes p c rest :=
  ⟨sound.resumes_of_agrees, sound.step_agrees⟩

/-- An iteration that goes on keeps the processor sound. -/
theorem Sound.of_next (sound : Sound p) (resumes : Resumes p c rest) {p' : ChunkedProcessor}
    {n : Nat} (answer : p.processStep c rest = .next p' n) : Sound p' := by
  rcases lt_or_ge p.chunkSize 0 with size | size
  · obtain ⟨room, -⟩ := sound.sizeRoom size
    obtain ⟨noneRead, noneEnded⟩ := sound.sizeRead size
    have bound := length_fill_le room (c :: rest)
    rcases processStep_of_size c rest size with
      ⟨-, -, e, left⟩ | ⟨-, -, left⟩ | ⟨i, e, -, -, left⟩ | ⟨i, found, some, left⟩
    all_goals rw [left] at answer; injection answer
    next state _ =>
    subst state
    constructor <;> dsimp only
    · omega
    · exact fun _ => ⟨noneRead, noneEnded⟩
    · exact fun _ => ⟨bound, fun absent => by rw [found] at absent; cases absent⟩
    · intro negative j foundJ
      cases found.symm.trans foundJ
      have text : ∃ b ∈ (p.fill (c :: rest)).take i, isspace b = false := by
        cases unfinished : lineEnd p.tmpBuf with
        | none => exact (resumes size unfinished i found some).1
        | some j =>
            cases found.symm.trans (lineEnd_append unfinished _)
            have fits := lineEnd_le unfinished
            rw [fill, List.take_append_of_le_length (by omega)]
            exact (sound.overflowed size i unfinished).1
      rw [strtoul_line found text] at negative some
      exact ⟨text, some, negative⟩
    · intro nonneg
      omega
    · intro nonneg ending
      omega
  · rcases sound.processStep_of_data c rest size with
      ⟨read, -, -, left⟩ | ⟨-, -, -, e, left⟩ | ⟨-, -, -, -, left⟩ | ⟨-, -, -, -, left⟩ |
        ⟨-, -, -, e, left⟩ | ⟨-, first, k, -, -, fits, left⟩
    all_goals rw [left] at answer; injection answer
    · next state _ =>
      subst state
      exact { sound with
        endCount := le_rfl
        sizeRead := fun negative => absurd negative (not_lt.mpr size)
        endRead := fun _ _ => read }
    · next state _ =>
      subst state
      exact { Sound.init with }
    · next state _ =>
      subst state
      exact { sound with
        sizeRead := fun negative => absurd negative (not_lt.mpr size)
        dataRead := fun _ => fits
        endRead := fun _ ending => absurd first ending }

/-- A call that asks for more leaves the processor sound. -/
theorem Sound.of_exit (sound : Sound p) {p' : ChunkedProcessor}
    (answer : p.processStep c rest = .exit (.ok false, p')) : Sound p' := by
  rcases lt_or_ge p.chunkSize 0 with size | size
  · obtain ⟨room, -⟩ := sound.sizeRoom size
    have bound := length_fill_le room (c :: rest)
    rcases processStep_of_size c rest size with
      ⟨-, -, e, left⟩ | ⟨absent, notFull, left⟩ | ⟨i, e, -, -, left⟩ | ⟨i, -, -, left⟩
    all_goals rw [left] at answer; cases answer
    exact { sound with
      sizeRoom := fun _ => ⟨bound, fun _ => lt_of_le_of_ne bound notFull⟩
      overflowed := fun _ i found => by rw [absent] at found; cases found }
  · rcases sound.processStep_of_data c rest size with
      ⟨-, -, -, left⟩ | ⟨-, -, -, e, left⟩ | ⟨-, -, -, -, left⟩ | ⟨-, -, -, -, left⟩ |
        ⟨-, -, -, e, left⟩ | ⟨-, -, k, -, -, -, left⟩
    all_goals rw [left] at answer; cases answer

end Iteration

/-! ## One call -/

/-- Every iteration of the call resumes behind its size line. -/
def CallResumes (p : ChunkedProcessor) (segment : Bytes) : Prop :=
  LoopAlong processStep Resumes p segment

instance (p : ChunkedProcessor) (segment : Bytes) : Decidable (CallResumes p segment) :=
  inferInstanceAs (Decidable (LoopAlong processStep Resumes p segment))

variable {p : ChunkedProcessor} {segment : Bytes}

theorem Sound.loopAlong (sound : Sound p) (resumes : CallResumes p segment) :
    LoopAlong processStep (fun p c rest => Sound p ∧ Resumes p c rest) p segment :=
  LoopAlong.with_invariant (fun _ _ _ _ _ inv ok answer => inv.of_next ok answer) sound resumes

/-- A call does what the decoder does on the bytes of its segment. -/
theorem Sound.process_refines (sound : Sound p) (resumes : CallResumes p segment) :
    (call p segment).map decoder id = drive ChunkDecoder.step p.decoder segment :=
  blockLoop_drive decoderVerdict (fun _ => rfl) (fun _ _ _ ok => ok.1.step_agrees ok.2)
    (sound.loopAlong resumes)

/-- What is left for a next call is sound. -/
def LeavesSound (r : Result) : Prop := ∀ p', verdict r = .more p' → Sound p'

theorem Sound.process_leaves (sound : Sound p) (resumes : CallResumes p segment) :
    LeavesSound (p.process segment) := by
  refine blockLoop_induct LeavesSound (fun _ _ _ _ _ inv ok next => inv.of_next ok next) ?_ ?_
    sound resumes
  · rintro p c rest ⟨r, p₁⟩ inv - exit p' more
    rcases r with e | b
    · cases more
    · cases b
      · cases more
        exact inv.of_exit exit
      · cases more
  · rintro p inv p' ⟨⟩
    exact inv

end ChunkedProcessor

end PacketReplay
