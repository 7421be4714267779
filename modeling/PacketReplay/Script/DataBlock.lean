import PacketReplay.Lib.IStream
import PacketReplay.Lib.Search
import PacketReplay.Lib.Segments

/-!
# Reading a data block

`ConversationSerializer::read_action_data`, iteration by iteration. `held` is
`buf[0..read_ptr)`, what earlier iterations keep back in the buffer, and `size` is
always the room behind it. The overlapping `memcpy` that moves the last twelve
characters to the front of the buffer is taken to move them as `memmove` does. A block
that does not begin with `Enough` characters goes wrong at once (`readStep_start`).
-/

namespace PacketReplay

open Lib

def dataStartTag : Bytes := ascii "<#DATA_START#>"

def dataEndTag : Bytes := ascii "<#DATA_END#>"

/-- `delim`, the last character of the end tag. -/
def tagDelim : UInt8 := 62

/-- `BUFSIZ`. -/
def bufSiz : Nat := 8192

structure TagReader : Type where
  held : Bytes := []
  data : Bytes := []
  input : IStream
  deriving DecidableEq, Repr

namespace TagReader

/-- An iteration goes on, or it ends the loop with the data and the stream it leaves. -/
abbrev Step := Outcome (Verdict TagReader (Bytes × IStream))

/-- The end of an iteration. -/
def next (held data : Bytes) (input : IStream) : Step :=
  if input.eof then .ok (.halt (data, input)) else .ok (.more ⟨held, data, input⟩)

/-- The branch `if (check)`: the next character, the delimiter or at the end of the
stream the `char` of `EOF`, is put at `buf[12]`, and the C string at `buf + 1` is
compared with the end tag. Without twelve characters in front it has not been
written. -/
def checkTag (held data : Bytes) (input : IStream) : Step :=
  let got := input.get
  if held.length < dataEndTag.length then .error (.undefined .indeterminateValue)
  else
    let held := held.take dataEndTag.length ++ [got.1.getD 255]
    if cstr (held.drop 1) = dataEndTag then .ok (.halt (data ++ held.take 1, got.2))
    else next held data got.2

/-- One iteration of the loop. -/
def readStep (r : TagReader) : Step :=
  let peeked := r.input.peek
  if peeked.1 = some tagDelim then checkTag r.held r.data peeked.2
  else
    let size := bufSiz - r.held.length
    let read := peeked.2.getUpTo size tagDelim
    if read.1 = [] then .error (.thrown (.runtimeError (ascii "Failed to process file")))
    else
      let buf := r.held ++ read.1
      if buf.length < dataEndTag.length then .error (.undefined .reversedRange)
      else
        let keep := buf.length - dataEndTag.length
        let data := r.data ++ buf.take keep
        let held := buf.drop keep
        if read.1.length ≠ size - 1 then checkTag held data read.2 else next held data read.2

/-! ## Each iteration consumes input -/

theorem next_more {held data : Bytes} {input : IStream} {r : TagReader}
    (more : next held data input = .ok (.more r)) :
    r = ⟨held, data, input⟩ ∧ input.eof = false := by
  unfold next at more
  split at more
  · cases more
  · next open_ =>
      cases more
      exact ⟨rfl, by simpa using open_⟩

theorem checkTag_more {held data : Bytes} {input : IStream} {r : TagReader}
    (more : checkTag held data input = .ok (.more r)) :
    r.input = input.get.2 ∧ input.get.2.eof = false := by
  unfold checkTag at more
  simp only at more
  split at more
  · cases more
  · split at more
    · cases more
    · obtain ⟨rfl, goes⟩ := next_more more
      exact ⟨rfl, goes⟩

/-- Reading on from a stream without failures takes a character out of it. -/
theorem length_get_lt {input : IStream} (sound : input.fail = false)
    (goes : input.get.2.eof = false) : input.get.2.rest.length < input.rest.length := by
  obtain ⟨rest, eof, fail⟩ := input
  cases sound
  cases eof with
  | true => cases goes
  | false =>
      cases rest with
      | nil => cases goes
      | cons c rest => exact Nat.lt_succ_self _

theorem peek_rest (input : IStream) : input.peek.2.rest = input.rest := by
  obtain ⟨rest, eof, fail⟩ := input
  cases eof <;> cases fail <;> cases rest <;> rfl

theorem peek_sound {input : IStream} {c : UInt8} (some_next : input.peek.1 = some c) :
    input.peek.2.fail = false := by
  obtain ⟨rest, eof, fail⟩ := input
  cases eof <;> cases fail <;> cases rest <;> first | rfl | cases some_next

theorem getUpTo_sound {n : Nat} {delim : UInt8} {input : IStream}
    (nonempty : (input.getUpTo n delim).1 ≠ []) :
    (input.getUpTo n delim).2.fail = false ∧
      (input.getUpTo n delim).2.rest.length < input.rest.length := by
  have moved := input.length_getUpTo n delim
  have pos := List.length_pos_iff.mpr nonempty
  refine ⟨?_, by omega⟩
  unfold IStream.getUpTo at nonempty ⊢
  split at nonempty
  · next good =>
      rw [if_pos good]
      simpa using nonempty
  · cases nonempty rfl

theorem readStep_more {r s : TagReader} (more : readStep r = .ok (.more s)) :
    s.input.rest.length < r.input.rest.length := by
  unfold readStep at more
  simp only at more
  split at more
  · next delim =>
      obtain ⟨same, goes⟩ := checkTag_more more
      have shorter := length_get_lt (peek_sound delim) goes
      rwa [← same, peek_rest] at shorter
  · split at more
    · cases more
    · next nonempty =>
        obtain ⟨sound, shorter⟩ := getUpTo_sound nonempty
        rw [peek_rest] at shorter
        split at more
        · cases more
        · split at more
          · obtain ⟨same, goes⟩ := checkTag_more more
            have further := length_get_lt sound goes
            rw [← same] at further
            omega
          · obtain ⟨rfl, -⟩ := next_more more
            exact shorter

/-- The loop. -/
def readLoop (r : TagReader) : Outcome (Bytes × IStream) :=
  match _step : readStep r with
  | .error e => .error e
  | .ok (.halt result) => .ok result
  | .ok (.more s) => readLoop s
termination_by r.input.rest.length
decreasing_by exact readStep_more _step

theorem readLoop_of_error {r : TagReader} {e : Fault} (step : readStep r = .error e) :
    readLoop r = .error e := by
  rw [readLoop]
  split <;> simp_all

theorem readLoop_of_halt {r : TagReader} {result : Bytes × IStream}
    (step : readStep r = .ok (.halt result)) : readLoop r = .ok result := by
  rw [readLoop]
  split <;> simp_all

theorem readLoop_of_more {r s : TagReader} (step : readStep r = .ok (.more s)) :
    readLoop r = readLoop s := by
  rw [readLoop]
  split <;> simp_all

/-! ## The characters in front of the tag -/

theorem length_dataEndTag : dataEndTag.length = 12 := by decide

/-- The text begins with more characters than are held back, none of them a delimiter. -/
def Enough (s : Bytes) : Prop := 12 ≤ s.length ∧ tagDelim ∉ s.take 12

/-- What an iteration does with the characters that it reads. -/
theorem readStep_get {r : TagReader} {t : Bytes} {k : Nat} (left : r.input = .of t)
    (no_delim : t.head? ≠ some tagDelim) (in_text : k ≤ t.length) (some_read : 0 < k)
    (result : (IStream.of t).getUpTo (bufSiz - r.held.length) tagDelim =
      (t.take k, ⟨t.drop k, t.drop k = [], t.take k = []⟩))
    (long : 12 ≤ r.held.length + k) :
    readStep r =
      let buf := r.held ++ t.take k
      let held := buf.drop (buf.length - 12)
      let data := r.data ++ buf.take (buf.length - 12)
      let input := ⟨t.drop k, t.drop k = [], false⟩
      if k ≠ bufSiz - r.held.length - 1 then checkTag held data input
      else next held data input := by
  have read_length : (t.take k).length = k := List.length_take_of_le in_text
  have nonempty : t.take k ≠ [] := List.ne_nil_of_length_pos (by omega)
  have some_left : t ≠ [] := List.ne_nil_of_length_pos (by omega)
  have kept : ¬ (r.held ++ t.take k).length < 12 := by
    rw [List.length_append, read_length]
    omega
  have peeked : r.input.peek = (t.head?, .of t) := by
    rw [left, IStream.peek_good, decide_eq_false some_left]
    rfl
  rw [readStep, peeked]
  simp only [if_neg no_delim, result, nonempty, if_false, length_dataEndTag, if_neg kept,
    read_length, decide_false]

/-- A text that is too short, or has a delimiter too early, is not put into the buffer
behind enough characters. -/
theorem readStep_start {t : Bytes} (some_left : t ≠ []) (few : ¬ Enough t) :
    ∃ u, readStep { input := .of t } = .error (.undefined u) := by
  have peeked : (IStream.of t).peek = (t.head?, .of t) := by
    rw [IStream.peek_good, decide_eq_false some_left]
    rfl
  by_cases delim : t.head? = some tagDelim
  · refine ⟨.indeterminateValue, ?_⟩
    rw [readStep, peeked]
    simp only [if_pos delim]
    rfl
  · obtain ⟨k, fits, in_text, clean, stop, result⟩ := IStream.getUpTo_good bufSiz tagDelim t
    have short : k < 12 := by
      by_contra long
      have twelve_clean : tagDelim ∉ t.take 12 :=
        IStream.not_mem_take fun j below => clean j (by omega)
      exact few ⟨by omega, twelve_clean⟩
    have some_read : 0 < k := IStream.getUpTo_pos (by decide) some_left delim stop
    have read_length : (t.take k).length = k := List.length_take_of_le in_text
    have nonempty : t.take k ≠ [] := List.ne_nil_of_length_pos (by omega)
    have reversed : (([] : Bytes) ++ t.take k).length < 12 := by
      rw [List.nil_append, read_length]
      exact short
    refine ⟨.reversedRange, ?_⟩
    rw [readStep, peeked]
    simp only [if_neg delim, List.length_nil, Nat.sub_zero, result, nonempty, if_false,
      length_dataEndTag, if_pos reversed]

/-! ## No character is counted twice -/

/-- The characters a state has yet to account for. -/
def size (s : TagReader) : Nat := s.data.length + s.held.length + s.input.rest.length

/-- The same for the outcome of an iteration, with the end tag of a result. -/
def weight : Verdict TagReader (Bytes × IStream) → Nat
  | .more s => s.size
  | .halt (data, input) => data.length + dataEndTag.length + input.rest.length

theorem cstr_eq_dataEndTag_iff {s : Bytes} (twelve : s.length = 12) :
    cstr s = dataEndTag ↔ s = dataEndTag := by
  constructor
  · intro tag
    have whole := (cstr_isPrefix s).eq_of_length (by rw [tag, length_dataEndTag, twelve])
    rw [← whole, tag]
  · intro same
    subst same
    decide

theorem weight_next {held data : Bytes} {input : IStream}
    {v : Verdict TagReader (Bytes × IStream)} (step : next held data input = .ok v)
    (long : dataEndTag.length ≤ held.length) :
    weight v ≤ data.length + held.length + input.rest.length := by
  unfold next at step
  split at step
  · cases step
    simp only [weight]
    omega
  · cases step
    exact Nat.le_refl _

/-- The character that `EOF` is taken for does not end the tag. -/
theorem cstr_eof_ne_dataEndTag {held : Bytes} (twelve : held.length = dataEndTag.length) :
    cstr ((held ++ [255]).drop 1) ≠ dataEndTag := by
  intro tag
  have length : ((held ++ [255]).drop 1).length = 12 := by
    rw [List.length_drop, List.length_append, twelve, length_dataEndTag]
    rfl
  rw [cstr_eq_dataEndTag_iff length, List.drop_append_of_le_length (by rw [twelve]; decide)] at tag
  have mem : (255 : UInt8) ∈ dataEndTag := by
    rw [← tag]
    simp
  revert mem
  decide

theorem weight_checkTag {held data : Bytes} {input : IStream} (sound : input.fail = false)
    {v : Verdict TagReader (Bytes × IStream)} (step : checkTag held data input = .ok v) :
    weight v ≤ data.length + dataEndTag.length + input.rest.length := by
  unfold checkTag at step
  simp only at step
  split at step
  · cases step
  · next long =>
      rw [not_lt] at long
      have twelve : (held.take dataEndTag.length).length = dataEndTag.length := by
        rw [List.length_take, Nat.min_eq_left long]
      rcases got : input.get with ⟨c, after⟩
      rw [got] at step
      simp only at step
      cases c with
      | none =>
          rcases IStream.get_eq_none sound got with ⟨ended, same⟩
          rw [Option.getD_none, if_neg (cstr_eof_ne_dataEndTag twelve), next, if_pos ended] at step
          cases step
          simp only [weight, same]
          exact Nat.le_refl _
      | some c =>
          have taken := IStream.get_eq_some got
          have length : (held.take dataEndTag.length ++ [c]).length = dataEndTag.length + 1 := by
            rw [List.length_append, twelve]
            rfl
          rw [Option.getD_some] at step
          split at step
          · cases step
            simp only [weight, taken, List.length_append, List.length_take, List.length_cons]
            omega
          · have bound := weight_next step (by omega)
            rw [taken, List.length_cons]
            omega

theorem weight_readStep {s : TagReader} {v : Verdict TagReader (Bytes × IStream)}
    (step : readStep s = .ok v) : weight v ≤ s.size := by
  unfold readStep at step
  simp only at step
  split at step
  · next delim =>
      have bound := weight_checkTag (peek_sound delim) step
      have long : dataEndTag.length ≤ s.held.length := by
        by_contra short
        rw [checkTag, if_pos (by omega)] at step
        cases step
      rw [peek_rest] at bound
      unfold size
      omega
  · split at step
    · cases step
    · next nonempty =>
        have sound := (getUpTo_sound nonempty).1
        have moved := s.input.peek.2.length_getUpTo (bufSiz - s.held.length) tagDelim
        rw [peek_rest] at moved
        split at step
        · cases step
        · next long =>
            rw [List.length_append] at long
            unfold size
            split at step
            · have bound := weight_checkTag sound step
              simp only [List.length_append, List.length_take] at bound
              omega
            · have bound := weight_next step
                (by simp only [List.length_drop, List.length_append]; omega)
              simp only [List.length_append, List.length_take, List.length_drop] at bound
              omega

/-- A block read, with its tag and what is left, is no longer than the stream was. -/
theorem weight_readLoop {s : TagReader} {data : Bytes} {input : IStream}
    (run : readLoop s = .ok (data, input)) :
    data.length + dataEndTag.length + input.rest.length ≤ s.size := by
  induction left : s.input.rest.length using Nat.strongRecOn generalizing s with
  | ind bound ih =>
      rcases step : readStep s with e | v
      · rw [readLoop_of_error step] at run
        cases run
      · have weighed := weight_readStep step
        cases v with
        | more t =>
            rw [readLoop_of_more step] at run
            have shorter := readStep_more step
            exact (ih _ (left ▸ shorter) run rfl).trans weighed
        | halt result =>
            rw [readLoop_of_halt step] at run
            cases run
            exact weighed

end TagReader

/-- `read_action_data`: the data in front of the end tag, and the stream behind it. -/
def readActionData (input : IStream) : Outcome (Bytes × IStream) :=
  TagReader.readLoop { input := input }

theorem length_readActionData {input behind : IStream} {data : Bytes}
    (run : readActionData input = .ok (data, behind)) :
    data.length + dataEndTag.length + behind.rest.length ≤ input.rest.length := by
  have weighed := TagReader.weight_readLoop run
  simpa [TagReader.size] using weighed

theorem readActionData_consumes {input behind : IStream} {data : Bytes}
    (run : readActionData input = .ok (data, behind)) : input.Consumes behind := by
  have length := length_readActionData run
  have tag := TagReader.length_dataEndTag
  exact ⟨by omega, fun _ => by omega⟩

end PacketReplay
