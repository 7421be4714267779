import PacketReplay.Lib.Checked
import PacketReplay.Script.WrittenActions

/-!
# Data blocks without an end tag

What `read_action_data` does on a stream in which no end tag comes: it throws when it
asks for characters and there are none left, and where a `get` takes the last ones it
returns what it has. Which of the two happens is decided by the last character: behind a
delimiter the next iteration asks for more, `Noticed`.
-/

namespace PacketReplay

open Lib

namespace TagReader

/-! ## The last character -/

/-- There is nothing left, or what is left ends in a delimiter. -/
def Noticed (rest : Bytes) : Prop := rest = [] ∨ rest.getLast? = some tagDelim

theorem noticed_nil : Noticed [] := Or.inl rfl

theorem noticed_append {u rest : Bytes} (more_left : rest ≠ []) :
    Noticed (u ++ rest) ↔ Noticed rest := by
  rw [Noticed, Noticed, List.getLast?_append_of_ne_nil _ more_left]
  simp [more_left]

theorem noticed_append_delim (u rest : Bytes) :
    Noticed (u ++ tagDelim :: rest) ↔ Noticed rest := by
  rw [noticed_append (List.cons_ne_nil _ _)]
  cases rest with
  | nil => exact iff_of_true (Or.inr rfl) noticed_nil
  | cons c rest => exact noticed_append (u := [tagDelim]) (List.cons_ne_nil _ _)

theorem not_noticed_of_clean {rest : Bytes} (clean : tagDelim ∉ rest) (nonempty : rest ≠ []) :
    ¬ Noticed rest := by
  intro noticed
  rcases noticed with empty | ends
  · exact nonempty empty
  · exact clean (List.mem_of_getLast? ends)

/-! ## What is held -/

/-- What is held behind the last delimiter ends what has been read. -/
def Tail (s : Bytes) (p : Nat) (held : Bytes) : Prop :=
  ∀ w, w <:+ held → tagDelim ∉ w → w <:+ s.take p

/-- The state after the first `p` characters of a text without an end tag: nothing has
been read, or twelve characters are held, or thirteen that end in a delimiter and in no
tag. -/
structure Waits (s : Bytes) (p : Nat) (r : TagReader) : Prop where
  left : r.input = .of (s.drop p)
  bound : p ≤ s.length
  holds : p = 0 ∧ r.held = [] ∨ r.held.length = 12 ∧ Tail s p r.held ∨
    ∃ front, r.held = front ++ [tagDelim] ∧ front.length = 12 ∧ r.held.drop 1 ≠ dataEndTag

section Held

variable {s held : Bytes} {p : Nat} {r : TagReader}

theorem Waits.tail (waits : Waits s p r) : Tail s p r.held := by
  rcases waits.holds with ⟨-, empty⟩ | ⟨-, tail⟩ | ⟨front, same, -, -⟩
  · intro w suffix _
    rw [empty, List.suffix_nil] at suffix
    rw [suffix]
    exact List.nil_suffix
  · exact tail
  · intro w suffix clean
    rw [same] at suffix
    rcases List.eq_nil_or_concat w with rfl | ⟨v, c, rfl⟩
    · exact List.nil_suffix
    · rcases suffix with ⟨before, ends⟩
      rw [List.concat_eq_append, ← List.append_assoc] at ends
      have last := (List.append_inj' ends rfl).2
      rw [List.concat_eq_append, last, List.mem_append, not_or] at clean
      exact absurd (List.mem_singleton.mpr rfl) clean.2

/-- Characters are held as they are read. -/
theorem Tail.append (tail : Tail s p held) (k n : Nat) :
    Tail s (p + k) ((held ++ (s.drop p).take k).drop n) := by
  intro w suffix no_delim
  have whole : s.take (p + k) = s.take p ++ (s.drop p).take k := List.take_add
  have in_all := suffix.trans (List.drop_suffix n _)
  rw [whole]
  rcases List.suffix_or_suffix_of_suffix in_all (List.suffix_append held _) with short | long
  · exact short.trans (List.suffix_append _ _)
  · rcases long with ⟨v, rfl⟩
    rcases in_all with ⟨x, same⟩
    rw [← List.append_assoc] at same
    have in_held : v <:+ held := ⟨x, List.append_cancel_right same⟩
    obtain ⟨y, front⟩ := tail v in_held fun mem => no_delim (List.mem_append_left _ mem)
    exact ⟨y, by rw [← List.append_assoc, front]⟩

/-- A delimiter behind twelve characters of a text without an end tag ends none. -/
theorem Tail.not_tag (tail : Tail s p held) (absent : ¬ dataEndTag <:+: s)
    (twelve : held.length = 12) (delim : s[p]? = some tagDelim) :
    (held ++ [tagDelim]).drop 1 ≠ dataEndTag := by
  intro tag
  have split : dataEndTag = ascii "<#DATA_END#" ++ [tagDelim] := by decide
  rw [List.drop_append_of_le_length (by omega), split] at tag
  have front := List.append_cancel_right tag
  have suffix : ascii "<#DATA_END#" <:+ s.take p := by
    refine tail _ ?_ (by decide)
    rw [← front]
    exact List.drop_suffix 1 held
  rcases suffix with ⟨before, same⟩
  refine absent ⟨before, s.drop (p + 1), ?_⟩
  have next : s.take (p + 1) = s.take p ++ [tagDelim] := by
    rw [List.take_add_one, delim]
    rfl
  rw [split, ← List.append_assoc, same, ← next, List.take_append_drop]

/-- Nothing is the tag that is compared with it at a delimiter. -/
theorem Waits.not_tag (waits : Waits s p r) (absent : ¬ dataEndTag <:+: s)
    (some_held : r.held ≠ []) (delim : s[p]? = some tagDelim) :
    12 ≤ r.held.length ∧ (r.held.take 12 ++ [tagDelim]).drop 1 ≠ dataEndTag := by
  rcases waits.holds with ⟨-, empty⟩ | ⟨twelve, tail⟩ | ⟨front, same, twelve, other⟩
  · exact absurd empty some_held
  · rw [List.take_of_length_le twelve.le]
    exact ⟨twelve.ge, tail.not_tag absent twelve delim⟩
  · rw [same, List.take_left' twelve, ← same]
    refine ⟨?_, other⟩
    rw [same, List.length_append, twelve]
    exact Nat.le_add_right _ _

/-! ## One iteration -/

theorem drop_of_delim (delim : s[p]? = some tagDelim) :
    s.drop p = tagDelim :: s.drop (p + 1) ∧ p < s.length := by
  obtain ⟨inside, value⟩ := List.getElem?_eq_some_iff.mp delim
  exact ⟨by rw [List.drop_eq_getElem_cons inside, value], inside⟩

theorem checkTag_delim (data : Bytes) (long : 12 ≤ held.length)
    (other : (held.take 12 ++ [tagDelim]).drop 1 ≠ dataEndTag) (delim : s[p]? = some tagDelim) :
    ∃ r, checkTag held data (.of (s.drop p)) = .ok (.more r) ∧ Waits s (p + 1) r := by
  obtain ⟨next_char, inside⟩ := drop_of_delim delim
  have twelve : (held.take 12).length = 12 := List.length_take_of_le long
  have compared : cstr ((held.take 12 ++ [tagDelim]).drop 1) ≠ dataEndTag := by
    rwa [ne_eq, cstr_eq_dataEndTag_iff (by rw [List.length_drop, List.length_append, twelve]; rfl)]
  refine ⟨⟨held.take 12 ++ [tagDelim], data, .of (s.drop (p + 1))⟩, ?_, ?_⟩
  · rw [checkTag, next_char, IStream.get_good, length_dataEndTag, if_neg (by omega)]
    simp only [Option.getD_some]
    rw [if_neg compared, next, if_neg (by simp)]
  · exact ⟨rfl, inside, Or.inr (Or.inr ⟨held.take 12, rfl, twelve, other⟩)⟩

/-- At the end of the stream the characters that are held are left out. -/
theorem checkTag_ended (data : Bytes) (long : 12 ≤ held.length) :
    ∃ result, checkTag held data ⟨[], true, false⟩ = .ok (.halt result) := by
  have twelve : (held.take dataEndTag.length).length = dataEndTag.length := by
    rw [length_dataEndTag, List.length_take_of_le long]
  have got : (⟨[], true, false⟩ : IStream).get = (none, ⟨[], true, true⟩) := rfl
  refine ⟨(data, ⟨[], true, true⟩), ?_⟩
  rw [checkTag, got, if_neg (by rw [length_dataEndTag]; omega)]
  simp only [Option.getD_none]
  rw [if_neg (cstr_eof_ne_dataEndTag twelve), next, if_pos rfl]

/-- Where an iteration goes: it throws at the end, holds thirteen characters behind a
delimiter or twelve behind a full buffer, or has taken the last characters and returns. -/
inductive Goes (s : Bytes) (p : Nat) : Step → Prop
  | ended {e : Exn} (none_left : s.drop p = []) : Goes s p (.error (.thrown e))
  | delim {u rest : Bytes} {r : TagReader} (text : s.drop p = u ++ tagDelim :: rest)
      (later : Waits s (p + (u.length + 1)) r) : Goes s p (.ok (.more r))
  | full {u rest : Bytes} {r : TagReader} (text : s.drop p = u ++ rest) (some_read : u ≠ [])
      (more_left : rest ≠ []) (later : Waits s (p + u.length) r) : Goes s p (.ok (.more r))
  | last {result : Bytes × IStream} (clean : tagDelim ∉ s.drop p) (nonempty : s.drop p ≠ []) :
      Goes s p (.ok (.halt result))

theorem Waits.held_bounds (waits : Waits s p r) : r.held.length ≤ 13 := by
  rcases waits.holds with ⟨-, empty⟩ | ⟨twelve, -⟩ | ⟨front, same, twelve, -⟩
  · simp [empty]
  · omega
  · simp [same, twelve]

/-- How much a `get` reads: it stops at a delimiter, at the end of the text or when the
buffer is full, and then more is held than is held back. -/
theorem Waits.get_bounds (waits : Waits s p r) (enough : Enough s)
    (no_delim : (s.drop p).head? ≠ some tagDelim) (some_left : s.drop p ≠ []) {k : Nat}
    (stop : k = bufSiz - r.held.length - 1 ∨ (s.drop p)[k]? = some tagDelim ∨
      k = (s.drop p).length) : 0 < k ∧ 12 ≤ r.held.length + k := by
  have room := waits.held_bounds
  have size_eq : bufSiz = 8192 := rfl
  have some_read : 0 < k := IStream.getUpTo_pos (by omega) some_left no_delim stop
  refine ⟨some_read, ?_⟩
  rcases waits.holds with ⟨zero, empty⟩ | ⟨twelve, -⟩ | ⟨front, same, twelve, -⟩
  · -- the first read brings the twelve characters that are held back
    subst zero
    by_contra short
    rw [List.drop_zero] at stop
    rcases stop with full | here | done
    · rw [empty, List.length_nil] at full
      omega
    · refine enough.2 (List.mem_iff_getElem?.mpr ⟨k, ?_⟩)
      rw [List.getElem?_take_of_lt (by omega)]
      exact here
    · have twelve := enough.1
      omega
  · omega
  · rw [same, List.length_append, twelve]
    omega

theorem Waits.goes_get (waits : Waits s p r) (absent : ¬ dataEndTag <:+: s) (enough : Enough s)
    (some_left : s.drop p ≠ []) (no_delim : (s.drop p).head? ≠ some tagDelim) :
    Goes s p (readStep r) := by
  obtain ⟨k, fits, in_text, clean, stop, result⟩ :=
    IStream.getUpTo_good (bufSiz - r.held.length) tagDelim (s.drop p)
  obtain ⟨some_read, long⟩ := waits.get_bounds enough no_delim some_left stop
  have clean_read : tagDelim ∉ (s.drop p).take k := IStream.not_mem_take clean
  have read_length : ((s.drop p).take k).length = k := List.length_take_of_le in_text
  have split : s.drop p = (s.drop p).take k ++ s.drop (p + k) := by
    rw [← List.drop_drop]
    exact (List.take_append_drop k _).symm
  have turn := readStep_get waits.left no_delim in_text some_read result long
  set buf := r.held ++ (s.drop p).take k with buf_def
  have held_length : (buf.drop (buf.length - 12)).length = 12 := by
    rw [List.length_drop, buf_def, List.length_append, read_length]
    omega
  have tail : Tail s (p + k) (buf.drop (buf.length - 12)) := waits.tail.append k _
  have of_left : ∀ t : Bytes, (⟨t, false, false⟩ : IStream) = .of t := fun _ => rfl
  rw [turn]
  simp only [List.drop_drop]
  by_cases ended : s.drop (p + k) = []
  · -- the last character has been taken, so the loop ends whether or not the buffer is full
    have last : tagDelim ∉ s.drop p := by
      rw [split, ended, List.append_nil]
      exact clean_read
    rw [ended, decide_eq_true rfl]
    split
    · obtain ⟨result, step⟩ := checkTag_ended (r.data ++ buf.take (buf.length - 12))
        held_length.ge
      rw [step]
      exact .last last some_left
    · rw [next, if_pos rfl]
      exact .last last some_left
  · rw [decide_eq_false ended, of_left]
    by_cases full : k = bufSiz - r.held.length - 1
    · rw [if_neg (not_not.mpr full), next, if_neg (by simp)]
      refine .full split (List.ne_nil_of_length_pos (by omega)) ended ?_
      rw [read_length]
      rw [List.length_drop] at in_text
      have bound := waits.bound
      exact ⟨rfl, by omega, Or.inr (Or.inl ⟨held_length, tail⟩)⟩
    · rw [if_pos full]
      rcases stop with all | here | done
      · exact absurd all full
      · have delim : s[p + k]? = some tagDelim := by rwa [List.getElem?_drop] at here
        obtain ⟨next_char, -⟩ := drop_of_delim delim
        have other_tag := tail.not_tag absent held_length delim
        rw [← List.take_of_length_le held_length.le] at other_tag
        obtain ⟨r', step, later⟩ := checkTag_delim _ held_length.ge other_tag delim
        rw [step]
        refine .delim (split.trans (by rw [next_char])) ?_
        rwa [read_length]
      · refine absurd (List.drop_eq_nil_iff.mpr ?_) ended
        rw [List.length_drop] at done
        omega

theorem Waits.goes (waits : Waits s p r) (absent : ¬ dataEndTag <:+: s) (enough : Enough s) :
    Goes s p (readStep r) := by
  rcases text : s.drop p with _ | ⟨c, rest⟩
  · have threw : ∃ e, readStep r = .error (.thrown e) := by
      have left : r.input = .of [] := by rw [waits.left, text]
      exact ⟨_, by rw [readStep, left]; rfl⟩
    rcases threw with ⟨e, step⟩
    rw [step]
    exact .ended text
  · by_cases same : c = tagDelim
    · subst same
      have delim : s[p]? = some tagDelim := by
        rw [← Nat.add_zero p, ← List.getElem?_drop, text, List.getElem?_cons_zero]
      have some_held : r.held ≠ [] := by
        intro empty
        rcases waits.holds with ⟨zero, -⟩ | ⟨twelve, -⟩ | ⟨front, same, -, -⟩
        · subst zero
          refine enough.2 (List.mem_iff_getElem?.mpr ⟨0, ?_⟩)
          rwa [List.getElem?_take_of_lt (by omega)]
        · rw [empty] at twelve
          cases twelve
        · rw [empty] at same
          simp at same
      obtain ⟨long, other⟩ := waits.not_tag absent some_held delim
      obtain ⟨r', step, later⟩ := checkTag_delim r.data long other delim
      have turn : readStep r = checkTag r.held r.data (.of (s.drop p)) := by
        rw [readStep, waits.left, text]
        rfl
      rw [turn, step]
      exact .delim (u := []) text later
    · refine waits.goes_get absent enough (by rw [text]; exact List.cons_ne_nil _ _) ?_
      rw [text]
      simpa using same

/-! ## The run -/

/-- The loop throws exactly when the end of the text is noticed. -/
theorem throws_readLoop_iff (waits : Waits s p r) (absent : ¬ dataEndTag <:+: s)
    (enough : Enough s) : Throws (readLoop r) ↔ Noticed (s.drop p) := by
  induction left : s.length - p using Nat.strongRecOn generalizing p r with
  | ind bound ih =>
      have goes := waits.goes absent enough
      generalize step : readStep r = answer at goes
      cases goes with
      | ended none_left =>
          rw [readLoop_of_error step, none_left]
          exact iff_of_true (throws_thrown _) noticed_nil
      | @delim u rest r' text later =>
          have further := congrArg List.length text
          rw [List.length_drop, List.length_append, List.length_cons] at further
          have behind : s.drop (p + (u.length + 1)) = rest := by
            rw [← List.drop_drop, text, ← List.drop_drop, List.drop_left]
            rfl
          have run := ih (s.length - (p + (u.length + 1))) (by omega) later rfl
          rw [behind] at run
          rw [readLoop_of_more step, text, noticed_append_delim]
          exact run
      | @full u rest r' text some_read more_left later =>
          have further := congrArg List.length text
          have pos := List.length_pos_iff.mpr some_read
          rw [List.length_drop, List.length_append] at further
          have behind : s.drop (p + u.length) = rest := by
            rw [← List.drop_drop, text, List.drop_left]
          have run := ih (s.length - (p + u.length)) (by omega) later rfl
          rw [behind] at run
          rw [readLoop_of_more step, text, noticed_append more_left]
          exact run
      | last clean nonempty =>
          rw [readLoop_of_halt step]
          exact iff_of_false (not_throws_ok _) (not_noticed_of_clean clean nonempty)

end Held

end TagReader

/-! ## The block -/

open TagReader

namespace ConversationSerializer

/-- A text without an end tag is an error, and so is the action that it is the block of. -/
def EndTagRequired (s : Bytes) : Prop :=
  Throws (readActionData (.of s)) ∧
    ∀ type, Throws (readActions
      (.of (actionTypeToString type ++ lf :: (dataStartTag ++ lf :: s))))

theorem throws_readActionData_iff {s : Bytes} (absent : ¬ dataEndTag <:+: s) :
    Throws (readActionData (.of s)) ↔ tagDelim ∉ s.take 12 ∧ Noticed s := by
  have start : Waits s 0 { input := .of s } := ⟨rfl, Nat.zero_le _, Or.inl ⟨rfl, rfl⟩⟩
  by_cases enough : Enough s
  · rw [readActionData, throws_readLoop_iff start absent enough, and_iff_right enough.2]
    rfl
  · by_cases empty : s = []
    · subst empty
      have threw : Throws (readActionData (.of [])) := by
        have step : readStep { input := .of [] } =
            .error (.thrown (.runtimeError (ascii "Failed to process file"))) := rfl
        exact ⟨_, readLoop_of_error step⟩
      exact iff_of_true threw ⟨List.not_mem_nil, noticed_nil⟩
    · obtain ⟨u, step⟩ := readStep_start empty enough
      rw [readActionData, readLoop_of_error step]
      refine iff_of_false (not_throws_undefined u) ?_
      intro given
      rcases given with ⟨clean, noticed⟩
      have short : s.length < 12 := by
        by_contra long
        exact enough ⟨by omega, clean⟩
      rw [List.take_of_length_le short.le] at clean
      exact not_noticed_of_clean clean empty noticed

/-- An action whose block is an error is one. -/
theorem throws_readActions_of_block {s : Bytes} (threw : Throws (readActionData (.of s)))
    (type : ActionType) :
    Throws (readActions (.of (actionTypeToString type ++ lf :: (dataStartTag ++ lf :: s)))) := by
  rcases threw with ⟨e, threw⟩
  have read : readAction (.of (actionTypeToString type ++ lf :: (dataStartTag ++ lf :: s))) =
      .error (.thrown e) := by
    rw [readAction, readType_actionType, ok_bind, readProperties_startTag, threw]
    rfl
  refine ⟨e, ?_⟩
  rw [readActions, read]
  rfl

/-- A missing end tag is noticed exactly when the text is empty or ends in a delimiter,
none of which stands among its first twelve characters. Otherwise the text is cut, or the
buffer is read where nothing has been put. -/
theorem endTagRequired_iff (s : Bytes) (absent : ¬ dataEndTag <:+: s) :
    EndTagRequired s ↔ tagDelim ∉ s.take 12 ∧ Noticed s := by
  rw [EndTagRequired, ← throws_readActionData_iff absent]
  exact and_iff_left_of_imp throws_readActions_of_block

theorem endTagRequired_delim :
    EndTagRequired (ascii "hello world >") ↔
      tagDelim ∉ (ascii "hello world >").take 12 ∧ Noticed (ascii "hello world >") :=
  endTagRequired_iff (ascii "hello world >") (by decide)

/-- Nineteen characters without an end tag are returned, less the twelve that are held. -/
theorem not_endTagRequired_short : ¬ ∀ s : Bytes, ¬ dataEndTag <:+: s → EndTagRequired s := by
  intro always
  have noticed := (throws_readActionData_iff (by decide)).mp
    (always (ascii "hello world, no tag") (by decide)).1
  exact not_noticed_of_clean (by decide) (by decide) noticed.2

end ConversationSerializer

end PacketReplay
