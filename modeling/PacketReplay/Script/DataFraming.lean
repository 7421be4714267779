import PacketReplay.Script.DataBlock

/-!
# Which data blocks are framed exactly

`read_action_data` holds the last twelve characters back in its buffer, thirteen
after a delimiter that did not end the tag. When another delimiter follows at once
it is stored over the thirteenth character, which is lost. `Tracks` is the state of
the loop before the end tag has been read, `readLoop_tracks` the run, and
`readActionData_eq_iff` says exactly which data is read back.
-/

namespace PacketReplay

open Lib

namespace TagReader

/-! ## The text being read -/

/-- Data, the end tag and what follows. -/
def framed (d r : Bytes) : Bytes := d ++ dataEndTag ++ r

theorem framed_getElem?_data {d r : Bytes} {i : Nat} (inside : i < d.length) :
    (framed d r)[i]? = d[i]? := by
  rw [framed, List.append_assoc, List.getElem?_append_left inside]

theorem framed_getElem?_tag {d r : Bytes} {i : Nat} (inside : i < 12) :
    (framed d r)[d.length + i]? = dataEndTag[i]? := by
  rw [framed, List.append_assoc, List.getElem?_append_right (Nat.le_add_right _ _),
    Nat.add_sub_cancel_left, List.getElem?_append_left (by rwa [length_dataEndTag])]

/-- The delimiter stands at the end of the tag only. -/
theorem tagDelim_in_dataEndTag : ∀ i < 12, dataEndTag[i]? = some tagDelim ↔ i = 11 := by decide

theorem framed_delim_iff {d r : Bytes} {i : Nat} (behind : d.length ≤ i)
    (inside : i < d.length + 12) : (framed d r)[i]? = some tagDelim ↔ i = d.length + 11 := by
  obtain ⟨k, rfl⟩ := Nat.exists_eq_add_of_le behind
  rw [framed_getElem?_tag (by omega), tagDelim_in_dataEndTag k (by omega)]
  omega

theorem length_framed (d r : Bytes) : (framed d r).length = d.length + 12 + r.length := by
  rw [framed, List.length_append, List.length_append, length_dataEndTag]

theorem take_framed (d r : Bytes) : (framed d r).take (d.length + 12) = d ++ dataEndTag := by
  rw [framed]
  exact List.take_left' (by rw [List.length_append, length_dataEndTag])

theorem drop_framed (d r : Bytes) : (framed d r).drop (d.length + 12) = r := by
  rw [framed]
  exact List.drop_left' (by rw [List.length_append, length_dataEndTag])

/-- Two delimiters in a row. -/
def pair : Bytes := [tagDelim, tagDelim]

/-- Two delimiters in a row, up to the end tag, are two in the data. -/
theorem isInfix_pair {d r : Bytes} {i : Nat} (inside : i + 1 < d.length + 12)
    (first : (framed d r)[i]? = some tagDelim) (second : (framed d r)[i + 1]? = some tagDelim) :
    pair <:+: d := by
  have inData : i + 1 < d.length := by
    by_contra behind
    have last := (framed_delim_iff (by omega) inside).mp second
    have before := (framed_delim_iff (r := r) (by omega) (by omega)).mp first
    omega
  rw [framed_getElem?_data (by omega)] at first
  rw [framed_getElem?_data inData] at second
  rw [isInfix_iff_occursAt]
  refine ⟨i, ⟨d.drop (i + 2), ?_⟩⟩
  obtain ⟨_, atFirst⟩ := List.getElem?_eq_some_iff.mp first
  obtain ⟨_, atSecond⟩ := List.getElem?_eq_some_iff.mp second
  rw [List.drop_eq_getElem_cons (by omega : i < d.length), atFirst,
    List.drop_eq_getElem_cons inData, atSecond]
  rfl

/-- Up to the position `p` no delimiter follows another. -/
def NoPair (text : Bytes) (p : Nat) : Prop :=
  ∀ i, i + 1 < p → text[i]? = some tagDelim → text[i + 1]? ≠ some tagDelim

theorem not_isInfix_pair {d r : Bytes} (none : NoPair (framed d r) (d.length + 12)) :
    ¬ pair <:+: d := by
  rw [isInfix_iff_occursAt]
  intro given
  rcases given with ⟨i, at_i⟩
  have bound : i + 2 ≤ d.length := at_i.le_length (by decide)
  have first : d[i + 0]? = some tagDelim := at_i.getElem? (by decide)
  have second : d[i + 1]? = some tagDelim := at_i.getElem? (by decide)
  refine none i (by omega) ?_ ?_
  · rw [framed_getElem?_data (by omega)]
    exact first
  · rw [framed_getElem?_data (by omega)]
    exact second

/-! ## The loop before the end tag -/

/-- The state after the first `p` characters of the text, before its end tag has
been read. -/
structure Tracks (d r : Bytes) (p : Nat) (s : TagReader) : Prop where
  read : s.data ++ s.held = (framed d r).take p
  left : s.input = .of ((framed d r).drop p)
  before : p < d.length + 12
  noPair : NoPair (framed d r) p
  /-- Nothing has been read, or twelve characters are held that no delimiter ends, or
  thirteen that one does. -/
  holds :
    (p = 0 ∧ s.held = [] ∧ ∀ j < 12, (framed d r)[j]? ≠ some tagDelim) ∨
      (0 < p ∧ s.held.length = 12 ∧ (framed d r)[p - 1]? ≠ some tagDelim) ∨
      (0 < p ∧ s.held.length = 13 ∧ (framed d r)[p - 1]? = some tagDelim)

/-- How a run ends: with exactly the data when no two delimiters stand in a row in
it, and short of characters otherwise. -/
def Settles (d r : Bytes) (result : Outcome (Bytes × IStream)) : Prop :=
  (¬ pair <:+: d ∧ result = .ok (d, .of r)) ∨
    (pair <:+: d ∧ ∀ data input, result = .ok (data, input) →
      data.length + input.rest.length < d.length + r.length)

/-! ## Characters lost -/

/-- A delimiter right behind thirteen held characters costs one of them. -/
theorem readLoop_loses {s : TagReader} {rest data : Bytes} {input : IStream}
    (thirteen : s.held.length = 13) (delim : s.input = .of (tagDelim :: rest))
    (run : readLoop s = .ok (data, input)) :
    data.length + dataEndTag.length + input.rest.length < s.size := by
  have check : readStep s = checkTag s.held s.data s.input := by
    unfold readStep
    rw [delim]
    rfl
  have size : s.size = s.data.length + 13 + s.input.rest.length := by
    rw [TagReader.size, thirteen]
  rcases step : readStep s with e | v
  · rw [readLoop_of_error step] at run
    cases run
  · have weighed : weight v ≤ s.data.length + dataEndTag.length + s.input.rest.length :=
      weight_checkTag (by rw [delim]; rfl) (check ▸ step)
    rw [length_dataEndTag] at weighed ⊢
    cases v with
    | more t =>
        rw [readLoop_of_more step] at run
        have rest := weight_readLoop run
        rw [length_dataEndTag] at rest
        simp only [weight] at weighed
        omega
    | halt result =>
        rw [readLoop_of_halt step] at run
        cases run
        simp only [weight, length_dataEndTag] at weighed
        omega

/-! ## The run over a block -/

/-- The end tag read: what has been read ends in it exactly behind the data. -/
theorem tag_read_iff {d r data held : Bytes} {p : Nat} (absent : ¬ dataEndTag <:+: d)
    (twelve : held.length = 12) (read : data ++ held = (framed d r).take p)
    (delim : (framed d r)[p]? = some tagDelim) (before : p < d.length + 12) :
    (held ++ [tagDelim]).drop 1 = dataEndTag ↔ p + 1 = d.length + 12 := by
  have bound : p + 1 ≤ (framed d r).length := by
    rw [length_framed]
    omega
  have extended : data ++ (held ++ [tagDelim]) = (framed d r).take (p + 1) := by
    rw [← List.append_assoc, read, List.take_add_one, delim]
    rfl
  have position : data.length + 12 = p := by
    have lengths := congrArg List.length read
    rw [List.length_append, List.length_take, twelve] at lengths
    omega
  have last : (held ++ [tagDelim]).drop 1 = ((framed d r).take (p + 1)).drop (data.length + 1) := by
    rw [← extended, ← List.drop_drop, List.drop_left]
  have first : find dataEndTag (framed d r) = some d.length :=
    find_append_self (a := 60) (u := ascii "#DATA_END#>") (by decide) absent r
  constructor
  · intro tag
    have at_p : OccursAt dataEndTag (framed d r) (data.length + 1) := by
      rw [← tag, last, OccursAt]
      exact ((List.take_prefix (p + 1) _).drop _)
    by_contra other
    have early := (find_eq_some_iff.mp first).2.2 (data.length + 1) (by omega)
    exact early at_p
  · intro ends
    have at_end : data.length + 1 = d.length := by omega
    rw [last, at_end, ends, take_framed, List.drop_left]

theorem checkTag_tracks {d r data held : Bytes} {p : Nat} (absent : ¬ dataEndTag <:+: d)
    (twelve : held.length = 12) (read : data ++ held = (framed d r).take p)
    (delim : (framed d r)[p]? = some tagDelim) (before : p < d.length + 12)
    (noPair : NoPair (framed d r) (p + 1)) :
    (¬ pair <:+: d ∧ checkTag held data (.of ((framed d r).drop p)) = .ok (.halt (d, .of r))) ∨
      ∃ s, checkTag held data (.of ((framed d r).drop p)) = .ok (.more s) ∧
        Tracks d r (p + 1) s := by
  have next_char : (framed d r).drop p = tagDelim :: (framed d r).drop (p + 1) := by
    obtain ⟨inside, value⟩ := List.getElem?_eq_some_iff.mp delim
    rw [List.drop_eq_getElem_cons inside, value]
  have extended : data ++ (held ++ [tagDelim]) = (framed d r).take (p + 1) := by
    rw [← List.append_assoc, read, List.take_add_one, delim]
    rfl
  have whole : held.take dataEndTag.length = held :=
    List.take_of_length_le (by rw [twelve, length_dataEndTag])
  have tagIff := tag_read_iff absent twelve read delim before
  have compared : cstr ((held ++ [tagDelim]).drop 1) = dataEndTag ↔ p + 1 = d.length + 12 := by
    rw [cstr_eq_dataEndTag_iff (by rw [List.length_drop, List.length_append, twelve]; rfl), tagIff]
  unfold checkTag
  rw [next_char, IStream.get_good, if_neg (by rw [twelve, length_dataEndTag]; omega)]
  simp only [whole, Option.getD_some]
  by_cases ends : p + 1 = d.length + 12
  · left
    refine ⟨not_isInfix_pair (ends ▸ noPair), ?_⟩
    have tag := tagIff.mpr ends
    have readBack : data ++ (held ++ [tagDelim]).take 1 = d := by
      have split := List.take_append_drop 1 (held ++ [tagDelim])
      rw [tag] at split
      rw [← split, ends, take_framed, ← List.append_assoc] at extended
      exact List.append_cancel_right extended
    rw [if_pos (compared.mpr ends), readBack, ends, drop_framed]
  · right
    rw [if_neg (mt compared.mp ends), next, if_neg (by simp)]
    refine ⟨_, rfl, extended, rfl, by omega, noPair, Or.inr (Or.inr ⟨p.succ_pos, ?_, delim⟩)⟩
    rw [List.length_append, twelve]
    rfl

/-- Characters that are no delimiters do not make a pair. -/
theorem NoPair.add {text : Bytes} {p k : Nat} (none : NoPair text p)
    (clean : ∀ j < k, text[p + j]? ≠ some tagDelim) : NoPair text (p + k) := by
  intro i inside first
  by_cases old : i + 1 < p
  · exact none i old first
  · have behind := clean (i + 1 - p) (by omega)
    rwa [Nat.add_sub_cancel' (by omega)] at behind

/-- Nor does a character behind one that is no delimiter. -/
theorem NoPair.succ {text : Bytes} {p : Nat} (none : NoPair text p)
    (before : text[p - 1]? ≠ some tagDelim) : NoPair text (p + 1) := by
  intro i inside first
  by_cases old : i + 1 < p
  · exact none i old first
  · have at_p : i = p - 1 := by omega
    exact absurd (at_p ▸ first) before

/-- What the `get` of an iteration takes. -/
theorem getUpTo_framed {d r : Bytes} {p n : Nat} (before : p < d.length + 12)
    (delim : (framed d r)[p]? ≠ some tagDelim) (room : 1 < n) :
    ∃ k, 0 < k ∧ k ≤ n - 1 ∧ p + k < d.length + 12 ∧
      (∀ j < k, (framed d r)[p + j]? ≠ some tagDelim) ∧
      (k ≠ n - 1 → (framed d r)[p + k]? = some tagDelim) ∧
      (IStream.of ((framed d r).drop p)).getUpTo n tagDelim =
        (((framed d r).drop p).take k, .of ((framed d r).drop (p + k))) := by
  obtain ⟨k, fits, inText, clean, stop, result⟩ :=
    IStream.getUpTo_good n tagDelim ((framed d r).drop p)
  have length := length_framed d r
  have some_left : (framed d r).drop p ≠ [] :=
    List.ne_nil_of_length_pos (by rw [List.length_drop]; omega)
  have first : ((framed d r).drop p).head? ≠ some tagDelim := by rwa [List.head?_drop]
  have some_read : 0 < k := IStream.getUpTo_pos (by omega) some_left first stop
  rw [List.length_drop] at inText stop
  simp only [List.getElem?_drop] at clean stop
  have tagEnd : (framed d r)[d.length + 11]? = some tagDelim :=
    (framed_delim_iff (by omega) (by omega)).mpr rfl
  have short : p + k < d.length + 12 := by
    by_contra far
    refine clean (d.length + 11 - p) (by omega) ?_
    rwa [Nat.add_sub_cancel' (by omega)]
  refine ⟨k, some_read, fits, short, clean, ?_, ?_⟩
  · intro notFull
    rcases stop with full | here | done
    · exact absurd full notFull
    · exact here
    · omega
  · have more_left : (framed d r).drop (p + k) ≠ [] :=
      List.ne_nil_of_length_pos (by rw [List.length_drop]; omega)
    have nonempty : ((framed d r).drop p).take k ≠ [] := by
      exact List.ne_nil_of_length_pos (by rw [List.length_take, List.length_drop]; omega)
    rw [result, List.drop_drop]
    simp only [more_left, nonempty, decide_false]
    rfl

namespace Tracks

variable {d r : Bytes} {p k : Nat} {s : TagReader}

theorem peek (tracks : Tracks d r p s) :
    s.input.peek = ((framed d r)[p]?, .of ((framed d r).drop p)) := by
  have before := tracks.before
  have length := length_framed d r
  have some_left : (framed d r).drop p ≠ [] :=
    List.ne_nil_of_length_pos (by rw [List.length_drop]; omega)
  rw [tracks.left, IStream.peek_good, List.head?_drop]
  simp only [some_left, decide_false]
  rfl

/-- There is room in the buffer for another character. -/
theorem room (tracks : Tracks d r p s) : 1 < bufSiz - s.held.length := by
  rcases tracks.holds with ⟨-, empty, -⟩ | ⟨-, twelve, -⟩ | ⟨-, thirteen, -⟩
  · rw [empty]
    decide
  · rw [twelve]
    decide
  · rw [thirteen]
    decide

/-- The buffer holds twelve characters, also after the first read. -/
theorem length_le (tracks : Tracks d r p s)
    (stop : k ≠ bufSiz - s.held.length - 1 → (framed d r)[p + k]? = some tagDelim) :
    dataEndTag.length ≤ s.held.length + k := by
  rw [length_dataEndTag]
  rcases tracks.holds with ⟨zero, empty, start⟩ | ⟨-, twelve, -⟩ | ⟨-, thirteen, -⟩
  · by_contra tooShort
    have notFull : k ≠ bufSiz - s.held.length - 1 := by
      rw [empty] at tooShort ⊢
      intro full
      rw [full] at tooShort
      revert tooShort
      decide
    have here := stop notFull
    rw [zero, Nat.zero_add] at here
    exact start k (by omega) here
  · omega
  · omega

/-- The iteration at a delimiter. -/
theorem readStep_delim (absent : ¬ dataEndTag <:+: d) (tracks : Tracks d r p s)
    (delim : (framed d r)[p]? = some tagDelim) :
    (¬ pair <:+: d ∧ readStep s = .ok (.halt (d, .of r))) ∨
      (∃ q t, readStep s = .ok (.more t) ∧ Tracks d r q t) ∨
        (s.held.length = 13 ∧ 0 < p ∧ (framed d r)[p - 1]? = some tagDelim) := by
  have check : readStep s = checkTag s.held s.data (.of ((framed d r).drop p)) := by
    unfold readStep
    rw [tracks.peek, if_pos delim]
  rcases tracks.holds with ⟨zero, -, clean⟩ | ⟨pos, twelve, prior⟩ | ⟨pos, thirteen, prior⟩
  · exact absurd (zero ▸ delim) (clean 0 (by omega))
  · rw [check]
    rcases checkTag_tracks absent twelve tracks.read delim tracks.before
      (tracks.noPair.succ prior) with done | ⟨t, more, tracks⟩
    · exact Or.inl done
    · exact Or.inr (Or.inl ⟨_, t, more, tracks⟩)
  · exact Or.inr (Or.inr ⟨thirteen, pos, prior⟩)

/-- The iteration in front of other characters. -/
theorem readStep_chars (absent : ¬ dataEndTag <:+: d) (tracks : Tracks d r p s)
    (delim : (framed d r)[p]? ≠ some tagDelim) :
    (¬ pair <:+: d ∧ readStep s = .ok (.halt (d, .of r))) ∨
      ∃ q t, readStep s = .ok (.more t) ∧ Tracks d r q t := by
  have before := tracks.before
  have length := length_framed d r
  obtain ⟨k, pos, fits, short, clean, stop, got⟩ := getUpTo_framed before delim tracks.room
  have nonempty : ((framed d r).drop p).take k ≠ [] :=
    List.ne_nil_of_length_pos (by rw [List.length_take, List.length_drop]; omega)
  have taken : (((framed d r).drop p).take k).length = k := by
    rw [List.length_take, List.length_drop]
    omega
  have long : ¬ (s.held ++ ((framed d r).drop p).take k).length < dataEndTag.length := by
    rw [List.length_append, taken]
    exact not_lt.mpr (tracks.length_le stop)
  set buf := s.held ++ ((framed d r).drop p).take k with buf_def
  set keep := buf.length - dataEndTag.length with keep_def
  have held : (buf.drop keep).length = 12 := by
    rw [List.length_drop, ← length_dataEndTag]
    omega
  have extended : s.data ++ buf.take keep ++ buf.drop keep = (framed d r).take (p + k) := by
    rw [List.append_assoc, List.take_append_drop, buf_def, ← List.append_assoc, tracks.read,
      List.take_add]
  have further := tracks.noPair.add clean
  have prior : (framed d r)[p + k - 1]? ≠ some tagDelim := by
    have last := clean (k - 1) (by omega)
    rwa [← Nat.add_sub_assoc (by omega)] at last
  have step : readStep s =
      if k ≠ bufSiz - s.held.length - 1 then
        checkTag (buf.drop keep) (s.data ++ buf.take keep) (.of ((framed d r).drop (p + k)))
      else
        next (buf.drop keep) (s.data ++ buf.take keep) (.of ((framed d r).drop (p + k))) := by
    unfold readStep
    simp only [tracks.peek]
    rw [if_neg delim]
    simp only [got]
    rw [if_neg nonempty, if_neg long, taken]
  rw [step]
  by_cases full : k = bufSiz - s.held.length - 1
  · right
    rw [if_neg (not_not.mpr full), next, if_neg (by simp)]
    exact ⟨p + k, _, rfl, extended, rfl, short, further, Or.inr (Or.inl ⟨by omega, held, prior⟩)⟩
  · rw [if_pos full]
    rcases checkTag_tracks absent held extended (stop full) short (further.succ prior) with
      done | ⟨t, more, tracks⟩
    · exact Or.inl done
    · exact Or.inr ⟨_, t, more, tracks⟩

end Tracks

/-- One iteration before the end tag: it reads the tag, it goes on, or it meets a
delimiter right behind another. -/
theorem readStep_tracks {d r : Bytes} {p : Nat} {s : TagReader} (absent : ¬ dataEndTag <:+: d)
    (tracks : Tracks d r p s) :
    (¬ pair <:+: d ∧ readStep s = .ok (.halt (d, .of r))) ∨
      (∃ q t, readStep s = .ok (.more t) ∧ Tracks d r q t) ∨
        (s.held.length = 13 ∧ 0 < p ∧ (framed d r)[p - 1]? = some tagDelim ∧
          (framed d r)[p]? = some tagDelim) := by
  by_cases delim : (framed d r)[p]? = some tagDelim
  · rcases tracks.readStep_delim absent delim with done | more | ⟨thirteen, pos, prior⟩
    · exact Or.inl done
    · exact Or.inr (Or.inl more)
    · exact Or.inr (Or.inr ⟨thirteen, pos, prior, delim⟩)
  · rcases tracks.readStep_chars absent delim with done | more
    · exact Or.inl done
    · exact Or.inr (Or.inl more)

theorem size_tracks {d r : Bytes} {p : Nat} {s : TagReader} (tracks : Tracks d r p s) :
    s.size = d.length + dataEndTag.length + r.length := by
  have read := congrArg List.length tracks.read
  have length := length_framed d r
  have before := tracks.before
  rw [List.length_append, List.length_take] at read
  rw [size, tracks.left, IStream.of_rest, List.length_drop, length_dataEndTag]
  omega

theorem readLoop_tracks {d r : Bytes} {p : Nat} {s : TagReader} (absent : ¬ dataEndTag <:+: d)
    (tracks : Tracks d r p s) : Settles d r (readLoop s) := by
  induction left : s.input.rest.length using Nat.strongRecOn generalizing s p with
  | ind bound ih =>
      rcases readStep_tracks absent tracks with
        ⟨clean, step⟩ | ⟨q, t, step, further⟩ | ⟨thirteen, pos, first, second⟩
      · exact Or.inl ⟨clean, readLoop_of_halt step⟩
      · rw [readLoop_of_more step]
        exact ih _ (left ▸ readStep_more step) further rfl
      · right
        refine ⟨isInfix_pair (i := p - 1) (r := r) (by have := tracks.before; omega) first ?_, ?_⟩
        · rwa [Nat.sub_add_cancel pos]
        · intro data input run
          have next_char : s.input = .of (tagDelim :: (framed d r).drop (p + 1)) := by
            obtain ⟨inside, value⟩ := List.getElem?_eq_some_iff.mp second
            rw [tracks.left, List.drop_eq_getElem_cons inside, value]
          have lost := readLoop_loses thirteen next_char run
          rw [size_tracks tracks] at lost
          omega

end TagReader

/-- Data that the reader gives back exactly: it is not empty, has no delimiter among
its first twelve characters and no two of them in a row. -/
def Framable (d : Bytes) : Prop :=
  d ≠ [] ∧ tagDelim ∉ d.take dataEndTag.length ∧ ¬ TagReader.pair <:+: d

instance (d : Bytes) : Decidable (Framable d) := inferInstanceAs (Decidable (_ ∧ _))

open TagReader

/-- A block that begins with enough characters is read up to its tag, or falls short. -/
theorem readActionData_settles {d r : Bytes} (absent : ¬ dataEndTag <:+: d) (nonempty : d ≠ [])
    (start : tagDelim ∉ d.take dataEndTag.length) :
    Settles d r (readActionData (.of (framed d r))) := by
  refine readLoop_tracks (p := 0) absent ⟨rfl, rfl, by omega, ?_, Or.inl ⟨rfl, rfl, ?_⟩⟩
  · intro i inside
    omega
  · intro j inside here
    rcases Nat.lt_or_ge j d.length with inData | inTag
    · rw [framed_getElem?_data inData] at here
      refine start (List.mem_of_getElem? (i := j) ?_)
      rwa [List.getElem?_take_of_lt (by rwa [length_dataEndTag])]
    · have pos := List.length_pos_iff.mpr nonempty
      have last := (framed_delim_iff inTag (by omega)).mp here
      omega

/-- Data that is empty or has a delimiter among its first twelve characters makes
the first iteration go wrong. -/
theorem readActionData_error {d r : Bytes}
    (start : d = [] ∨ tagDelim ∈ d.take dataEndTag.length) :
    ∃ u, readActionData (.of (framed d r)) = .error (.undefined u) := by
  have early : ∃ i < 12, (framed d r)[i]? = some tagDelim := by
    rcases start with rfl | mem
    · exact ⟨11, by omega, (framed_delim_iff (d := []) (Nat.zero_le _) (by simp)).mpr rfl⟩
    · obtain ⟨i, at_i⟩ := List.mem_iff_getElem?.mp mem
      have inside : i < (d.take dataEndTag.length).length := by
        by_contra outside
        rw [List.getElem?_eq_none (by omega)] at at_i
        cases at_i
      rw [List.length_take, length_dataEndTag] at inside
      rw [List.getElem?_take_of_lt (by rw [length_dataEndTag]; omega)] at at_i
      exact ⟨i, by omega, by rw [framed_getElem?_data (by omega), at_i]⟩
  have length := length_framed d r
  have some_left : framed d r ≠ [] := List.ne_nil_of_length_pos (by omega)
  have few : ¬ Enough (framed d r) := by
    intro enough
    obtain ⟨i, inTwelve, at_i⟩ := early
    rw [← List.getElem?_take_of_lt inTwelve] at at_i
    exact enough.2 (List.mem_of_getElem? at_i)
  obtain ⟨u, step⟩ := readStep_start some_left few
  exact ⟨u, readLoop_of_error step⟩

theorem readActionData_framable {d r : Bytes} (framable : Framable d)
    (absent : ¬ dataEndTag <:+: d) :
    readActionData (.of (d ++ dataEndTag ++ r)) = .ok (d, .of r) := by
  obtain ⟨nonempty, start, clean⟩ := framable
  rcases readActionData_settles (r := r) absent nonempty start with ⟨-, run⟩ | ⟨lost, -⟩
  · exact run
  · exact absurd lost clean

/-- A data block that does not contain the end tag is framed exactly when it is not
empty, has no delimiter among its first twelve characters and no two in a row. -/
theorem readActionData_eq_iff (d r : Bytes) (absent : ¬ dataEndTag <:+: d) :
    readActionData (.of (d ++ dataEndTag ++ r)) = .ok (d, .of r) ↔ Framable d := by
  constructor
  · intro exact_
    by_cases start : d = [] ∨ tagDelim ∈ d.take dataEndTag.length
    · obtain ⟨u, error⟩ := readActionData_error (r := r) start
      rw [framed, exact_] at error
      cases error
    · rw [not_or] at start
      refine ⟨start.1, start.2, ?_⟩
      rcases readActionData_settles (r := r) absent start.1 start.2 with ⟨clean, -⟩ | ⟨-, short⟩
      · exact clean
      · have lost := short d (.of r) exact_
        exact absurd lost (Nat.lt_irrefl _)
  · intro framable
    exact readActionData_framable framable absent

/-- An empty line and a delimiter behind enough text. -/
theorem readActionData_eq_iff_html :
    readActionData (.of (ascii "<!DOCTYPE html>\n\n" ++ dataEndTag ++ ascii "\nCLOSE\n")) =
      .ok (ascii "<!DOCTYPE html>\n\n", .of (ascii "\nCLOSE\n")) :=
  (readActionData_eq_iff _ _ (by decide)).mpr (by decide)

/-- One of two delimiters in a row is lost. -/
theorem not_framed_shift :
    ¬ ∀ d r, ¬ dataEndTag <:+: d →
      readActionData (.of (d ++ dataEndTag ++ r)) = .ok (d, .of r) := by
  intro exact_
  have run := exact_ (ascii "read it: cin >> value") [] (by decide)
  have settles := readActionData_settles (d := ascii "read it: cin >> value") (r := []) (by decide)
    (by decide) (by decide)
  rcases settles with ⟨clean, -⟩ | ⟨-, short⟩
  · exact clean (by decide)
  · have lost := short _ _ run
    revert lost
    decide

end PacketReplay
