import PacketReplay.Http.ChunkedEncoding

/-!
# Which bodies the chunk decoder accepts

A size line is meant to be hexadecimal digits, perhaps an extension behind a semicolon,
and a CRLF. The decoder looks for a CRLF anywhere, reads what `strtoul` takes for a number
and skips two bytes behind it, whatever they are. So it accepts bodies that are none, and
cuts a body with extensions in other places than it is written. `wellFormed_iff` says
of which accepted bodies the data is what they say.
-/

namespace PacketReplay

open Lib

namespace ChunkedProcessor

/-- A size line: a numeral, perhaps an extension, and a CRLF. -/
def SizeLine (s : Bytes) (n : Nat) (after : Bytes) : Prop :=
  ∃ numeral ext : Bytes, s = numeral ++ (ext ++ (crlf ++ after)) ∧ numeral ≠ [] ∧
    (∀ c ∈ numeral, isdigit 16 c = true) ∧ digitsValue 16 numeral = n ∧
    (∀ c ∈ ext.head?, c = 59) ∧ ¬ crlf <:+: ext

theorem sizeLine_of_plain {s after : Bytes} {n : Nat} (plain : Plain s n after) :
    SizeLine s n after := by
  rcases plain with ⟨numeral, text, some, digits, value, -, -⟩
  refine ⟨numeral, [], text, some, digits, value, ?_, by decide⟩
  intro c first
  cases first

/-- What follows the numeral of a size line starts with no digit. -/
theorem head_of_extension {ext : Bytes} (semicolon : ∀ c ∈ ext.head?, c = 59) (after : Bytes) :
    ∃ c rest, ext ++ (crlf ++ after) = c :: rest ∧ (c = 59 ∨ c = cr) := by
  cases ext with
  | nil => exact ⟨cr, lf :: after, rfl, .inr rfl⟩
  | cons c ext => exact ⟨c, ext ++ (crlf ++ after), rfl, .inl (semicolon c rfl)⟩

theorem stop_of_head {c : UInt8} (stop : c = 59 ∨ c = cr) :
    isdigit 16 c = false ∧ tolower c ≠ 120 ∧ c ≠ 0 := by
  rcases stop with rfl | rfl
  · decide
  · decide

/-- What stands behind the digits of a size line. -/
theorem SizeLine.behind_digits {s after : Bytes} {n : Nat} (line : SizeLine s n after) :
    ∃ c ∈ (s.dropWhile (isdigit 16)).head?, c = 59 ∨ c = cr := by
  rcases line with ⟨numeral, ext, rfl, -, digits, -, semicolon, -⟩
  rcases head_of_extension semicolon after with ⟨c, rest, text, stop⟩
  refine ⟨c, ?_, stop⟩
  rw [text, List.dropWhile_append_of_pos digits, List.dropWhile_cons_of_neg]
  · rfl
  · rw [(stop_of_head stop).1]
    exact Bool.false_ne_true

/-- A text starts with one size line at most. -/
theorem SizeLine.functional {s a b : Bytes} {m n : Nat} (left : SizeLine s m a)
    (right : SizeLine s n b) : m = n ∧ a = b := by
  rcases left with ⟨numeral, ext, rfl, -, digits, rfl, semicolon, clean⟩
  rcases right with ⟨numeral', ext', text, -, digits', rfl, semicolon', clean'⟩
  have cut : ∀ {w e t : Bytes}, (∀ c ∈ w, isdigit 16 c = true) → (∀ c ∈ e.head?, c = 59) →
      (w ++ (e ++ (crlf ++ t))).takeWhile (isdigit 16) = w := by
    intro w e t digits semicolon
    rcases head_of_extension semicolon t with ⟨c, rest, text, stop⟩
    rw [text, takeWhile_append_stop (stop_of_head stop).1]
    exact List.takeWhile_eq_self_iff.mpr digits
  have found : ∀ {e t : Bytes}, ¬ crlf <:+: e → find crlf (e ++ (crlf ++ t)) = some e.length := by
    intro e t clean
    rw [← List.append_assoc]
    exact find_append_self (by decide) clean t
  have numerals : numeral = numeral' := by
    rw [← cut digits semicolon (t := a), text, cut digits' semicolon']
  subst numerals
  have behind := List.append_cancel_left text
  have lengths : ext.length = ext'.length := by
    have same := found clean (t := a)
    rw [behind, found clean'] at same
    exact (Option.some.inj same).symm
  rcases List.append_inj behind lengths with ⟨-, ends⟩
  exact ⟨rfl, List.append_cancel_left ends⟩

/-- What the decoder makes of a numeral in front of a byte that cannot belong to it. -/
theorem Reads.of_numeral {numeral rest after : Bytes} {c : UInt8} {n : Nat}
    (reads : Reads (numeral ++ c :: rest) n after) (some : numeral ≠ [])
    (digits : ∀ d ∈ numeral, isdigit 16 d = true) (stop : c = 59 ∨ c = cr) :
    toInt32 ((if 2 ^ 64 ≤ digitsValue 16 numeral then 2 ^ 64 - 1
      else digitsValue 16 numeral : Nat) : Int) = n ∧ after = rest.drop 1 := by
  rcases stop_of_head stop with ⟨noDigit, noMark, noNul⟩
  rcases reads with ⟨line, -, size, rfl⟩
  have clean : ∀ d ∈ numeral, d ≠ 0 := fun d mem => ne_zero_of_isdigit (digits d mem)
  rcases Nat.lt_or_ge numeral.length tmpSiz with within | long
  · obtain ⟨k, room⟩ : ∃ k, tmpSiz - numeral.length = k + 1 :=
      ⟨tmpSiz - numeral.length - 1, by omega⟩
    have front :
        cstr ((numeral ++ c :: rest).take tmpSiz) = numeral ++ c :: cstr (rest.take k) := by
      rw [List.take_append, List.take_of_length_le within.le, room, List.take_succ_cons,
        cstr_append_of_clean clean, cstr_cons, if_neg noNul]
    rw [front, strtoul_hex some digits noDigit noMark] at size ⊢
    refine ⟨size, ?_⟩
    rw [← List.drop_drop, List.drop_left]
    rfl
  · exfalso
    have front : (numeral ++ c :: rest).take tmpSiz = numeral.take tmpSiz :=
      List.take_append_of_le_length long
    rcases Option.isSome_iff_exists.mp line with ⟨i, found⟩
    rw [front, lineEnd, cstr_take, cstr_eq_self clean] at found
    have inside := isInfix_iff_occursAt.mpr ⟨i, (find_eq_some_iff.mp found).1⟩
    exact not_crlf_isInfix_of_digits (fun d mem => digits d (List.mem_of_mem_take mem)) inside

/-- The bodies that are read as they are written. -/
inductive Faithful : Bytes → Prop
  /-- A chunk of size zero ends the body. -/
  | last {s after : Bytes} (line : Plain s 0 after) : Faithful s
  | chunk {s c t : Bytes} (line : Plain s c.length (c ++ (crlf ++ t))) (some : c ≠ [])
      (rest : Faithful t) : Faithful s
  /-- The two bytes that are skipped are the whole extension. -/
  | lastExtension {numeral : Bytes} {x : UInt8} {t : Bytes} (some : numeral ≠ [])
      (digits : ∀ c ∈ numeral, isdigit 16 c = true) (zero : digitsValue 16 numeral = 0) :
      Faithful (numeral ++ 59 :: x :: (crlf ++ (crlf ++ t)))

/-- The bodies of which a size line with an extension, or of a size that no `int` holds, is
not read for what it says, and all the same the bytes of the chunks that are read behind it
are those of the chunks that are written. -/
inductive Coincides : Bytes → Prop
  | misread {s c t : Bytes} {cs ds : List Bytes} (other : ∀ n after, ¬ Plain s n after)
      (line : SizeLine s c.length (c ++ (crlf ++ t))) (some : c ≠ [])
      (rest : ChunkedBody SizeLine t cs) (read : ChunkedBody Reads s ds)
      (same : c ++ cs.flatten = ds.flatten) : Coincides s
  | chunk {s c t : Bytes} (line : Plain s c.length (c ++ (crlf ++ t))) (some : c ≠ [])
      (rest : Coincides t) : Coincides s

variable {s : Bytes} {cs ds : List Bytes}

/-- What is read at a plain size line. -/
theorem body_of_plain {n : Nat} {after : Bytes} (plain : Plain s n after)
    (read : ChunkedBody Reads s ds) :
    (n = 0 ∧ ds = [] ∧ crlf <+: after) ∨
      ∃ c t es, n = c.length ∧ after = c ++ (crlf ++ t) ∧ c ≠ [] ∧ ds = c :: es ∧
        ChunkedBody Reads t es := by
  have reads := reads_of_plain plain
  cases read with
  | last line ends =>
      rcases reads.functional line with ⟨rfl, rfl⟩
      exact .inl ⟨rfl, rfl, ends⟩
  | chunk line some rest =>
      rcases reads.functional line with ⟨rfl, rfl⟩
      exact .inr ⟨_, _, _, rfl, rfl, some, rfl, rest⟩

/-- The body that is read is written, with the same bytes. -/
def Written (s : Bytes) (ds : List Bytes) : Prop :=
  ∃ cs, ChunkedBody SizeLine s cs ∧ ds.flatten = cs.flatten

/-- A chunk with a plain size line in front of what is written. -/
theorem written_chunk {c t : Bytes} (plain : Plain s c.length (c ++ (crlf ++ t))) (some : c ≠ [])
    (read : ChunkedBody Reads s ds) (rest : ∀ es, ChunkedBody Reads t es → Written t es) :
    Written s ds := by
  rcases body_of_plain plain read with ⟨size, -, -⟩ | ⟨d, u, es, size, text, -, rfl, rest'⟩
  · exact absurd (List.length_eq_zero_iff.mp size) some
  · rcases List.append_inj text size with ⟨rfl, behind⟩
    have same := List.append_cancel_left behind
    subst same
    rcases rest es rest' with ⟨cs, written, flat⟩
    refine ⟨c :: cs, .chunk (sizeLine_of_plain plain) some written, ?_⟩
    rw [List.flatten_cons, List.flatten_cons, flat]

theorem Faithful.written (faithful : Faithful s) (read : ChunkedBody Reads s ds) :
    Written s ds := by
  induction faithful generalizing ds with
  | last plain =>
      rcases body_of_plain plain read with ⟨-, rfl, ends⟩ | ⟨c, t, es, size, -, some, -, -⟩
      · exact ⟨[], .last (sizeLine_of_plain plain) ends, rfl⟩
      · exact absurd (List.length_eq_zero_iff.mp size.symm) some
  | chunk plain some rest ih => exact written_chunk plain some read fun _ => ih
  | @lastExtension numeral x t some digits zero =>
      have line : SizeLine (numeral ++ 59 :: x :: (crlf ++ (crlf ++ t))) 0 (crlf ++ t) := by
        refine ⟨numeral, [59, x], rfl, some, digits, zero, ?_, ?_⟩
        · intro c first
          cases first
          rfl
        · intro inside
          have starts := inside.eq_of_length rfl
          cases starts
      refine ⟨[], .last line (List.prefix_append _ _), ?_⟩
      cases read with
      | last => rfl
      | chunk other more =>
          have size := (other.of_numeral some digits (.inl rfl)).1
          rw [zero, if_neg (by omega)] at size
          have empty := Int.ofNat_inj.mp size
          exact absurd (List.length_eq_zero_iff.mp empty.symm) more

theorem Coincides.written (coincides : Coincides s) (read : ChunkedBody Reads s ds) :
    Written s ds := by
  induction coincides generalizing ds with
  | @misread s c t cs ds' other line some rest read' same =>
      have functional : ∀ s m n a b, Reads s m a → Reads s n b → m = n ∧ a = b :=
        fun _ _ _ _ _ => Reads.functional
      have reads := read.unique functional read'
      subst reads
      exact ⟨c :: cs, .chunk line some rest, same.symm⟩
  | chunk plain some rest ih => exact written_chunk plain some read fun _ => ih

/-- A numeral and a CRLF from which a number is read are within the scratch buffer. -/
theorem plain_of_reads {numeral after after' : Bytes} {n m : Nat}
    (reads : Reads (numeral ++ (crlf ++ after)) m after') (some : numeral ≠ [])
    (digits : ∀ c ∈ numeral, isdigit 16 c = true) (value : digitsValue 16 numeral = n)
    (small : n < 2 ^ 31) : Plain (numeral ++ (crlf ++ after)) n after := by
  refine ⟨numeral, rfl, some, digits, value, small, ?_⟩
  rcases Option.isSome_iff_exists.mp reads.1 with ⟨i, found⟩
  have whole := lineEnd_append found ((numeral ++ (crlf ++ after)).drop tmpSiz)
  rw [List.take_append_drop, lineEnd_of_digits digits, Option.some.injEq] at whole
  have within := lineEnd_le found
  rw [List.length_take] at within
  omega

/-- The last size line, when it is read as a last one. -/
theorem faithful_of_last {after after' : Bytes} (line : SizeLine s 0 after) (ends : crlf <+: after)
    (reads : Reads s 0 after') (readEnds : crlf <+: after') : Faithful s := by
  rcases line with ⟨numeral, ext, rfl, some, digits, zero, semicolon, clean⟩
  rcases ext with _ | ⟨c, ext⟩
  · exact .last (plain_of_reads reads some digits zero (by decide))
  · have isSemicolon := semicolon c rfl
    subst isSemicolon
    have skipped := (reads.of_numeral some digits (.inl rfl)).2
    subst skipped
    rcases ends with ⟨t, rfl⟩
    rcases ext with _ | ⟨x, ext⟩
    · cases (List.cons_prefix_cons.mp readEnds).1
    · -- CRLF stands right behind the byte that is skipped with the semicolon
      rcases ext with _ | ⟨a, _ | ⟨b, ext⟩⟩
      · exact .lastExtension some digits zero
      · have second := (List.cons_prefix_cons.mp (List.cons_prefix_cons.mp readEnds).2).1
        cases second
      · have first := (List.cons_prefix_cons.mp readEnds).1
        have second := (List.cons_prefix_cons.mp (List.cons_prefix_cons.mp readEnds).2).1
        subst first second
        exact absurd ⟨[59, x], ext, rfl⟩ clean

/-- What is written with the bytes that are read. -/
theorem faithful_or_coincides (written : ChunkedBody SizeLine s cs)
    (read : ChunkedBody Reads s ds) (same : cs.flatten = ds.flatten) :
    Faithful s ∨ Coincides s := by
  induction written generalizing ds with
  | last line ends =>
      cases read with
      | last reads readEnds => exact Or.inl (faithful_of_last line ends reads readEnds)
      | chunk reads some rest =>
          rw [List.flatten_cons, List.flatten_nil, eq_comm, List.append_eq_nil_iff] at same
          exact absurd same.1 some
  | @chunk s c t cs line some rest ih =>
      by_cases plain : ∃ n after, Plain s n after
      · rcases plain with ⟨n, after, plain⟩
        rcases line.functional (sizeLine_of_plain plain) with ⟨rfl, rfl⟩
        rcases body_of_plain plain read with ⟨size, -, -⟩ | ⟨d, u, es, size, text, -, rfl, rest'⟩
        · exact absurd (List.length_eq_zero_iff.mp size) some
        · rcases List.append_inj text size with ⟨rfl, behind⟩
          have behind := List.append_cancel_left behind
          subst behind
          rw [List.flatten_cons, List.flatten_cons] at same
          exact (ih rest' (List.append_cancel_left same)).imp (.chunk plain some)
            (.chunk plain some)
      · push Not at plain
        exact Or.inr (.misread plain line some rest read same)

/-- The data of an accepted body is that of a chunked body it starts with exactly when
every size line that is met is plain, up to an extension of one byte behind the last size,
or the bytes read behind another one happen to be the bytes written. -/
theorem wellFormed_iff (b : Bytes) (p : ChunkedProcessor) (done : process {} b = (.ok true, p)) :
    (∃ cs, ChunkedBody SizeLine b cs ∧ p.data = cs.flatten) ↔ Faithful b ∨ Coincides b := by
  rcases body_of_process (d := []) done with ⟨ds, read, data⟩
  rw [List.nil_append] at data
  rw [data]
  constructor
  · intro given
    rcases given with ⟨cs, written, same⟩
    exact faithful_or_coincides written read same.symm
  · intro given
    rcases given with faithful | coincides
    · exact faithful.written read
    · exact coincides.written read

theorem wellFormed_iff_hello :
    (∃ cs, ChunkedBody SizeLine (ascii "5\r\nhello\r\n0\r\n\r\n") cs ∧
      (process {} (ascii "5\r\nhello\r\n0\r\n\r\n")).2.data = cs.flatten) ↔
      Faithful (ascii "5\r\nhello\r\n0\r\n\r\n") ∨
        Coincides (ascii "5\r\nhello\r\n0\r\n\r\n") :=
  wellFormed_iff (ascii "5\r\nhello\r\n0\r\n\r\n") _ (Prod.ext (by decide +kernel) rfl)

/-- Whatever stands where the CRLF of the size line belongs is skipped. -/
theorem not_wellFormed_hello :
    ¬ ∀ b p, process {} b = (.ok true, p) →
      ∃ cs, ChunkedBody SizeLine b cs ∧ p.data = cs.flatten := by
  intro always
  rcases always (ascii "5XYhello\r\n0\r\n\r\n") _ (Prod.ext (by decide +kernel) rfl) with
    ⟨cs, body, -⟩
  have line : ∃ n after, SizeLine (ascii "5XYhello\r\n0\r\n\r\n") n after := by
    cases body with
    | last line => exact ⟨_, _, line⟩
    | chunk line => exact ⟨_, _, line⟩
  rcases line with ⟨n, after, line⟩
  rcases line.behind_digits with ⟨c, first, stop⟩
  revert first stop
  decide +revert +kernel

end ChunkedProcessor

end PacketReplay
