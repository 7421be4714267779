import PacketReplay.Http.ChunkedDecoder

/-!
# Chunked bodies and what is taken for one

`ChunkedBody Line` is the chunked coding over a notion of size line: chunks of the size
that their line gives, each closed by a CRLF, up to a chunk of size zero. `Reads` is the
size line as `process` takes it: whatever number `strtoul` finds in the next bytes,
provided a CRLF stands somewhere behind, and then any two bytes. `process_of_body` and
`body_of_process` say that a call on a fresh processor returns true exactly on the chunked
bodies over these lines, with the bytes of the chunks as data.
-/

namespace PacketReplay

open Lib

/-- The text starts with a body in these chunks. `Line s n after` says that it starts with
a size line for `n` bytes and goes on with `after`. -/
inductive ChunkedBody (Line : Bytes → Nat → Bytes → Prop) : Bytes → List Bytes → Prop
  | last {s after : Bytes} (line : Line s 0 after) (ends : crlf <+: after) : ChunkedBody Line s []
  | chunk {s c t : Bytes} {cs : List Bytes} (line : Line s c.length (c ++ (crlf ++ t)))
      (some : c ≠ []) (rest : ChunkedBody Line t cs) : ChunkedBody Line s (c :: cs)

namespace ChunkedBody

variable {Line : Bytes → Nat → Bytes → Prop} {s : Bytes} {cs ds : List Bytes}

/-- Where a text starts with one size line at most, it starts with one body at most. -/
theorem unique (functional : ∀ s m n a b, Line s m a → Line s n b → m = n ∧ a = b)
    (left : ChunkedBody Line s cs) (right : ChunkedBody Line s ds) : cs = ds := by
  induction left generalizing ds with
  | last line =>
      cases right with
      | last => rfl
      | chunk other some =>
          have size := (functional _ _ _ _ _ line other).1
          exact absurd (List.length_eq_zero_iff.mp size.symm) some
  | chunk line some rest ih =>
      cases right with
      | last other =>
          have size := (functional _ _ _ _ _ line other).1
          exact absurd (List.length_eq_zero_iff.mp size) some
      | chunk other otherSome otherRest =>
          rcases functional _ _ _ _ _ line other with ⟨size, text⟩
          rcases List.append_inj text size with ⟨rfl, behind⟩
          have same := List.append_cancel_left behind
          subst same
          rw [ih otherRest]

/-- A body over size lines that are size lines of another kind. -/
theorem mono {Other : Bytes → Nat → Bytes → Prop} (lines : ∀ s n a, Line s n a → Other s n a)
    (body : ChunkedBody Line s cs) : ChunkedBody Other s cs := by
  induction body with
  | last line ends => exact .last (lines _ _ _ line) ends
  | chunk line some rest ih => exact .chunk (lines _ _ _ line) some ih

end ChunkedBody

namespace ChunkedProcessor

/-- The size line as the decoder takes it: the number in the next bytes, if they hold a
CRLF, and two bytes behind it. -/
def Reads (s : Bytes) (n : Nat) (after : Bytes) : Prop :=
  let number := strtoul 16 (cstr (s.take tmpSiz))
  (lineEnd (s.take tmpSiz)).isSome = true ∧ number.2 ≠ 0 ∧ toInt32 number.1 = n ∧
    after = s.drop (number.2 + 2)

theorem Reads.functional {s a b : Bytes} {m n : Nat} (left : Reads s m a) (right : Reads s n b) :
    m = n ∧ a = b := by
  rcases left with ⟨-, -, size, rfl⟩
  rcases right with ⟨-, -, otherSize, rfl⟩
  exact ⟨Int.ofNat_inj.mp (size.symm.trans otherSize), rfl⟩

/-- The processor at the start of a chunk, with the data of the chunks before it. -/
def atChunk (d : Bytes) : ChunkedProcessor := { data := d }

/-- The processor behind a size line. -/
def inChunk (d buf : Bytes) (n : Nat) : ChunkedProcessor :=
  { data := d, tmpBuf := buf, chunkSize := n }

/-- The processor behind the bytes of a chunk. -/
def atEnd (d buf : Bytes) (n : Nat) : ChunkedProcessor :=
  { data := d, tmpBuf := buf, chunkSize := n, chunkRead := n }

/-! ## The bytes of a chunk and its end -/

section Chunk

variable {d buf : Bytes} {n : Nat}

theorem process_nil (p : ChunkedProcessor) : p.process [] = (.ok false, p) := by
  rw [process, blockLoop]

theorem process_of_next {p q : ChunkedProcessor} {c : UInt8} {rest : Bytes} {k : Nat}
    (pos : 0 < k) (answer : p.processStep c rest = .next q k) :
    p.process (c :: rest) = q.process ((c :: rest).drop k) := by
  rw [process, blockLoop, answer]
  rcases Nat.exists_eq_add_one.mpr pos with ⟨j, rfl⟩
  rfl

theorem process_of_exit {p : ChunkedProcessor} {c : UInt8} {rest : Bytes} {r : Result}
    (answer : p.processStep c rest = .exit r) : p.process (c :: rest) = r := by
  rw [process, blockLoop, answer]

theorem process_inChunk_zero (s : Bytes) :
    (inChunk d buf 0).process s = (atEnd d buf 0).process s :=
  rfl

/-- The bytes of a chunk become data. -/
theorem process_inChunk {c : Bytes} (some : c ≠ []) (rest : Bytes) :
    (inChunk d buf c.length).process (c ++ rest) = (atEnd (d ++ c) buf c.length).process rest := by
  rcases List.exists_cons_of_ne_nil some with ⟨a, tail, rfl⟩
  have answer : (inChunk d buf (a :: tail).length).processStep a (tail ++ rest) =
      .next (atEnd (d ++ a :: tail) buf (a :: tail).length) (a :: tail).length := by
    have unread : ¬ (0 : Int) = ((a :: tail).length : Nat) := by
      rw [List.length_cons]
      omega
    have size : ¬ (((a :: tail).length : Nat) : Int) < 0 := by omega
    have copyLen : min ((a :: (tail ++ rest)).length : Int) (((a :: tail).length : Nat) - 0) =
        ((a :: tail).length : Nat) := by
      simp only [List.length_cons, List.length_append]
      omega
    have front : (a :: (tail ++ rest)).take (a :: tail).length = a :: tail := by
      rw [← List.cons_append, List.take_left]
    rw [processStep]
    simp only [inChunk, if_neg size, if_neg unread, copyLen, Int.toNat_natCast, front, Int.zero_add]
    rfl
  rw [List.cons_append, process_of_next (List.length_pos_iff.mpr some) answer, ← List.cons_append,
    List.drop_left]

/-- A chunk that has not come to its end. -/
theorem process_inChunk_short {s : Bytes} (short : s.length < n) :
    ((inChunk d buf n).process s).1 = .ok false := by
  cases s with
  | nil => rw [process_nil]
  | cons a tail =>
      have unread : ¬ (0 : Int) = (n : Nat) := by omega
      have size : ¬ ((n : Nat) : Int) < 0 := by omega
      have copyLen :
          min ((a :: tail).length : Int) ((n : Nat) - 0) = ((a :: tail).length : Nat) := by
        omega
      have forward : ¬ (((a :: tail).length : Nat) : Int) < 0 := by omega
      have answer : ∃ q, (inChunk d buf n).processStep a tail = .next q (a :: tail).length := by
        rw [processStep]
        simp only [inChunk, if_neg size, if_neg unread, copyLen, Int.toNat_natCast, if_neg forward]
        exact ⟨_, rfl⟩
      rcases answer with ⟨q, answer⟩
      rw [process_of_next (List.length_pos_iff.mpr (List.cons_ne_nil a tail)) answer,
        List.drop_length, process_nil]

/-- CR LF closes a chunk, and the last one closes the body. -/
theorem process_atEnd (t : Bytes) :
    (atEnd d buf n).process (crlf ++ t) =
      if n = 0 then
        (.ok true, { atEnd d buf n with chunkEndCharCount := 1, complete := true })
      else (atChunk d).process t := by
  have size : ¬ ((n : Nat) : Int) < 0 := by omega
  have first : (atEnd d buf n).processStep cr (lf :: t) =
      .next { atEnd d buf n with chunkEndCharCount := 1 } 1 := by
    simp [processStep, atEnd, size]
  rw [crlf, List.cons_append, List.singleton_append, process_of_next Nat.one_pos first,
    List.drop_one, List.tail_cons]
  split
  · next zero =>
      apply process_of_exit
      simp [processStep, atEnd, zero]
  · next more =>
      have second : ({ atEnd d buf n with chunkEndCharCount := 1 } : ChunkedProcessor).processStep
          lf t = .next (atChunk d) 1 := by
        simp [processStep, atEnd, atChunk, size, more]
      rw [process_of_next Nat.one_pos second, List.drop_one, List.tail_cons]

/-- Only CR LF does. -/
theorem crlf_of_process_atEnd {s : Bytes} {p : ChunkedProcessor}
    (done : (atEnd d buf n).process s = (.ok true, p)) : crlf <+: s := by
  have size : ¬ ((n : Nat) : Int) < 0 := by omega
  rcases s with _ | ⟨a, s⟩
  · rw [process_nil] at done
    cases done
  · by_cases isCr : a = cr
    · subst isCr
      have first : (atEnd d buf n).processStep cr s =
          .next { atEnd d buf n with chunkEndCharCount := 1 } 1 := by
        simp [processStep, atEnd, size]
      rw [process_of_next Nat.one_pos first, List.drop_one, List.tail_cons] at done
      rcases s with _ | ⟨b, s⟩
      · rw [process_nil] at done
        cases done
      · by_cases isLf : b = lf
        · subst isLf
          exact ⟨s, rfl⟩
        · have second : ({ atEnd d buf n with chunkEndCharCount := 1 } :
              ChunkedProcessor).processStep b s =
              .exit (.error (.thrown (terminatorError b)),
                { atEnd d buf n with chunkEndCharCount := 1 }) := by
            simp [processStep, atEnd, size, isLf]
          rw [process_of_exit second] at done
          cases done
    · have first : (atEnd d buf n).processStep a s =
          .exit (.error (.thrown (terminatorError a)), atEnd d buf n) := by
        simp [processStep, atEnd, size, isCr]
      rw [process_of_exit first] at done
      cases done

end Chunk

/-! ## The size line -/

section SizeLine

variable {d : Bytes}

theorem fill_atChunk (s : Bytes) : (atChunk d).fill s = s.take tmpSiz := by
  rw [fill, atChunk, List.nil_append, List.length_nil, Nat.sub_zero, Nat.min_comm,
    ← List.take_eq_take_min]

theorem ne_nil_of_reads {s after : Bytes} {n : Nat} (reads : Reads s n after) : s ≠ [] := by
  intro empty
  subst empty
  exact absurd reads.1 (by decide)

theorem processStep_atChunk (c : UInt8) (rest : Bytes) :
    (∃ r : Result, r.1 ≠ .ok true ∧ (atChunk d).processStep c rest = .exit r) ∨
      (∃ i, lineEnd ((c :: rest).take tmpSiz) = some i) ∧
        (strtoul 16 (cstr ((c :: rest).take tmpSiz))).2 ≠ 0 ∧
        (atChunk d).processStep c rest = .next { atChunk d with
          tmpBuf := (c :: rest).take tmpSiz
          chunkSize := toInt32 (strtoul 16 (cstr ((c :: rest).take tmpSiz))).1 }
          ((strtoul 16 (cstr ((c :: rest).take tmpSiz))).2 + 2) := by
  have size : (atChunk d).chunkSize < 0 := Int.negSucc_lt_zero 0
  rw [← fill_atChunk (d := d)]
  rcases processStep_of_size c rest size with
    ⟨-, -, e, answer⟩ | ⟨-, -, answer⟩ | ⟨i, e, -, -, answer⟩ | ⟨i, found, some, answer⟩
  · exact .inl ⟨_, fun absurd => (by cases absurd), answer⟩
  · exact .inl ⟨_, fun absurd => (by cases absurd), answer⟩
  · exact .inl ⟨_, fun absurd => (by cases absurd), answer⟩
  · exact .inr ⟨⟨i, found⟩, some, answer⟩

theorem process_atChunk_of_reads {s after : Bytes} {n : Nat} (reads : Reads s n after) :
    (atChunk d).process s = (inChunk d (s.take tmpSiz) n).process after := by
  rcases List.exists_cons_of_ne_nil (ne_nil_of_reads reads) with ⟨c, rest, rfl⟩
  rcases reads with ⟨line, some, size, rfl⟩
  have negative : (atChunk d).chunkSize < 0 := Int.negSucc_lt_zero 0
  apply process_of_next (Nat.succ_pos _)
  rw [processStep, if_pos negative, fill_atChunk, if_pos line]
  simp only [if_neg some, size]
  rfl

/-- Behind a size that no `int` holds nothing is ever complete: the number that stands in
the scratch buffer is read again and again. -/
structure Stuck (p : ChunkedProcessor) : Prop where
  negative : p.chunkSize < 0
  room : p.tmpBuf.length ≤ tmpSiz
  again : ∀ more : Bytes, (p.tmpBuf ++ more).length ≤ tmpSiz →
    toInt32 (strtoul 16 (cstr (p.tmpBuf ++ more))).1 < 0

theorem Stuck.of_next {p q : ChunkedProcessor} (stuck : Stuck p) {c : UInt8} {rest : Bytes}
    {k : Nat} (answer : p.processStep c rest = .next q k) : Stuck q := by
  have fits := length_fill_le stuck.room (c :: rest)
  rcases processStep_of_size c rest stuck.negative with
    ⟨-, -, e, left⟩ | ⟨-, -, left⟩ | ⟨i, e, -, -, left⟩ | ⟨i, -, -, left⟩
  all_goals rw [left] at answer; injection answer
  next state _ =>
  subst state
  obtain ⟨copied, grown⟩ : ∃ copied, p.fill (c :: rest) = p.tmpBuf ++ copied := ⟨_, rfl⟩
  rw [grown] at fits ⊢
  constructor
  · dsimp only
    exact stuck.again copied fits
  · exact fits
  · intro more within
    dsimp only at within ⊢
    rw [List.append_assoc] at within ⊢
    exact stuck.again _ within

theorem Stuck.process_ne {p : ChunkedProcessor} (stuck : Stuck p) (s : Bytes) :
    (p.process s).1 ≠ .ok true := by
  refine blockLoop_induct (fun r : Result => r.1 ≠ .ok true)
    (fun _ _ _ _ _ (inv : Stuck _) _ answer => inv.of_next answer) ?_ ?_ stuck
    (LoopAlong.of_forall (fun _ _ _ => trivial) p s)
  · intro p c rest r inv _ answer
    rcases processStep_of_size c rest inv.negative with
      ⟨-, -, e, left⟩ | ⟨-, -, left⟩ | ⟨i, e, -, -, left⟩ | ⟨i, -, -, left⟩
    all_goals rw [left] at answer; cases answer
    all_goals exact fun absurd => by cases absurd
  · exact fun p _ absurd => by cases absurd

/-- A size line with something behind it is read again from the scratch buffer. -/
theorem strtoul_again {s : Bytes} (some : (strtoul 16 (cstr (s.take tmpSiz))).2 ≠ 0)
    (behind : (strtoul 16 (cstr (s.take tmpSiz))).2 + 2 < s.length) {more : Bytes}
    (fits : (s.take tmpSiz ++ more).length ≤ tmpSiz) :
    strtoul 16 (cstr (s.take tmpSiz ++ more)) = strtoul 16 (cstr (s.take tmpSiz)) := by
  rcases Nat.lt_or_ge tmpSiz s.length with long | short
  · have nothing : more = [] := by
      rw [List.length_append, List.length_take] at fits
      exact List.length_eq_zero_iff.mp (by omega)
    rw [nothing, List.append_nil]
  · rw [List.take_of_length_le short] at some behind ⊢
    by_cases clean : ∀ c ∈ s, c ≠ 0
    · rw [cstr_append_of_clean clean]
      rw [cstr_eq_self clean] at some behind ⊢
      exact strtoul_append some (by omega) _
    · have nul : ∃ c ∈ s, (decide (c ≠ 0)) = false := by simpa using clean
      rw [cstr, cstr, takeWhile_append_of_exists nul]

/-- A call that returns true has taken a number for the size. -/
theorem reads_of_process {s : Bytes} {p : ChunkedProcessor}
    (done : (atChunk d).process s = (.ok true, p)) : ∃ n after, Reads s n after := by
  cases s with
  | nil =>
      rw [process_nil] at done
      cases done
  | cons c rest =>
      rcases processStep_atChunk (d := d) c rest with
        ⟨r, isFalse, answer⟩ | ⟨⟨i, found⟩, some, answer⟩
      · rw [process_of_exit answer] at done
        exact absurd (congrArg Prod.fst done) isFalse
      · refine ⟨(toInt32 (strtoul 16 (cstr ((c :: rest).take tmpSiz))).1).toNat, _,
          Option.isSome_iff_exists.mpr ⟨i, found⟩, some, ?_, rfl⟩
        refine (Int.toNat_of_nonneg ?_).symm
        by_contra! negative
        rw [process_of_next (Nat.succ_pos _) answer] at done
        by_cases behind : (strtoul 16 (cstr ((c :: rest).take tmpSiz))).2 + 2 < (c :: rest).length
        · have stuck : Stuck { atChunk d with
              tmpBuf := (c :: rest).take tmpSiz
              chunkSize := toInt32 (strtoul 16 (cstr ((c :: rest).take tmpSiz))).1 } :=
            { negative := by
                dsimp only
                exact negative
              room := List.length_take_le tmpSiz (c :: rest)
              again := fun more fits => by
                rw [strtoul_again some behind fits]
                exact negative }
          exact stuck.process_ne _ (congrArg Prod.fst done)
        · rw [List.drop_eq_nil_of_le (Nat.le_of_not_lt behind), process_nil] at done
          cases done

end SizeLine

/-! ## Calls that return true -/

/-- On a chunked body a call returns true, and the data grows by the chunks. -/
theorem process_of_body {s : Bytes} {cs : List Bytes} (body : ChunkedBody Reads s cs) (d : Bytes) :
    ∃ p, (atChunk d).process s = (.ok true, p) ∧ p.complete = true ∧ p.data = d ++ cs.flatten := by
  induction body generalizing d with
  | last line ends =>
      rcases ends with ⟨t, rfl⟩
      rw [process_atChunk_of_reads line, process_inChunk_zero, process_atEnd, if_pos rfl]
      exact ⟨_, rfl, rfl, (List.append_nil d).symm⟩
  | @chunk s c t cs line some rest ih =>
      have more : c.length ≠ 0 := fun empty => some (List.length_eq_zero_iff.mp empty)
      rw [process_atChunk_of_reads line, process_inChunk some, process_atEnd, if_neg more,
        List.flatten_cons, ← List.append_assoc]
      exact ih (d ++ c)

/-- A call returns true on chunked bodies only. -/
theorem body_of_process {d s : Bytes} {p : ChunkedProcessor}
    (done : (atChunk d).process s = (.ok true, p)) :
    ∃ cs, ChunkedBody Reads s cs ∧ p.data = d ++ cs.flatten := by
  induction size : s.length using Nat.strongRecOn generalizing d s with
  | ind bound ih =>
      rcases reads_of_process done with ⟨n, after, reads⟩
      rw [process_atChunk_of_reads reads] at done
      rcases Nat.eq_zero_or_pos n with rfl | pos
      · rw [process_inChunk_zero] at done
        have ends := crlf_of_process_atEnd done
        refine ⟨[], .last reads ends, ?_⟩
        rcases ends with ⟨t, rfl⟩
        rw [process_atEnd, if_pos rfl] at done
        cases done
        exact (List.append_nil d).symm
      · rcases Nat.lt_or_ge after.length n with short | long
        · have more : ((inChunk d (s.take tmpSiz) n).process after).1 = .ok false :=
            process_inChunk_short short
          rw [done] at more
          cases more
        · have length : (after.take n).length = n := List.length_take_of_le long
          have some : after.take n ≠ [] := List.length_pos_iff.mp (length.symm ▸ pos)
          have cut : after = after.take n ++ after.drop n := (List.take_append_drop n after).symm
          have chunk : (inChunk d (s.take tmpSiz) (after.take n).length).process
              (after.take n ++ after.drop n) = _ := process_inChunk some (after.drop n)
          rw [length, ← cut] at chunk
          rw [chunk] at done
          rcases crlf_of_process_atEnd done with ⟨t, behind⟩
          rw [← behind, process_atEnd, if_neg (Nat.pos_iff_ne_zero.mp pos)] at done
          have shorter : t.length < bound := by
            have whole := congrArg List.length behind
            have there := reads.2.2.2
            rw [List.length_append, List.length_drop] at whole
            rw [there, List.length_drop] at whole
            simp only [crlf, List.length_cons, List.length_nil] at whole
            omega
          rcases ih _ shorter done rfl with ⟨cs, body, data⟩
          refine ⟨after.take n :: cs, .chunk ?_ some body, ?_⟩
          · rw [length, behind, List.take_append_drop]
            exact reads
          · rw [data, List.flatten_cons, List.append_assoc]

end ChunkedProcessor

end PacketReplay
