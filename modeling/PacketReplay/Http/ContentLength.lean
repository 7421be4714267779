import PacketReplay.Http.ResponseSegments
import PacketReplay.Http.ResponseInvariant

/-!
# Staying within the declared length

The buffer of a payload is allocated for the declared length, and `process` copies into it
whatever a segment brings. The length is an `unsigned long` narrowed to an `int`, so it need
not be the declared one either. And where the status line gives no code, the bytes of later
segments are taken for more of the head. `staysWithin_iff` says of which responses the
payload stays within its length, `Fits`.
-/

namespace PacketReplay

open Lib

namespace HttpResponseProcessor

/-- The number that a `Content-Length` declares. -/
def declaredLength (value : Bytes) : Option Int :=
  (scanInteger 10 (cstr value)).map fun n => if n.negative then -n.magnitude else n.magnitude

/-- The call brings the end of the head of a response with a `Content-Length` the processor
accepts, and of the payload it brings `leftOver`. The status is -1 where the status line has
no code. -/
structure Begins (p : HttpResponseProcessor) (first value : Bytes) (status : Int32)
    (leftOver : Bytes) : Prop where
  unset : p.statusCode = -1
  head : ∃ pos ∈ p.findHead first,
    (readHead p.headers ((p.headerStr ++ first).take pos)).map (fun r => (r.1, r.2 contentLength)) =
        .ok (status, some value) ∧
      leftOver = (p.headerStr ++ first).drop (pos + 4)
  accepted : ∃ c, ContentLenProcessor.new value = .ok c

/-- Behind the blank line of a head the segments bring another one. -/
def AnotherHead (segments : List Bytes) : Prop :=
  headEnd <:+: headEnd.drop 1 ++ segments.flatten

instance (segments : List Bytes) : Decidable (AnotherHead segments) :=
  inferInstanceAs (Decidable (_ <:+: _))

/-- An `int` holds the declared length and no more bytes come than it says. Without a
status code the payload is what comes with the head: all of it, or the rest never does. -/
def Fits (value : Bytes) (status : Int32) (leftOver : Bytes) (segments : List Bytes) : Prop :=
  ∃ n : Nat, declaredLength value = some (n : Int) ∧ n < 2 ^ 31 ∧
    if status = -1 then
      ¬ AnotherHead segments ∧
        (leftOver.length = n ∨ (leftOver ++ segments.flatten).length < n)
    else (leftOver ++ segments.flatten).length ≤ n

/-- The answer to a call when `received` bytes of a payload of declared length `n` have
come: the buffer has this length, has not been written past, and is full if that many
bytes are there. -/
def Within (n : Int) (received : Nat) (r : Result Bool) : Prop :=
  ∃ b q d, r = (.ok b, q) ∧ q.dataProcessor = some (.contentLen d) ∧ (d.payloadSize : Int) = n ∧
    d.payload.length ≤ d.payloadSize ∧ (d.payloadSize ≤ received → d.isComplete = true)

/-- Behind every call of the run the payload is within its declared length. -/
def StaysWithin (p : HttpResponseProcessor) (first value leftOver : Bytes) (segments : List Bytes) :
    Prop :=
  ∃ n, declaredLength value = some n ∧ ∀ k ≤ segments.length,
    ∃ r, (feed p (first :: segments))[k]? = some r ∧
      Within n (leftOver ++ (segments.take k).flatten).length r

/-! ## The length of the buffer -/

/-- A declared number that is not negative is the one that `stoul` reads. -/
theorem eq_of_declared {value : Bytes} {m n : Nat} (read : stoul value = .ok m)
    (declared : declaredLength value = some (n : Int)) : m = n := by
  rw [declaredLength, Option.map_eq_some_iff] at declared
  rcases declared with ⟨scanned, scan, signed⟩
  rw [stoul, scan] at read
  dsimp only at read
  split at read
  · cases read
  · rw [Except.ok.injEq] at read
    rw [← read]
    split at signed
    · next negative =>
        have opposite : (n : Int) = -scanned.magnitude := signed.symm
        have zero : scanned.magnitude = 0 ∧ n = 0 := by omega
        rw [if_pos negative, zero.1, zero.2, toUInt64]
        simp
    · next positive =>
        rw [if_neg positive]
        exact Int.ofNat_inj.mp signed

theorem payload_of_new {value : Bytes} {c : ContentLenProcessor}
    (created : ContentLenProcessor.new value = .ok c) :
    c.payload = [] ∧ ∃ m, stoul value = .ok m ∧ c.payloadSize = (toInt32 m).toNat := by
  rw [ContentLenProcessor.new] at created
  cases read : stoul value with
  | error e =>
      rw [read] at created
      cases created
  | ok m =>
      rw [read] at created
      dsimp only at created
      split at created
      · rw [Except.ok.injEq] at created
        subst created
        exact ⟨rfl, m, rfl, ContentLenProcessor.ofSize_payloadSize _ _⟩
      · cases created

theorem exists_new {value : Bytes} {m : Nat} (read : stoul value = .ok m)
    (length : 0 ≤ toInt32 m) : ∃ c, ContentLenProcessor.new value = .ok c := by
  rw [ContentLenProcessor.new, read]
  exact ⟨_, if_pos length⟩

/-- The buffer has the declared length if an `int` holds it. -/
theorem payloadSize_of_declared {value : Bytes} {c : ContentLenProcessor} {n : Nat}
    (created : ContentLenProcessor.new value = .ok c)
    (declared : declaredLength value = some (n : Int)) (small : n < 2 ^ 31) :
    c.payloadSize = n := by
  rcases payload_of_new created with ⟨-, m, read, size⟩
  rw [size, eq_of_declared read declared, toInt32_natCast_eq_self_iff.mpr small, Int.toNat_natCast]

/-! ## The call that brings the head -/

/-- The text of a head that has been found ends in a blank line. -/
theorem take_of_findHead {p : HttpResponseProcessor} {data : Bytes} {pos : Nat}
    (found : p.findHead data = some pos) :
    (p.headerStr ++ data).take (pos + 4) = (p.headerStr ++ data).take pos ++ headEnd := by
  rw [findHead] at found
  split at found
  · have there := OccursAt.of_findFrom found
    have line : ((p.headerStr ++ data).drop pos).take 4 = headEnd := there.take_drop
    rw [List.take_add, line]
  · cases found

/-- The call that brings the head is like a call with what stands behind it. -/
theorem Begins.processData {p : HttpResponseProcessor} {first value leftOver : Bytes}
    {status : Int32} (begins : Begins p first value status leftOver) :
    ∃ c, ContentLenProcessor.new value = .ok c ∧ ∃ q : HttpResponseProcessor,
      q.statusCode = status ∧
      ((c.payload ++ leftOver).length ≤ c.payloadSize → ∃ front, q.headerStr = front ++ headEnd) ∧
      p.processData first = ((c.process leftOver).1, q.withPayload (c.process leftOver).2) := by
  rcases begins.accepted with ⟨c, created⟩
  rcases begins.head with ⟨pos, found, read, rfl⟩
  rcases map_eq_ok.mp read with ⟨⟨status', headers⟩, parsed, same⟩
  rw [Prod.mk.injEq] at same
  rcases same with ⟨rfl, filed⟩
  have framing : newDataProcessor headers = .ok (.contentLen c) := by
    rw [newDataProcessor, show headers contentLength = some value from filed]
    dsimp only
    rw [created]
    rfl
  have rest := processLeftOver_withPayload { p with
    headerStr := p.headerStr ++ first, statusCode := status', headers := headers } c pos
  rcases rest with ⟨q, code, text, answer⟩
  refine ⟨c, created, q, code, fun fits => ⟨_, (text fits).trans (take_of_findHead found)⟩, ?_⟩
  rw [HttpResponseProcessor.processData, consume_of_found begins.unset found, processHead,
    parseHeader_eq_readHead (p := { p with headerStr := p.headerStr ++ first }) begins.unset,
    parsed]
  dsimp only [Result.andThen, createDataProcessor]
  rw [framing]
  exact answer

/-- Behind a status code the run is the run of the payload. -/
theorem Begins.feed_eq {p : HttpResponseProcessor} {first value leftOver : Bytes}
    {status : Int32} (begins : Begins p first value status leftOver) (set : status ≠ -1)
    (segments : List Bytes) :
    ∃ c, ContentLenProcessor.new value = .ok c ∧ ∃ q : HttpResponseProcessor, q.statusCode ≠ -1 ∧
      feed p (first :: segments) = feed (q.withPayload c) (leftOver :: segments) := by
  rcases begins.processData with ⟨c, created, q, rfl, -, answer⟩
  refine ⟨c, created, q, set, trace_cons_congr ?_ segments⟩
  rw [answer, processData_withPayload set]

/-! ## Runs of a payload -/

theorem process_payloadSize (c : ContentLenProcessor) (data : Bytes) :
    (c.process data).2.payloadSize = c.payloadSize := by
  by_cases fits : (c.payload ++ data).length ≤ c.payloadSize
  · rw [ContentLenProcessor.process_of_fits fits]
    rfl
  · rw [ContentLenProcessor.process_of_overrun fits]

/-- As long as the bytes fit, every call leaves the payload within its length. -/
theorem within_of_fits {q : HttpResponseProcessor} (parsed : q.statusCode ≠ -1)
    {c : ContentLenProcessor} {segments : List Bytes}
    (fits : (c.payload ++ segments.flatten).length ≤ c.payloadSize) {k : Nat}
    (within : k < segments.length) :
    ∃ r, (feed (q.withPayload c) segments)[k]? = some r ∧
      Within c.payloadSize (c.payload ++ (segments.take (k + 1)).flatten).length r := by
  induction segments generalizing c k with
  | nil => exact absurd within (Nat.not_lt_zero k)
  | cons segment segments ih =>
      rw [List.flatten_cons, ← List.append_assoc] at fits
      have room : (c.payload ++ segment).length ≤ c.payloadSize := by
        rw [List.length_append] at fits
        omega
      have answer := processData_withPayload parsed c segment
      rw [ContentLenProcessor.process_of_fits room] at answer
      have goes : ends ((q.withPayload c).processData segment).1 = false := by
        rw [answer]
        rfl
      rw [feed, trace_cons_of_goes goes, answer]
      cases k with
      | zero =>
          refine ⟨_, rfl, _, _, _, rfl, rfl, rfl, (c.copy segment room).fits, fun full => ?_⟩
          rw [List.take_succ_cons, List.take_zero, List.flatten_singleton] at full
          exact decide_eq_true (Nat.le_antisymm full (c.copy segment room).fits)
      | succ k =>
          have rest := ih (c := c.copy segment room) fits (Nat.lt_of_succ_lt_succ within)
          rw [List.take_succ_cons, List.flatten_cons, ← List.append_assoc]
          exact rest

/-- The payload stays within its declared length exactly when an `int` holds the length and
no more bytes come than it says. -/
theorem Begins.staysWithin_iff_le {p : HttpResponseProcessor} {first value leftOver : Bytes}
    {status : Int32} (begins : Begins p first value status leftOver) (set : status ≠ -1)
    (segments : List Bytes) :
    StaysWithin p first value leftOver segments ↔
      ∃ n : Nat, declaredLength value = some (n : Int) ∧ n < 2 ^ 31 ∧
        (leftOver ++ segments.flatten).length ≤ n := by
  rcases begins.feed_eq set segments with ⟨c, created, q, parsed, run⟩
  have empty := (payload_of_new created).1
  rw [StaysWithin, run]
  constructor
  · intro given
    rcases given with ⟨n, declared, all⟩
    have size : (c.payloadSize : Int) = n := by
      rcases all 0 (Nat.zero_le _) with ⟨r, answered, b, q', d, rfl, there, same, -, -⟩
      rw [feed, getElem?_trace_zero, processData_withPayload parsed, Option.some.injEq,
        Prod.mk.injEq] at answered
      rw [← answered.2] at there
      cases there
      rw [← same, process_payloadSize]
    have fits : (c.payload ++ (leftOver :: segments).flatten).length ≤ c.payloadSize := by
      apply length_le_of_feed parsed
      intro outcome mem
      rcases List.mem_map.mp mem with ⟨r, inRun, rfl⟩
      rcases List.getElem?_of_mem inRun with ⟨k, at_k⟩
      have short : k < (feed (q.withPayload c) (leftOver :: segments)).length :=
        (List.getElem?_eq_some_iff.mp at_k).1
      have within := Nat.le_of_lt_succ (short.trans_le (length_trace_le _))
      rcases all k within with ⟨r', answered, b, q', d, rfl, -⟩
      rw [at_k, Option.some.injEq] at answered
      exact ⟨b, congrArg Prod.fst answered⟩
    rw [empty, List.nil_append, List.flatten_cons] at fits
    exact ⟨c.payloadSize, size ▸ declared, c.small, fits⟩
  · intro given
    rcases given with ⟨n, declared, small, fits⟩
    have same := payloadSize_of_declared created declared small
    have room : (c.payload ++ (leftOver :: segments).flatten).length ≤ c.payloadSize := by
      rw [empty, List.flatten_cons, same]
      exact fits
    refine ⟨n, declared, fun k within => ?_⟩
    have rest := within_of_fits parsed room (Nat.lt_succ_of_le within)
    rw [empty, same] at rest
    exact rest

/-! ## Runs behind a head without a status code -/

theorem findHead_behind_head {q : HttpResponseProcessor} {front before segment : Bytes}
    (text : q.headerStr = front ++ headEnd ++ before)
    (absent : ¬ headEnd <:+: headEnd.drop 1 ++ (before ++ segment)) :
    q.findHead segment = none := by
  have four : headEnd.length = 4 := rfl
  rw [findHead]
  split
  · refine (findFrom_eq_none_iff (by decide)).mpr fun j later there => absent ?_
    have length : q.headerStr.length = front.length + 4 + before.length := by
      rw [text, List.length_append, List.length_append, four]
    rw [if_neg (by omega)] at later
    -- the search begins behind the first character of the blank line of the head
    have behind : (q.headerStr ++ segment).drop (front.length + 1) =
        headEnd.drop 1 ++ (before ++ segment) := by
      rw [text, List.append_assoc, List.append_assoc, ← List.drop_drop, List.drop_left]
      rfl
    rw [← behind, isInfix_iff_occursAt]
    refine ⟨j - (front.length + 1), ?_⟩
    rwa [OccursAt, List.drop_drop, Nat.add_sub_cancel' (by omega)]
  · rfl

/-- A call that brings no blank line leaves the payload alone. -/
theorem processData_unset {q : HttpResponseProcessor} (unset : q.statusCode = -1)
    (d : ContentLenProcessor) {segment : Bytes} (absent : q.findHead segment = none) :
    (q.withPayload d).processData segment =
      (.ok d.isComplete, ({ q with headerStr := q.headerStr ++ segment }).withPayload d) := by
  rw [processData, consume_of_not_found (p := q.withPayload d) unset absent]
  rfl

theorem feed_unset {q : HttpResponseProcessor} (unset : q.statusCode = -1)
    {d : ContentLenProcessor} {front before : Bytes} {segments : List Bytes}
    (text : q.headerStr = front ++ headEnd ++ before)
    (absent : ¬ headEnd <:+: headEnd.drop 1 ++ (before ++ segments.flatten)) {k : Nat}
    (within : k < segments.length) :
    ∃ q' : HttpResponseProcessor,
      (feed (q.withPayload d) segments)[k]? = some (.ok d.isComplete, q'.withPayload d) := by
  induction segments generalizing q before k with
  | nil => exact absurd within (Nat.not_lt_zero k)
  | cons segment segments ih =>
      rw [List.flatten_cons, ← List.append_assoc before] at absent
      have part : headEnd.drop 1 ++ (before ++ segment) <+:
          headEnd.drop 1 ++ (before ++ segment ++ segments.flatten) :=
        (List.prefix_append_right_inj _).mpr (List.prefix_append _ _)
      have answer := processData_unset unset d
        (findHead_behind_head text fun there => absent (there.trans part.isInfix))
      have goes : ends ((q.withPayload d).processData segment).1 = false := by
        rw [answer]
        rfl
      rw [feed, trace_cons_of_goes goes, answer]
      cases k with
      | zero => exact ⟨_, rfl⟩
      | succ k =>
          exact ih (q := { q with headerStr := q.headerStr ++ segment }) unset
            (by rw [text, List.append_assoc]) absent (Nat.lt_of_succ_lt_succ within)

/-- Behind a head without a status code every call leaves the payload that has come with the
head, unless that overruns it. -/
theorem Begins.feed_unset {p : HttpResponseProcessor} {first value leftOver : Bytes}
    (begins : Begins p first value (-1) leftOver) {segments : List Bytes}
    (absent : ¬ AnotherHead segments) :
    ∃ c, ContentLenProcessor.new value = .ok c ∧
      (¬ (c.payload ++ leftOver).length ≤ c.payloadSize →
        ∃ e q, (feed p (first :: segments))[0]? = some (.error e, q)) ∧
      ∀ fits : (c.payload ++ leftOver).length ≤ c.payloadSize, ∀ k ≤ segments.length,
        ∃ q : HttpResponseProcessor, (feed p (first :: segments))[k]? =
          some (.ok (c.copy leftOver fits).isComplete, q.withPayload (c.copy leftOver fits)) := by
  rcases begins.processData with ⟨c, created, q, unset, cut, answer⟩
  rw [(payload_of_new created).1, List.nil_append] at cut
  refine ⟨c, created, fun overrun => ?_, fun fits k within => ?_⟩
  · rw [feed, getElem?_trace_zero, answer, ContentLenProcessor.process_of_overrun overrun]
    exact ⟨_, _, rfl⟩
  · rw [ContentLenProcessor.process_of_fits fits] at answer
    cases k with
    | zero => exact ⟨q, by rw [feed, getElem?_trace_zero, answer]⟩
    | succ k =>
        have goes : ends (p.processData first).1 = false := by
          rw [answer]
          rfl
        rw [(payload_of_new created).1, List.nil_append] at fits
        rcases cut fits with ⟨front, text⟩
        rw [feed, trace_cons_of_goes goes, answer, List.getElem?_cons_succ]
        have ends : q.headerStr = front ++ headEnd ++ [] := by rw [text, List.append_nil]
        exact HttpResponseProcessor.feed_unset unset ends absent within

/-- Behind a head without a status code the payload stays within its declared length exactly
when what has come with the head fills it, or all that comes does not. -/
theorem Begins.staysWithin_iff_unset {p : HttpResponseProcessor} {first value leftOver : Bytes}
    (begins : Begins p first value (-1) leftOver) {segments : List Bytes}
    (absent : ¬ AnotherHead segments) :
    StaysWithin p first value leftOver segments ↔
      ∃ n : Nat, declaredLength value = some (n : Int) ∧ n < 2 ^ 31 ∧
        (leftOver.length = n ∨ (leftOver ++ segments.flatten).length < n) := by
  rcases begins.feed_unset absent with ⟨c, created, overruns, alike⟩
  have empty := (payload_of_new created).1
  constructor
  · intro given
    rcases given with ⟨n, declared, all⟩
    have fits : (c.payload ++ leftOver).length ≤ c.payloadSize := by
      by_contra overrun
      rcases all 0 (Nat.zero_le _) with ⟨r, answered, b, q', d, rfl, -⟩
      rcases overruns overrun with ⟨e, q, thrown⟩
      cases thrown.symm.trans answered
    rcases all segments.length (Nat.le_refl _) with
      ⟨r, answered, b, q', d, rfl, there, same, -, full⟩
    rcases alike fits segments.length (Nat.le_refl _) with ⟨q'', last⟩
    rw [last, Option.some.injEq, Prod.mk.injEq] at answered
    rw [← answered.2] at there
    cases there
    refine ⟨c.payloadSize, same ▸ declared, c.small, ?_⟩
    rw [List.take_length] at full
    by_cases enough : c.payloadSize ≤ (leftOver ++ segments.flatten).length
    · have complete : c.payloadSize = (c.payload ++ leftOver).length :=
        of_decide_eq_true (full enough)
      rw [empty, List.nil_append] at complete
      exact Or.inl complete.symm
    · exact Or.inr (Nat.lt_of_not_le enough)
  · intro given
    rcases given with ⟨n, declared, small, received⟩
    have size := payloadSize_of_declared created declared small
    have fits : (c.payload ++ leftOver).length ≤ c.payloadSize := by
      rw [empty, List.nil_append, size]
      rw [List.length_append] at received
      omega
    refine ⟨n, declared, fun k within => ?_⟩
    rcases alike fits k within with ⟨q', answered⟩
    refine ⟨_, answered, _, _, _, rfl, rfl, congrArg Nat.cast size, (c.copy leftOver fits).fits, ?_⟩
    intro enough
    have part := ((List.take_prefix k segments).flatten).length_le
    have so_far : c.payloadSize ≤ (leftOver ++ (segments.take k).flatten).length := enough
    rw [List.length_append] at so_far received
    have complete : c.payloadSize = (c.payload ++ leftOver).length := by
      rw [empty, List.nil_append]
      omega
    exact decide_eq_true complete

/-- The payload of a run stays within its declared length exactly when the response
`Fits`, unless the head has no status code and the segments bring another one. -/
theorem staysWithin_iff (p : HttpResponseProcessor) (first value : Bytes) (status : Int32)
    (leftOver : Bytes) (segments : List Bytes) (begins : Begins p first value status leftOver) :
    StaysWithin p first value leftOver segments ∧ ¬ (status = -1 ∧ AnotherHead segments) ↔
      Fits value status leftOver segments := by
  rw [Fits]
  by_cases set : status = -1
  · subst set
    simp only [true_and, if_true]
    by_cases another : AnotherHead segments
    · exact iff_of_false (fun given => given.2 another) fun given => by
        rcases given with ⟨n, -, -, absent, -⟩
        exact absent another
    · rw [begins.staysWithin_iff_unset another]
      simp only [another, not_false_eq_true, and_true, true_and]
  · simp only [set, false_and, not_false_eq_true, and_true, if_false]
    exact begins.staysWithin_iff_le set segments

/-- A response of two bytes whose second byte is in a segment of its own. -/
theorem begins_greeting : Begins {} (ascii "HTTP/1.1 200 OK\r\nContent-Length: 2\r\n\r\nh")
    (ascii "2") 200 (ascii "h") where
  unset := rfl
  head := ⟨34, by decide +kernel, by decide +kernel, by decide +kernel⟩
  accepted := exists_new (m := 2) (by decide +kernel) (by decide)

theorem staysWithin_iff_greeting :
    StaysWithin {} (ascii "HTTP/1.1 200 OK\r\nContent-Length: 2\r\n\r\nh") (ascii "2") (ascii "h")
      [ascii "i"] :=
  ((staysWithin_iff {} _ _ 200 _ [ascii "i"] begins_greeting).mpr
    ⟨2, by decide +kernel, by decide, by decide⟩).1

/-- A byte more than declared is written past the buffer. -/
theorem not_staysWithin_greeting :
    ¬ ∀ p first value status leftOver segments, Begins p first value status leftOver →
      StaysWithin p first value leftOver segments := by
  intro always
  rcases always {} (ascii "HTTP/1.1 200 OK\r\nContent-Length: 2\r\n\r\nh") (ascii "2") 200
    (ascii "h") [ascii "i!"] begins_greeting with ⟨n, -, all⟩
  rcases all 1 (by decide) with ⟨r, answered, b, q, d, rfl, -⟩
  have returned := congrArg (Option.map Prod.fst) answered
  rw [← List.getElem?_map, Option.map_some] at returned
  clear answered
  dsimp only at returned
  revert b
  decide +kernel

end HttpResponseProcessor

end PacketReplay
