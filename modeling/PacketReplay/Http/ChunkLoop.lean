import PacketReplay.Http.ChunkedBody
import PacketReplay.Lib.Checked

/-!
# The loop of the chunked body processor

`processFrom` is the loop of `process` on the position `nprocessed` in the segment:
every read of the segment and every copy is checked, and so is the NUL that is stored in
the scratch buffer. `Safe` is the invariant of the loop. Each of its iterations consumes
a byte, whatever the phase, and from a safe processor they are those of `processStep`.
-/

namespace PacketReplay

open Lib

namespace ChunkedProcessor

/-! ## The loop on positions -/

/-- `data[i]`. -/
def dataAt (data : Bytes) (i : Int) : Outcome UInt8 :=
  within (0 ≤ i ∧ i < data.length) (byteD data i.toNat)

/-- The copy of `size` bytes at `data + i`. -/
def copyAt (data : Bytes) (i size : Int) : Outcome Bytes :=
  if size < 0 then .error (.undefined .reversedRange)
  else within (0 ≤ i ∧ i + size ≤ data.length) ((data.drop i.toNat).take size.toNat)

/-- A value, or the end of the call. -/
def orFault {α : Type} (p : ChunkedProcessor) : Outcome α → Except Result α
  | .ok a => .ok a
  | .error f => .error (.error f, p)

/-- The iteration that reads a chunk size. -/
def sizeIteration (data : Bytes) (nprocessed : Int) (p : ChunkedProcessor) :
    Except Result (Int × ChunkedProcessor) := do
  let left : Int := data.length - nprocessed
  let room : Int := tmpSiz - p.tmpBuf.length
  let copied ← orFault p (copyAt data nprocessed (if left < room then left else room))
  let buf := p.tmpBuf ++ copied
  -- the NUL behind the copy
  orFault p (within (buf.length ≤ tmpSiz) ())
  if (lineEnd buf).isSome then
    let number := strtoul 16 (cstr buf)
    let p := { p with tmpBuf := buf, chunkSize := toInt32 number.1 }
    if number.2 = 0 then
      .error (.error (.thrown (.runtimeError (ascii "invalid chunk size in " ++ cstr buf))), p)
    else .ok (toInt32 (nprocessed + (number.2 + 2 : Nat)), p)
  else if buf.length = tmpSiz then
    .error (.error (.thrown (.runtimeError (ascii "failed to find chunk size"))),
      { p with tmpBuf := buf })
  else .error (.ok false, { p with tmpBuf := buf })

/-- The iteration at the terminator of a chunk. -/
def endIteration (data : Bytes) (nprocessed : Int) (p : ChunkedProcessor) :
    Except Result (Int × ChunkedProcessor) :=
  if p.chunkEndCharCount = 0 then do
    let c ← orFault p (dataAt data nprocessed)
    if c = cr then .ok (nprocessed + 1, { p with chunkEndCharCount := 1 })
    else .error (.error (.thrown (terminatorError c)), p)
  else if p.chunkEndCharCount = 1 then do
    let c ← orFault p (dataAt data nprocessed)
    if c = lf then
      if p.chunkSize = 0 then .error (.ok true, { p with complete := true })
      else
        .ok (nprocessed + 1,
          { p with chunkSize := -1, chunkRead := 0, tmpBuf := [], chunkEndCharCount := 0 })
    else .error (.error (.thrown (terminatorError c)), p)
  else .ok (nprocessed, p)

/-- The iteration that copies bytes of a chunk. -/
def dataIteration (data : Bytes) (nprocessed : Int) (p : ChunkedProcessor) :
    Except Result (Int × ChunkedProcessor) := do
  let left : Int := data.length - nprocessed
  let missing : Int := p.chunkSize - p.chunkRead
  let copyLen : Int := if left < missing then left else missing
  let copied ← orFault p (copyAt data nprocessed copyLen)
  .ok (nprocessed + copyLen,
    { p with data := p.data ++ copied, chunkRead := p.chunkRead + copyLen })

def iteration (data : Bytes) (nprocessed : Int) (p : ChunkedProcessor) :
    Except Result (Int × ChunkedProcessor) :=
  if p.chunkSize < 0 then sizeIteration data nprocessed p
  else if p.chunkRead = p.chunkSize then endIteration data nprocessed p
  else dataIteration data nprocessed p

/-- `while (data_len > nprocessed)`. -/
def processFrom (data : Bytes) : Nat → Int → ChunkedProcessor → Result
  | 0, _, p => (.error (.undefined .noProgress), p)
  | fuel + 1, nprocessed, p =>
      if nprocessed < data.length then
        match iteration data nprocessed p with
        | .error r => r
        | .ok next => processFrom data fuel next.1 next.2
      else (.ok false, p)

/-- What the loop of a call comes to, before each test of its condition. -/
inductive LoopHead (data : Bytes) (p : ChunkedProcessor) : Int → ChunkedProcessor → Prop
  | enter : LoopHead data p 0 p
  | next {nprocessed nprocessed' : Int} {q q' : ChunkedProcessor} :
      LoopHead data p nprocessed q → nprocessed < data.length →
      iteration data nprocessed q = .ok (nprocessed', q') → LoopHead data p nprocessed' q'

/-- A processor that calls on segments of less than `2 ^ 30` bytes lead to, none of
which has thrown. -/
inductive Called : ChunkedProcessor → Prop
  | create : Called {}
  | call {p : ChunkedProcessor} {data : Bytes} {fuel : Nat} {answer : Bool}
      {p' : ChunkedProcessor} :
      Called p → data.length < 2 ^ 30 → processFrom data fuel 0 p = (.ok answer, p') → Called p'

/-! ## The invariant -/

/-- What holds of a processor between two iterations, on any bytes. -/
structure Safe (p : ChunkedProcessor) : Prop where
  scratch : p.tmpBuf.length ≤ tmpSiz
  endCount : p.chunkEndCharCount ≤ 1
  chunk : p.chunkSize < 0 ∨ 0 ≤ p.chunkRead ∧ p.chunkRead ≤ p.chunkSize
  fresh : p.chunkSize < 0 → p.chunkRead = 0

theorem Safe.init : Safe {} := ⟨Nat.zero_le _, Nat.zero_le _, Or.inl (by decide), fun _ => rfl⟩

section Invariant

variable {p : ChunkedProcessor} {c : UInt8} {rest : Bytes}

/-- A size that is read belongs to a chunk of which nothing is read. -/
theorem Safe.sized (safe : Safe p) (size : p.chunkSize < 0) (number : Int) (data : Bytes) :
    Safe { p with tmpBuf := p.fill data, chunkSize := number } where
  scratch := length_fill_le safe.scratch data
  endCount := safe.endCount
  chunk := by
    have read := safe.fresh size
    simp only
    omega
  fresh := fun _ => safe.fresh size

theorem Safe.filled (safe : Safe p) (size : p.chunkSize < 0) (data : Bytes) :
    Safe { p with tmpBuf := p.fill data } := safe.sized size p.chunkSize data

/-- An iteration on positions is one on the bytes that are left. -/
def Follows (data : Bytes) (i : Nat) (p : ChunkedProcessor) :
    BlockStep ChunkedProcessor Result → Prop
  | .next p' n => 0 < n ∧ Safe p' ∧ iteration data i p = .ok (((i + n : Nat) : Int), p')
  | .exit r => Safe r.2 ∧ Defined r.1 ∧ iteration data i p = .error r

theorem length_of_drop_eq_cons {data : Bytes} {i : Nat} (here : data.drop i = c :: rest) :
    data.length = i + (rest.length + 1) := by
  have size := congrArg List.length here
  rw [List.length_drop, List.length_cons] at size
  omega

theorem dataAt_of_drop {data : Bytes} {i : Nat} (here : data.drop i = c :: rest) :
    dataAt data i = .ok c := by
  have length := length_of_drop_eq_cons here
  have symbol : data[i]? = some c := by
    rw [← Nat.add_zero i, ← List.getElem?_drop, here, List.getElem?_cons_zero]
  rw [dataAt, within_of (by omega), Int.toNat_natCast, byteD, List.getD_eq_getElem?_getD, symbol,
    Option.getD_some]

theorem copyAt_of_le {data : Bytes} {i n : Nat} (fits : i + n ≤ data.length) :
    copyAt data i n = .ok ((data.drop i).take n) := by
  rw [copyAt, if_neg (by omega), within_of (by omega), Int.toNat_natCast, Int.toNat_natCast]

theorem Safe.follows_size (safe : Safe p) (size : p.chunkSize < 0) {data : Bytes} {i : Nat}
    (small : data.length < 2 ^ 30) (here : data.drop i = c :: rest) :
    Follows data i p (p.processStep c rest) := by
  have length := length_of_drop_eq_cons here
  have room := safe.scratch
  have copyLen : (if (data.length : Int) - i < tmpSiz - p.tmpBuf.length then
      (data.length : Int) - i else tmpSiz - p.tmpBuf.length) =
        (min (c :: rest).length (tmpSiz - p.tmpBuf.length) : Nat) := by
    rw [List.length_cons]
    split <;> omega
  have copied : copyAt data i (min (c :: rest).length (tmpSiz - p.tmpBuf.length) : Nat) =
      .ok ((c :: rest).take (min (c :: rest).length (tmpSiz - p.tmpBuf.length))) := by
    rw [copyAt_of_le (by rw [List.length_cons]; omega), here]
  have stored : within ((p.fill (c :: rest)).length ≤ tmpSiz) () = .ok () :=
    within_of (length_fill_le room _) ()
  have turn : iteration data i p = sizeIteration data i p := if_pos size
  rw [sizeIteration] at turn
  simp only [copyLen, copied, orFault, ok_bind] at turn
  rw [show p.tmpBuf ++ (c :: rest).take (min (c :: rest).length (tmpSiz - p.tmpBuf.length)) =
    p.fill (c :: rest) from rfl, stored] at turn
  simp only [ok_bind] at turn
  rw [processStep, if_pos size]
  dsimp only
  by_cases found : (lineEnd (p.fill (c :: rest))).isSome
  · rw [if_pos found] at turn ⊢
    by_cases none : (strtoul 16 (cstr (p.fill (c :: rest)))).2 = 0
    · rw [if_pos none] at turn ⊢
      exact ⟨safe.sized size _ _, defined_thrown _, turn⟩
    · rw [if_neg none] at turn ⊢
      refine ⟨by omega, safe.sized size _ _, ?_⟩
      have stop := strtoul_stop_le 16 (cstr (p.fill (c :: rest)))
      have line := (cstr_isPrefix (p.fill (c :: rest))).length_le
      have bound := length_fill_le room (c :: rest)
      rw [tmpSiz] at bound
      rw [turn, toInt32_of_range (by omega) (by omega), Nat.cast_add i]
  · rw [if_neg found] at turn ⊢
    by_cases full : (p.fill (c :: rest)).length = tmpSiz
    · rw [if_pos full] at turn ⊢
      exact ⟨safe.filled size _, defined_thrown _, turn⟩
    · rw [if_neg full] at turn ⊢
      exact ⟨safe.filled size _, defined_ok _, turn⟩

theorem Safe.follows_end (safe : Safe p) (size : ¬ p.chunkSize < 0)
    (ended : p.chunkRead = p.chunkSize) {data : Bytes} {i : Nat} (here : data.drop i = c :: rest) :
    Follows data i p (p.processStep c rest) := by
  have turn : iteration data i p = endIteration data i p := (if_neg size).trans (if_pos ended)
  have read : orFault p (dataAt data i) = .ok c := by
    rw [dataAt_of_drop here]
    rfl
  rw [endIteration, read] at turn
  simp only [ok_bind] at turn
  rw [processStep, if_neg size, if_pos ended]
  by_cases first : p.chunkEndCharCount = 0
  · rw [if_pos first] at turn ⊢
    by_cases carriage : c = cr
    · rw [if_pos carriage] at turn ⊢
      refine ⟨Nat.one_pos, ⟨safe.scratch, le_rfl, safe.chunk, safe.fresh⟩, turn⟩
    · rw [if_neg carriage] at turn ⊢
      exact ⟨safe, defined_thrown _, turn⟩
  · have second : p.chunkEndCharCount = 1 := by
      have count := safe.endCount
      omega
    rw [if_neg first, if_pos second] at turn ⊢
    by_cases feed : c = lf
    · rw [if_pos feed] at turn ⊢
      by_cases last : p.chunkSize = 0
      · rw [if_pos last] at turn ⊢
        exact ⟨⟨safe.scratch, safe.endCount, safe.chunk, safe.fresh⟩, defined_ok _, turn⟩
      · rw [if_neg last] at turn ⊢
        exact ⟨Nat.one_pos,
          ⟨Nat.zero_le _, Nat.zero_le _, Or.inl (show (-1 : Int) < 0 by decide), fun _ => rfl⟩,
          turn⟩
    · rw [if_neg feed] at turn ⊢
      exact ⟨safe, defined_thrown _, turn⟩

theorem Safe.follows_data (safe : Safe p) (size : ¬ p.chunkSize < 0)
    (unread : p.chunkRead ≠ p.chunkSize) {data : Bytes} {i : Nat}
    (here : data.drop i = c :: rest) : Follows data i p (p.processStep c rest) := by
  have length := length_of_drop_eq_cons here
  have chunk := safe.chunk
  have turn : iteration data i p = dataIteration data i p := (if_neg size).trans (if_neg unread)
  obtain ⟨n, copyLen⟩ : ∃ n : Nat,
      min ((c :: rest).length : Int) (p.chunkSize - p.chunkRead) = n := by
    refine ⟨(min ((c :: rest).length : Int) (p.chunkSize - p.chunkRead)).toNat, ?_⟩
    rw [List.length_cons]
    omega
  have same : (if (data.length : Int) - i < p.chunkSize - p.chunkRead then
      (data.length : Int) - i else p.chunkSize - p.chunkRead) = n := by
    rw [← copyLen, List.length_cons]
    split <;> omega
  rw [List.length_cons] at copyLen
  have copied : copyAt data i n = .ok ((c :: rest).take n) := by
    rw [copyAt_of_le (by omega), here]
  rw [dataIteration] at turn
  simp only [same, copied, orFault, ok_bind] at turn
  rw [processStep, if_neg size, if_neg unread]
  simp only [List.length_cons, copyLen, if_neg (by omega : ¬ (n : Int) < 0), Int.toNat_natCast]
  refine ⟨by omega, ⟨safe.scratch, safe.endCount, ?_, ?_⟩, ?_⟩
  · refine Or.inr ⟨?_, ?_⟩ <;> simp only <;> omega
  · exact fun negative => absurd negative size
  · rw [turn, Nat.cast_add]

/-- From a safe processor an iteration consumes a byte or ends the call, and leaves a safe
processor. -/
theorem Safe.follows (safe : Safe p) {data : Bytes} {i : Nat} (small : data.length < 2 ^ 30)
    (here : data.drop i = c :: rest) : Follows data i p (p.processStep c rest) := by
  by_cases size : p.chunkSize < 0
  · exact safe.follows_size size small here
  · by_cases ended : p.chunkRead = p.chunkSize
    · exact safe.follows_end size ended here
    · exact safe.follows_data size ended here

end Invariant

/-! ## A call -/

section Call

variable {p : ChunkedProcessor} {data : Bytes}

theorem exists_drop_of_lt {i : Nat} (inside : (i : Int) < data.length) :
    ∃ c rest, data.drop i = c :: rest := by
  have below : i < data.length := by omega
  exact ⟨_, _, List.drop_eq_getElem_cons below⟩

/-- With fuel for every byte the loop ends as the loop on bytes does. -/
theorem Safe.processFrom_eq (safe : Safe p) (small : data.length < 2 ^ 30) {fuel i : Nat}
    (enough : data.length - i < fuel) :
    processFrom data fuel i p = p.process (data.drop i) := by
  induction fuel generalizing i p with
  | zero => exact absurd enough (Nat.not_lt_zero _)
  | succ fuel ih =>
      rw [processFrom]
      by_cases inside : (i : Int) < data.length
      · obtain ⟨c, rest, here⟩ := exists_drop_of_lt inside
        have follows := safe.follows small here
        rw [if_pos inside, here]
        cases step : p.processStep c rest with
        | next p' n =>
            rw [step] at follows
            rcases follows with ⟨pos, safe', turn⟩
            rw [turn, process_of_next pos step, ← here, List.drop_drop]
            exact ih safe' (by omega)
        | exit r =>
            rw [step] at follows
            rw [follows.2.2, process_of_exit step]
      · rw [if_neg inside, List.drop_eq_nil_of_le (by omega), process_nil]

/-- Whatever the fuel is, a safe processor is left. -/
theorem Safe.of_processFrom (safe : Safe p) (small : data.length < 2 ^ 30) (fuel i : Nat) :
    Safe (processFrom data fuel i p).2 := by
  induction fuel generalizing i p with
  | zero => exact safe
  | succ fuel ih =>
      rw [processFrom]
      by_cases inside : (i : Int) < data.length
      · obtain ⟨c, rest, here⟩ := exists_drop_of_lt inside
        have follows := safe.follows small here
        rw [if_pos inside]
        cases step : p.processStep c rest with
        | next p' n =>
            rw [step] at follows
            rcases follows with ⟨-, safe', turn⟩
            rw [turn]
            exact ih safe' (i + n)
        | exit r =>
            rw [step] at follows
            rw [follows.2.2]
            exact follows.1
      · rw [if_neg inside]
        exact safe

theorem Safe.of_loopHead (safe : Safe p) (small : data.length < 2 ^ 30) {nprocessed : Int}
    {q : ChunkedProcessor} (head : LoopHead data p nprocessed q) :
    ∃ i : Nat, nprocessed = i ∧ Safe q := by
  induction head with
  | enter => exact ⟨0, rfl, safe⟩
  | next _ inside turn ih =>
      rcases ih with ⟨i, rfl, safe⟩
      obtain ⟨c, rest, here⟩ := exists_drop_of_lt inside
      have follows := safe.follows small here
      cases step : ChunkedProcessor.processStep _ c rest with
      | next p' n =>
          rw [step] at follows
          rcases follows with ⟨-, safe', same⟩
          rw [same] at turn
          cases turn
          exact ⟨i + n, rfl, safe'⟩
      | exit r =>
          rw [step] at follows
          rw [follows.2.2] at turn
          cases turn

theorem Safe.defined_process (safe : Safe p) (small : data.length < 2 ^ 30) :
    Defined (p.process data).1 := by
  have left : ∀ {p : ChunkedProcessor} {i : Nat}, Safe p →
      Defined (p.process (data.drop i)).1 := by
    intro p i safe
    induction size : data.length - i using Nat.strongRecOn generalizing p i with
    | ind bound ih =>
        by_cases inside : (i : Int) < data.length
        · obtain ⟨c, rest, here⟩ := exists_drop_of_lt inside
          have follows := safe.follows small here
          rw [here]
          cases step : p.processStep c rest with
          | next p' n =>
              rw [step] at follows
              rcases follows with ⟨pos, safe', -⟩
              rw [process_of_next pos step, ← here, List.drop_drop]
              exact ih _ (by omega) safe' rfl
          | exit r =>
              rw [step] at follows
              rw [process_of_exit step]
              exact follows.2.1
        · rw [List.drop_eq_nil_of_le (by omega), process_nil]
          exact defined_ok false
  exact left (i := 0) safe

theorem Safe.of_called (called : Called p) : Safe p := by
  induction called with
  | create => exact Safe.init
  | @call _ _ fuel _ _ _ small processed ih =>
      have left := ih.of_processFrom small fuel 0
      rw [Nat.cast_zero, processed] at left
      exact left

/-- After any calls on any bytes a call ends, reads and copies within its segment, and
keeps the invariant at every iteration. -/
theorem process_safe (called : Called p) (small : data.length < 2 ^ 30) :
    (∀ fuel, data.length < fuel → processFrom data fuel 0 p = p.process data) ∧
      Defined (p.process data).1 ∧
      (∀ nprocessed q, LoopHead data p nprocessed q → 0 ≤ nprocessed ∧ Safe q) ∧
      Safe (p.process data).2 := by
  have safe := Safe.of_called called
  have ends : ∀ fuel, data.length < fuel → processFrom data fuel 0 p = p.process data := by
    intro fuel enough
    exact safe.processFrom_eq small (i := 0) enough
  refine ⟨ends, safe.defined_process small, ?_, ?_⟩
  · intro nprocessed q head
    obtain ⟨i, rfl, safe'⟩ := safe.of_loopHead small head
    exact ⟨Int.natCast_nonneg i, safe'⟩
  · rw [← ends _ (Nat.lt_succ_self _)]
    exact safe.of_processFrom small _ 0

/-- A size that is no `int`, read again and again. -/
theorem process_safe_negative :
    (∀ fuel, (ascii "ffffffff\r\nabc").length < fuel →
      processFrom (ascii "ffffffff\r\nabc") fuel 0 {} =
        ({} : ChunkedProcessor).process (ascii "ffffffff\r\nabc")) ∧
      Defined (({} : ChunkedProcessor).process (ascii "ffffffff\r\nabc")).1 ∧
      (∀ nprocessed q, LoopHead (ascii "ffffffff\r\nabc") {} nprocessed q →
        0 ≤ nprocessed ∧ Safe q) ∧
      Safe (({} : ChunkedProcessor).process (ascii "ffffffff\r\nabc")).2 :=
  process_safe .create (by decide)

end Call

end ChunkedProcessor

end PacketReplay
