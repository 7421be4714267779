import PacketReplay.Lib.ByteReader
import PacketReplay.Lib.Fields

/-!
# Comparing DNS packets

`validate` of the DNS script: it goes through the records of the expected packet for the
positions of their TTLs and compares everything else. Behind a TTL it reads the length of
the data from the first two bytes of the TTL itself, so it finds the next record only where
these happen to lead to it. `validatesAll_iff` says for which messages it does.
-/

namespace PacketReplay.Dns

open Lib

/-! ## The script -/

/-- The loop of `skip_name`, behind a byte that gives the length of a label. -/
def skipLabels (labelLen : Nat) (reader : ByteReader) : Except StructError ByteReader :=
  if labelLen = 0 then .ok reader
  else if 63 < labelLen then .ok (reader.read 1).2
  else
    match _read : (reader.read labelLen).2.readByte with
    | .error e => .error e
    | .ok (labelLen, reader) => skipLabels labelLen reader
termination_by reader.buffer.length - reader.pos
decreasing_by
  rcases ByteReader.readByte_eq_ok _read with ⟨inside, rfl⟩
  simp only [ByteReader.read, ByteReader.seek] at inside ⊢
  omega

def skipName (reader : ByteReader) : Except StructError ByteReader :=
  match reader.readByte with
  | .error e => .error e
  | .ok (labelLen, reader) => skipLabels labelLen reader

def skipQuestion (reader : ByteReader) : Except StructError ByteReader := do
  let reader ← skipName reader
  return (reader.read 4).2

def skipQuestions : Nat → ByteReader → Except StructError ByteReader
  | 0, reader => .ok reader
  | n + 1, reader => do
      let reader ← skipQuestion reader
      skipQuestions n reader

/-- The loop over the records: the positions of their TTLs. -/
def readTtls : Nat → ByteReader → Except StructError (List Nat)
  | 0, _ => .ok []
  | n + 1, reader => do
      let reader ← skipName reader
      let reader := (reader.read 4).2
      let dataLen ← reader.readWord
      let ttls ← readTtls n (dataLen.2.read dataLen.1).2
      return reader.pos :: ttls

/-- The comparison of the slices between the TTLs. -/
def sameBetween (expected actual : Bytes) (startIdx : Nat) : List Nat → Bool
  | [] => expected.drop startIdx = actual.drop startIdx
  | ttl :: ttls =>
      if (expected.take ttl).drop startIdx ≠ (actual.take ttl).drop startIdx then false
      else sameBetween expected actual (ttl + 4) ttls

/-- The positions of the TTLs of a packet. -/
def ttlsOf (expected : Bytes) : Except StructError (List Nat) := do
  let (header, reader) := ({ buffer := expected } : ByteReader).read 12
  if header.length ≠ 12 then .error (.requires 12)
  else
    let qdCount := wordD header 4
    let anCount := wordD header 6
    let nsCount := wordD header 8
    let arCount := wordD header 10
    let reader ← skipQuestions qdCount reader
    readTtls (anCount + nsCount + arCount) reader

def validate (expected actual : Bytes) : Except StructError Bool := do
  let ttls ← ttlsOf expected
  return sameBetween expected actual 0 ttls

/-! ## Messages -/

/-- A label of a name. -/
structure Label : Type where
  bytes : Bytes
  some : 0 < bytes.length
  short : bytes.length ≤ 63

/-- What ends a name. -/
inductive NameEnd : Type
  | root
  | pointer (high low : UInt8) (marked : 192 ≤ high.toNat)

structure Name : Type where
  labels : List Label
  ending : NameEnd

def Label.encode (l : Label) : Bytes := UInt8.ofNat l.bytes.length :: l.bytes

def NameEnd.encode : NameEnd → Bytes
  | .root => [0]
  | .pointer high low _ => [high, low]

def Name.encode (n : Name) : Bytes := (n.labels.map Label.encode).flatten ++ n.ending.encode

structure Question : Type where
  name : Name
  typeClass : Bytes
  typeClass_length : typeClass.length = 4

structure Record : Type where
  name : Name
  typeClass : Bytes
  ttl : Bytes
  data : Bytes
  typeClass_length : typeClass.length = 4
  ttl_length : ttl.length = 4
  data_small : data.length < 2 ^ 16

def Question.encode (q : Question) : Bytes := q.name.encode ++ q.typeClass

def Record.encode (r : Record) : Bytes :=
  r.name.encode ++ (r.typeClass ++ (r.ttl ++ (wordBytes r.data.length ++ r.data)))

structure Message : Type where
  /-- The identifier and the flags. -/
  ident : Bytes
  questions : List Question
  answers : List Record
  authority : List Record
  additional : List Record
  ident_length : ident.length = 4
  questions_few : questions.length < 2 ^ 16
  answers_few : answers.length < 2 ^ 16
  authority_few : authority.length < 2 ^ 16
  additional_few : additional.length < 2 ^ 16

namespace Message

def records (m : Message) : List Record := m.answers ++ (m.authority ++ m.additional)

def header (m : Message) : Bytes :=
  m.ident ++ (wordBytes m.questions.length ++ (wordBytes m.answers.length ++
    (wordBytes m.authority.length ++ wordBytes m.additional.length)))

def encode (m : Message) : Bytes :=
  m.header ++ ((m.questions.map Question.encode).flatten ++ (m.records.map Record.encode).flatten)

end Message

/-- Where the TTLs of records lie of which the first starts at `start`. -/
def ttlStarts (start : Nat) : List Record → List Nat
  | [] => []
  | r :: rs => (start + r.name.encode.length + 4) :: ttlStarts (start + r.encode.length) rs

/-- Where the records of a message start. -/
def Message.recordsStart (m : Message) : Nat :=
  12 + (m.questions.map Question.encode).flatten.length

/-- Where the TTLs of a message lie. -/
def Message.ttls (m : Message) : List Nat := ttlStarts m.recordsStart m.records

/-- The packet agrees with the message outside of its TTLs. -/
def Message.SameOutsideTtls (m : Message) (actual : Bytes) : Prop :=
  actual.length = m.encode.length ∧
    ∀ i < m.encode.length, ¬ InField 4 m.ttls i → actual[i]? = m.encode[i]?

/-- No packet makes the comparison with the message fail, and it is right about all. -/
def Message.ValidatesAll (m : Message) : Prop :=
  ∀ actual, ∃ valid, validate m.encode actual = .ok valid ∧
    (valid = true ↔ m.SameOutsideTtls actual)

/-- From the TTL at `t` the script finds the name in front of the TTL at `next`: it starts
where the first two bytes of the TTL, taken for the length of the data, lead to. -/
def LeadsTo (packet : Bytes) (t next : Nat) : Prop :=
  (skipName ⟨packet, t + 2 + wordD packet t⟩).map ByteReader.pos = .ok (next - 4)

/-! ## Names -/

/-- A label is skipped, and another byte gives the length of the next. -/
theorem skipLabels_of_label {k : Nat} (some : 0 < k) (short : k ≤ 63) (r : ByteReader) :
    skipLabels k r = skipName (r.read k).2 := by
  rw [skipLabels, if_neg (Nat.pos_iff_ne_zero.mp some), if_neg (Nat.not_lt.mpr short), skipName]
  split
  · next e failed => rw [failed]
  · next labelLen rest read => rw [read]

/-- A name is skipped. -/
theorem skipName_encode {name : Name} {r : ByteReader}
    (lies : OccursAt name.encode r.buffer r.pos) :
    skipName r = .ok (r.seek (r.pos + name.encode.length)) := by
  rcases name with ⟨labels, ending⟩
  induction labels generalizing r with
  | nil =>
      cases ending with
      | root =>
          have inside : r.pos < r.buffer.length := lies.le_length (List.cons_ne_nil _ _)
          have zero : byteD r.buffer r.pos = 0 := byteD_of_occursAt lies
          rw [skipName, ByteReader.readByte_of_lt inside, zero]
          dsimp only
          rw [skipLabels, if_pos UInt8.toNat_zero]
          rfl
      | pointer high low marked =>
          have inside : r.pos + 2 ≤ r.buffer.length := lies.le_length (List.cons_ne_nil _ _)
          have second : (r.seek (r.pos + 1)).pos + 1 ≤ r.buffer.length := inside
          have first := (occursAt_append (u := [high]) (v := [low]).mp lies).1
          rw [skipName, ByteReader.readByte_of_lt (by omega), byteD_of_occursAt first]
          dsimp only
          rw [skipLabels, if_neg (by omega), if_pos (by omega), ByteReader.read_of_le second]
          rfl
  | cons label labels ih =>
      have parts : Name.encode ⟨label :: labels, ending⟩ =
          [UInt8.ofNat label.bytes.length] ++ (label.bytes ++ Name.encode ⟨labels, ending⟩) := by
        simp [Name.encode, Label.encode]
      rw [parts, occursAt_append, occursAt_append, List.length_singleton] at lies
      rcases lies with ⟨first, bytes, behind⟩
      have some := label.some
      have short := label.short
      have inside := bytes.le_length (List.length_pos_iff.mp some)
      have value : (UInt8.ofNat label.bytes.length).toNat = label.bytes.length := by
        rw [UInt8.toNat_ofNat']
        omega
      rw [skipName, ByteReader.readByte_of_lt (by omega), byteD_of_occursAt first, value]
      dsimp only
      rw [skipLabels_of_label some short, ByteReader.read_of_le inside]
      dsimp only
      rw [ih behind, parts]
      simp only [ByteReader.seek_seek, ByteReader.seek_pos, List.length_append,
        List.length_singleton]
      congr 2
      omega

/-- A name that is skipped lies in the block, whatever it is. -/
theorem skipLabels_eq_ok {k : Nat} {r left : ByteReader}
    (inside : r.pos ≤ r.buffer.length) (skipped : skipLabels k r = .ok left) :
    ∃ pos, left = r.seek pos ∧ r.pos ≤ pos ∧ pos ≤ r.buffer.length := by
  fun_induction skipLabels k r with
  | case1 =>
      cases skipped
      exact ⟨_, rfl, le_rfl, inside⟩
  | case2 k r some long =>
      rw [Except.ok.injEq, ByteReader.read_eq_seek inside] at skipped
      exact ⟨_, skipped.symm, by omega, Nat.min_le_right _ _⟩
  | case3 k r some short e failed => cases skipped
  | case4 k r some short labelLen rest read ih =>
      rcases ByteReader.readByte_eq_ok read with ⟨within, rfl⟩
      rw [ByteReader.read_eq_seek inside] at within ih skipped
      rcases ih within skipped with ⟨pos, same, behind, inside'⟩
      simp only [ByteReader.seek_seek, ByteReader.seek_pos,
        ByteReader.seek_buffer] at same behind inside'
      exact ⟨pos, same, by omega, inside'⟩

theorem skipName_eq_ok {r left : ByteReader} (skipped : skipName r = .ok left) :
    ∃ pos, left = r.seek pos ∧ r.pos < pos ∧ pos ≤ r.buffer.length := by
  rw [skipName] at skipped
  split at skipped
  · cases skipped
  · next labelLen rest read =>
      rcases ByteReader.readByte_eq_ok read with ⟨within, rfl⟩
      rcases skipLabels_eq_ok (r := r.seek (r.pos + 1)) within skipped with
        ⟨pos, same, behind, inside⟩
      exact ⟨pos, same, behind, inside⟩

/-! ## Records -/

/-- A record that is read: its name is skipped, its TTL lies four bytes behind, and the
next record is looked for behind as many bytes as the TTL begins with. -/
theorem readTtls_succ_eq_ok {n : Nat} {r : ByteReader} {us : List Nat}
    (read : readTtls (n + 1) r = .ok us) :
    ∃ pos later, skipName r = .ok (r.seek pos) ∧ r.pos < pos ∧
      pos + 6 ≤ r.buffer.length ∧ us = (pos + 4) :: later ∧
      readTtls n (r.seek
        (min (pos + 6 + wordD r.buffer (pos + 4)) r.buffer.length)) = .ok later := by
  rcases bind_eq_ok.mp read with ⟨named, skipped, read⟩
  rcases skipName_eq_ok skipped with ⟨pos, rfl, behind, within⟩
  rcases bind_eq_ok.mp read with ⟨⟨len, rest⟩, length, read⟩
  rcases bind_eq_ok.mp read with ⟨later, found, same⟩
  have typed := ByteReader.read_eq_seek (r := r.seek pos) within 4
  rw [ByteReader.seek_pos, ByteReader.seek_seek, ByteReader.seek_buffer] at typed
  rw [typed] at length same
  rcases ByteReader.readWord_eq_ok length with ⟨there, value, left⟩
  rw [ByteReader.seek_pos, ByteReader.seek_buffer] at there value
  rw [ByteReader.seek_pos, ByteReader.seek_seek] at left
  have ttl : min (pos + 4) r.buffer.length = pos + 4 := by omega
  rw [ttl] at there value left same
  rw [left] at found
  dsimp only at found
  rw [ByteReader.read_eq_seek there, ByteReader.seek_seek, value] at found
  cases same
  exact ⟨pos, later, skipped, behind, there, rfl, found⟩

/-- The TTLs that are found are apart, and the two bytes that are read there are there. -/
theorem spaced_of_readTtls {n : Nat} {r : ByteReader} {us : List Nat}
    (read : readTtls n r = .ok us) :
    Spaced 7 us ∧ ∀ u ∈ us, r.pos + 5 ≤ u ∧ u + 2 ≤ r.buffer.length := by
  induction n generalizing r us with
  | zero =>
      cases read
      exact ⟨List.Pairwise.nil, fun u mem => by cases mem⟩
  | succ n ih =>
      rcases readTtls_succ_eq_ok read with ⟨pos, later, -, behind, inside, rfl, found⟩
      rcases ih found with ⟨spaced, bounds⟩
      rw [ByteReader.seek_pos, ByteReader.seek_buffer] at bounds
      constructor
      · apply List.Pairwise.cons _ spaced
        intro u mem
        have bound := bounds u mem
        omega
      · intro u mem
        rcases List.mem_cons.mp mem with rfl | mem
        · omega
        · have bound := bounds u mem
          omega

/-- A name behind the block is missed as one at its end is. -/
theorem skipName_min (packet : Bytes) (q : Nat) :
    skipName ⟨packet, min q packet.length⟩ = skipName ⟨packet, q⟩ := by
  rcases Nat.le_total q packet.length with inside | outside
  · rw [Nat.min_eq_left inside]
  · rw [Nat.min_eq_right outside, skipName, skipName,
      ByteReader.readByte_of_le (r := ⟨packet, packet.length⟩) le_rfl,
      ByteReader.readByte_of_le (r := ⟨packet, q⟩) outside]

theorem readTtls_succ_eq_ok_iff {packet : Bytes} {n t q : Nat} {ts : List Nat} (behind : 4 ≤ t)
    (inside : t + 2 ≤ packet.length) :
    readTtls (n + 1) ⟨packet, q⟩ = .ok (t :: ts) ↔
      (skipName ⟨packet, q⟩).map ByteReader.pos = .ok (t - 4) ∧
        readTtls n ⟨packet, min (t + 2 + wordD packet t) packet.length⟩ = .ok ts := by
  constructor
  · intro read
    rcases readTtls_succ_eq_ok read with ⟨pos, later, skipped, -, -, same, found⟩
    cases same
    rw [skipped]
    exact ⟨rfl, found⟩
  · intro both
    rcases both with ⟨skipped, found⟩
    rcases map_eq_ok.mp skipped with ⟨named, name, pos⟩
    rcases skipName_eq_ok name with ⟨p, rfl, -, -⟩
    rw [ByteReader.seek_pos] at pos
    subst pos
    have typed : ((ByteReader.seek ⟨packet, q⟩ (t - 4)).read 4).2 = ⟨packet, t⟩ := by
      have there : t - 4 + 4 ≤ packet.length := by omega
      rw [ByteReader.read_of_le (r := ByteReader.seek ⟨packet, q⟩ (t - 4)) there,
        ByteReader.seek_seek, ByteReader.seek_pos, Nat.sub_add_cancel behind]
      rfl
    have word := ByteReader.readWord_of_le (r := ⟨packet, t⟩) inside
    have data := ByteReader.read_eq_seek (r := ⟨packet, t + 2⟩) inside (wordD packet t)
    apply bind_eq_ok.mpr
    refine ⟨_, name, ?_⟩
    dsimp only
    rw [typed, word, ok_bind]
    dsimp only
    rw [ByteReader.seek, data, ByteReader.seek, found]
    rfl

/-- The positions of the TTLs are found exactly when the first is, and each leads to the
next. -/
theorem readTtls_eq_ok_iff {packet : Bytes} {ts : List Nat} {q : Nat}
    (inside : ∀ t ∈ ts, 4 ≤ t ∧ t + 2 ≤ packet.length) :
    readTtls ts.length ⟨packet, q⟩ = .ok ts ↔
      (∀ t ∈ ts.head?, (skipName ⟨packet, q⟩).map ByteReader.pos = .ok (t - 4)) ∧
        ts.IsChain (LeadsTo packet) := by
  induction ts generalizing q with
  | nil => simp [readTtls]
  | cons t ts ih =>
      rcases inside t List.mem_cons_self with ⟨behind, there⟩
      rw [List.length_cons, readTtls_succ_eq_ok_iff behind there,
        ih fun u mem => inside u (List.mem_cons_of_mem t mem), skipName_min, List.isChain_cons,
        List.head?_cons]
      simp only [Option.mem_some_iff, forall_eq', LeadsTo]

/-! ## Where the TTLs lie -/

theorem Record.length_encode (r : Record) :
    r.encode.length = r.name.encode.length + 4 + 6 + r.data.length := by
  simp only [Record.encode, List.length_append, r.typeClass_length, r.ttl_length, length_wordBytes]
  omega

theorem Name.length_pos (n : Name) : 0 < n.encode.length := by
  rcases n with ⟨labels, ending⟩
  rw [Name.encode, List.length_append]
  apply Nat.lt_of_lt_of_le _ (Nat.le_add_left _ _)
  cases ending with
  | root => exact Nat.one_pos
  | pointer high low marked => exact Nat.two_pos

theorem length_ttlStarts (start : Nat) (rs : List Record) :
    (ttlStarts start rs).length = rs.length := by
  induction rs generalizing start with
  | nil => rfl
  | cons r rs ih => rw [ttlStarts, List.length_cons, List.length_cons, ih]

theorem spaced_ttlStarts (start : Nat) (rs : List Record) :
    Spaced 7 (ttlStarts start rs) ∧ ∀ t ∈ ttlStarts start rs,
      start + 5 ≤ t ∧ t + 6 ≤ start + (rs.map Record.encode).flatten.length := by
  induction rs generalizing start with
  | nil => exact ⟨List.Pairwise.nil, fun t mem => by cases mem⟩
  | cons r rs ih =>
      rcases ih (start + r.encode.length) with ⟨spaced, bounds⟩
      have name := r.name.length_pos
      have length := r.length_encode
      rw [ttlStarts, List.map_cons, List.flatten_cons, List.length_append]
      constructor
      · apply List.Pairwise.cons _ spaced
        intro t mem
        have bound := bounds t mem
        omega
      · intro t mem
        rcases List.mem_cons.mp mem with rfl | mem
        · omega
        · have bound := bounds t mem
          omega

/-! ## Comparing between the TTLs -/

/-- Everything from `startIdx` on is compared that does not lie in a TTL. -/
theorem sameBetween_iff {expected actual : Bytes} {startIdx gap : Nat} {ttls : List Nat}
    (apart : 4 ≤ gap) (spaced : Spaced gap ttls) (inside : ∀ t ∈ ttls, startIdx ≤ t) :
    sameBetween expected actual startIdx ttls = true ↔
      ∀ i, startIdx ≤ i → ¬ InField 4 ttls i → expected[i]? = actual[i]? := by
  induction ttls generalizing startIdx with
  | nil => simp [sameBetween, drop_eq_iff]
  | cons t ts ih =>
      have later : ∀ u ∈ ts, t + 4 ≤ u := by
        intro u mem
        have behind := List.rel_of_pairwise_cons spaced mem
        omega
      have here := inside t List.mem_cons_self
      rw [sameBetween]
      split
      · next differ =>
          refine iff_of_false (fun absurd_true => by cases absurd_true) fun same => differ ?_
          rw [slice_eq_iff]
          intro i from_start in_front
          apply same i from_start
          intro field
          exact absurd in_front (Nat.not_lt.mpr (spaced.head_le field))
      · next agree =>
          have front := slice_eq_iff.mp (Decidable.not_not.mp agree)
          rw [ih (List.Pairwise.of_cons spaced) later]
          constructor
          · intro same i from_start field
            rcases Nat.lt_or_ge i t with in_front | behind
            · exact front i from_start in_front
            · have outside : t + 4 ≤ i := by
                by_contra short
                exact field (inField_cons.mpr (.inl ⟨behind, Nat.lt_of_not_le short⟩))
              exact same i outside fun other => field (inField_cons.mpr (.inr other))
          · intro same i outside field
            apply same i (by omega)
            intro other
            exact field ((spaced.inField_tail apart).mpr ⟨outside, other⟩)

/-! ## Whole messages -/

theorem skipQuestions_encode {qs : List Question} {r : ByteReader}
    (lies : OccursAt (qs.map Question.encode).flatten r.buffer r.pos) :
    skipQuestions qs.length r =
      .ok (r.seek (r.pos + (qs.map Question.encode).flatten.length)) := by
  induction qs generalizing r with
  | nil => rfl
  | cons q qs ih =>
      rw [List.map_cons, List.flatten_cons, occursAt_append] at lies
      rcases lies with ⟨first, others⟩
      rw [Question.encode, occursAt_append] at first
      rcases first with ⟨name, typed⟩
      have some : q.typeClass ≠ [] := List.ne_nil_of_length_pos (by rw [q.typeClass_length]; decide)
      have inside := typed.le_length some
      rw [q.typeClass_length] at inside
      have length : q.encode.length = q.name.encode.length + 4 := by
        rw [Question.encode, List.length_append, q.typeClass_length]
      have skipped : skipQuestion r = .ok (r.seek (r.pos + q.encode.length)) := by
        rw [skipQuestion, skipName_encode name, ok_bind, ByteReader.read_of_le inside, length,
          ← Nat.add_assoc]
        rfl
      rw [List.length_cons, skipQuestions, skipped, ok_bind,
        ih (r := r.seek (r.pos + q.encode.length)) others, ByteReader.seek_seek,
        ByteReader.seek_pos, List.map_cons, List.flatten_cons, List.length_append, Nat.add_assoc]

namespace Message

variable (m : Message)

theorem length_header : m.header.length = 12 := by
  simp only [header, List.length_append, m.ident_length, length_wordBytes]

/-- The numbers in the header. -/
theorem wordD_header :
    wordD m.header 4 = m.questions.length ∧ wordD m.header 6 = m.answers.length ∧
      wordD m.header 8 = m.authority.length ∧ wordD m.header 10 = m.additional.length := by
  have lies : OccursAt m.header m.header 0 := occursAt_zero.mpr (List.prefix_refl _)
  nth_rewrite 1 [header] at lies
  simp only [occursAt_append, m.ident_length, length_wordBytes, Nat.zero_add, Nat.reduceAdd] at lies
  rcases lies with ⟨-, questions, answers, authority, additional⟩
  exact ⟨wordD_of_occursAt m.questions_few questions, wordD_of_occursAt m.answers_few answers,
    wordD_of_occursAt m.authority_few authority, wordD_of_occursAt m.additional_few additional⟩

theorem length_encode :
    m.encode.length = m.recordsStart + (m.records.map Record.encode).flatten.length := by
  rw [encode, List.length_append, List.length_append, m.length_header, recordsStart, Nat.add_assoc]

/-- The parts of a message. -/
theorem occursAt_parts :
    OccursAt m.header m.encode 0 ∧ OccursAt (m.questions.map Question.encode).flatten m.encode 12 ∧
      OccursAt (m.records.map Record.encode).flatten m.encode m.recordsStart := by
  have lies : OccursAt m.encode m.encode 0 := occursAt_zero.mpr (List.prefix_refl _)
  nth_rewrite 1 [encode] at lies
  rw [occursAt_append, occursAt_append, m.length_header, Nat.zero_add] at lies
  exact lies

/-- The script gets past the header and the questions. -/
theorem ttlsOf_encode : ttlsOf m.encode = readTtls m.ttls.length ⟨m.encode, m.recordsStart⟩ := by
  rcases m.occursAt_parts with ⟨front, questions, -⟩
  have inside : 0 + 12 ≤ m.encode.length := by
    rw [m.length_encode, recordsStart]
    omega
  have read : ({ buffer := m.encode } : ByteReader).read 12 = (m.header, ⟨m.encode, 12⟩) := by
    have bytes : (m.encode.drop 0).take 12 = m.header := by
      rw [← m.length_header, front.take_drop]
    rw [ByteReader.read_of_le (r := ⟨m.encode, 0⟩) inside, bytes]
    rfl
  rcases m.wordD_header with ⟨qdCount, anCount, nsCount, arCount⟩
  rw [ttlsOf, read]
  dsimp only
  rw [if_neg (not_not_intro m.length_header), qdCount, anCount, nsCount, arCount,
    skipQuestions_encode (r := ⟨m.encode, 12⟩) questions, ok_bind, ttls, length_ttlStarts,
    records, List.length_append, List.length_append, Nat.add_assoc]
  rfl

/-- The TTLs lie in the message, apart from each other. -/
theorem spaced_ttls :
    Spaced 7 m.ttls ∧ ∀ t ∈ m.ttls, 4 ≤ t ∧ t + 6 ≤ m.encode.length := by
  rcases spaced_ttlStarts m.recordsStart m.records with ⟨spaced, bounds⟩
  rw [ttls, length_encode]
  refine ⟨spaced, fun t mem => ?_⟩
  have bound := bounds t mem
  rw [recordsStart] at bound ⊢
  omega

/-- The script finds the first TTL. -/
theorem skipName_first :
    ∀ t ∈ m.ttls.head?, (skipName ⟨m.encode, m.recordsStart⟩).map ByteReader.pos = .ok (t - 4) := by
  intro t first
  have lies := m.occursAt_parts.2.2
  rw [ttls] at first
  cases records : m.records with
  | nil =>
      rw [records] at first
      cases first
  | cons r rs =>
      rw [records] at first lies
      rw [List.map_cons, List.flatten_cons, occursAt_append, Record.encode, occursAt_append] at lies
      rcases lies with ⟨⟨name, -⟩, -⟩
      rw [ttlStarts, List.head?_cons, Option.mem_some_iff] at first
      rw [skipName_encode (r := ⟨m.encode, m.recordsStart⟩) name, ← first, Nat.add_sub_cancel]
      rfl

/-- The script finds the TTLs exactly when each leads to the next. -/
theorem ttlsOf_encode_eq_ttls :
    ttlsOf m.encode = .ok m.ttls ↔ m.ttls.IsChain (LeadsTo m.encode) := by
  have inside : ∀ t ∈ m.ttls, 4 ≤ t ∧ t + 2 ≤ m.encode.length := by
    intro t mem
    have bound := m.spaced_ttls.2 t mem
    omega
  rw [ttlsOf_encode, readTtls_eq_ok_iff inside]
  exact and_iff_right m.skipName_first

/-- The last byte of a message is none of a TTL, so a packet that agrees outside of the
TTLs has its length. -/
theorem sameOutsideTtls_iff {actual : Bytes} :
    m.SameOutsideTtls actual ↔ ∀ i, ¬ InField 4 m.ttls i → m.encode[i]? = actual[i]? := by
  constructor
  · intro same i outside
    rcases Nat.lt_or_ge i m.encode.length with inside | behind
    · exact (same.2 i inside outside).symm
    · rw [List.getElem?_eq_none behind, List.getElem?_eq_none (same.1 ▸ behind)]
  · intro same
    have last : ∀ i, m.encode.length ≤ i + 1 → ¬ InField 4 m.ttls i := by
      intro i behind field
      rcases field with ⟨t, mem, -, inside⟩
      have bound := (m.spaced_ttls.2 t mem).2
      omega
    have some : m.encode.length = m.encode.length - 1 + 1 := by
      rw [length_encode, recordsStart]
      omega
    have length := length_eq_of_getElem? some (same _ (last _ (by omega)))
      (same _ (last _ (by omega)))
    exact ⟨length.symm, fun i _ outside => (same i outside).symm⟩

end Message

/-- TTLs that are found in a message, and how the comparison with the message ends. -/
theorem validate_encode {m : Message} {us : List Nat} (found : ttlsOf m.encode = .ok us)
    (actual : Bytes) : ∃ valid, validate m.encode actual = .ok valid ∧
      (valid = true ↔ ∀ i, ¬ InField 4 us i → m.encode[i]? = actual[i]?) := by
  rw [m.ttlsOf_encode] at found
  have spaced := (spaced_of_readTtls found).1
  refine ⟨sameBetween m.encode actual 0 us, ?_, ?_⟩
  · rw [validate, m.ttlsOf_encode, found]
    rfl
  · rw [sameBetween_iff (by decide : 4 ≤ 7) spaced fun u _ => Nat.zero_le u]
    exact forall_congr' fun i => forall_prop_of_true (Nat.zero_le i)

/-- The comparison is right about every packet exactly when each TTL leads to the next. -/
theorem validatesAll_iff (m : Message) : m.ValidatesAll ↔ m.ttls.IsChain (LeadsTo m.encode) := by
  rw [← m.ttlsOf_encode_eq_ttls]
  constructor
  · intro right
    rcases right m.encode with ⟨_, read, -⟩
    rcases bind_eq_ok.mp read with ⟨us, found, -⟩
    rcases spaced_of_readTtls (m.ttlsOf_encode ▸ found) with ⟨spaced, bounds⟩
    rcases m.spaced_ttls with ⟨apart, inside⟩
    -- a packet that differs from the message in one byte tells whether the byte is compared
    have same : ∀ j < m.encode.length, InField 4 us j ↔ InField 4 m.ttls j := by
      intro j here
      have differs : m.encode[j] + 1 ≠ m.encode[j] := by simp
      rcases right (m.encode.set j (m.encode[j] + 1)) with ⟨valid, ends, correct⟩
      rcases validate_encode found (m.encode.set j (m.encode[j] + 1)) with ⟨_, ends', compared⟩
      rw [ends] at ends'
      cases ends'
      rw [← agree_set_iff here differs, ← compared, correct, m.sameOutsideTtls_iff,
        agree_set_iff here differs]
    have ttls : us = m.ttls := by
      apply eq_of_inField_iff (by decide : 0 < 4) (by decide : 4 ≤ 7) spaced apart _ _ same
      · intro u mem
        have bound := (bounds u mem).2
        exact Nat.lt_of_lt_of_le (Nat.lt_add_of_pos_right Nat.two_pos) bound
      · intro t mem
        have bound := (inside t mem).2
        omega
    rw [found, ttls]
  · intro found actual
    rcases validate_encode found actual with ⟨valid, ends, compared⟩
    exact ⟨valid, ends, compared.trans m.sameOutsideTtls_iff.symm⟩

/-! ## Two answers -/

/-- An address for the name of the root, to be kept for the seconds. -/
def address (seconds : UInt8) : Record where
  name := ⟨[], .root⟩
  typeClass := [0, 1, 0, 1]
  ttl := [0, 0, 0, seconds]
  data := [10, 0, 0, 1]
  typeClass_length := rfl
  ttl_length := rfl
  data_small := by decide

def twoAnswers (first second : UInt8) : Message where
  ident := [0, 7, 128, 0]
  questions := []
  answers := [address first, address second]
  authority := []
  additional := []
  ident_length := rfl
  questions_few := by decide
  answers_few := Nat.le_of_ble_eq_true rfl
  authority_few := by decide
  additional_few := by decide

/-- The same two answers with another TTL in the second are taken for different. -/
theorem not_validatesAll_twoAnswers : ¬ (twoAnswers 60 60).ValidatesAll := by
  intro right
  rcases right (twoAnswers 60 61).encode with ⟨valid, ends, correct⟩
  have fails : validate (twoAnswers 60 60).encode (twoAnswers 60 61).encode = .ok false := by
    decide +kernel
  have same : (twoAnswers 60 60).SameOutsideTtls (twoAnswers 60 61).encode := by
    refine ⟨rfl, ?_⟩
    decide +kernel
  rw [fails] at ends
  cases ends
  exact Bool.false_ne_true (correct.mpr same)

end PacketReplay.Dns
