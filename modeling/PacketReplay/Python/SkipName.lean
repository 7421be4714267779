import PacketReplay.Python.Dns

/-!
# Skipping a name in any data

`skip_name` with the reader that it moves, which keeps the position it has reached when
an exception is raised, and with fuel for the iterations of its loop. The loop ends as
`skipName` says, `skipNameLoop_eq`; `skipName_exact` is what it leaves in front of a name
and in front of anything else.
-/

namespace PacketReplay.Dns

open Lib

/-- How a call ends, and the reader then. -/
abbrev Left : Type := Except StructError Unit × ByteReader

/-- The `while` loop, one iteration for each unit of fuel. -/
def labelLoop : Nat → Nat → ByteReader → Option Left
  | 0, _, _ => none
  | fuel + 1, labelLen, reader =>
      if labelLen = 0 then some (.ok (), reader)
      else if 63 < labelLen then some (.ok (), (reader.read 1).2)
      else
        let reader := (reader.read labelLen).2
        match reader.readByte with
        | .error e => some (.error e, (reader.read 1).2)
        | .ok (labelLen, reader) => labelLoop fuel labelLen reader

/-- `skip_name` on the reader that it moves. -/
def skipNameLoop (fuel : Nat) (reader : ByteReader) : Option Left :=
  match reader.readByte with
  | .error e => some (.error e, (reader.read 1).2)
  | .ok (labelLen, reader) => labelLoop fuel labelLen reader

/-- The call terminates: the loop ends within as many iterations as there are bytes
left, and one. -/
def EndsWith (r : ByteReader) (left : Left) : Prop :=
  ∀ fuel, r.buffer.length - r.pos < fuel → skipNameLoop fuel r = some left

/-! ## The loop with fuel -/

/-- What is left by a call that ends as `skipName` does. An exception is raised where no
byte is left. -/
def leftBy (r : ByteReader) : Except StructError ByteReader → Left
  | .ok reader => (.ok (), reader)
  | .error e => (.error e, r.seek (max r.pos r.buffer.length))

section Loop

variable {r : ByteReader} {fuel : Nat}

/-- Within the block it does not matter where the call started. -/
theorem leftBy_seek {pos : Nat} (inside : r.pos ≤ r.buffer.length)
    (within : pos ≤ r.buffer.length) (ended : Except StructError ByteReader) :
    leftBy (r.seek pos) ended = leftBy r ended := by
  cases ended with
  | ok reader => rfl
  | error e =>
      rw [leftBy, leftBy, ByteReader.seek_seek, ByteReader.seek_pos, ByteReader.seek_buffer,
        Nat.max_eq_right within, Nat.max_eq_right inside]

/-- An iteration reads a label and then does what the call did. -/
theorem labelLoop_of_label {k : Nat} (some : 0 < k) (short : k ≤ 63) :
    labelLoop (fuel + 1) k r = skipNameLoop fuel (r.read k).2 := by
  rw [labelLoop, if_neg (Nat.pos_iff_ne_zero.mp some), if_neg (Nat.not_lt.mpr short), skipNameLoop]

/-- With nothing left to read an exception is raised and the reader stays. -/
theorem skipNameLoop_of_le (outside : r.buffer.length ≤ r.pos) :
    skipNameLoop fuel r = some (leftBy r (skipName r)) := by
  have stays : (r.read 1).2 = r := by
    rw [ByteReader.read, List.drop_eq_nil_of_le outside]
    rfl
  rw [skipNameLoop, skipName, ByteReader.readByte_of_le outside]
  dsimp only
  rw [stays, leftBy, Nat.max_eq_left outside]
  rfl

/-- The loop ends, as `skipName` says. Each iteration leaves fewer bytes. -/
theorem skipNameLoop_eq (enough : r.buffer.length - r.pos < fuel) :
    skipNameLoop fuel r = some (leftBy r (skipName r)) := by
  induction fuel generalizing r with
  | zero => exact absurd enough (Nat.not_lt_zero _)
  | succ fuel ih =>
      rcases Nat.lt_or_ge r.pos r.buffer.length with inside | outside
      · rw [skipNameLoop, skipName, ByteReader.readByte_of_lt inside]
        dsimp only
        generalize (byteD r.buffer r.pos).toNat = k
        rcases Nat.eq_zero_or_pos k with rfl | some
        · rw [labelLoop, skipLabels, if_pos rfl, if_pos rfl]
          rfl
        · rcases Nat.lt_or_ge 63 k with long | short
          · have further := Nat.pos_iff_ne_zero.mp some
            rw [labelLoop, skipLabels, if_neg further, if_neg further, if_pos long, if_pos long]
            rfl
          · have behind : (r.seek (r.pos + 1)).pos ≤ (r.seek (r.pos + 1)).buffer.length := inside
            have moved := ByteReader.read_eq_seek behind k
            rw [ByteReader.seek_seek] at moved
            rw [labelLoop_of_label some short, skipLabels_of_label some short, moved, ih,
              leftBy_seek]
            · exact Nat.le_of_lt inside
            · exact Nat.min_le_right _ _
            · simp only [ByteReader.seek_pos, ByteReader.seek_buffer]
              omega
      · exact skipNameLoop_of_le outside

theorem endsWith_iff {left : Left} : EndsWith r left ↔ leftBy r (skipName r) = left := by
  constructor
  · intro ends
    have enough := Nat.lt_succ_self (r.buffer.length - r.pos)
    exact Option.some.inj ((skipNameLoop_eq enough).symm.trans (ends _ enough))
  · rintro rfl fuel enough
    exact skipNameLoop_eq enough

end Loop

/-! ## What is left -/

/-- In front of a name the call ends behind it. In front of anything the call ends, either
further on or with an exception where no byte is left. -/
theorem skipName_exact (r : ByteReader) :
    (∀ name : Name, OccursAt name.encode r.buffer r.pos →
      EndsWith r (.ok (), r.seek (r.pos + name.encode.length))) ∧
    ((∃ pos, r.pos < pos ∧ pos ≤ r.buffer.length ∧ EndsWith r (.ok (), r.seek pos)) ∨
      ∃ e, EndsWith r (.error e, r.seek (max r.pos r.buffer.length))) := by
  constructor
  · intro name lies
    rw [endsWith_iff, skipName_encode lies]
    rfl
  · cases skipped : skipName r with
    | ok reader =>
        obtain ⟨pos, rfl, behind, within⟩ := skipName_eq_ok skipped
        refine Or.inl ⟨pos, behind, within, ?_⟩
        rw [endsWith_iff, skipped]
        rfl
    | error e =>
        refine Or.inr ⟨e, ?_⟩
        rw [endsWith_iff, skipped]
        rfl

/-- A label that looks like a pointer, and a pointer. -/
theorem skipName_exact_pointer :
    EndsWith ⟨[0, 2, 192, 0, 192, 12, 7], 1⟩ (.ok (), ⟨[0, 2, 192, 0, 192, 12, 7], 6⟩) :=
  (skipName_exact ⟨[0, 2, 192, 0, 192, 12, 7], 1⟩).1
    ⟨[⟨[192, 0], by decide, by decide⟩], .pointer 192 12 (by decide)⟩ (by decide)

end PacketReplay.Dns
