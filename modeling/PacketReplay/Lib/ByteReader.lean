import PacketReplay.Lib.Checked

/-!
# Reading a block of bytes from the front

A block with the position up to which it has been read, as a file in memory is read: what
is asked for is cut off at the end of the block, and it is unpacking a number that goes
wrong where bytes are missing.
-/

namespace PacketReplay.Lib

/-- Unpacking a number from a block that is not of its size. -/
inductive StructError : Type
  | requires (size : Nat)
  deriving DecidableEq, Repr

structure ByteReader : Type where
  buffer : Bytes
  pos : Nat := 0
  deriving DecidableEq, Repr

namespace ByteReader

/-- The next `n` bytes, or as many as are left. -/
def read (r : ByteReader) (n : Nat) : Bytes × ByteReader :=
  ((r.buffer.drop r.pos).take n,
    { r with pos := r.pos + ((r.buffer.drop r.pos).take n).length })

/-- A byte as a number. -/
def readByte (r : ByteReader) : Except StructError (Nat × ByteReader) :=
  match (r.read 1).1 with
  | [b] => .ok (b.toNat, (r.read 1).2)
  | _ => .error (.requires 1)

/-- Two bytes as a number in network byte order. -/
def readWord (r : ByteReader) : Except StructError (Nat × ByteReader) :=
  match (r.read 2).1 with
  | [a, b] => .ok (a.toNat * 256 + b.toNat, (r.read 2).2)
  | _ => .error (.requires 2)

/-- The reader at another position of its block. -/
def seek (r : ByteReader) (pos : Nat) : ByteReader := { r with pos := pos }

@[simp] theorem seek_buffer (r : ByteReader) (pos : Nat) : (r.seek pos).buffer = r.buffer := rfl

@[simp] theorem seek_pos (r : ByteReader) (pos : Nat) : (r.seek pos).pos = pos := rfl

@[simp] theorem seek_seek (r : ByteReader) (p q : Nat) : (r.seek p).seek q = r.seek q := rfl

variable {r : ByteReader} {n : Nat}

theorem read_eq_seek (inside : r.pos ≤ r.buffer.length) (n : Nat) :
    (r.read n).2 = r.seek (min (r.pos + n) r.buffer.length) := by
  have stop : r.pos + ((r.buffer.drop r.pos).take n).length = min (r.pos + n) r.buffer.length := by
    rw [List.length_take, List.length_drop]
    omega
  rw [read, stop, seek]

/-- Bytes that are there are all read. -/
theorem read_of_le (inside : r.pos + n ≤ r.buffer.length) :
    r.read n = ((r.buffer.drop r.pos).take n, r.seek (r.pos + n)) := by
  apply Prod.ext
  · rfl
  · rw [read_eq_seek (by omega), Nat.min_eq_left inside]

theorem readByte_of_lt (inside : r.pos < r.buffer.length) :
    r.readByte = .ok ((byteD r.buffer r.pos).toNat, r.seek (r.pos + 1)) := by
  have byte : (r.buffer.drop r.pos).take 1 = [byteD r.buffer r.pos] := by
    rw [List.drop_eq_getElem_cons inside, List.take_succ_cons, List.take_zero,
      byteD_eq_getElem inside]
  rw [readByte, read_of_le (by omega), byte]

theorem readByte_of_le (outside : r.buffer.length ≤ r.pos) : r.readByte = .error (.requires 1) := by
  rw [readByte, read, List.drop_eq_nil_of_le outside]
  rfl

theorem readWord_of_le (inside : r.pos + 2 ≤ r.buffer.length) :
    r.readWord = .ok (wordD r.buffer r.pos, r.seek (r.pos + 2)) := by
  have bytes : (r.buffer.drop r.pos).take 2 =
      [byteD r.buffer r.pos, byteD r.buffer (r.pos + 1)] := by
    rw [List.drop_eq_getElem_cons (by omega), List.take_succ_cons,
      List.drop_eq_getElem_cons (by omega), List.take_succ_cons, List.take_zero,
      byteD_eq_getElem (by omega), byteD_eq_getElem (by omega)]
  rw [readWord, read_of_le inside, bytes, wordD]

/-- A number is only read where its bytes are. -/
theorem readByte_eq_ok {b : Nat} {r' : ByteReader} (read : r.readByte = .ok (b, r')) :
    r.pos < r.buffer.length ∧ r' = r.seek (r.pos + 1) := by
  rcases Nat.lt_or_ge r.pos r.buffer.length with inside | outside
  · rw [readByte_of_lt inside] at read
    cases read
    exact ⟨inside, rfl⟩
  · rw [readByte_of_le outside] at read
    cases read

theorem readWord_eq_ok {w : Nat} {r' : ByteReader} (read : r.readWord = .ok (w, r')) :
    r.pos + 2 ≤ r.buffer.length ∧ w = wordD r.buffer r.pos ∧ r' = r.seek (r.pos + 2) := by
  rcases Nat.lt_or_ge r.buffer.length (r.pos + 2) with outside | inside
  · have short : ((r.buffer.drop r.pos).take 2).length < 2 := by
      rw [List.length_take, List.length_drop]
      omega
    rw [readWord, ByteReader.read] at read
    dsimp only at read
    split at read
    · next a b bytes =>
        rw [bytes] at short
        exact absurd short (Nat.lt_irrefl 2)
    · cases read
  · rw [readWord_of_le inside] at read
    cases read
    exact ⟨inside, rfl, rfl⟩

end ByteReader

end PacketReplay.Lib
