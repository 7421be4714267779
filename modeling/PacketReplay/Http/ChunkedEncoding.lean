import PacketReplay.Http.ChunkedBody

/-!
# Chunk decoding undoes chunk encoding

A size line of hexadecimal digits and a CRLF is read for what it says, wherever it stands
and whatever the bytes behind it are: `reads_of_plain`. So a call on a fresh processor
gives back the bytes that were encoded, and does not look at what follows the encoding.
-/

namespace PacketReplay

open Lib

/-- A chunk with the numeral of its size. -/
structure HexChunk : Type where
  numeral : Bytes
  bytes : Bytes
  digits : ∀ c ∈ numeral, isdigit 16 c = true
  leading : ∃ c ∈ numeral.head?, c ≠ 48
  sized : digitsValue 16 numeral = bytes.length
  some : bytes ≠ []
  small : bytes.length < 2 ^ 31

namespace HexChunk

def encode (c : HexChunk) : Bytes := c.numeral ++ (crlf ++ (c.bytes ++ crlf))

/-- The encoding of a list of chunks. -/
def encodeAll (cs : List HexChunk) : Bytes :=
  (cs.map encode).flatten ++ (ascii "0" ++ (crlf ++ crlf))

/-- The numeral of a chunk has eight digits at most. -/
theorem length_numeral_le (c : HexChunk) : c.numeral.length ≤ 8 := by
  rcases c.leading with ⟨d, first, nonzero⟩
  obtain ⟨ds, same⟩ : ∃ ds, c.numeral = d :: ds := ⟨_, List.eq_cons_of_mem_head? first⟩
  have digit := c.digits d (same ▸ List.mem_cons_self)
  have least := pow_le_digitsValue digit nonzero ds
  have small := c.small
  rw [← same, c.sized] at least
  by_contra! long
  rw [same, List.length_cons] at long
  have power : 16 ^ 8 ≤ 16 ^ ds.length := Nat.pow_le_pow_right (by omega) (by omega)
  omega

end HexChunk

namespace ChunkedProcessor

/-- A size line of a numeral and a CRLF, within what the scratch buffer holds and of a size
that an `int` holds. -/
def Plain (s : Bytes) (n : Nat) (after : Bytes) : Prop :=
  ∃ numeral : Bytes, s = numeral ++ (crlf ++ after) ∧ numeral ≠ [] ∧
    (∀ c ∈ numeral, isdigit 16 c = true) ∧ digitsValue 16 numeral = n ∧ n < 2 ^ 31 ∧
    numeral.length + 2 ≤ tmpSiz

/-- There is no CRLF in a numeral. -/
theorem not_crlf_isInfix_of_digits {ds : Bytes} (digits : ∀ c ∈ ds, isdigit 16 c = true) :
    ¬ crlf <:+: ds := by
  intro inside
  have digit := digits cr (inside.subset List.mem_cons_self)
  cases digit

theorem clean_of_digits {ds : Bytes} (digits : ∀ c ∈ ds, isdigit 16 c = true) :
    ∀ c ∈ ds ++ crlf, c ≠ 0 := by
  intro c mem
  rcases List.mem_append.mp mem with digit | ending
  · exact ne_zero_of_isdigit (digits c digit)
  · rcases List.mem_pair.mp ending with rfl | rfl
    · decide
    · decide

theorem lineEnd_of_digits {ds : Bytes} (digits : ∀ c ∈ ds, isdigit 16 c = true) (more : Bytes) :
    lineEnd (ds ++ (crlf ++ more)) = some ds.length := by
  rw [lineEnd, ← List.append_assoc, cstr_append_of_clean (clean_of_digits digits)]
  exact find_append_self (by decide) (not_crlf_isInfix_of_digits digits) (cstr more)

/-- A plain size line is read for what it says. -/
theorem reads_of_plain {s after : Bytes} {n : Nat} (plain : Plain s n after) : Reads s n after := by
  rcases plain with ⟨numeral, rfl, some, digits, value, small, fits⟩
  have front : (numeral ++ (crlf ++ after)).take tmpSiz =
      numeral ++ (crlf ++ after.take (tmpSiz - (numeral.length + 2))) := by
    rw [List.take_append, List.take_of_length_le (by omega), List.take_append,
      List.take_of_length_le (l := crlf)
        (by simp only [crlf, List.length_cons, List.length_nil]; omega)]
    simp only [crlf, List.length_cons, List.length_nil, Nat.sub_sub]
  set more := after.take (tmpSiz - (numeral.length + 2))
  have text : cstr (numeral ++ (crlf ++ more)) = numeral ++ cr :: lf :: cstr more := by
    rw [← List.append_assoc, cstr_append_of_clean (clean_of_digits digits), List.append_assoc]
    rfl
  have below : ¬ 2 ^ 64 ≤ digitsValue 16 numeral := by omega
  have number := strtoul_hex (c := cr) some digits (by decide) (by decide) (lf :: cstr more)
  rw [if_neg below, value] at number
  rw [Reads, front, text, number, lineEnd_of_digits digits]
  refine ⟨rfl, fun empty => some (List.length_eq_zero_iff.mp empty), ?_, ?_⟩
  · exact toInt32_natCast_eq_self_iff.mpr small
  · rw [← List.append_assoc, List.drop_left' (by simp [crlf])]

/-- The encoding of chunks is a body in these chunks, whatever follows it. -/
theorem body_encodeAll (cs : List HexChunk) (t : Bytes) :
    ChunkedBody Plain (HexChunk.encodeAll cs ++ t) (cs.map HexChunk.bytes) := by
  induction cs with
  | nil =>
      have line : Plain (HexChunk.encodeAll [] ++ t) 0 (crlf ++ t) :=
        ⟨ascii "0", rfl, by decide, by decide +kernel, rfl, by decide, by decide⟩
      exact .last line (List.prefix_append _ _)
  | cons c cs ih =>
      refine .chunk (t := HexChunk.encodeAll cs ++ t)
        ⟨c.numeral, ?_, ?_, c.digits, c.sized, c.small, ?_⟩ c.some ih
      · simp only [HexChunk.encodeAll, HexChunk.encode, List.map_cons, List.flatten_cons,
          List.append_assoc]
      · intro empty
        rcases c.leading with ⟨d, first, -⟩
        rw [empty] at first
        cases first
      · have short := c.length_numeral_le
        have room : tmpSiz = 1024 := rfl
        omega

/-- A call on a fresh processor with an encoding and anything behind it returns true, and
the data is what was encoded. -/
theorem process_encodeAll (cs : List HexChunk) (t : Bytes) :
    ∃ p, process {} (HexChunk.encodeAll cs ++ t) = (.ok true, p) ∧ p.complete = true ∧
      p.data = (cs.map HexChunk.bytes).flatten := by
  have body := (body_encodeAll cs t).mono fun _ _ _ plain => reads_of_plain plain
  exact process_of_body body []

/-- A chunk whose bytes look like the end of a chunk and the start of another. -/
example : (process {} (HexChunk.encodeAll [{
      numeral := ascii "a"
      bytes := ascii "\r\n0\r\n\r\nA\r\n"
      digits := by decide +kernel
      leading := ⟨97, by decide, by decide⟩
      sized := by decide
      some := by decide
      small := by decide }])).2.data = ascii "\r\n0\r\n\r\nA\r\n" := by
  decide +kernel

end ChunkedProcessor

end PacketReplay
