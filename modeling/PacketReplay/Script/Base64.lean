import Mathlib.Tactic.IntervalCases
import PacketReplay.Lib.Checked

/-!
# The base64 coding

`base64.h`, on a little-endian host. The tables are written as functions of the
position of a symbol in the alphabet, three bytes being four symbols of six bits.
`fromBase64_toBase64` is the round trip, `mem_toBase64` says what an encoded text is
made of, and `defined_fromBase64` that any text is decoded or refused.
-/

namespace PacketReplay.Base64

open Lib

def alphabet : Bytes := ascii "ABCDEFGHIJKLMNOPQRSTUVWXYZabcdefghijklmnopqrstuvwxyz0123456789+/"

/-- `padding_char`. -/
def paddingChar : UInt8 := 61

/-- `bad_char`. -/
def badChar : UInt32 := 0x01FFFFFF

def symbol (value : UInt32) : UInt8 := alphabet.getD value.toNat 0

/-! ## Encoding -/

/-- `encode_table_0`: the upper six bits of a byte. -/
def encodeTable0 (t : UInt32) : UInt8 := symbol (t >>> 2)

/-- `encode_table_1`: the lower six bits of a byte. -/
def encodeTable1 (t : UInt32) : UInt8 := symbol (t &&& 63)

/-- The index of the second symbol. -/
def second (t1 t2 : UInt8) : UInt32 :=
  ((t1.toUInt32 &&& 3) <<< 4) ||| ((t2.toUInt32 >>> 4) &&& 15)

/-- The index of the third symbol. -/
def third (t2 t3 : UInt8) : UInt32 :=
  ((t2.toUInt32 &&& 15) <<< 2) ||| ((t3.toUInt32 >>> 6) &&& 3)

def toBase64 : Bytes → Bytes
  | t1 :: t2 :: t3 :: rest =>
      encodeTable0 t1.toUInt32 :: encodeTable1 (second t1 t2) :: encodeTable1 (third t2 t3) ::
        encodeTable1 t3.toUInt32 :: toBase64 rest
  | [t1, t2] =>
      [encodeTable0 t1.toUInt32, encodeTable1 (second t1 t2),
        encodeTable1 ((t2.toUInt32 &&& 15) <<< 2), paddingChar]
  | [t1] =>
      [encodeTable0 t1.toUInt32, encodeTable1 ((t1.toUInt32 &&& 3) <<< 4), paddingChar,
        paddingChar]
  | [] => []

/-! ## Decoding -/

/-- A decoding table: what the position of a symbol contributes. -/
def decodeTable (part : UInt32 → UInt32) (c : UInt8) : UInt32 :=
  match alphabet.idxOf? c with
  | some value => part (UInt32.ofNat value)
  | none => badChar

def part0 (v : UInt32) : UInt32 := v <<< 2

def part1 (v : UInt32) : UInt32 := (v >>> 4) ||| ((v &&& 15) <<< 12)

def part2 (v : UInt32) : UInt32 := ((v >>> 2) <<< 8) ||| ((v &&& 3) <<< 22)

def part3 (v : UInt32) : UInt32 := v <<< 16

def decodeTable0 : UInt8 → UInt32 := decodeTable part0

def decodeTable1 : UInt8 → UInt32 := decodeTable part1

def decodeTable2 : UInt8 → UInt32 := decodeTable part2

def decodeTable3 : UInt8 → UInt32 := decodeTable part3

/-- `tempBytes[decidx]`: the bytes of the word from the lowest on. -/
def tempByte (temp : UInt32) (idx : UInt32) : UInt8 := (temp >>> (8 * idx)).toUInt8

def invalid (text : String) : Fault :=
  .thrown (.runtimeError (ascii ("Invalid base64 encoded data - " ++ text)))

/-- The bytes of the word, the first `n` of its three, unless a symbol was bad. -/
def decodeWord (temp : UInt32) (n : Nat) : Outcome Bytes :=
  if badChar ≤ temp then .error (invalid "Invalid character")
  else .ok ([tempByte temp 0, tempByte temp 1, tempByte temp 2].take n)

/-- The loop over whole groups of four symbols: the bytes and what is left. -/
def decodeGroups : Nat → Bytes → Outcome (Bytes × Bytes)
  | 0, text => .ok ([], text)
  | n + 1, t1 :: t2 :: t3 :: t4 :: text => do
      let bytes ← decodeWord
        (decodeTable0 t1 ||| decodeTable1 t2 ||| decodeTable2 t3 ||| decodeTable3 t4) 3
      let behind ← decodeGroups n text
      return (bytes ++ behind.1, behind.2)
  | _ + 1, _ => .error (.undefined .outOfBounds)

/-- The group that is padded. -/
def decodePadded : Nat → Bytes → Outcome Bytes
  | 0, _ => .ok []
  | 1, t1 :: t2 :: t3 :: _ =>
      decodeWord (decodeTable0 t1 ||| decodeTable1 t2 ||| decodeTable2 t3) 2
  | 2, t1 :: t2 :: _ => decodeWord (decodeTable0 t1 ||| decodeTable1 t2) 1
  | _, _ => .error (invalid "Invalid padding number")

def fromBase64 (text : Bytes) : Outcome Bytes :=
  if text = [] then .ok []
  else if text.length % 4 ≠ 0 then .error (invalid "Size not divisible by 4")
  else
    let numPadding := (text.drop (text.length - 4)).count paddingChar
    if 2 < numPadding then .error (invalid "Found more than 2 padding signs")
    else do
      let groups ← decodeGroups (text.length / 4 - if numPadding ≠ 0 then 1 else 0) text
      let padded ← decodePadded numPadding groups.2
      return groups.1 ++ padded

/-! ## The tables undo each other -/

theorem length_alphabet : alphabet.length = 64 := by decide

theorem idxOf?_alphabet : ∀ v < 64, alphabet.idxOf? (alphabet.getD v 0) = some v := by
  decide +kernel

theorem decodeTable_symbol {v : UInt32} (small : v.toNat < 64) (part : UInt32 → UInt32) :
    decodeTable part (symbol v) = part v := by
  rw [decodeTable, symbol, idxOf?_alphabet v.toNat small]
  exact congrArg part UInt32.ofNat_toNat

theorem and_63_lt (t : UInt32) : (t &&& 63).toNat < 64 := by
  rw [UInt32.toNat_and]
  exact Nat.lt_of_le_of_lt Nat.and_le_right (by decide)

theorem shift_byte_lt (t : UInt8) : (t.toUInt32 >>> 2).toNat < 64 := by
  have bound := t.toNat_lt
  rw [UInt32.toNat_shiftRight, UInt8.toNat_toUInt32]
  have two : (2 : UInt32).toNat % 32 = 2 := rfl
  rw [two, Nat.shiftRight_eq_div_pow]
  omega

theorem decodeTable_encodeTable0 (t : UInt8) (part : UInt32 → UInt32) :
    decodeTable part (encodeTable0 t.toUInt32) = part (t.toUInt32 >>> 2) :=
  decodeTable_symbol (shift_byte_lt t) part

theorem decodeTable_encodeTable1 (t : UInt32) (part : UInt32 → UInt32) :
    decodeTable part (encodeTable1 t) = part (t &&& 63) :=
  decodeTable_symbol (and_63_lt t) part

/-! ## The bits of a group -/

/-- The word of a whole group. -/
def word (t1 t2 t3 : UInt8) : UInt32 :=
  part0 (t1.toUInt32 >>> 2) ||| part1 (second t1 t2 &&& 63) ||| part2 (third t2 t3 &&& 63) |||
    part3 (t3.toUInt32 &&& 63)

theorem tempByte_eq {temp idx : UInt32} {t : UInt8}
    (bits : ∀ i < 8, (tempByte temp idx).toBitVec.getLsbD i = t.toBitVec.getLsbD i) :
    tempByte temp idx = t :=
  UInt8.toBitVec_inj.mp (BitVec.eq_of_getLsbD_eq bits)

theorem tempBytes_word (t1 t2 t3 : UInt8) :
    [tempByte (word t1 t2 t3) 0, tempByte (word t1 t2 t3) 1, tempByte (word t1 t2 t3) 2] =
      [t1, t2, t3] := by
  have first : tempByte (word t1 t2 t3) 0 = t1 := by
    refine tempByte_eq fun i inside => ?_
    unfold tempByte word part0 part1 part2 part3 second third
    interval_cases i <;> simp
  have middle : tempByte (word t1 t2 t3) 1 = t2 := by
    refine tempByte_eq fun i inside => ?_
    unfold tempByte word part0 part1 part2 part3 second third
    interval_cases i <;> simp
  have last : tempByte (word t1 t2 t3) 2 = t3 := by
    refine tempByte_eq fun i inside => ?_
    unfold tempByte word part0 part1 part2 part3 second third
    interval_cases i <;> simp
  rw [first, middle, last]

theorem parts_lt : ∀ v < 64,
    (part0 (UInt32.ofNat v)).toNat < 2 ^ 24 ∧ (part1 (UInt32.ofNat v)).toNat < 2 ^ 24 ∧
      (part2 (UInt32.ofNat v)).toNat < 2 ^ 24 ∧ (part3 (UInt32.ofNat v)).toNat < 2 ^ 24 := by
  decide +kernel

/-- No symbol of an encoded group is bad. -/
theorem word_lt (t1 t2 t3 : UInt8) : word t1 t2 t3 < badChar := by
  have v1 := (parts_lt _ (shift_byte_lt t1)).1
  have v2 := (parts_lt _ (and_63_lt (second t1 t2))).2.1
  have v3 := (parts_lt _ (and_63_lt (third t2 t3))).2.2.1
  have v4 := (parts_lt _ (and_63_lt t3.toUInt32)).2.2.2
  rw [UInt32.ofNat_toNat] at v1 v2 v3 v4
  have bound : (word t1 t2 t3).toNat < 2 ^ 24 := by
    unfold word
    simp only [UInt32.toNat_or]
    exact Nat.or_lt_two_pow (Nat.or_lt_two_pow (Nat.or_lt_two_pow v1 v2) v3) v4
  rw [UInt32.lt_iff_toNat_lt]
  exact Nat.lt_of_lt_of_le bound (by decide)

theorem decodeWord_word (t1 t2 t3 : UInt8) (n : Nat) :
    decodeWord (word t1 t2 t3) n = .ok ([t1, t2, t3].take n) := by
  have good : ¬ badChar ≤ word t1 t2 t3 := UInt32.not_le.mpr (word_lt t1 t2 t3)
  rw [decodeWord, if_neg good, tempBytes_word]

/-! ## The round trip -/

/-- The bytes are so many groups of three. -/
inductive Groups : Bytes → Nat → Prop
  | nil : Groups [] 0
  | cons (t1 t2 t3 : UInt8) {d : Bytes} {n : Nat} (rest : Groups d n) :
      Groups (t1 :: t2 :: t3 :: d) (n + 1)

theorem groups_of_length {d : Bytes} {n : Nat} (whole : d.length = 3 * n) : Groups d n := by
  induction n generalizing d with
  | zero =>
      have empty : d = [] := List.length_eq_zero_iff.mp whole
      subst empty
      exact .nil
  | succ n ih =>
      match d, whole with
      | t1 :: t2 :: t3 :: d, whole =>
          have shorter : d.length = 3 * n := by
            simp only [List.length_cons] at whole
            omega
          exact .cons t1 t2 t3 (ih shorter)

theorem decodeGroups_toBase64 {d : Bytes} {n : Nat} (whole : d.length = 3 * n) (tail : Bytes) :
    decodeGroups n (toBase64 d ++ tail) = .ok (d, tail) := by
  replace whole := groups_of_length whole
  induction whole with
  | nil => rfl
  | cons t1 t2 t3 _ ih =>
      have group : decodeTable0 (encodeTable0 t1.toUInt32) |||
          decodeTable1 (encodeTable1 (second t1 t2)) |||
          decodeTable2 (encodeTable1 (third t2 t3)) |||
          decodeTable3 (encodeTable1 t3.toUInt32) = word t1 t2 t3 := by
        unfold decodeTable0 decodeTable1 decodeTable2 decodeTable3 word
        simp only [decodeTable_encodeTable0, decodeTable_encodeTable1]
      simp only [toBase64, List.cons_append, decodeGroups, group, decodeWord_word,
        ih]
      rfl

theorem toBase64_append {d tail : Bytes} {n : Nat} (whole : d.length = 3 * n) :
    toBase64 (d ++ tail) = toBase64 d ++ toBase64 tail := by
  replace whole := groups_of_length whole
  induction whole with
  | nil => rfl
  | cons t1 t2 t3 _ ih =>
      simp only [toBase64, List.cons_append, ih]

theorem length_toBase64_whole {d : Bytes} {n : Nat} (whole : d.length = 3 * n) :
    (toBase64 d).length = 4 * n := by
  replace whole := groups_of_length whole
  induction whole with
  | nil => rfl
  | cons t1 t2 t3 _ ih =>
      simp only [toBase64, List.length_cons, ih]
      omega

theorem symbol_mem {v : UInt32} (small : v.toNat < 64) : symbol v ∈ alphabet := by
  have inside : v.toNat < alphabet.length := by rwa [length_alphabet]
  rw [symbol, List.getD_eq_getElem?_getD, List.getElem?_eq_getElem inside]
  exact List.getElem_mem inside

theorem encodeTable0_mem (t : UInt8) : encodeTable0 t.toUInt32 ∈ alphabet :=
  symbol_mem (shift_byte_lt t)

theorem encodeTable1_mem (t : UInt32) : encodeTable1 t ∈ alphabet := symbol_mem (and_63_lt t)

theorem padding_not_mem : paddingChar ∉ alphabet := by decide

theorem ne_padding {c : UInt8} (mem : c ∈ alphabet) : c ≠ paddingChar :=
  fun same => padding_not_mem (same ▸ mem)

/-- An encoded text is made of the alphabet and the padding character. -/
theorem mem_toBase64 {d : Bytes} {c : UInt8} (mem : c ∈ toBase64 d) :
    c ∈ alphabet ∨ c = paddingChar := by
  fun_induction toBase64 d with
  | case1 t1 t2 t3 rest ih =>
      simp only [List.mem_cons] at mem
      rcases mem with rfl | rfl | rfl | rfl | later
      · exact Or.inl (encodeTable0_mem t1)
      · exact Or.inl (encodeTable1_mem _)
      · exact Or.inl (encodeTable1_mem _)
      · exact Or.inl (encodeTable1_mem _)
      · exact ih later
  | case2 t1 t2 =>
      simp only [List.mem_cons, List.not_mem_nil, or_false] at mem
      rcases mem with rfl | rfl | rfl | rfl
      · exact Or.inl (encodeTable0_mem t1)
      · exact Or.inl (encodeTable1_mem _)
      · exact Or.inl (encodeTable1_mem _)
      · exact Or.inr rfl
  | case3 t1 =>
      simp only [List.mem_cons, List.not_mem_nil, or_false] at mem
      rcases mem with rfl | rfl | rfl | rfl
      · exact Or.inl (encodeTable0_mem t1)
      · exact Or.inl (encodeTable1_mem _)
      · exact Or.inr rfl
      · exact Or.inr rfl
  | case4 => simp at mem

/-- Whole groups are not padded. -/
theorem padding_not_mem_toBase64 {d : Bytes} {n : Nat} (whole : d.length = 3 * n) :
    paddingChar ∉ toBase64 d := by
  replace whole := groups_of_length whole
  induction whole with
  | nil => exact List.not_mem_nil
  | cons t1 t2 t3 _ ih =>
      simp only [toBase64, List.mem_cons, not_or]
      exact ⟨(ne_padding (encodeTable0_mem t1)).symm, (ne_padding (encodeTable1_mem _)).symm,
        (ne_padding (encodeTable1_mem _)).symm, (ne_padding (encodeTable1_mem _)).symm,
        ih⟩

/-- What the padded group of one or two bytes looks like, and that it is decoded. -/
theorem padded_group {tail : Bytes} (some_left : tail ≠ []) (short : tail.length < 3) :
    (toBase64 tail).length = 4 ∧ (toBase64 tail).count paddingChar = 3 - tail.length ∧
      decodePadded (3 - tail.length) (toBase64 tail) = .ok tail := by
  match tail, some_left, short with
  | [t1], _, _ =>
      have group : decodeTable0 (encodeTable0 t1.toUInt32) |||
          decodeTable1 (encodeTable1 ((t1.toUInt32 &&& 3) <<< 4)) = word t1 0 0 := by
        unfold decodeTable0 decodeTable1 word second third part2 part3
        simp [decodeTable_encodeTable0, decodeTable_encodeTable1]
      refine ⟨rfl, ?_, ?_⟩
      · simp [toBase64, ne_padding (encodeTable0_mem _),
          ne_padding (encodeTable1_mem _)]
      · simp only [toBase64, List.length_singleton, Nat.add_one_sub_one, decodePadded, group,
          decodeWord_word]
        rfl
  | [t1, t2], _, _ =>
      have group : decodeTable0 (encodeTable0 t1.toUInt32) |||
          decodeTable1 (encodeTable1 (second t1 t2)) |||
          decodeTable2 (encodeTable1 ((t2.toUInt32 &&& 15) <<< 2)) = word t1 t2 0 := by
        unfold decodeTable0 decodeTable1 decodeTable2 word third part3
        simp [decodeTable_encodeTable0, decodeTable_encodeTable1]
      refine ⟨rfl, ?_, ?_⟩
      · simp [toBase64, ne_padding (encodeTable0_mem _),
          ne_padding (encodeTable1_mem _)]
      · simp only [toBase64, List.length_cons, List.length_nil, decodePadded, group,
          decodeWord_word]
        rfl

/-- Bytes in groups of three are encoded without padding. -/
theorem fromBase64_of_whole {d : Bytes} {n : Nat} (whole : d.length = 3 * n) :
    fromBase64 (toBase64 d) = .ok d := by
  have length := length_toBase64_whole whole
  have groups := decodeGroups_toBase64 whole []
  rw [List.append_nil] at groups
  rw [fromBase64]
  by_cases nothing : toBase64 d = []
  · have none : d = [] := by
      rw [nothing, List.length_nil] at length
      exact List.eq_nil_of_length_eq_zero (by omega)
    rw [if_pos nothing, none]
  · have unpadded : ((toBase64 d).drop ((toBase64 d).length - 4)).count paddingChar = 0 := by
      rw [List.count_eq_zero]
      intro mem
      exact padding_not_mem_toBase64 whole (List.mem_of_mem_drop mem)
    have count : (toBase64 d).length / 4 - 0 = n := by
      rw [length]
      omega
    rw [if_neg nothing, if_neg (by rw [length]; omega)]
    simp only [unpadded, ne_eq, not_true_eq_false, if_false, count, groups]
    rw [if_neg (by omega)]
    simp [decodePadded, bind, Except.bind, pure, Except.pure]

/-- One or two bytes behind the groups are encoded with padding. -/
theorem fromBase64_of_padded {d tail : Bytes} {n : Nat} (whole : d.length = 3 * n)
    (some_left : tail ≠ []) (short : tail.length < 3) :
    fromBase64 (toBase64 (d ++ tail)) = .ok (d ++ tail) := by
  have length := length_toBase64_whole whole
  have groups := decodeGroups_toBase64 whole (toBase64 tail)
  obtain ⟨four, padding, decoded⟩ := padded_group some_left short
  rw [toBase64_append whole]
  set text := toBase64 d ++ toBase64 tail with text_def
  have total : text.length = 4 * n + 4 := by
    rw [text_def, List.length_append, length, four]
  have last : text.drop (text.length - 4) = toBase64 tail := by
    rw [total, Nat.add_sub_cancel, text_def, ← length, List.drop_left]
  have pos := List.length_pos_iff.mpr some_left
  have count : text.length / 4 - 1 = n := by omega
  have nonempty : text ≠ [] := List.ne_nil_of_length_pos (by omega)
  rw [fromBase64, if_neg nonempty, if_neg (by omega)]
  simp only [last, padding]
  rw [if_neg (by omega), if_pos (by omega), count, groups]
  simp only [bind, Except.bind, pure, Except.pure, decoded]

/-- `from_base64` undoes `to_base64`. -/
theorem fromBase64_toBase64 (d : Bytes) : fromBase64 (toBase64 d) = .ok d := by
  have whole : (d.take (3 * (d.length / 3))).length = 3 * (d.length / 3) := by
    rw [List.length_take]
    omega
  have short : (d.drop (3 * (d.length / 3))).length < 3 := by
    rw [List.length_drop]
    omega
  have split := List.take_append_drop (3 * (d.length / 3)) d
  by_cases empty : d.drop (3 * (d.length / 3)) = []
  · rw [empty, List.append_nil] at split
    rw [split] at whole
    exact fromBase64_of_whole whole
  · have decoded := fromBase64_of_padded whole empty short
    rwa [split] at decoded

/-! ## Any text is decoded or refused -/

theorem defined_decodeWord (temp : UInt32) (n : Nat) : Defined (decodeWord temp n) := by
  rw [decodeWord]
  split
  · exact defined_thrown _
  · exact defined_ok _

theorem defined_decodeGroups {n : Nat} {text : Bytes} (enough : 4 * n ≤ text.length) :
    Defined (decodeGroups n text) := by
  induction n generalizing text with
  | zero => exact defined_ok _
  | succ n ih =>
      rcases text with _ | ⟨t1, _ | ⟨t2, _ | ⟨t3, _ | ⟨t4, text⟩⟩⟩⟩
      all_goals simp only [List.length_nil, List.length_cons] at enough
      all_goals try omega
      rw [decodeGroups]
      refine (defined_decodeWord _ _).bind fun bytes _ => ?_
      exact (ih (by omega)).bind fun behind _ => defined_ok _

theorem defined_decodePadded (numPadding : Nat) (text : Bytes) :
    Defined (decodePadded numPadding text) := by
  unfold decodePadded
  split
  · exact defined_ok _
  · exact defined_decodeWord _ _
  · exact defined_decodeWord _ _
  · exact defined_thrown _

theorem defined_fromBase64 (text : Bytes) : Defined (fromBase64 text) := by
  rw [fromBase64]
  split
  · exact defined_ok _
  · split
    · exact defined_thrown _
    · simp only
      split
      · exact defined_thrown _
      · refine (defined_decodeGroups ?_).bind fun groups _ => ?_
        · omega
        · exact (defined_decodePadded _ _).bind fun padded _ => defined_ok _

end PacketReplay.Base64
