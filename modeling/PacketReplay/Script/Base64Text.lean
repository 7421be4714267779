import PacketReplay.Script.Base64

/-!
# Texts that spell bytes in base64

`from_base64` accepts the encodings of whole groups of three bytes, and behind them the
beginning of a group with padding in place of its last symbols (`fromBase64_eq_ok_iff`). The
bits of a padded group that belong to no byte are not looked at.
-/

namespace PacketReplay.Base64

open Lib

/-- The end of a text, behind its whole groups: nothing, or a group whose last symbols are
padding. -/
inductive SpellsEnd : Bytes → Bytes → Prop
  | whole : SpellsEnd [] []
  | two (t1 t2 t3 : UInt8) :
      SpellsEnd [encodeTable0 t1.toUInt32, encodeTable1 (second t1 t2),
        encodeTable1 (third t2 t3), paddingChar] [t1, t2]
  | one (t1 t2 : UInt8) :
      SpellsEnd [encodeTable0 t1.toUInt32, encodeTable1 (second t1 t2), paddingChar, paddingChar]
        [t1]

/-- The text spells the bytes. -/
def Spells (text d : Bytes) : Prop :=
  ∃ groups n tail last, groups.length = 3 * n ∧ text = toBase64 groups ++ tail ∧
    SpellsEnd tail last ∧ d = groups ++ last

/-! ## Indices of symbols -/

theorem toNat_second (t1 t2 : UInt8) :
    (second t1 t2).toNat = t1.toNat % 4 * 16 + t2.toNat / 16 := by
  have low := t2.toNat_lt
  have high : t1.toNat &&& 3 = t1.toNat % 4 := Nat.and_two_pow_sub_one_eq_mod t1.toNat 2
  have rest : t2.toNat / 16 &&& 15 = t2.toNat / 16 % 16 := Nat.and_two_pow_sub_one_eq_mod _ 4
  have parts := Nat.shiftLeft_add_eq_or_of_lt (i := 4) (b := t2.toNat / 16) (by omega)
    (t1.toNat % 4)
  rw [second, UInt32.toNat_or, UInt32.toNat_shiftLeft, UInt32.toNat_and, UInt32.toNat_and,
    UInt32.toNat_shiftRight, UInt8.toNat_toUInt32, UInt8.toNat_toUInt32]
  change (t1.toNat &&& 3) <<< 4 % 2 ^ 32 ||| t2.toNat >>> 4 &&& 15 = _
  have small : t1.toNat % 4 * 2 ^ 4 % 2 ^ 32 = t1.toNat % 4 * 2 ^ 4 := Nat.mod_eq_of_lt (by omega)
  have few : t2.toNat / 16 % 16 = t2.toNat / 16 := Nat.mod_eq_of_lt (by omega)
  rw [Nat.shiftLeft_eq] at parts
  rw [high, Nat.shiftRight_eq_div_pow, rest, Nat.shiftLeft_eq, small, few, ← parts]

theorem toNat_third (t2 t3 : UInt8) :
    (third t2 t3).toNat = t2.toNat % 16 * 4 + t3.toNat / 64 := by
  have low := t3.toNat_lt
  have high : t2.toNat &&& 15 = t2.toNat % 16 := Nat.and_two_pow_sub_one_eq_mod t2.toNat 4
  have rest : t3.toNat / 64 &&& 3 = t3.toNat / 64 % 4 := Nat.and_two_pow_sub_one_eq_mod _ 2
  have parts := Nat.shiftLeft_add_eq_or_of_lt (i := 2) (b := t3.toNat / 64) (by omega)
    (t2.toNat % 16)
  rw [third, UInt32.toNat_or, UInt32.toNat_shiftLeft, UInt32.toNat_and, UInt32.toNat_and,
    UInt32.toNat_shiftRight, UInt8.toNat_toUInt32, UInt8.toNat_toUInt32]
  change (t2.toNat &&& 15) <<< 2 % 2 ^ 32 ||| t3.toNat >>> 6 &&& 3 = _
  have small : t2.toNat % 16 * 2 ^ 2 % 2 ^ 32 = t2.toNat % 16 * 2 ^ 2 := Nat.mod_eq_of_lt (by omega)
  have few : t3.toNat / 64 % 4 = t3.toNat / 64 := Nat.mod_eq_of_lt (by omega)
  rw [Nat.shiftLeft_eq] at parts
  rw [high, Nat.shiftRight_eq_div_pow, rest, Nat.shiftLeft_eq, small, few, ← parts]

theorem encodeTable0_eq {t : UInt8} {v : Nat} (index : t.toNat / 4 = v) :
    encodeTable0 t.toUInt32 = symbol (UInt32.ofNat v) := by
  have shifted : t.toUInt32 >>> 2 = UInt32.ofNat v := by
    have bound := t.toNat_lt
    apply UInt32.toNat_inj.mp
    rw [UInt32.toNat_shiftRight, UInt8.toNat_toUInt32, UInt32.toNat_ofNat']
    change t.toNat >>> 2 = v % 2 ^ 32
    rw [Nat.shiftRight_eq_div_pow]
    omega
  rw [encodeTable0, shifted]

theorem encodeTable1_eq {t : UInt32} {v : Nat} (index : t.toNat % 64 = v) :
    encodeTable1 t = symbol (UInt32.ofNat v) := by
  have masked : t &&& 63 = UInt32.ofNat v := by
    have low : t.toNat &&& 63 = t.toNat % 64 := Nat.and_two_pow_sub_one_eq_mod t.toNat 6
    apply UInt32.toNat_inj.mp
    rw [UInt32.toNat_and, UInt32.toNat_ofNat']
    change t.toNat &&& 63 = v % 2 ^ 32
    omega
  rw [encodeTable1, masked]

/-- Any four symbols are those of a group. -/
theorem exists_group {v1 v2 v3 v4 : Nat} (s1 : v1 < 64) (s2 : v2 < 64) (s3 : v3 < 64)
    (s4 : v4 < 64) : ∃ t1 t2 t3 : UInt8,
      encodeTable0 t1.toUInt32 = symbol (UInt32.ofNat v1) ∧
        encodeTable1 (second t1 t2) = symbol (UInt32.ofNat v2) ∧
        encodeTable1 (third t2 t3) = symbol (UInt32.ofNat v3) ∧
        encodeTable1 t3.toUInt32 = symbol (UInt32.ofNat v4) := by
  refine ⟨UInt8.ofNat (v1 * 4 + v2 / 16), UInt8.ofNat (v2 % 16 * 16 + v3 / 4),
    UInt8.ofNat (v3 % 4 * 64 + v4), encodeTable0_eq ?_, encodeTable1_eq ?_, encodeTable1_eq ?_,
    encodeTable1_eq ?_⟩
  · rw [UInt8.toNat_ofNat']
    omega
  · rw [toNat_second, UInt8.toNat_ofNat', UInt8.toNat_ofNat']
    omega
  · rw [toNat_third, UInt8.toNat_ofNat', UInt8.toNat_ofNat']
    omega
  · rw [UInt8.toNat_toUInt32, UInt8.toNat_ofNat']
    omega

/-! ## Symbols read back -/

/-- What is no symbol is bad in every table. -/
theorem decodeTable_cases (c : UInt8) :
    (∀ part, decodeTable part c = badChar) ∨ ∃ v < 64, c = symbol (UInt32.ofNat v) := by
  rcases found : alphabet.idxOf? c with _ | v
  · refine Or.inl fun part => ?_
    rw [decodeTable, found]
  · obtain ⟨inside, here, -⟩ := List.idxOf?_eq_some_iff.mp found
    have small : v < 64 := by rwa [length_alphabet] at inside
    refine Or.inr ⟨v, small, ?_⟩
    have index : (UInt32.ofNat v).toNat = v := by
      rw [UInt32.toNat_ofNat']
      omega
    rw [symbol, index, List.getD_eq_getElem?_getD, List.getElem?_eq_getElem inside]
    exact here.symm

theorem badChar_le_left {a b : UInt32} (bad : badChar ≤ a) : badChar ≤ a ||| b := by
  rw [UInt32.le_iff_toNat_le] at bad ⊢
  rw [UInt32.toNat_or]
  exact bad.trans Nat.left_le_or

theorem badChar_le_right {a b : UInt32} (bad : badChar ≤ b) : badChar ≤ a ||| b := by
  rw [UInt32.or_comm]
  exact badChar_le_left bad

theorem decodeWord_eq_ok {temp : UInt32} {n : Nat} {bytes : Bytes}
    (decoded : decodeWord temp n = .ok bytes) : ¬ badChar ≤ temp := by
  intro bad
  rw [decodeWord, if_pos bad] at decoded
  cases decoded

/-- The words of the groups that are padded are those of whole groups. -/
theorem word_two (t1 t2 t3 : UInt8) :
    decodeTable0 (encodeTable0 t1.toUInt32) ||| decodeTable1 (encodeTable1 (second t1 t2)) |||
        decodeTable2 (encodeTable1 (third t2 t3)) =
      word t1 t2 (UInt8.ofNat (t3.toNat / 64 * 64)) := by
  have bound := t3.toNat_lt
  have same : third t2 t3 = third t2 (UInt8.ofNat (t3.toNat / 64 * 64)) := by
    apply UInt32.toNat_inj.mp
    rw [toNat_third, toNat_third, UInt8.toNat_ofNat']
    omega
  have none : (UInt8.ofNat (t3.toNat / 64 * 64)).toUInt32 &&& 63 = 0 := by
    have low := Nat.and_two_pow_sub_one_eq_mod (UInt8.ofNat (t3.toNat / 64 * 64)).toNat 6
    apply UInt32.toNat_inj.mp
    rw [UInt32.toNat_and, UInt8.toNat_toUInt32]
    refine low.trans ?_
    rw [UInt8.toNat_ofNat']
    change _ = 0
    omega
  unfold decodeTable0 decodeTable1 decodeTable2 word
  rw [decodeTable_encodeTable0, decodeTable_encodeTable1, decodeTable_encodeTable1, none, ← same]
  exact (UInt32.or_zero).symm

theorem word_one (t1 t2 : UInt8) :
    decodeTable0 (encodeTable0 t1.toUInt32) ||| decodeTable1 (encodeTable1 (second t1 t2)) =
      word t1 (UInt8.ofNat (t2.toNat / 16 * 16)) 0 := by
  have bound := t2.toNat_lt
  have same : second t1 t2 = second t1 (UInt8.ofNat (t2.toNat / 16 * 16)) := by
    apply UInt32.toNat_inj.mp
    rw [toNat_second, toNat_second, UInt8.toNat_ofNat']
    omega
  have none : third (UInt8.ofNat (t2.toNat / 16 * 16)) 0 &&& 63 = 0 := by
    have zero : third (UInt8.ofNat (t2.toNat / 16 * 16)) 0 = 0 := by
      apply UInt32.toNat_inj.mp
      rw [toNat_third, UInt8.toNat_ofNat']
      change _ + 0 / 64 = 0
      omega
    rw [zero]
    rfl
  unfold decodeTable0 decodeTable1 word
  rw [decodeTable_encodeTable0, decodeTable_encodeTable1, none, ← same]
  have zeros : part2 0 = 0 ∧ part3 ((0 : UInt8).toUInt32 &&& 63) = 0 := by decide
  rw [zeros.1, zeros.2, UInt32.or_zero, UInt32.or_zero]

/-! ## Groups -/

/-- A word that is decoded is one of symbols. -/
theorem exists_symbols {a b c e : UInt8}
    (good : ¬ badChar ≤ decodeTable0 a ||| decodeTable1 b ||| decodeTable2 c ||| decodeTable3 e) :
    ∃ t1 t2 t3 : UInt8, a = encodeTable0 t1.toUInt32 ∧ b = encodeTable1 (second t1 t2) ∧
      c = encodeTable1 (third t2 t3) ∧ e = encodeTable1 t3.toUInt32 := by
  have le : badChar ≤ badChar := UInt32.le_refl _
  rcases decodeTable_cases a with bad | ⟨v1, s1, rfl⟩
  · have first : badChar ≤ decodeTable0 a := (bad part0).symm ▸ le
    exact absurd (badChar_le_left (badChar_le_left (badChar_le_left first))) good
  · rcases decodeTable_cases b with bad | ⟨v2, s2, rfl⟩
    · have next : badChar ≤ decodeTable1 b := (bad part1).symm ▸ le
      exact absurd (badChar_le_left (badChar_le_left (badChar_le_right next))) good
    · rcases decodeTable_cases c with bad | ⟨v3, s3, rfl⟩
      · have third : badChar ≤ decodeTable2 c := (bad part2).symm ▸ le
        exact absurd (badChar_le_left (badChar_le_right third)) good
      · rcases decodeTable_cases e with bad | ⟨v4, s4, rfl⟩
        · have last : badChar ≤ decodeTable3 e := (bad part3).symm ▸ le
          exact absurd (badChar_le_right last) good
        · obtain ⟨t1, t2, t3, e1, e2, e3, e4⟩ := exists_group s1 s2 s3 s4
          exact ⟨t1, t2, t3, e1.symm, e2.symm, e3.symm, e4.symm⟩

theorem word_symbols (t1 t2 t3 : UInt8) :
    decodeTable0 (encodeTable0 t1.toUInt32) ||| decodeTable1 (encodeTable1 (second t1 t2)) |||
        decodeTable2 (encodeTable1 (third t2 t3)) ||| decodeTable3 (encodeTable1 t3.toUInt32) =
      word t1 t2 t3 := by
  unfold decodeTable0 decodeTable1 decodeTable2 decodeTable3 word
  simp only [decodeTable_encodeTable0, decodeTable_encodeTable1]

/-- What the loop decodes is the encoding of whole groups. -/
theorem decodeGroups_eq_ok_iff {n : Nat} {text bytes tail : Bytes} :
    decodeGroups n text = .ok (bytes, tail) ↔
      bytes.length = 3 * n ∧ text = toBase64 bytes ++ tail := by
  constructor
  · intro decoded
    induction n generalizing text bytes with
    | zero =>
        cases decoded
        exact ⟨rfl, rfl⟩
    | succ n ih =>
        match text, decoded with
        | a :: b :: c :: e :: text, decoded =>
            obtain ⟨group, word, rest⟩ := bind_eq_ok.mp decoded
            obtain ⟨⟨later, left⟩, others, same⟩ := bind_eq_ok.mp rest
            cases same
            obtain ⟨t1, t2, t3, rfl, rfl, rfl, rfl⟩ := exists_symbols (decodeWord_eq_ok word)
            obtain ⟨length, rfl⟩ := ih others
            rw [word_symbols, decodeWord_word] at word
            cases word
            refine ⟨?_, rfl⟩
            simp only [List.take, List.length_append, List.length_cons, List.length_nil, length]
            omega
  · rintro ⟨whole, rfl⟩
    exact decodeGroups_toBase64 whole tail

/-- A symbol of the last table that adds nothing. -/
theorem decodeTable3_zero : decodeTable3 (symbol 0) = 0 := by decide

theorem decodeTable2_zero : decodeTable2 (symbol 0) = 0 := by decide

theorem decodePadded_one_iff {a b c e : UInt8} {bytes : Bytes} :
    decodePadded 1 [a, b, c, e] = .ok bytes ↔
      ∃ t1 t2 t3 : UInt8, a = encodeTable0 t1.toUInt32 ∧ b = encodeTable1 (second t1 t2) ∧
        c = encodeTable1 (third t2 t3) ∧ bytes = [t1, t2] := by
  constructor
  · intro decoded
    have good := decodeWord_eq_ok decoded
    rw [← UInt32.or_zero (a := decodeTable0 a ||| decodeTable1 b ||| decodeTable2 c),
      ← decodeTable3_zero] at good
    obtain ⟨t1, t2, t3, rfl, rfl, rfl, -⟩ := exists_symbols good
    rw [decodePadded, word_two, decodeWord_word] at decoded
    cases decoded
    exact ⟨t1, t2, t3, rfl, rfl, rfl, rfl⟩
  · rintro ⟨t1, t2, t3, rfl, rfl, rfl, rfl⟩
    rw [decodePadded, word_two, decodeWord_word]
    rfl

theorem decodePadded_two_iff {a b c e : UInt8} {bytes : Bytes} :
    decodePadded 2 [a, b, c, e] = .ok bytes ↔
      ∃ t1 t2 : UInt8, a = encodeTable0 t1.toUInt32 ∧ b = encodeTable1 (second t1 t2) ∧
        bytes = [t1] := by
  constructor
  · intro decoded
    have good := decodeWord_eq_ok decoded
    rw [← UInt32.or_zero (a := decodeTable0 a ||| decodeTable1 b), ← decodeTable2_zero,
      ← UInt32.or_zero (a := decodeTable0 a ||| decodeTable1 b ||| decodeTable2 (symbol 0)),
      ← decodeTable3_zero] at good
    obtain ⟨t1, t2, t3, rfl, rfl, -, -⟩ := exists_symbols good
    rw [decodePadded, word_one, decodeWord_word] at decoded
    cases decoded
    exact ⟨t1, t2, rfl, rfl, rfl⟩
  · rintro ⟨t1, t2, rfl, rfl, rfl⟩
    rw [decodePadded, word_one, decodeWord_word]
    rfl

/-! ## Texts -/

/-- Whole groups with a padded one behind them. -/
theorem fromBase64_append {groups tail last : Bytes} {n p : Nat} (whole : groups.length = 3 * n)
    (four : tail.length = 4) (padding : tail.count paddingChar = p) (some_padding : 0 < p)
    (few : p ≤ 2) (decoded : decodePadded p tail = .ok last) :
    fromBase64 (toBase64 groups ++ tail) = .ok (groups ++ last) := by
  have length := length_toBase64_whole whole
  have total : (toBase64 groups ++ tail).length = 4 * n + 4 := by
    rw [List.length_append, length, four]
  have behind : (toBase64 groups ++ tail).drop ((toBase64 groups ++ tail).length - 4) = tail := by
    rw [total, Nat.add_sub_cancel, ← length, List.drop_left]
  have count : (toBase64 groups ++ tail).length / 4 - 1 = n := by omega
  have nonempty : toBase64 groups ++ tail ≠ [] := List.ne_nil_of_length_pos (by omega)
  rw [fromBase64, if_neg nonempty, if_neg (by omega)]
  simp only [behind, padding]
  rw [if_neg (by omega), if_pos (by omega), count, decodeGroups_toBase64 whole]
  simp only [bind, Except.bind, pure, Except.pure, decoded]

theorem encodeTable0_ne_padding (t : UInt8) : encodeTable0 t.toUInt32 ≠ paddingChar :=
  ne_padding (encodeTable0_mem t)

theorem encodeTable1_ne_padding (t : UInt32) : encodeTable1 t ≠ paddingChar :=
  ne_padding (encodeTable1_mem t)

theorem fromBase64_of_spells {text d : Bytes} (spells : Spells text d) :
    fromBase64 text = .ok d := by
  obtain ⟨groups, n, tail, last, whole, rfl, ends, rfl⟩ := spells
  cases ends with
  | whole =>
      rw [List.append_nil, List.append_nil]
      exact fromBase64_of_whole whole
  | two t1 t2 t3 =>
      refine fromBase64_append (p := 1) whole rfl ?_ (by decide) (by decide)
        (decodePadded_one_iff.mpr ⟨t1, t2, t3, rfl, rfl, rfl, rfl⟩)
      simp [encodeTable0_ne_padding, encodeTable1_ne_padding]
  | one t1 t2 =>
      refine fromBase64_append (p := 2) whole rfl ?_ (by decide) (by decide)
        (decodePadded_two_iff.mpr ⟨t1, t2, rfl, rfl, rfl⟩)
      simp [encodeTable0_ne_padding, encodeTable1_ne_padding]

/-- A group with padding in it that is decoded ends in the padding. -/
theorem spellsEnd_of_decodePadded {tail last : Bytes} (four : tail.length = 4)
    (some_padding : tail.count paddingChar ≠ 0)
    (decoded : decodePadded (tail.count paddingChar) tail = .ok last) : SpellsEnd tail last := by
  obtain ⟨a, b, c, e, rfl⟩ : ∃ a b c e, tail = [a, b, c, e] := by
    match tail, four with
    | [a, b, c, e], _ => exact ⟨a, b, c, e, rfl⟩
  rcases count : [a, b, c, e].count paddingChar with _ | _ | _ | p
  · exact absurd count some_padding
  · rw [count] at decoded
    obtain ⟨t1, t2, t3, rfl, rfl, rfl, rfl⟩ := decodePadded_one_iff.mp decoded
    have padded : e = paddingChar := by
      simpa [List.count_cons, encodeTable0_ne_padding, encodeTable1_ne_padding] using count
    rw [padded]
    exact .two t1 t2 t3
  · rw [count] at decoded
    obtain ⟨t1, t2, rfl, rfl, rfl⟩ := decodePadded_two_iff.mp decoded
    rw [List.count_cons_of_ne (encodeTable0_ne_padding t1),
      List.count_cons_of_ne (encodeTable1_ne_padding _)] at count
    have all := List.count_eq_length.mp count
    rw [← all c (by simp), ← all e (by simp)]
    exact .one t1 t2
  · rw [count] at decoded
    cases decoded

/-- `from_base64` accepts exactly the texts that spell bytes, and gives these. -/
theorem fromBase64_eq_ok_iff (text d : Bytes) : fromBase64 text = .ok d ↔ Spells text d := by
  refine ⟨fun decoded => ?_, fromBase64_of_spells⟩
  by_cases empty : text = []
  · subst empty
    cases decoded
    exact ⟨[], 0, [], [], rfl, rfl, .whole, rfl⟩
  · rw [fromBase64, if_neg empty] at decoded
    split at decoded
    · cases decoded
    · next whole =>
        dsimp only at decoded
        split at decoded
        · cases decoded
        · next few =>
            obtain ⟨⟨groups, tail⟩, looped, rest⟩ := bind_eq_ok.mp decoded
            obtain ⟨last, padded, same⟩ := bind_eq_ok.mp rest
            cases same
            obtain ⟨length, text_eq⟩ := decodeGroups_eq_ok_iff.mp looped
            have encoded := length_toBase64_whole length
            have pos := List.length_pos_iff.mpr empty
            have total := congrArg List.length text_eq
            rw [List.length_append, encoded] at total
            by_cases none : (text.drop (text.length - 4)).count paddingChar = 0
            · rw [none] at padded total
              cases padded
              have no_tail : tail = [] := by
                apply List.length_eq_zero_iff.mp
                simp only [ne_eq, not_true_eq_false, if_false] at total
                omega
              exact ⟨groups, _, [], [], length, by rw [text_eq, no_tail], .whole, rfl⟩
            · rw [if_pos none] at total encoded
              have four : tail.length = 4 := by omega
              have behind : text.drop (text.length - 4) = tail := by
                have front : text.length - 4 = (toBase64 groups).length := by omega
                rw [front, text_eq, List.drop_left]
              rw [behind] at padded none
              exact ⟨groups, _, tail, last, length, text_eq,
                spellsEnd_of_decodePadded four none padded, rfl⟩

end PacketReplay.Base64
