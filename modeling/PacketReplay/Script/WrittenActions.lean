import PacketReplay.Script.DataFraming
import PacketReplay.Script.Serializer

/-!
# Actions written and read back

Data whose tail is binary is written in base64, which has neither of the brackets of
the end tag: `readActions_writeAction` reads such an action back, and the end tag of
its block is the one `write_action` appends. Other data is written as it is, and
`first_endTag_iff` says when its block ends early.
-/

namespace PacketReplay

open Lib

namespace ConversationSerializer

/-! ## The choice of the coding -/

/-- One of the last 49 bytes of long enough data is neither printable nor white
space. -/
def BinaryTail (data : Bytes) : Prop :=
  50 ≤ data.length ∧ data.length ≤ 2 ^ 31 ∧
    ∃ c ∈ data.drop (data.length - 49), isprint c = false ∧ isspace c = false

instance (data : Bytes) : Decidable (BinaryTail data) := inferInstanceAs (Decidable (_ ∧ _))

theorem binaryScan_iff {data : Bytes} {n : Nat} (inside : n ≤ data.length) :
    binaryScan data n = true ↔
      50 ≤ data.length ∧ ∃ i < n, data.length - 50 < i ∧
        ∃ c, data[i]? = some c ∧ isprint c = false ∧ isspace c = false := by
  induction n with
  | zero => simp [binaryScan]
  | succ n ih =>
      have symbol : data[n]? = some data[n] := List.getElem?_eq_getElem (by omega)
      rw [binaryScan, symbol]
      simp only
      by_cases tail : 50 ≤ data.length ∧ data.length - 50 < n
      · rw [if_pos tail]
        by_cases binary : isprint data[n] = false ∧ isspace data[n] = false
        · rw [if_pos (by simp [binary])]
          exact iff_of_true rfl ⟨tail.1, n, Nat.lt_succ_self n, tail.2, _, symbol, binary⟩
        · rw [if_neg (by simpa using binary), ih (by omega)]
          refine and_congr_right fun _ => ⟨?_, ?_⟩
          · intro given
            rcases given with ⟨i, below, rest⟩
            exact ⟨i, by omega, rest⟩
          · intro given
            rcases given with ⟨i, below, behind, c, at_i, isBinary⟩
            rcases Nat.lt_succ_iff_lt_or_eq.mp below with before | rfl
            · exact ⟨i, before, behind, c, at_i, isBinary⟩
            · rw [symbol, Option.some.injEq] at at_i
              exact absurd (at_i ▸ isBinary) binary
      · rw [if_neg tail]
        refine iff_of_false (by simp) ?_
        intro given
        rcases given with ⟨long, i, below, behind, -⟩
        exact tail ⟨long, by omega⟩

theorem isBinary_iff {data : Bytes} : isBinary data = true ↔ BinaryTail data := by
  set n := (toInt32 (data.length - 1) + 1).toNat with n_def
  have start : isBinary data = binaryScan data n := rfl
  rcases Nat.lt_or_ge (2 ^ 31) data.length with huge | small
  · -- the index does not fit in an `int`
    have below : n ≤ data.length - 49 := by
      have bound : toInt32 (data.length - 1) < (2 ^ 32 + 1) / 2 := Int.bmod_lt (by omega)
      rcases Nat.lt_or_ge data.length (2 ^ 31 + 49) with near | far
      · have wraps : toInt32 (data.length - 1) = data.length - 1 - 2 ^ 32 := by
          unfold toInt32
          rw [Int.bmod_def]
          omega
        omega
      · omega
    rw [start, binaryScan_iff (by omega)]
    refine iff_of_false ?_ fun tail => absurd tail.2.1 (by omega)
    intro given
    rcases given with ⟨long, i, inside, behind, -⟩
    omega
  · have whole : n = data.length := by
      rw [n_def, toInt32_of_range (by omega) (by omega)]
      omega
    rw [start, whole, binaryScan_iff (Nat.le_refl _), BinaryTail]
    refine and_congr_right fun long => ?_
    rw [and_iff_right small]
    constructor
    · intro given
      rcases given with ⟨i, inside, behind, c, at_i, binary⟩
      refine ⟨c, List.mem_iff_getElem?.mpr ⟨i - (data.length - 49), ?_⟩, binary⟩
      rw [List.getElem?_drop, Nat.add_sub_cancel' (by omega), at_i]
    · intro given
      rcases given with ⟨c, mem, binary⟩
      obtain ⟨i, at_i⟩ := List.mem_iff_getElem?.mp mem
      rw [List.getElem?_drop] at at_i
      obtain ⟨inside, -⟩ := List.getElem?_eq_some_iff.mp at_i
      exact ⟨_, inside, by omega, c, at_i, binary⟩

/-! ## The coding that is written -/

/-- The line that says how the data is encoded. -/
def encodingLine : Bytes := ascii "Encoding: BASE64"

/-- An action with its data between the tags as it is. -/
def rawText (action : Action) : Bytes :=
  actionTypeToString action.type ++ lf :: (dataStartTag ++ lf ::
    (action.data ++ dataEndTag ++ [lf]))

/-- An action with its data in base64. -/
def base64Text (action : Action) : Bytes :=
  actionTypeToString action.type ++ lf :: (encodingLine ++ lf ::
    (dataStartTag ++ lf :: (Base64.toBase64 action.data ++ dataEndTag ++ [lf])))

theorem writeAction_eq (order : Properties.EntryOrder) (action : Action) :
    writeAction order action =
      if isBinary action.data then base64Text action else rawText action := by
  have newline : ascii "\n" = [lf] := rfl
  have line : Properties.entryLine encodingProp base64Encoding = encodingLine ++ [lf] := by decide
  rw [writeAction, writeActionHead, payload]
  by_cases binary : isBinary action.data = true
  · rw [if_pos binary, if_pos binary, if_pos binary, Properties.write_singleton, newline, line,
      base64Text]
    simp only [List.append_assoc, List.cons_append, List.nil_append]
  · rw [if_neg binary, if_neg binary, if_neg binary, newline, rawText]
    simp only [List.append_assoc, List.cons_append, List.nil_append]

theorem base64Text_ne_rawText (action : Action) : base64Text action ≠ rawText action := by
  intro same
  have behind := (List.cons.inj (List.append_cancel_left same)).2
  -- an `E` against the bracket of the start tag
  have heads := congrArg List.head? behind
  revert heads
  rw [List.head?_append_of_ne_nil _ (by decide), List.head?_append_of_ne_nil _ (by decide)]
  decide

/-- One of the last 49 bytes, of all bytes when there are fewer, is neither printable
nor white space. -/
def UnprintableTail (data : Bytes) : Prop :=
  ∃ c ∈ data.drop (data.length - 49), isprint c = false ∧ isspace c = false

instance (data : Bytes) : Decidable (UnprintableTail data) :=
  inferInstanceAs (Decidable (∃ c ∈ _, _))

theorem binaryTail_iff {data : Bytes} :
    BinaryTail data ↔ (50 ≤ data.length ∧ data.length ≤ 2 ^ 31) ∧ UnprintableTail data := by
  rw [BinaryTail, ← and_assoc, UnprintableTail]

/-- The coding says what the tail of the data is like. -/
def DetectsBinary (order : Properties.EntryOrder) (action : Action) : Prop :=
  (UnprintableTail action.data → writeAction order action = base64Text action) ∧
    (¬ UnprintableTail action.data → writeAction order action = rawText action)

/-- The bound `data_size - 50` wraps for data of less than 50 bytes, and the index of the
scan is negative, or too small, for data of more than `2 ^ 31`: an unprintable tail goes
unnoticed in both. -/
theorem detectsBinary_iff (order : Properties.EntryOrder) (action : Action) :
    DetectsBinary order action ↔
      (50 ≤ action.data.length ∧ action.data.length ≤ 2 ^ 31) ∨ ¬ UnprintableTail action.data := by
  have written := writeAction_eq order action
  by_cases tail : UnprintableTail action.data
  · rw [DetectsBinary, or_iff_left (not_not_intro tail)]
    by_cases scanned : 50 ≤ action.data.length ∧ action.data.length ≤ 2 ^ 31
    · rw [if_pos (isBinary_iff.mpr (binaryTail_iff.mpr ⟨scanned, tail⟩))] at written
      exact iff_of_true ⟨fun _ => written, fun printable => absurd tail printable⟩ scanned
    · have missed : ¬ isBinary action.data = true := fun binary =>
        scanned (binaryTail_iff.mp (isBinary_iff.mp binary)).1
      rw [if_neg missed] at written
      refine iff_of_false ?_ scanned
      intro detects
      exact base64Text_ne_rawText action ((detects.1 tail).symm.trans written)
  · have missed : ¬ isBinary action.data = true := fun binary =>
      tail (binaryTail_iff.mp (isBinary_iff.mp binary)).2
    rw [if_neg missed] at written
    exact iff_of_true ⟨fun unprintable => absurd unprintable tail, fun _ => written⟩ (Or.inr tail)

/-- A single zero byte is written as it is. -/
theorem not_detectsBinary_zero : ¬ ∀ order action, DetectsBinary order action := by
  intro detects
  have coded := (detects .stored ⟨.send, [0], []⟩).1 (by decide)
  revert coded
  decide

/-! ## Where the block ends -/

/-- What an encoded text is not made of. -/
theorem brackets_not_mem_toBase64 (data : Bytes) :
    60 ∉ Base64.toBase64 data ∧ tagDelim ∉ Base64.toBase64 data := by
  constructor
  · intro mem
    rcases Base64.mem_toBase64 mem with symbol | padding
    · revert symbol
      decide
    · cases padding
  · intro mem
    rcases Base64.mem_toBase64 mem with symbol | padding
    · revert symbol
      decide
    · cases padding

theorem not_endTag_infix_of_bracket {data : Bytes} (clean : 60 ∉ data) :
    ¬ dataEndTag <:+: data := by
  intro tag
  exact clean (tag.subset (by decide))

theorem drop_writeActionHead (order : Properties.EntryOrder) (action : Action) :
    (writeAction order action).drop (writeActionHead order action).length =
      payload action.data ++ dataEndTag ++ ascii "\n" := by
  rw [writeAction, List.append_assoc, List.append_assoc, List.drop_left, ← List.append_assoc]

/-- The end tag is found where it was appended exactly when the text before has none. -/
theorem find_endTag_iff (text behind : Bytes) :
    find dataEndTag (text ++ dataEndTag ++ behind) = some text.length ↔ ¬ dataEndTag <:+: text := by
  constructor
  · intro found tag
    obtain ⟨i, at_i⟩ := isInfix_iff_occursAt.mp tag
    have bound := at_i.le_length (by decide)
    have length := TagReader.length_dataEndTag
    refine (find_eq_some_iff.mp found).2.2 i (by omega) ?_
    rw [List.append_assoc]
    exact at_i.append_right _
  · intro absent
    exact find_append_self (a := 60) (u := ascii "#DATA_END#>") (by decide) absent behind

/-- The first end tag behind the start tag line is the one that is appended exactly
when the data does not contain it or is written in base64. -/
theorem first_endTag_iff (order : Properties.EntryOrder) (action : Action) :
    find dataEndTag ((writeAction order action).drop (writeActionHead order action).length) =
        some (payload action.data).length ↔
      ¬ dataEndTag <:+: action.data ∨ BinaryTail action.data := by
  rw [drop_writeActionHead, find_endTag_iff, payload]
  by_cases binary : isBinary action.data = true
  · rw [if_pos binary]
    exact iff_of_true (not_endTag_infix_of_bracket (brackets_not_mem_toBase64 _).1)
      (Or.inr (isBinary_iff.mp binary))
  · rw [if_neg binary, or_iff_left (mt isBinary_iff.mpr binary)]

/-- An end tag in printable data ends the block. -/
theorem not_first_endTag_text :
    ¬ ∀ order action,
      find dataEndTag ((writeAction order action).drop (writeActionHead order action).length) =
        some (payload action.data).length := by
  intro first
  have found := first .stored { type := .send, data := ascii "a<#DATA_END#>b" }
  rw [drop_writeActionHead, find_endTag_iff] at found
  revert found
  decide

/-! ## Reading an action back -/

theorem readType_actionType (type : ActionType) (behind : Bytes) :
    readType (.of (actionTypeToString type ++ lf :: behind)) = .ok (some type, .of behind) := by
  have clean : lf ∉ actionTypeToString type := by cases type <;> decide
  have noComment : isComment (actionTypeToString type) = false := by cases type <;> decide
  have trimmed : trim (actionTypeToString type) = actionTypeToString type := by
    cases type <;> decide
  have nonempty : actionTypeToString type ≠ [] := by cases type <;> decide
  have named : stringToActionType (actionTypeToString type) = .ok type := by
    cases type <;> decide
  rw [readType, getline_good clean noComment]
  simp only [trimmed, if_neg nonempty, named]
  rfl

theorem readProperties_encoding (prop : Properties) (behind : Bytes) :
    readProperties (.of (encodingLine ++ lf :: behind)) prop =
      readProperties (.of behind) (prop.put encodingProp base64Encoding) := by
  have put : prop.putLine (trim encodingLine) = prop.put encodingProp base64Encoding := by
    have delimited : find Properties.delimiter (trim encodingLine) = some 8 := by decide
    have key : trim ((trim encodingLine).take 8) = encodingProp := by decide
    have value : trim ((trim encodingLine).drop (8 + Properties.delimiter.length)) =
        base64Encoding := by decide
    rw [Properties.putLine, delimited]
    simp only [key, value]
  rw [readProperties, getline_good (by decide) (by decide)]
  simp only [put]
  rw [if_neg (by decide), if_neg (by decide)]

theorem readProperties_startTag (prop : Properties) (behind : Bytes) :
    readProperties (.of (dataStartTag ++ lf :: behind)) prop =
      (readActionData (.of behind)).map fun block => (prop, block.1, block.2) := by
  rw [readProperties, getline_good (by decide) (by decide)]
  simp only
  rw [if_neg (by decide), if_pos (by decide)]

theorem toBase64_framable {data : Bytes} (nonempty : data ≠ []) :
    Framable (Base64.toBase64 data) := by
  have clean := (brackets_not_mem_toBase64 data).2
  refine ⟨?_, fun mem => clean (List.mem_of_mem_take mem), fun pair => clean (pair.subset ?_)⟩
  · intro empty
    have decoded := Base64.fromBase64_toBase64 data
    rw [empty] at decoded
    exact nonempty (Except.ok.inj decoded).symm
  · decide

/-- The text of an action in base64, line by line. -/
theorem writeAction_binary (order : Properties.EntryOrder) {action : Action}
    (binary : BinaryTail action.data) (behind : Bytes) :
    writeAction order action ++ behind =
      actionTypeToString action.type ++ lf :: (encodingLine ++ lf ::
        (dataStartTag ++ lf ::
          (Base64.toBase64 action.data ++ dataEndTag ++ (ascii "\n" ++ behind)))) := by
  have newline : ascii "\n" = [lf] := rfl
  rw [writeAction_eq, if_pos (isBinary_iff.mpr binary), base64Text, newline]
  simp only [List.append_assoc, List.cons_append, List.nil_append]

theorem readAction_binary (order : Properties.EntryOrder) {action : Action}
    (binary : BinaryTail action.data) (behind : Bytes) :
    readAction (.of (writeAction order action ++ behind)) =
      .ok (some (createAction action.type action.data), .of (ascii "\n" ++ behind)) := by
  have nonempty : action.data ≠ [] := by
    intro empty
    have long := binary.1
    rw [empty, List.length_nil] at long
    omega
  have block : readActionData
      (.of (Base64.toBase64 action.data ++ dataEndTag ++ (ascii "\n" ++ behind))) =
        .ok (Base64.toBase64 action.data, .of (ascii "\n" ++ behind)) :=
    (readActionData_framable (toBase64_framable nonempty)
      (not_endTag_infix_of_bracket (brackets_not_mem_toBase64 _).1))
  have decoded : decodeData ((∅ : Properties).put encodingProp base64Encoding)
      (Base64.toBase64 action.data) = .ok action.data := by
    have found : ((∅ : Properties).put encodingProp base64Encoding).lookup encodingProp =
        some base64Encoding := AList.lookup_insert _
    rw [decodeData, if_pos found, Base64.fromBase64_toBase64]
  rw [writeAction_binary order binary, readAction, readType_actionType]
  simp only [bind, Except.bind, readProperties_encoding, readProperties_startTag, block,
    Except.map, decoded]
  rfl

/-- An action written in base64 is read back in the first round, which leaves the stream
right behind the end tag of its block. It is pushed first, whatever comes behind, and
reading goes on there. -/
theorem readActions_writeAction (order : Properties.EntryOrder) (action : Action)
    (behind : Bytes) (binary : isBinary action.data = true) :
    ∃ pushed : Action, pushed.type = action.type ∧ pushed.data = action.data ∧
      readAction (.of (writeAction order action ++ behind)) =
        .ok (some pushed, .of (ascii "\n" ++ behind)) ∧
      pushedActions (.of (writeAction order action ++ behind)) =
        pushed :: pushedActions (.of (ascii "\n" ++ behind)) ∧
      readActions (.of (writeAction order action ++ behind)) =
        (readActions (.of (ascii "\n" ++ behind))).map fun actions => pushed :: actions := by
  have round := readAction_binary order (isBinary_iff.mp binary) behind
  refine ⟨createAction action.type action.data, rfl, rfl, round, ?_, ?_⟩
  · rw [pushedActions, round]
    rfl
  · rw [readActions, round]
    rfl

/-- Fifty zeros in front of another action. -/
theorem readActions_writeAction_zeros :
    ∃ pushed : Action, pushed.type = .recv ∧ pushed.data = List.replicate 50 0 ∧
      readAction (.of (writeAction .stored ⟨.recv, List.replicate 50 0, []⟩ ++
          ascii "\nCLOSE\n")) = .ok (some pushed, .of (ascii "\n" ++ ascii "\nCLOSE\n")) ∧
      pushedActions (.of (writeAction .stored ⟨.recv, List.replicate 50 0, []⟩ ++
          ascii "\nCLOSE\n")) = pushed :: pushedActions (.of (ascii "\n" ++ ascii "\nCLOSE\n")) ∧
      readActions (.of (writeAction .stored ⟨.recv, List.replicate 50 0, []⟩ ++
          ascii "\nCLOSE\n")) =
        (readActions (.of (ascii "\n" ++ ascii "\nCLOSE\n"))).map fun actions =>
          pushed :: actions :=
  readActions_writeAction .stored ⟨.recv, List.replicate 50 0, []⟩ _ (by decide)

end ConversationSerializer

end PacketReplay
