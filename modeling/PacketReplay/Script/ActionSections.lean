import PacketReplay.Script.WrittenActions

/-!
# Action sections

A hand-written action section is a list of entries: the line of a keyword, lines of
properties and possibly a data block, with blank lines and comments anywhere outside of
data. `pushed` says what `read_actions` makes of one: the second loop goes on to the next
data block or to the end, so an entry without a block takes in those behind it.
`oneEach_iff` is what remains of one action for each entry.
-/

namespace PacketReplay

open Lib

namespace ConversationSerializer

/-! ## The text of a section -/

/-- A line that says nothing. -/
def Filler (line : Bytes) : Prop := lf ∉ line ∧ (trim line = [] ∨ isComment line = true)

/-- A line with a property. -/
def PropertyLine (line : Bytes) : Prop := lf ∉ line ∧ isComment line = false ∧ 58 ∈ line

instance (line : Bytes) : Decidable (Filler line) := inferInstanceAs (Decidable (_ ∧ _))

instance (line : Bytes) : Decidable (PropertyLine line) := inferInstanceAs (Decidable (_ ∧ _))

/-- A block whose data is read back. -/
structure DataBlock : Type where
  start : Bytes
  data : Bytes
  noFeed : lf ∉ start
  startTag : trim start = dataStartTag
  readsBack : ∀ behind, readActionData (.of (data ++ dataEndTag ++ behind)) =
    .ok (data, .of behind)

structure Entry : Type where
  type : ActionType
  before : List Bytes
  keyword : Bytes
  body : List Bytes
  block : Option DataBlock
  fillers : ∀ line ∈ before, Filler line
  noFeed : lf ∉ keyword
  named : trim keyword = actionTypeToString type
  properties : ∀ line ∈ body, Filler line ∨ PropertyLine line

structure ActionSection : Type where
  entries : List Entry
  trailing : List Bytes
  fillers : ∀ line ∈ trailing, Filler line

/-- What a line feed stands between. -/
inductive Piece : Type
  | line (text : Bytes)
  | block (b : DataBlock)

def Piece.text : Piece → Bytes
  | .line text => text
  | .block b => b.start ++ lf :: (b.data ++ dataEndTag)

def joined (pieces : List Piece) : Bytes := [lf].intercalate (pieces.map Piece.text)

def Entry.pieces (e : Entry) : List Piece :=
  e.before.map .line ++ .line e.keyword :: (e.body.map .line ++ e.block.toList.map .block)

def piecesOf (entries : List Entry) (trailing : List Bytes) : List Piece :=
  entries.flatMap Entry.pieces ++ trailing.map .line

def ActionSection.text (s : ActionSection) : Bytes := joined (piecesOf s.entries s.trailing)

/-! ## What an entry says -/

/-- A line put into the properties, if it says something. -/
def putOne (prop : Properties) (line : Bytes) : Properties :=
  if Filler line then prop else prop.putLine (trim line)

namespace Entry

/-- The properties of an entry. -/
def props (e : Entry) : Properties := e.body.foldl putOne ∅

def data (e : Entry) : Bytes := (e.block.map DataBlock.data).getD []

/-- The action is the one of the entry. -/
def Own (e : Entry) (a : Action) : Prop :=
  a.type = e.type ∧ decodeData e.props e.data = .ok a.data

end Entry

/-- One action is pushed for each entry, with its own data. -/
def OneEach (s : ActionSection) : Prop :=
  ∃ actions, readActions (.of s.text) = .ok actions ∧ List.Forall₂ Entry.Own s.entries actions

/-! ## What is pushed -/

/-- What an action is made of: its type, and the properties and the data as they are
read. -/
structure Pushed : Type where
  type : ActionType
  prop : Properties
  data : Bytes

def Pushed.Creates (p : Pushed) (a : Action) : Prop :=
  ∃ data, decodeData p.prop p.data = .ok data ∧ a = createAction p.type data

/-- The actions of the entries, behind a type and properties that are still looking for
their block. -/
def pushed : Option (ActionType × Properties) → List Entry → List Pushed
  | none, [] => []
  | some current, [] => [⟨current.1, current.2, []⟩]
  | none, e :: es =>
      match e.block with
      | some b => ⟨e.type, e.props, b.data⟩ :: pushed none es
      | none => pushed (some (e.type, e.props)) es
  | some current, e :: es =>
      let prop := (e.before ++ e.keyword :: e.body).foldl putOne current.2
      match e.block with
      | some b => ⟨current.1, prop, b.data⟩ :: pushed none es
      | none => pushed (some (current.1, prop)) es

/-! ## Streams of pieces -/

/-- The stream has delivered everything and has noticed it. -/
def Ended (input : IStream) : Prop := input.rest = [] ∧ input.eof = true

/-- The stream has the pieces to deliver. -/
def Stands (input : IStream) (pieces : List Piece) : Prop :=
  input = .of (joined pieces) ∨ pieces = [] ∧ Ended input

theorem joined_cons (piece : Piece) (pieces : List Piece) :
    joined (piece :: pieces) = piece.text ++ joined (.line [] :: pieces) := by
  cases pieces with
  | nil => simp [joined, Piece.text]
  | cons next pieces => simp [joined, Piece.text]

theorem joined_line (line : Bytes) {pieces : List Piece} (more : pieces ≠ []) :
    joined (.line line :: pieces) = line ++ lf :: joined pieces := by
  obtain ⟨next, rest, rfl⟩ := List.exists_cons_of_ne_nil more
  simp [joined, Piece.text]

theorem joined_singleton (line : Bytes) : joined [.line line] = line := by
  simp [joined, Piece.text]

section Streams

variable {input : IStream} {pieces : List Piece} {line : Bytes}

/-- Where nothing is left there is no line. -/
theorem getline_end (stands : Stands input []) :
    ∃ after, getline input = (none, after) ∧ Ended after ∧ after.fail = true := by
  have missed : ∃ after, input.getline lf = (none, after) ∧ Ended after ∧ after.fail = true := by
    rcases stands with rfl | ⟨-, ended⟩
    · exact ⟨⟨[], true, true⟩, rfl, ⟨rfl, rfl⟩, rfl⟩
    · rcases input with ⟨rest, eof, fail⟩
      cases ended.1
      cases ended.2
      exact ⟨⟨[], true, true⟩, rfl, ⟨rfl, rfl⟩, rfl⟩
  rcases missed with ⟨after, read, ended⟩
  refine ⟨after, ?_, ended⟩
  rw [getline, read]

/-- A line is delivered, unless it is the end of the text behind the last line feed. -/
theorem getline_line (stands : Stands input (.line line :: pieces)) (clean : lf ∉ line) :
    (∃ after, input.getline lf = (some line, after) ∧ Stands after pieces) ∨
      line = [] ∧ pieces = [] ∧ Stands input [] := by
  rcases stands with rfl | ⟨nil, -⟩
  · cases pieces with
    | nil =>
        rw [joined_singleton]
        by_cases empty : line = []
        · subst empty
          exact Or.inr ⟨rfl, rfl, Or.inl rfl⟩
        · refine Or.inl ⟨⟨[], true, false⟩, ?_, Or.inr ⟨rfl, rfl, rfl⟩⟩
          have inside : ∀ c ∈ line, decide (c ≠ lf) = true := by
            intro c mem
            exact decide_eq_true fun same => clean (same ▸ mem)
          rw [IStream.getline, IStream.of_rest, if_pos (IStream.of_good _), if_neg empty,
            List.takeWhile_eq_self_iff.mpr inside, List.dropWhile_eq_nil_iff.mpr inside]
          rfl
    | cons next pieces =>
        rw [joined_line line (List.cons_ne_nil _ _)]
        exact Or.inl ⟨_, IStream.getline_good clean _, Or.inl rfl⟩
  · cases nil

/-- A comment is passed over, and a blank line is delivered for nothing. -/
theorem getline_filler (stands : Stands input (.line line :: pieces)) (filler : Filler line) :
    ∃ after, Stands after pieces ∧
      (getline input = getline after ∨
        ∃ blank, trim blank = [] ∧ getline input = (some blank, after)) := by
  rcases getline_line stands filler.1 with ⟨after, read, behind⟩ | ⟨rfl, rfl, ended⟩
  · refine ⟨after, behind, ?_⟩
    by_cases comment : isComment line = true
    · refine Or.inl ?_
      conv_lhs => rw [getline, read]
      simp only [comment, if_true]
    · refine Or.inr ⟨line, filler.2.resolve_right comment, ?_⟩
      rw [getline, read]
      simp only [if_neg comment]
  · exact ⟨input, ended, Or.inl rfl⟩

/-- A line that is neither is delivered. -/
theorem getline_text (stands : Stands input (.line line :: pieces)) (clean : lf ∉ line)
    (visible : trim line ≠ []) (noComment : isComment line = false) :
    ∃ after, getline input = (some line, after) ∧ Stands after pieces := by
  rcases getline_line stands clean with ⟨after, read, behind⟩ | ⟨rfl, -, -⟩
  · refine ⟨after, ?_, behind⟩
    rw [getline, read]
    simp only [noComment, Bool.false_eq_true, if_false]
  · exact absurd rfl visible

/-! ## The two loops -/

theorem readType_filler (stands : Stands input (.line line :: pieces)) (filler : Filler line) :
    ∃ after, Stands after pieces ∧ readType input = readType after := by
  rcases getline_filler stands filler with ⟨after, behind, same | ⟨blank, empty, read⟩⟩
  · refine ⟨after, behind, ?_⟩
    rw [readType, same]
    conv_rhs => rw [readType]
  · refine ⟨after, behind, ?_⟩
    rw [readType, read]
    simp only [empty, if_true]

theorem readType_fillers {lines : List Bytes}
    (stands : Stands input (lines.map .line ++ pieces)) (fillers : ∀ line ∈ lines, Filler line) :
    ∃ after, Stands after pieces ∧ readType input = readType after := by
  induction lines generalizing input with
  | nil => exact ⟨input, stands, rfl⟩
  | cons line lines ih =>
      obtain ⟨after, behind, same⟩ := readType_filler stands (fillers line List.mem_cons_self)
      obtain ⟨last, left, next⟩ :=
        ih behind fun other mem => fillers other (List.mem_cons_of_mem _ mem)
      exact ⟨last, left, same.trans next⟩

theorem readType_end (stands : Stands input []) :
    ∃ after, readType input = .ok (none, after) ∧ Ended after := by
  obtain ⟨after, read, ended, -⟩ := getline_end stands
  refine ⟨after, ?_, ended⟩
  rw [readType, read]

/-- The first character of a text without the white space around it. -/
theorem head?_trim {s : Bytes} (visible : trim s ≠ []) :
    (s.dropWhile isspace).head? = (trim s).head? := by
  obtain ⟨blanks, whole⟩ := List.rdropWhile_prefix (l := trimLeft s) isspace
  rw [show s.dropWhile isspace = trimLeft s from rfl, ← whole]
  exact List.head?_append_of_ne_nil _ visible

theorem isComment_of_trim {text : Bytes} (same : trim line = text) (visible : text ≠ [])
    (noHash : text.head? ≠ some 35) : isComment line = false := by
  subst same
  rw [isComment, head?_trim visible]
  exact decide_eq_false noHash

theorem readType_keyword {type : ActionType} (stands : Stands input (.line line :: pieces))
    (clean : lf ∉ line) (named : trim line = actionTypeToString type) :
    ∃ after, readType input = .ok (some type, after) ∧ Stands after pieces := by
  have nonempty : actionTypeToString type ≠ [] := by cases type <;> decide
  have noHash : (actionTypeToString type).head? ≠ some 35 := by cases type <;> decide
  have known : stringToActionType (actionTypeToString type) = .ok type := by
    cases type <;> decide
  rcases getline_text stands clean (named ▸ nonempty) (isComment_of_trim named nonempty noHash)
    with ⟨after, read, behind⟩
  refine ⟨after, ?_, behind⟩
  rw [readType, read]
  simp only [named, if_neg nonempty, known]
  rfl

/-- A line that is no start tag. -/
def Ordinary (line : Bytes) : Prop :=
  Filler line ∨ lf ∉ line ∧ isComment line = false ∧ trim line ≠ [] ∧ trim line ≠ dataStartTag

theorem readProperties_line (stands : Stands input (.line line :: pieces))
    (ordinary : Ordinary line) (prop : Properties) :
    ∃ after, Stands after pieces ∧
      readProperties input prop = readProperties after (putOne prop line) := by
  rcases ordinary with filler | ⟨clean, noComment, visible, noTag⟩
  · rw [putOne, if_pos filler]
    rcases getline_filler stands filler with ⟨after, behind, same | ⟨blank, empty, read⟩⟩
    · refine ⟨after, behind, ?_⟩
      rw [readProperties, same]
      conv_rhs => rw [readProperties]
    · refine ⟨after, behind, ?_⟩
      rw [readProperties, read]
      simp only [empty, if_true]
  · have text : ¬ Filler line := by
      intro filler
      rcases filler.2 with blank | comment
      · exact visible blank
      · rw [noComment] at comment
        cases comment
    obtain ⟨after, read, behind⟩ := getline_text stands clean visible noComment
    refine ⟨after, behind, ?_⟩
    rw [readProperties, read, putOne, if_neg text]
    simp only [if_neg visible, if_neg noTag]

theorem readProperties_lines {lines : List Bytes}
    (stands : Stands input (lines.map .line ++ pieces))
    (ordinary : ∀ line ∈ lines, Ordinary line) (prop : Properties) :
    ∃ after, Stands after pieces ∧
      readProperties input prop = readProperties after (lines.foldl putOne prop) := by
  induction lines generalizing input prop with
  | nil => exact ⟨input, stands, rfl⟩
  | cons line lines ih =>
      obtain ⟨after, behind, same⟩ :=
        readProperties_line stands (ordinary line List.mem_cons_self) prop
      rcases ih behind (fun other mem => ordinary other (List.mem_cons_of_mem _ mem))
        (putOne prop line) with ⟨last, left, next⟩
      exact ⟨last, left, same.trans next⟩

theorem readProperties_end (stands : Stands input []) (prop : Properties) :
    ∃ after, readProperties input prop = .ok (prop, [], after) ∧ Ended after := by
  obtain ⟨after, read, ended, -⟩ := getline_end stands
  refine ⟨after, ?_, ended⟩
  rw [readProperties, read]

/-- Behind a block the stream stands in front of the rest of the line of its end tag. -/
theorem readProperties_block {b : DataBlock} (stands : Stands input (.block b :: pieces))
    (prop : Properties) :
    ∃ after, readProperties input prop = .ok (prop, b.data, after) ∧
      Stands after (.line [] :: pieces) := by
  have text : joined (.block b :: pieces) =
      b.start ++ lf :: (b.data ++ dataEndTag ++ joined (.line [] :: pieces)) := by
    rw [joined_cons]
    simp [Piece.text]
  have noComment := isComment_of_trim b.startTag (by decide) (by decide)
  rcases stands with rfl | ⟨nil, -⟩
  · refine ⟨.of (joined (.line [] :: pieces)), ?_, Or.inl rfl⟩
    rw [readProperties, text, getline_good b.noFeed noComment]
    simp only [b.startTag, if_true, if_neg (by decide : dataStartTag ≠ []),
      b.readsBack]
    rfl
  · cases nil

end Streams

/-! ## The run over a section -/

/-- The stream stands in front of the entries. -/
def AtSection (input : IStream) (entries : List Entry) (trailing : List Bytes) : Prop :=
  (∃ fillers : List Bytes, (∀ line ∈ fillers, Filler line) ∧
    Stands input (fillers.map .line ++ piecesOf entries trailing)) ∨
  entries = [] ∧ Ended input

section Sections

variable {input : IStream} {e : Entry} {entries : List Entry} {trailing : List Bytes}

theorem Entry.ordinary_body (e : Entry) : ∀ line ∈ e.body, Ordinary line := by
  intro line mem
  rcases e.properties line mem with filler | ⟨clean, noComment, colon⟩
  · exact Or.inl filler
  · have colon_mem : (58 : UInt8) ∈ trim line := by
      obtain ⟨-, left, right, whole, blankLeft, blankRight⟩ := trimmed_trim line
      rw [whole, List.mem_append, List.mem_append] at colon
      rcases colon with early | inside | late
      · exact absurd (blankLeft 58 early) (by decide)
      · exact inside
      · exact absurd (blankRight 58 late) (by decide)
    refine Or.inr ⟨clean, noComment, List.ne_nil_of_mem colon_mem, ?_⟩
    intro tag
    rw [tag] at colon_mem
    revert colon_mem
    decide

theorem Entry.ordinary_keyword (e : Entry) : Ordinary e.keyword := by
  have nonempty : actionTypeToString e.type ≠ [] := by cases e.type <;> decide
  have noHash : (actionTypeToString e.type).head? ≠ some 35 := by cases e.type <;> decide
  have noTag : actionTypeToString e.type ≠ dataStartTag := by cases e.type <;> decide
  refine Or.inr ⟨e.noFeed, isComment_of_trim e.named nonempty noHash, ?_, ?_⟩
  · rwa [e.named]
  · rwa [e.named]

/-- The lines of an entry, read as properties. -/
theorem Entry.ordinary_lines (e : Entry) :
    ∀ line ∈ e.before ++ e.keyword :: e.body, Ordinary line := by
  intro line mem
  rcases List.mem_append.mp mem with before | rest
  · exact Or.inl (e.fillers line before)
  · rcases List.mem_cons.mp rest with rfl | body
    · exact e.ordinary_keyword
    · exact e.ordinary_body line body

theorem piecesOf_cons (e : Entry) (entries : List Entry) (trailing : List Bytes) :
    piecesOf (e :: entries) trailing =
      (e.before ++ e.keyword :: e.body).map .line ++
        (e.block.toList.map .block ++ piecesOf entries trailing) := by
  simp [piecesOf, Entry.pieces]

theorem atSection_behind_block {after : IStream}
    (stands : Stands after (.line [] :: piecesOf entries trailing)) :
    AtSection after entries trailing :=
  Or.inl ⟨[[]], by decide, stands⟩

theorem foldl_putOne_fillers {lines : List Bytes} (fillers : ∀ line ∈ lines, Filler line)
    (prop : Properties) : lines.foldl putOne prop = prop := by
  induction lines generalizing prop with
  | nil => rfl
  | cons line lines ih =>
      rw [List.foldl_cons, putOne, if_pos (fillers line List.mem_cons_self)]
      exact ih (fun other mem => fillers other (List.mem_cons_of_mem _ mem)) prop

/-- The second loop takes the entries in up to the next block, or up to the end. -/
theorem readProperties_absorb (fillers : ∀ line ∈ trailing, Filler line) (type : ActionType)
    (prop : Properties) (stands : Stands input (piecesOf entries trailing)) :
    ∃ found data rest after, readProperties input prop = .ok (found, data, after) ∧
      pushed (some (type, prop)) entries = ⟨type, found, data⟩ :: pushed none rest ∧
      rest.length ≤ entries.length ∧ AtSection after rest trailing := by
  induction entries generalizing input prop with
  | nil =>
      have only : piecesOf [] trailing = trailing.map .line ++ [] := by simp [piecesOf]
      rw [only] at stands
      obtain ⟨after, behind, same⟩ :=
        readProperties_lines stands (fun line mem => Or.inl (fillers line mem)) prop
      obtain ⟨last, read, ended⟩ := readProperties_end behind prop
      rw [foldl_putOne_fillers fillers] at same
      exact ⟨prop, [], [], last, same.trans read, rfl, le_rfl, Or.inr ⟨rfl, ended⟩⟩
  | cons e entries ih =>
      rw [piecesOf_cons] at stands
      obtain ⟨after, behind, same⟩ := readProperties_lines stands e.ordinary_lines prop
      rw [pushed]
      cases block : e.block with
      | none =>
          rw [block] at behind
          obtain ⟨found, data, rest, last, read, taken, shorter, left⟩ :=
            ih ((e.before ++ e.keyword :: e.body).foldl putOne prop) behind
          exact ⟨found, data, rest, last, same.trans read, taken, Nat.le_succ_of_le shorter, left⟩
      | some b =>
          rw [block] at behind
          rcases readProperties_block behind ((e.before ++ e.keyword :: e.body).foldl putOne prop)
            with ⟨last, read, left⟩
          exact ⟨_, b.data, entries, last, same.trans read, rfl, Nat.le_succ _,
            atSection_behind_block left⟩

/-- One round of `read_actions`. -/
theorem readAction_section (fillers : ∀ line ∈ trailing, Filler line)
    (stands : AtSection input (e :: entries) trailing) :
    input.good = true ∧ ∃ found data rest after,
      readAction input =
        (decodeData found data).map (fun d => (some (createAction e.type d), after)) ∧
      pushed none (e :: entries) = ⟨e.type, found, data⟩ :: pushed none rest ∧
      rest.length ≤ entries.length ∧ AtSection after rest trailing := by
  rcases stands with ⟨front, blank, stands⟩ | ⟨nil, -⟩
  · have good : input.good = true := by
      rcases stands with rfl | ⟨nothing, -⟩
      · rfl
      · simp [piecesOf_cons] at nothing
    refine ⟨good, ?_⟩
    have split : front.map Piece.line ++ piecesOf (e :: entries) trailing =
        (front ++ e.before).map .line ++ .line e.keyword ::
          (e.body.map .line ++ (e.block.toList.map .block ++ piecesOf entries trailing)) := by
      simp [piecesOf_cons]
    rw [split] at stands
    have passed : ∀ line ∈ front ++ e.before, Filler line := by
      intro line mem
      rcases List.mem_append.mp mem with early | late
      · exact blank line early
      · exact e.fillers line late
    obtain ⟨atKeyword, behind, same⟩ := readType_fillers stands passed
    obtain ⟨atBody, found, behind⟩ := readType_keyword behind e.noFeed e.named
    obtain ⟨atBlock, behind, lines⟩ := readProperties_lines behind e.ordinary_body ∅
    have type : readType input = .ok (some e.type, atBody) := same.trans found
    -- what follows the lines of the entry, as its properties and data are read
    have read : ∀ {found data after},
        readProperties atBlock (e.body.foldl putOne ∅) = .ok (found, data, after) →
          readAction input =
            (decodeData found data).map (fun d => (some (createAction e.type d), after)) := by
      intro found data after read
      rw [readAction, type, ok_bind, lines, read]
      rfl
    rw [pushed]
    cases block : e.block with
    | none =>
        rw [block] at behind
        obtain ⟨found, data, rest, last, props, taken, shorter, left⟩ :=
          readProperties_absorb fillers e.type _ behind
        exact ⟨found, data, rest, last, read props, taken, shorter, left⟩
    | some b =>
        rw [block] at behind
        obtain ⟨last, props, left⟩ := readProperties_block behind (e.body.foldl putOne ∅)
        exact ⟨_, b.data, entries, last, read props, rfl, le_rfl, atSection_behind_block left⟩
  · cases nil

/-- Behind the last entry nothing is pushed. -/
theorem readActions_end (fillers : ∀ line ∈ trailing, Filler line)
    (stands : AtSection input [] trailing) : readActions input = .ok [] := by
  have ended_ok : ∀ {input}, Ended input → readActions input = .ok [] := by
    intro input ended
    rw [readActions, if_pos ended.2]
  rcases stands with ⟨front, blank, stands⟩ | ⟨-, ended⟩
  · have split : front.map Piece.line ++ piecesOf [] trailing =
        (front ++ trailing).map .line ++ [] := by
      simp [piecesOf]
    rw [split] at stands
    by_cases ended : Ended input
    · exact ended_ok ended
    · have start : input = .of (joined ((front ++ trailing).map .line ++ [])) :=
        stands.resolve_right fun both => ended both.2
      have passed : ∀ line ∈ front ++ trailing, Filler line := by
        intro line mem
        rcases List.mem_append.mp mem with early | late
        · exact blank line early
        · exact fillers line late
      obtain ⟨after, behind, same⟩ := readType_fillers stands passed
      obtain ⟨last, none_left, atEnd⟩ := readType_end behind
      obtain ⟨final, props, done⟩ := readProperties_end (Or.inr ⟨rfl, atEnd⟩) ∅
      have read : readAction input = .ok (none, final) := by
        rw [readAction, same.trans none_left, ok_bind, props]
        rfl
      have open_ : ¬ input.eof = true ∧ ¬ input.fail = true := by
        rw [start]
        simp
      rw [readActions, if_neg open_.1, if_neg open_.2, read]
      simp only [ended_ok done]
      rfl
  · exact ended_ok ended

/-- What `read_actions` pushes. -/
theorem readActions_eq_ok_iff (fillers : ∀ line ∈ trailing, Filler line)
    (stands : AtSection input entries trailing) (actions : List Action) :
    readActions input = .ok actions ↔
      List.Forall₂ Pushed.Creates (pushed none entries) actions := by
  induction size : entries.length using Nat.strongRecOn generalizing input entries actions with
  | ind bound ih =>
      cases entries with
      | nil =>
          rw [readActions_end fillers stands, Except.ok.injEq, pushed, List.forall₂_nil_left_iff]
          exact eq_comm
      | cons e entries =>
          obtain ⟨good, found, data, rest, after, read, taken, shorter, left⟩ :=
            readAction_section fillers stands
          have later := fun actions => ih rest.length
            (by rw [← size, List.length_cons]; omega) left actions rfl
          have open_ : ¬ input.eof = true ∧ ¬ input.fail = true := by
            simpa [IStream.good] using good
          rw [taken, readActions, if_neg open_.1, if_neg open_.2, read]
          cases decoded : decodeData found data with
          | error f =>
              refine iff_of_false (fun run => by cases run) ?_
              intro created
              obtain ⟨a, as, ⟨d, same, -⟩, -, -⟩ := List.forall₂_cons_left_iff.mp created
              rw [decoded] at same
              cases same
          | ok d =>
              simp only [Except.map]
              rw [List.forall₂_cons_left_iff]
              constructor
              · intro run
                obtain ⟨as, rest_run, rfl⟩ := map_eq_ok.mp run
                exact ⟨_, as, ⟨d, decoded, rfl⟩, (later as).mp rest_run, rfl⟩
              · intro created
                rcases created with ⟨a, as, ⟨d', same, rfl⟩, rest_created, rfl⟩
                rw [decoded, Except.ok.injEq] at same
                subst same
                exact map_eq_ok.mpr ⟨as, (later as).mpr rest_created, rfl⟩

theorem atSection_text (s : ActionSection) : AtSection (.of s.text) s.entries s.trailing :=
  Or.inl ⟨[], fun _ mem => absurd mem List.not_mem_nil, Or.inl rfl⟩

end Sections

/-! ## One action for each entry -/

/-- There is an action for each block that an entry behind it does not take in, and one
more. -/
theorem length_pushed (current : Option (ActionType × Properties)) {entries : List Entry}
    (some_entry : entries ≠ []) :
    (pushed current entries).length =
      entries.dropLast.countP (fun e => e.block.isSome) + 1 := by
  induction entries generalizing current with
  | nil => exact absurd rfl some_entry
  | cons e entries ih =>
      have step : (pushed current (e :: entries)).length =
          (if e.block.isSome then 1 else 0) +
            (pushed (if e.block.isSome then none else some (e.type, e.props)) entries).length := by
        have same_length : ∀ a b : ActionType × Properties,
            (pushed (some a) entries).length = (pushed (some b) entries).length := by
          intro a b
          cases entries with
          | nil => rfl
          | cons next entries => rw [ih _ (List.cons_ne_nil _ _), ih _ (List.cons_ne_nil _ _)]
        cases current with
        | none =>
            rw [pushed]
            cases e.block with
            | none => simp
            | some b => simp [Nat.add_comm]
        | some current =>
            rw [pushed]
            cases e.block with
            | none =>
                rw [same_length _ (e.type, e.props)]
                simp
            | some b => simp [Nat.add_comm]
      rw [step]
      cases entries with
      | nil => cases e.block <;> rfl
      | cons next entries =>
          rw [ih _ (List.cons_ne_nil _ _), List.dropLast_cons_of_ne_nil (List.cons_ne_nil _ _),
            List.countP_cons]
          omega

/-- Where each entry but the last has a block, the entries are what is pushed. -/
theorem pushed_of_blocks {entries : List Entry}
    (blocks : ∀ e ∈ entries.dropLast, e.block.isSome) :
    pushed none entries = entries.map fun e => ⟨e.type, e.props, e.data⟩ := by
  induction entries with
  | nil => rfl
  | cons e entries ih =>
      rw [pushed, List.map_cons]
      cases entries with
      | nil =>
          rw [Entry.data]
          cases e.block <;> rfl
      | cons next entries =>
          rw [List.dropLast_cons_of_ne_nil (List.cons_ne_nil _ _)] at blocks
          have rest := ih fun other mem => blocks other (List.mem_cons_of_mem _ mem)
          have present := blocks e List.mem_cons_self
          rw [Entry.data]
          cases block : e.block with
          | none =>
              rw [block] at present
              cases present
          | some b =>
              simp only [rest]
              rfl

theorem exists_forall₂ {α β : Type} {R : α → β → Prop} {xs : List α}
    (some_each : ∀ x ∈ xs, ∃ y, R x y) : ∃ ys, List.Forall₂ R xs ys := by
  induction xs with
  | nil => exact ⟨[], .nil⟩
  | cons x xs ih =>
      obtain ⟨y, first⟩ := some_each x List.mem_cons_self
      obtain ⟨ys, rest⟩ := ih fun other mem => some_each other (List.mem_cons_of_mem _ mem)
      exact ⟨y :: ys, .cons first rest⟩

/-- No action is swallowed exactly when each entry but the last has a data block, and the
data of each is what its own properties say. -/
theorem oneEach_iff (s : ActionSection) :
    OneEach s ↔ (∀ e ∈ s.entries.dropLast, e.block.isSome) ∧
      ∀ e ∈ s.entries, ∃ data, decodeData e.props e.data = .ok data := by
  have run := readActions_eq_ok_iff s.fillers (atSection_text s)
  constructor
  · intro each
    rcases each with ⟨actions, read, own⟩
    have created := (run actions).mp read
    refine ⟨?_, ?_⟩
    · by_cases empty : s.entries = []
      · simp [empty]
      · have lengths := created.length_eq.trans own.length_eq.symm
        have pos := List.length_pos_iff.mpr empty
        rw [length_pushed none empty] at lengths
        refine List.countP_eq_length.mp ?_
        rw [List.length_dropLast]
        omega
    · intro e mem
      obtain ⟨length, each⟩ := List.forall₂_iff_get.mp own
      obtain ⟨i, rfl⟩ := List.mem_iff_get.mp mem
      exact ⟨_, (each i.1 i.2 (length ▸ i.2)).2⟩
  · intro given
    rcases given with ⟨blocks, decoded⟩
    have created_each : ∀ e ∈ s.entries, ∃ a, Pushed.Creates ⟨e.type, e.props, e.data⟩ a := by
      intro e mem
      obtain ⟨data, same⟩ := decoded e mem
      exact ⟨_, data, same, rfl⟩
    obtain ⟨actions, created⟩ := exists_forall₂ created_each
    refine ⟨actions, (run actions).mpr ?_, ?_⟩
    · rw [pushed_of_blocks blocks, List.forall₂_map_left_iff]
      exact created
    · refine created.imp ?_
      intro e a creates
      rcases creates with ⟨data, same, rfl⟩
      exact ⟨rfl, same⟩

/-- A block that says hello. -/
def helloBlock : DataBlock where
  start := dataStartTag
  data := ascii "hello"
  noFeed := by decide
  startTag := by decide
  readsBack _ := readActionData_framable ⟨by decide, by decide, by decide⟩ (by decide)

/-- `CONNECT` without a block in front of `SEND` with one. -/
def connectAndSend : ActionSection where
  entries :=
    [⟨.connect, [], ascii "CONNECT", [], none, by decide, by decide, by decide, by decide⟩,
      ⟨.send, [[]], ascii "SEND", [], some helloBlock, by decide, by decide, by decide,
        by decide⟩]
  trailing := []
  fillers := by decide

/-- The `SEND` is swallowed. -/
theorem not_oneEach_connectAndSend : ¬ ∀ s : ActionSection, OneEach s := by
  intro each
  obtain ⟨actions, read, own⟩ := each connectAndSend
  have created := (readActions_eq_ok_iff connectAndSend.fillers (atSection_text connectAndSend)
    actions).mp read
  have lengths := created.length_eq.trans own.length_eq.symm
  have some_entry : connectAndSend.entries ≠ [] := List.cons_ne_nil _ _
  rw [length_pushed none some_entry] at lengths
  cases lengths

end ConversationSerializer

end PacketReplay
