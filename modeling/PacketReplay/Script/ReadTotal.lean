import Mathlib.Logic.Relation
import PacketReplay.Capture.Address
import PacketReplay.Script.RoundTrip
import PacketReplay.Script.TruncatedBlock

/-!
# Reading any script

`read` on a stream of any contents and in any state. The loop of `read_action_data` is
defined from the moment twelve characters are held, `defined_readLoop`, and an iteration
that is defined stays in its buffer, `inBuffer_of_defined`; so a block goes wrong only
where it begins. `Reads` are the blocks that `read` comes to, and `readsTotally_iff` says
for which scripts it returns or throws.
-/

namespace PacketReplay

open Lib

namespace TagReader

/-! ## The buffer -/

/-- What `checkTag` touches: the two characters that it puts behind the twelve, the
string that it compares and the character that it pushes. -/
def tagAccesses : List (Int × Int) := [(12, 14), (1, 14), (0, 1)]

/-- The ranges of `buf` that an iteration reads or writes, from their first position to
the one behind their last. -/
def accesses (r : TagReader) : List (Int × Int) :=
  let peeked := r.input.peek
  if peeked.1 = some tagDelim then tagAccesses
  else
    let size := bufSiz - r.held.length
    let read := (peeked.2.getUpTo size tagDelim).1
    let readPtr : Int := r.held.length
    -- `get` puts a NUL behind what it reads
    (readPtr, readPtr + read.length + 1) ::
      if read = [] then []
      else
        let keep : Int := readPtr + read.length - dataEndTag.length
        (0, keep) :: (keep, keep + dataEndTag.length) :: (0, dataEndTag.length) ::
          if read.length ≠ size - 1 then tagAccesses else []

/-- Each range lies in `buf[BUFSIZ + 1]`, and none ends before it begins. -/
def InBuffer (r : TagReader) : Prop :=
  ∀ range ∈ r.accesses, 0 ≤ range.1 ∧ range.1 ≤ range.2 ∧ range.2 ≤ bufSiz + 1

/-- The stream that an iteration leaves. -/
def behind : Verdict TagReader (Bytes × IStream) → IStream
  | .more s => s.input
  | .halt result => result.2

/-- The loop gets from one state to another. -/
def Continues : TagReader → TagReader → Prop :=
  Relation.ReflTransGen fun r s => readStep r = .ok (.more s)

section Loop

variable {r s : TagReader} {held data : Bytes} {input : IStream}

theorem defined_next : Defined (next held data input) := by
  rw [next]
  split <;> exact defined_ok _

theorem defined_checkTag (long : 12 ≤ held.length) : Defined (checkTag held data input) := by
  rw [checkTag, length_dataEndTag, if_neg (by omega)]
  simp only
  split
  · exact defined_ok _
  · exact defined_next

/-- With the characters of a tag in the buffer an iteration is defined. -/
theorem defined_readStep (long : 12 ≤ r.held.length) : Defined (readStep r) := by
  rw [readStep]
  simp only
  split
  · exact defined_checkTag long
  · split
    · exact defined_thrown _
    · split
      · next short =>
          rw [List.length_append, length_dataEndTag] at short
          omega
      · next enough =>
          split
          · refine defined_checkTag ?_
            rw [List.length_drop, length_dataEndTag]
            rw [length_dataEndTag] at enough
            omega
          · exact defined_next

/-- It leaves twelve or thirteen characters in it. -/
theorem length_held_more (more : readStep r = .ok (.more s)) :
    12 ≤ s.held.length ∧ s.held.length ≤ 13 := by
  have tag : ∀ {held data input}, checkTag held data input = .ok (.more s) →
      12 ≤ s.held.length ∧ s.held.length ≤ 13 := by
    intro held data input more
    rw [checkTag, length_dataEndTag] at more
    simp only at more
    split at more
    · cases more
    · split at more
      · cases more
      · rw [(next_more more).1]
        simp only [List.length_append, List.length_take, List.length_singleton]
        omega
  rw [readStep] at more
  simp only at more
  split at more
  · exact tag more
  · split at more
    · cases more
    · split at more
      · cases more
      · next enough =>
          split at more
          · exact tag more
          · rw [length_dataEndTag] at enough
            rw [(next_more more).1, List.length_drop, length_dataEndTag]
            omega

theorem defined_readLoop (long : 12 ≤ r.held.length) : Defined (readLoop r) := by
  induction left : r.input.rest.length using Nat.strongRecOn generalizing r with
  | ind bound ih =>
      have defined := defined_readStep long
      rcases step : readStep r with e | v
      · rw [step] at defined
        rw [readLoop_of_error step]
        intro u undefined
        exact defined u (congrArg _ (Except.error.inj undefined))
      · cases v with
        | more s =>
            rw [readLoop_of_more step]
            exact ih _ (left ▸ readStep_more step) (length_held_more step).1 rfl
        | halt result =>
            rw [readLoop_of_halt step]
            exact defined_ok _

/-- The first iteration decides. -/
theorem defined_readLoop_iff : Defined (readLoop r) ↔ Defined (readStep r) := by
  rcases step : readStep r with e | v
  · rw [readLoop_of_error step]
    cases e with
    | thrown e => exact iff_of_true (defined_thrown e) (defined_thrown e)
    | undefined u => exact iff_of_false (fun defined => defined u rfl) fun defined => defined u rfl
  · refine iff_of_true ?_ (defined_ok v)
    cases v with
    | more s =>
        rw [readLoop_of_more step]
        exact defined_readLoop (length_held_more step).1
    | halt result =>
        rw [readLoop_of_halt step]
        exact defined_ok _

theorem inBuffer_of_defined (room : r.held.length ≤ 13) (defined : Defined (readStep r)) :
    InBuffer r := by
  have size_eq : bufSiz = 8192 := rfl
  have tag : ∀ range ∈ tagAccesses,
      0 ≤ range.1 ∧ range.1 ≤ range.2 ∧ range.2 ≤ (bufSiz : Int) + 1 := by decide
  intro range mem
  rw [accesses] at mem
  rw [readStep] at defined
  simp only at mem defined
  split at mem
  · exact tag range mem
  · next no_delim =>
      have open_ : 0 < bufSiz - r.held.length := by omega
      have fits := IStream.length_getUpTo_lt open_ tagDelim r.input.peek.2
      rw [if_neg no_delim] at defined
      rcases List.mem_cons.mp mem with rfl | mem
      · simp only
        omega
      · split at mem
        · cases mem
        · next nonempty =>
            rw [if_neg nonempty] at defined
            have long : ¬ (r.held ++ (r.input.peek.2.getUpTo (bufSiz - r.held.length)
                tagDelim).1).length < 12 := by
              intro short
              rw [length_dataEndTag, if_pos short] at defined
              exact defined _ rfl
            rw [List.length_append] at long
            rw [length_dataEndTag] at mem
            rcases List.mem_cons.mp mem with rfl | mem
            · simp only
              omega
            · rcases List.mem_cons.mp mem with rfl | mem
              · simp only
                omega
              · rcases List.mem_cons.mp mem with rfl | mem
                · simp only
                  omega
                · split at mem
                  · exact tag range mem
                  · cases mem

/-- A run that is defined stays in the buffer. -/
theorem inBuffer_of_continues (room : r.held.length ≤ 13) (defined : Defined (readLoop r))
    (run : Continues r s) : InBuffer s := by
  rcases run.cases_tail with rfl | ⟨before, -, step⟩
  · exact inBuffer_of_defined room (defined_readLoop_iff.mp defined)
  · have kept := length_held_more step
    exact inBuffer_of_defined kept.2 (defined_readStep kept.1)

/-! ## The first iteration -/

theorem defined_readStep_start {t : Bytes} (enough : Enough t) :
    Defined (readStep { input := .of t }) := by
  have start : Waits t 0 { input := .of t } := ⟨rfl, Nat.zero_le _, Or.inl ⟨rfl, rfl⟩⟩
  have some_left : t ≠ [] := List.ne_nil_of_length_pos (Nat.zero_lt_of_lt enough.1)
  have no_delim : t.head? ≠ some tagDelim := by
    intro delim
    rw [List.head?_eq_getElem?, ← List.getElem?_take_of_lt (by decide : 0 < 12)] at delim
    exact enough.2 (List.mem_of_getElem? delim)
  obtain ⟨k, fits, in_text, clean, stop, result⟩ := IStream.getUpTo_good bufSiz tagDelim t
  obtain ⟨some_read, long⟩ := start.get_bounds enough no_delim some_left stop
  have left : ({ input := .of t } : TagReader).input = .of t := rfl
  rw [readStep_get left no_delim in_text some_read result long]
  have twelve : ∀ buf : Bytes, 12 ≤ buf.length → 12 ≤ (buf.drop (buf.length - 12)).length := by
    intro buf enough
    rw [List.length_drop]
    omega
  simp only
  split
  · refine defined_checkTag (twelve _ ?_)
    rw [List.length_append, List.length_take_of_le in_text]
    exact long
  · exact defined_next

/-- A stream that delivers nothing more is refused. -/
theorem defined_readStep_bad (bad : input.good = false) :
    Defined (readStep { input := input }) := by
  have peeked : input.peek = (none, { input with fail := true }) := by
    rw [IStream.peek, bad]
    rfl
  have still : IStream.good { input with fail := true } = false := by simp [IStream.good]
  have got : ∀ n, (IStream.getUpTo n tagDelim { input with fail := true }).1 = [] := by
    intro n
    rw [IStream.getUpTo, still]
    rfl
  rw [readStep, peeked]
  simp only [reduceCtorEq, if_false, got, if_true]
  exact defined_thrown _

end Loop

end TagReader

open TagReader

/-- A block is read or refused exactly when nothing is left where it begins, or enough
characters are. -/
theorem defined_readActionData_iff (input : IStream) :
    Defined (readActionData input) ↔
      (input.good = true → input.rest = [] ∨ Enough input.rest) := by
  rw [readActionData, defined_readLoop_iff]
  cases good : input.good with
  | false => exact iff_of_true (defined_readStep_bad good) fun given => by cases given
  | true =>
      rw [IStream.eq_of_good good, IStream.of_rest]
      constructor
      · intro defined _
        by_contra refused
        rw [not_or] at refused
        obtain ⟨u, step⟩ := readStep_start refused.1 refused.2
        exact defined u step
      · intro given
        rcases given rfl with empty | enough
        · rw [empty]
          exact defined_thrown _
        · exact defined_readStep_start enough

/-! ## Streams that have not failed -/

namespace TagReader

theorem failsAtEnd_next {held data : Bytes} {input : IStream}
    {v : Verdict TagReader (Bytes × IStream)} (ends : input.FailsAtEnd)
    (step : next held data input = .ok v) : (behind v).FailsAtEnd := by
  rw [next] at step
  split at step <;>
    · cases step
      exact ends

theorem failsAtEnd_checkTag {held data : Bytes} {input : IStream}
    {v : Verdict TagReader (Bytes × IStream)} (ends : input.FailsAtEnd)
    (step : checkTag held data input = .ok v) : (behind v).FailsAtEnd := by
  rw [checkTag] at step
  simp only at step
  split at step
  · cases step
  · split at step
    · cases step
      exact ends.get
    · exact failsAtEnd_next ends.get step

theorem failsAtEnd_readStep {r : TagReader} {v : Verdict TagReader (Bytes × IStream)}
    (ends : r.input.FailsAtEnd) (step : readStep r = .ok v) : (behind v).FailsAtEnd := by
  rw [readStep] at step
  simp only at step
  split at step
  · exact failsAtEnd_checkTag ends.peek step
  · split at step
    · cases step
    · next nonempty =>
        have sound := IStream.failsAtEnd_of_sound (getUpTo_sound nonempty).1
        split at step
        · cases step
        · split at step
          · exact failsAtEnd_checkTag sound step
          · exact failsAtEnd_next sound step

theorem failsAtEnd_readLoop {r : TagReader} {result : Bytes × IStream}
    (ends : r.input.FailsAtEnd) (run : readLoop r = .ok result) : result.2.FailsAtEnd := by
  induction left : r.input.rest.length using Nat.strongRecOn generalizing r with
  | ind bound ih =>
      rcases step : readStep r with e | v
      · rw [readLoop_of_error step] at run
        cases run
      · have kept := failsAtEnd_readStep ends step
        cases v with
        | more s =>
            rw [readLoop_of_more step] at run
            exact ih _ (left ▸ readStep_more step) kept run rfl
        | halt result =>
            rw [readLoop_of_halt step] at run
            cases run
            exact kept

end TagReader

namespace ConversationSerializer

/-! ## The blocks that are begun -/

/-- The second loop of `read_actions` comes to a start tag, and the block begins behind
its line. -/
inductive AtBlock : IStream → IStream → Prop
  | tag {input block : IStream} {line : Bytes} (read : getline input = (some line, block))
      (startTag : trim line = dataStartTag) : AtBlock input block
  | line {input next block : IStream} {line : Bytes} (read : getline input = (some line, next))
      (other : trim line ≠ dataStartTag) (later : AtBlock next block) : AtBlock input block

/-- `read_actions` comes to a block: in its first round, or behind one. -/
inductive Meets : IStream → IStream → Prop
  | here {input next block : IStream} {type : Option ActionType} (more : input.eof = false)
      (found : readType input = .ok (type, next)) (begins : AtBlock next block) :
      Meets input block
  | later {input behind block : IStream} {action : Option Action} (more : input.eof = false)
      (round : readAction input = .ok (action, behind)) (met : Meets behind block) :
      Meets input block

theorem failsAtEnd_along : Along fun s t => s.FailsAtEnd → t.FailsAtEnd where
  trans first second ends := second (first ends)
  line _ ends := ends.getline lf
  block run ends := failsAtEnd_readLoop ends run

section Rounds

variable {input : IStream}

/-! ## One round -/

theorem defined_stringToActionType (type : Bytes) : Defined (stringToActionType type) := by
  rw [stringToActionType]
  split_ifs <;> first | exact defined_ok _ | exact defined_thrown _

theorem defined_readType (input : IStream) : Defined (readType input) := by
  induction left : input.rest.length using Nat.strongRecOn generalizing input with
  | ind bound ih =>
      rw [readType]
      split
      · exact defined_ok _
      · next line next got =>
          have shorter := length_getline (by rw [got])
          rw [got] at shorter
          split
          · exact ih _ (left ▸ shorter) next rfl
          · exact defined_map.mpr (defined_stringToActionType _)

theorem not_atBlock_end {next block : IStream} (got : getline input = (none, next)) :
    ¬ AtBlock input block := by
  intro begins
  cases begins with
  | tag read startTag =>
      rw [got] at read
      cases read
  | line read other later =>
      rw [got] at read
      cases read

theorem atBlock_iff {next block : IStream} {line : Bytes}
    (got : getline input = (some line, next)) :
    AtBlock input block ↔
      if trim line = dataStartTag then block = next else AtBlock next block := by
  split
  · next startTag =>
      constructor
      · intro begins
        cases begins with
        | tag read _ =>
            rw [got] at read
            cases read
            rfl
        | line read other later =>
            rw [got] at read
            cases read
            exact absurd startTag other
      · intro same
        subst same
        exact .tag got startTag
  · next other =>
      constructor
      · intro begins
        cases begins with
        | tag read startTag =>
            rw [got] at read
            cases read
            exact absurd startTag other
        | line read _ later =>
            rw [got] at read
            cases read
            exact later
      · exact .line got other

/-- The second loop is defined when the block that it comes to is. -/
theorem defined_readProperties_iff (input : IStream) (prop : Properties) :
    Defined (readProperties input prop) ↔
      ∀ block, AtBlock input block → Defined (readActionData block) := by
  induction left : input.rest.length using Nat.strongRecOn generalizing input prop with
  | ind bound ih =>
      rw [readProperties]
      split
      · next got =>
          exact iff_of_true (defined_ok _) fun block begins => absurd begins (not_atBlock_end got)
      · next line next got =>
          have shorter := length_getline (by rw [got])
          rw [got] at shorter
          simp only [atBlock_iff got]
          by_cases startTag : trim line = dataStartTag
          · rw [if_neg (by rw [startTag]; decide), if_pos startTag, defined_map]
            simp only [if_pos startTag, forall_eq]
          · simp only [if_neg startTag]
            split
            · exact ih _ (left ▸ shorter) next prop rfl
            · exact ih _ (left ▸ shorter) next _ rfl

theorem defined_decodeData (prop : Properties) (data : Bytes) : Defined (decodeData prop data) := by
  rw [decodeData]
  split
  · exact Base64.defined_fromBase64 data
  · exact defined_ok _

/-- A round is defined when the block that it comes to is. -/
theorem defined_readAction_iff (input : IStream) :
    Defined (readAction input) ↔
      ∀ block, (∃ type next, readType input = .ok (type, next) ∧ AtBlock next block) →
        Defined (readActionData block) := by
  rw [readAction]
  have typed := defined_readType input
  rcases found : readType input with e | ⟨type, next⟩
  · cases e with
    | thrown e =>
        refine iff_of_true (defined_thrown e) ?_
        intro block begins
        rcases begins with ⟨type, next, same, -⟩
        cases same
    | undefined u => exact absurd found (typed u)
  · rw [ok_bind]
    constructor
    · intro defined block begins
      rcases begins with ⟨type', next', same, begins⟩
      cases same
      exact (defined_readProperties_iff next ∅).mp (Defined.of_bind defined) block begins
    · intro each
      have props := (defined_readProperties_iff next ∅).mpr fun block begins =>
        each block ⟨type, next, rfl, begins⟩
      refine props.bind fun block _ => ?_
      cases type with
      | none => exact defined_ok _
      | some type => exact (defined_decodeData _ _).bind fun data _ => defined_ok _

/-! ## All of them -/

theorem not_meets_end {block : IStream} (ended : input.eof = true) : ¬ Meets input block := by
  intro met
  cases met with
  | here more found begins =>
      rw [ended] at more
      cases more
  | later more round met =>
      rw [ended] at more
      cases more

theorem meets_iff {block : IStream} (more : input.eof = false) :
    Meets input block ↔
      (∃ type next, readType input = .ok (type, next) ∧ AtBlock next block) ∨
        ∃ action behind, readAction input = .ok (action, behind) ∧ Meets behind block := by
  constructor
  · intro met
    cases met with
    | here _ found begins => exact Or.inl ⟨_, _, found, begins⟩
    | later _ round met => exact Or.inr ⟨_, _, round, met⟩
  · intro given
    rcases given with ⟨type, next, found, begins⟩ | ⟨action, behind, round, met⟩
    · exact .here more found begins
    · exact .later more round met

theorem defined_readActions_end (ended : input.eof = true) :
    Defined (readActions input) ↔
      ∀ block, Meets input block → Defined (readActionData block) := by
  rw [readActions, if_pos ended]
  exact iff_of_true (defined_ok _) fun block met => absurd met (not_meets_end ended)

/-- `read_actions` comes to its end or throws when each block that it comes to is
defined. -/
theorem defined_readActions_iff (ends : input.FailsAtEnd) :
    Defined (readActions input) ↔
      ∀ block, Meets input block → Defined (readActionData block) := by
  induction left : input.rest.length using Nat.strongRecOn generalizing input with
  | ind bound ih =>
      rcases ends.eof_or_good with ended | good
      · exact defined_readActions_end ended
      · have more : input.eof = false := by rw [IStream.eq_of_good good, IStream.of_eof]
        have sound : input.fail = false := by rw [IStream.eq_of_good good, IStream.of_fail]
        simp only [meets_iff more, or_imp, forall_and, ← defined_readAction_iff]
        rw [readActions, if_neg (by rw [more]; decide), if_neg (by rw [sound]; decide)]
        split
        · next e read =>
            rw [read]
            cases e with
            | undefined u =>
                exact iff_of_false (fun defined => defined u rfl) fun both => both.1 u rfl
            | thrown e =>
                refine iff_of_true (defined_thrown e) ⟨defined_thrown e, ?_⟩
                intro block round
                rcases round with ⟨action, behind, same, -⟩
                cases same
        · next action behind read =>
            have behind_ends := failsAtEnd_along.readAction read ends
            have rest : Defined (readActions behind) ↔
                ∀ block, Meets behind block → Defined (readActionData block) := by
              rcases behind_ends.eof_or_good with ended | still
              · exact defined_readActions_end ended
              · exact ih _ (left ▸ (consumes_along.readAction read).2 still) behind_ends rfl
            rw [defined_map, rest, read, and_iff_right (defined_ok _)]
            refine forall_congr' fun block => imp_congr_left ?_
            constructor
            · intro met
              exact ⟨action, behind, rfl, met⟩
            · intro round
              rcases round with ⟨action', behind', same, met⟩
              cases same
              exact met

end Rounds

/-! ## The whole script -/

/-- The headers name a test server with an IPv4 address, and a protocol. -/
def Names (inet : Inet) (headers : Properties) (address protocol : Bytes) : Prop :=
  headers.get testAddressProp = .ok address ∧ inet.getaddrinfo (cstr address) = .ok .inet ∧
    headers.get protocolProp = .ok protocol

/-- `read` comes to a block. -/
def Reads (inet : Inet) (input block : IStream) : Prop :=
  ∃ address port, Names inet (readHeaders input ∅).1 address TcpConversation.protName ∧
    (readHeaders input ∅).1.getAsInt testPortProp = .ok port ∧ Meets (readHeaders input ∅).2 block

/-- `read` returns a conversation or throws, and in its blocks it stays in the buffer. -/
structure ReadsTotally (inet : Inet) (input : IStream) : Prop where
  returns : Defined (read inet input)
  inBuffer : ∀ block, Reads inet input block →
    ∀ r : TagReader, Continues { input := block } r → r.InBuffer

theorem defined_get (headers : Properties) (key : Bytes) : Defined (headers.get key) := by
  rw [Properties.get]
  split
  · exact defined_ok _
  · exact defined_thrown _

theorem defined_getAsInt (headers : Properties) (key : Bytes) : Defined (headers.getAsInt key) :=
  (defined_get headers key).bind fun text _ => defined_stoi text

theorem getline_bad {input : IStream} (bad : input.good = false) :
    (getline input).1 = none := by
  have missed : (input.getline lf).1 = none := by
    rw [IStream.getline, bad]
    rfl
  rw [getline]
  split
  · rfl
  · next line behind read =>
      rw [read] at missed
      cases missed

/-- A stream that delivers nothing has no headers. -/
theorem good_of_names {inet : Inet} {input : IStream} {address protocol : Bytes}
    (names : Names inet (readHeaders input ∅).1 address protocol) : input.good = true := by
  by_contra bad
  rw [Bool.not_eq_true] at bad
  have none_read : (readHeaders input ∅).1 = ∅ := by
    have missed := getline_bad bad
    rw [readHeaders]
    split
    · rfl
    · next line behind read =>
        rw [read] at missed
        cases missed
  have address_given := names.1
  rw [none_read] at address_given
  cases address_given

section Script

variable {inet : Inet} {input : IStream} {address protocol : Bytes}

/-- Without the headers that are asked for `read` throws. -/
theorem defined_read_of_not_names
    (unnamed : ∀ address protocol, ¬ Names inet (readHeaders input ∅).1 address protocol) :
    Defined (read inet input) := by
  rw [read]
  refine (defined_get _ _).bind fun address given => ?_
  split
  · exact defined_thrown _
  · exact defined_thrown _
  · next resolved =>
      refine (defined_get _ _).bind fun protocol protocol_given => ?_
      exact absurd ⟨given, resolved, protocol_given⟩ (unnamed address protocol)

theorem Names.unique {headers : Properties} {address' protocol' : Bytes}
    (first : Names inet headers address protocol) (second : Names inet headers address' protocol') :
    address' = address ∧ protocol' = protocol :=
  ⟨Except.ok.inj (second.1.symm.trans first.1), Except.ok.inj (second.2.2.symm.trans first.2.2)⟩

theorem Names.reads_iff
    (names : Names inet (readHeaders input ∅).1 address TcpConversation.protName)
    {port : Int} (given : (readHeaders input ∅).1.getAsInt testPortProp = .ok port)
    (block : IStream) : Reads inet input block ↔ Meets (readHeaders input ∅).2 block := by
  constructor
  · intro reads
    rcases reads with ⟨address', port', -, -, met⟩
    exact met
  · intro met
    exact ⟨address, port, names, given, met⟩

/-- With them it is the protocol and the blocks that decide. -/
theorem defined_read_of_names (names : Names inet (readHeaders input ∅).1 address protocol) :
    Defined (read inet input) ↔
      (protocol = TcpConversation.protName ∨ protocol = UdpConversation.protName) ∧
        ∀ block, Reads inet input block → Defined (readActionData block) := by
  have ends : (readHeaders input ∅).2.FailsAtEnd :=
    failsAtEnd_along.readHeaders input ∅ (IStream.failsAtEnd_of_good (good_of_names names))
  have no_blocks : protocol ≠ TcpConversation.protName → ∀ block, ¬ Reads inet input block := by
    intro other block reads
    rcases reads with ⟨address', port, named, -, -⟩
    exact other (names.unique named).2.symm
  rw [read]
  simp only [names.1, ok_bind, names.2.1, names.2.2]
  by_cases tcp : protocol = TcpConversation.protName
  · subst tcp
    rw [if_pos rfl, and_iff_right (Or.inl rfl)]
    cases port : (readHeaders input ∅).1.getAsInt testPortProp with
    | ok port_value =>
        simp only [names.reads_iff port, ← defined_readActions_iff ends]
        exact defined_bind_ok
    | error e =>
        have thrown := defined_getAsInt (readHeaders input ∅).1 testPortProp
        rw [port] at thrown
        refine iff_of_true (thrown.bind fun _ same => by cases same) ?_
        intro block reads
        rcases reads with ⟨address', port', -, given, -⟩
        rw [port] at given
        cases given
  · rw [if_neg tcp]
    by_cases udp : protocol = UdpConversation.protName
    · rw [if_pos udp]
      exact iff_of_true (defined_thrown _)
        ⟨Or.inr udp, fun block reads => absurd reads (no_blocks tcp block)⟩
    · rw [if_neg udp]
      refine iff_of_false (fun defined => defined _ rfl) ?_
      intro given
      exact given.1.elim tcp udp

theorem defined_read_iff (inet : Inet) (input : IStream) :
    Defined (read inet input) ↔
      (∀ address protocol, Names inet (readHeaders input ∅).1 address protocol →
        protocol = TcpConversation.protName ∨ protocol = UdpConversation.protName) ∧
      ∀ block, Reads inet input block → Defined (readActionData block) := by
  by_cases named : ∃ address protocol, Names inet (readHeaders input ∅).1 address protocol
  · rcases named with ⟨address, protocol, names⟩
    rw [defined_read_of_names names]
    refine and_congr_left' ?_
    constructor
    · intro supported address' protocol' other
      rwa [(names.unique other).2]
    · intro each
      exact each address protocol names
  · have unnamed : ∀ address protocol,
        ¬ Names inet (readHeaders input ∅).1 address protocol := by
      intro address protocol names
      exact named ⟨address, protocol, names⟩
    refine iff_of_true (defined_read_of_not_names unnamed) ⟨?_, ?_⟩
    · intro address protocol names
      exact absurd names (unnamed address protocol)
    · intro block reads
      rcases reads with ⟨address, port, names, -, -⟩
      exact absurd names (unnamed _ _)

/-- A script of a protocol that is neither. -/
def sctpScript : Bytes := ascii "TestAddress: 127.0.0.1\nProtocol: SCTP\n\nCLOSE\n"

theorem names_sctpScript :
    Names dottedInet (readHeaders (.of sctpScript) ∅).1 (ascii "127.0.0.1") (ascii "SCTP") := by
  have address_clean : Properties.Clean testAddressProp (ascii "127.0.0.1") := by decide
  have protocol_clean : Properties.Clean protocolProp (ascii "SCTP") := by decide
  have text : sctpScript =
      Properties.entryLine testAddressProp (ascii "127.0.0.1") ++
        (Properties.entryLine protocolProp (ascii "SCTP") ++ lf :: ascii "CLOSE\n") := by decide
  rw [text, readHeaders_entryLine address_clean, readHeaders_entryLine protocol_clean,
    readHeaders_end (Or.inr ⟨_, rfl⟩)]
  exact ⟨by decide, by decide, by decide⟩

end Script

end ConversationSerializer

end PacketReplay
