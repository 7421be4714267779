import PacketReplay.Capture.TcpQueue
import PacketReplay.Script.RoundTrip
import PacketReplay.Script.WrittenActions

/-!
# Scripts with the address put in

`write` leaves out the address of the test server. With headers that have it, the actions
that it writes are read back where all their data is framed (`read_completed`). That is
never so for what is recorded of a TCP connection, whose `CONNECT` has no data: reading its
script back is undefined (`read_completed_captured`).
-/

namespace PacketReplay

open Lib

namespace ConversationSerializer

/-! ## Lines that say nothing -/

theorem readActions_congr {text other : Bytes}
    (same : readAction (.of text) = readAction (.of other)) :
    readActions (.of text) = readActions (.of other) := by
  rw [readActions, readActions, same]
  rfl

/-- A blank line in front of an action. -/
theorem readActions_blank (text : Bytes) :
    readActions (.of (lf :: text)) = readActions (.of text) := by
  have line : getline (.of (lf :: text)) = (some [], .of text) :=
    getline_good List.not_mem_nil rfl text
  have passed : readType (.of (lf :: text)) = readType (.of text) := by
    conv_lhs => rw [readType, line]
    rfl
  refine readActions_congr ?_
  rw [readAction, readAction, passed]

/-- The line between two actions. -/
theorem readActions_separator (text : Bytes) :
    readActions (.of (separator ++ lf :: text)) = readActions (.of text) := by
  have clean : lf ∉ separator := by decide
  have comment : isComment separator = true := by decide
  have line : getline (.of (separator ++ lf :: text)) = getline (.of text) := by
    conv_lhs => rw [getline, IStream.getline_good clean]
    simp only [comment, if_true]
  have passed : readType (.of (separator ++ lf :: text)) = readType (.of text) := by
    conv_lhs => rw [readType, line]
    conv_rhs => rw [readType]
  refine readActions_congr ?_
  rw [readAction, readAction, passed]

/-- What the loop of `write` puts out for an action. -/
def writeSeparated (order : Properties.EntryOrder) (action : Action) : Bytes :=
  ascii "\n" ++ separator ++ ascii "\n\n" ++ writeAction order action

theorem readActions_writeSeparated (order : Properties.EntryOrder) (action : Action)
    (behind : Bytes) :
    readActions (.of (writeSeparated order action ++ behind)) =
      readActions (.of (writeAction order action ++ behind)) := by
  have lines : writeSeparated order action ++ behind =
      lf :: (separator ++ lf :: (lf :: (writeAction order action ++ behind))) := by
    rw [writeSeparated]
    simp only [show ascii "\n" = [lf] from rfl, show ascii "\n\n" = [lf, lf] from rfl,
      List.append_assoc, List.cons_append, List.nil_append]
  rw [lines, readActions_blank, readActions_separator, readActions_blank]

/-! ## Actions -/

/-- The data of the action is read back from its block. -/
def Readable (action : Action) : Prop :=
  BinaryTail action.data ∨ (Framable action.data ∧ ¬ dataEndTag <:+: action.data)

/-- Reading its block back is undefined in the first iteration. -/
def Unreadable (action : Action) : Prop :=
  ¬ BinaryTail action.data ∧
    (action.data = [] ∨ tagDelim ∈ action.data.take dataEndTag.length)

instance (action : Action) : Decidable (Readable action) := inferInstanceAs (Decidable (_ ∨ _))

instance (action : Action) : Decidable (Unreadable action) := inferInstanceAs (Decidable (_ ∧ _))

/-- The text of an action as it is, line by line. -/
theorem writeAction_raw (order : Properties.EntryOrder) {action : Action}
    (printable : ¬ BinaryTail action.data) (behind : Bytes) :
    writeAction order action ++ behind =
      actionTypeToString action.type ++ lf :: (dataStartTag ++ lf ::
        (action.data ++ dataEndTag ++ (ascii "\n" ++ behind))) := by
  have newline : ascii "\n" = [lf] := rfl
  rw [writeAction_eq, if_neg (mt isBinary_iff.mp printable), rawText, newline]
  simp only [List.append_assoc, List.cons_append, List.nil_append]

/-- An action that is written as it is has the data that its block is read to have. -/
theorem readAction_raw (order : Properties.EntryOrder) {action : Action}
    (printable : ¬ BinaryTail action.data) (behind : Bytes) :
    readAction (.of (writeAction order action ++ behind)) =
      (readActionData (.of (action.data ++ dataEndTag ++ (ascii "\n" ++ behind)))).map fun block =>
        (some (createAction action.type block.1), block.2) := by
  rw [writeAction_raw order printable, readAction, readType_actionType]
  simp only [bind, Except.bind, readProperties_startTag]
  cases readActionData (.of (action.data ++ dataEndTag ++ (ascii "\n" ++ behind))) with
  | error f => rfl
  | ok block =>
      have plain : decodeData ∅ block.1 = .ok block.1 := if_neg (by simp)
      simp only [Except.map, plain]
      rfl

theorem readAction_readable (order : Properties.EntryOrder) {action : Action}
    (readable : Readable action) (behind : Bytes) :
    readAction (.of (writeAction order action ++ behind)) =
      .ok (some (createAction action.type action.data), .of (ascii "\n" ++ behind)) := by
  by_cases binary : BinaryTail action.data
  · exact readAction_binary order binary behind
  · obtain ⟨framable, absent⟩ := readable.resolve_left binary
    rw [readAction_raw order binary, readActionData_framable framable absent]
    rfl

/-- The actions as `write` writes them. -/
def writeQueue (order : Properties.EntryOrder) (queue : List Action) : Bytes :=
  queue.flatMap (writeSeparated order)

/-- A readable action in front of others is read back. -/
theorem readActions_cons (order : Properties.EntryOrder) {action : Action}
    (readable : Readable action) (behind : Bytes) :
    readActions (.of (writeSeparated order action ++ behind)) =
      (readActions (.of behind)).map fun actions =>
        createAction action.type action.data :: actions := by
  rw [readActions_writeSeparated, readActions, readAction_readable order readable]
  have blank : readActions (.of (ascii "\n" ++ behind)) = readActions (.of behind) :=
    readActions_blank behind
  simp only [blank]
  rfl

theorem readActions_nil : readActions (.of []) = .ok [] := by
  decide +kernel

theorem readActions_writeQueue (order : Properties.EntryOrder) {queue : List Action}
    (readable : ∀ action ∈ queue, Readable action) :
    readActions (.of (writeQueue order queue)) =
      .ok (queue.map fun action => createAction action.type action.data) := by
  induction queue with
  | nil => exact readActions_nil
  | cons action queue ih =>
      obtain ⟨first, rest⟩ := List.forall_mem_cons.mp readable
      rw [writeQueue, List.flatMap_cons, readActions_cons order first, ← writeQueue, ih rest]
      rfl

/-- Reading is undefined from the first action on that is unreadable. -/
theorem readActions_unreadable (order : Properties.EntryOrder) {before : List Action}
    {action : Action} (readable : ∀ action ∈ before, Readable action)
    (unreadable : Unreadable action) (behind : List Action) :
    ∃ u, readActions (.of (writeQueue order (before ++ action :: behind))) =
      .error (.undefined u) := by
  induction before with
  | nil =>
      obtain ⟨printable, start⟩ := unreadable
      obtain ⟨u, undefined⟩ := readActionData_error
        (r := ascii "\n" ++ writeQueue order behind) start
      have block : readActionData (.of (action.data ++ dataEndTag ++
        (ascii "\n" ++ writeQueue order behind))) = .error (.undefined u) := undefined
      have read := readAction_raw order printable (writeQueue order behind)
      rw [block] at read
      refine ⟨u, ?_⟩
      rw [List.nil_append, writeQueue, List.flatMap_cons, ← writeQueue,
        readActions_writeSeparated, readActions, read]
      rfl
  | cons other before ih =>
      obtain ⟨first, rest⟩ := List.forall_mem_cons.mp readable
      obtain ⟨u, undefined⟩ := ih rest
      refine ⟨u, ?_⟩
      rw [List.cons_append, writeQueue, List.flatMap_cons, readActions_cons order first,
        ← writeQueue, undefined]
      rfl

/-! ## Scripts -/

/-- The script of headers and actions, as `write` writes it. -/
def script (order : Properties.EntryOrder) (headers : Properties) (queue : List Action) : Bytes :=
  Properties.write order headers ++ writeQueue order queue

/-- Headers that say what `read` asks for. -/
structure Headers (inet : Inet) (headers : Properties) (address : Bytes) (port : Int) : Prop where
  clean : ∀ entry ∈ headers.entries, Properties.Clean entry.1 entry.2
  testAddress : headers.lookup testAddressProp = some address
  protocol : headers.lookup protocolProp = some TcpConversation.protName
  testPort : headers.getAsInt testPortProp = .ok port
  family : inet.getaddrinfo (cstr address) = .ok .inet

/-- The actions begin at the blank line that ends the headers. -/
theorem readActions_readHeaders (order : Properties.EntryOrder) (queue : List Action)
    (headers : Properties) :
    readActions (readHeaders (.of (writeQueue order queue)) headers).2 =
      readActions (.of (writeQueue order queue)) := by
  cases queue with
  | nil =>
      have line : getline (.of []) = (none, ((IStream.of []).getline lf).2) := by
        rw [getline]
        rfl
      rw [writeQueue, List.flatMap_nil, readActions_nil, readHeaders, line, readActions]
      exact if_pos rfl
  | cons action queue =>
      obtain ⟨text, lines⟩ : ∃ text, writeQueue order (action :: queue) = lf :: text := ⟨_, rfl⟩
      have blank : getline (.of (lf :: text)) = (some [], .of text) :=
        getline_good List.not_mem_nil rfl text
      rw [lines, readActions_blank, readHeaders, blank]
      rfl

theorem read_script {inet : Inet} {headers : Properties} {address : Bytes} {port : Int}
    (complete : Headers inet headers address port) (order : Properties.EntryOrder)
    (queue : List Action) :
    read inet (.of (script order headers queue)) =
      (readActions (.of (writeQueue order queue))).map fun actions =>
        actions.foldl TcpConversation.actionPush
          (TcpConversation.ofLayer inet .inet ⟨address, port⟩) := by
  have clean := order.clean complete.clean
  have ends : writeQueue order queue = [] ∨ ∃ text, writeQueue order queue = lf :: text := by
    cases queue with
    | nil => exact Or.inl rfl
    | cons action queue => exact Or.inr ⟨_, rfl⟩
  have lookup (key : Bytes) :
      (readHeaders (.of (script order headers queue)) ∅).1.lookup key = headers.lookup key := by
    rw [script, Properties.write, readHeaders_entries clean, readHeaders_end ends]
    exact lookup_foldl_insert_of_perm (order.perm _) key
  have actions : readActions (readHeaders (.of (script order headers queue)) ∅).2 =
      readActions (.of (writeQueue order queue)) := by
    rw [script, Properties.write, readHeaders_entries clean, readActions_readHeaders]
  have port : (readHeaders (.of (script order headers queue)) ∅).1.getAsInt testPortProp =
      .ok port := by
    rw [Properties.getAsInt, Properties.get, lookup]
    exact complete.testPort
  rw [read]
  simp only [port, Properties.get, lookup, complete.testAddress, complete.protocol, actions,
    complete.family, bind, Except.bind, if_true]
  cases readActions (.of (writeQueue order queue)) with
  | error f => rfl
  | ok pushed => rfl

theorem foldl_actionPush (c : TcpConversation) (actions : List Action) :
    actions.foldl TcpConversation.actionPush c =
      { c with actionQueue := c.actionQueue ++ actions } := by
  induction actions generalizing c with
  | nil => rw [List.foldl_nil, List.append_nil]
  | cons action actions ih =>
      rw [List.foldl_cons, ih, TcpConversation.actionPush, PacketConversation.actionPush,
        List.append_assoc, List.singleton_append]

/-- A script with all its headers is read back as a conversation with that test server and
the same actions, where the data of every action is framed. -/
theorem read_completed {inet : Inet} {headers : Properties} {address : Bytes} {port : Int}
    (complete : Headers inet headers address port) (order : Properties.EntryOrder)
    {queue : List Action} (readable : ∀ action ∈ queue, Readable action) :
    read inet (.of (script order headers queue)) =
      .ok { TcpConversation.ofLayer inet .inet ⟨address, port⟩ with
        actionQueue := queue.map fun action => createAction action.type action.data } := by
  rw [read_script complete, readActions_writeQueue order readable]
  exact congrArg Except.ok (foldl_actionPush _ _)

/-- The headers of a test server at 10.0.0.3. -/
def serverHeaders : Properties :=
  (headerProperties TcpConversation.protName
    (PacketConversation.ofLayer dottedInet .inet ⟨ascii "10.0.0.3", 80⟩)).put testAddressProp
      (ascii "10.0.0.3")

theorem headers_serverHeaders : Headers dottedInet serverHeaders (ascii "10.0.0.3") 80 where
  clean := by decide +kernel
  testAddress := by decide +kernel
  protocol := by decide +kernel
  testPort := by decide +kernel
  family := by decide +kernel

/-- A request with a token in it, and an answer in base64. -/
def tokenQueue : List Action :=
  [{ type := .send, data := ascii "GET / HTTP/1.1\r\nHost: $\x7bhost\x7d\r\n\r\n" },
    { type := .recv, data := List.replicate 50 0 }]

theorem read_completed_token :
    read dottedInet (.of (script .stored serverHeaders tokenQueue)) =
      .ok { TcpConversation.ofLayer dottedInet .inet ⟨ascii "10.0.0.3", 80⟩ with
        actionQueue := tokenQueue.map fun action => createAction action.type action.data } :=
  read_completed headers_serverHeaders .stored (by decide)

/-! ## Scripts of captured conversations -/

section Captured

open TcpConversation

/-- A `CONNECT` is recorded without data. -/
theorem data_of_mem_captured {c : TcpConversation} (initial : Initial c)
    (packets : List TransportPacket) :
    ∀ action ∈ (c.captured packets).actionQueue, action.type = .connect → action.data = [] := by
  apply captured_rule fun _ d => ∀ action ∈ d.actionQueue, action.type = .connect → action.data = []
  · rw [initial.empty]
    exact fun action mem => by cases mem
  · intro packets packet d holds step action mem connect
    have none_new : action ∉ (c.captured packets).dataActions packet := by
      intro inside
      have uses := lease_of_mem_dataActions inside
      rw [Action.lease_eq_acquire.mpr connect] at uses
      cases uses
    cases step with
    | quiet state socket idle reset => exact holds action mem connect
    | connected completes =>
        rcases List.mem_append.mp mem with inside | last
        · exact holds action inside connect
        · rw [List.mem_singleton.mp last]
    | continued established noReset noFin =>
        rcases List.mem_append.mp mem with inside | last
        · exact holds action inside connect
        · exact absurd last none_new
    | ended established noReset fin =>
        rcases List.mem_append.mp mem with inside | last
        · rcases List.mem_append.mp inside with early | late
          · exact holds action early connect
          · exact absurd late none_new
        · rw [List.mem_singleton.mp last] at connect
          cases connect

/-- Of what is recorded of a TCP conversation nothing is read back: reading its script, with
whatever headers, is undefined as soon as there is an action in it. -/
theorem read_completed_captured {inet : Inet} {headers : Properties} {address : Bytes} {port : Int}
    (complete : Headers inet headers address port) (order : Properties.EntryOrder)
    (first : TransportPacket) (server : Option TargetTestServer) {packets : List TransportPacket}
    (recorded : ((ofPacket inet first server).captured packets).actionQueue ≠ []) :
    ∃ u, read inet (.of (script order headers
      ((ofPacket inet first server).captured packets).actionQueue)) = .error (.undefined u) := by
  have initial := initial_ofPacket inet first server
  obtain ⟨action, behind, queue⟩ := List.exists_cons_of_ne_nil recorded
  have connect : action.type = .connect := by
    by_contra other
    have holds := (initial.sound.captured packets).disciplined [] action behind queue
      (mt Action.lease_eq_acquire.mp other)
    cases holds
  have empty : action.data = [] := data_of_mem_captured initial packets action
    (by rw [queue]; exact List.mem_cons_self) connect
  have unreadable : Unreadable action := by
    refine ⟨fun binary => ?_, Or.inl empty⟩
    have long := binary.1
    rw [empty, List.length_nil] at long
    omega
  have none : ∀ action ∈ ([] : List Action), Readable action := fun _ mem => by cases mem
  obtain ⟨u, undefined⟩ := readActions_unreadable order none unreadable behind
  refine ⟨u, ?_⟩
  rw [read_script complete, queue, ← List.nil_append (action :: behind), undefined]
  rfl

theorem read_completed_captured_handshake :
    ∃ u, read dottedInet (.of (script .stored serverHeaders
      ((ofPacket dottedInet (between 1 3 (.tcp ⟨7, 80, thSyn, []⟩)) none).captured
        (handshake 1 3 7 80)).actionQueue)) = .error (.undefined u) :=
  read_completed_captured headers_serverHeaders .stored _ _ (by decide +kernel)

end Captured

end ConversationSerializer

end PacketReplay
