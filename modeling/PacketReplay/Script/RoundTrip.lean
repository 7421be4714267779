import PacketReplay.Capture.Address
import PacketReplay.Lib.Registry
import PacketReplay.Script.Serializer

/-!
# Scripts read back

Properties are read back as they were written, line by line (`putLines_write`), and so
are the headers of a script. `write_headers` puts the protocol and the port of the test
server into them, and `read` asks for the address as well: no script that `write`
gives is read back, `not_roundTrips`.
-/

namespace PacketReplay

open Lib

namespace ConversationSerializer

open Properties

/-! ## The headers -/

theorem isComment_entryText {key value : Bytes} (clean : Clean key value) :
    isComment (entryText key value) = false := by
  have visible : (entryText key value).dropWhile isspace = entryText key value :=
    clean.trimLeft_entryText
  rw [isComment, visible]
  exact decide_eq_false clean.head?_entryText

/-- The line of a clean entry is delivered. -/
theorem getline_entryLine {key value : Bytes} (clean : Clean key value) (behind : Bytes) :
    getline (.of (entryLine key value ++ behind)) = (some (entryText key value), .of behind) := by
  rw [entryLine_append, getline_good clean.lf_not_mem (isComment_entryText clean)]

/-- It is put under its key. -/
theorem readHeaders_entryLine {key value : Bytes} (clean : Clean key value) (behind : Bytes)
    (headers : Properties) :
    readHeaders (.of (entryLine key value ++ behind)) headers =
      readHeaders (.of behind) (headers.put key value) := by
  have nonempty : entryText key value ≠ [] := by
    intro empty
    have delimited : 58 ∈ entryText key value := by simp [entryText, delimiter, ascii]
    rw [empty] at delimited
    cases delimited
  rw [readHeaders, getline_entryLine clean]
  simp only
  rw [clean.trimLeft_entryText, if_neg nonempty, clean.putLine_entryText]

theorem readHeaders_entries {entries : List (Bytes × Bytes)}
    (clean : ∀ entry ∈ entries, Clean entry.1 entry.2) (behind : Bytes) (headers : Properties) :
    readHeaders (.of (entries.flatMap (fun entry => entryLine entry.1 entry.2) ++ behind)) headers =
      readHeaders (.of behind) (entries.foldl (fun p entry => p.put entry.1 entry.2) headers) := by
  induction entries generalizing headers with
  | nil => rfl
  | cons entry entries ih =>
      rw [List.flatMap_cons, List.append_assoc,
        readHeaders_entryLine (clean entry List.mem_cons_self),
        ih fun other mem => clean other (List.mem_cons_of_mem entry mem), List.foldl_cons]

/-- The end of the text and a blank line end the headers. -/
theorem readHeaders_end {behind : Bytes} (ends : behind = [] ∨ ∃ text, behind = lf :: text)
    (headers : Properties) : (readHeaders (.of behind) headers).1 = headers := by
  rcases ends with rfl | ⟨text, rfl⟩
  · rw [readHeaders, getline]
    rfl
  · have blank : getline (.of (lf :: text)) = (some [], .of text) :=
      getline_good List.not_mem_nil rfl text
    rw [readHeaders, blank]
    rfl

/-! ## Properties read back -/

/-- Each line that `getline` delivers, passed to `put(line)`. -/
def putLines (input : IStream) (prop : Properties) : Properties :=
  match _read : getline input with
  | (none, _) => prop
  | (some line, input) => putLines input (prop.putLine line)
termination_by input.rest.length
decreasing_by
  have shorter := length_getline (by rw [_read])
  rwa [_read] at shorter

theorem putLines_entryLine {key value : Bytes} (clean : Clean key value) (behind : Bytes)
    (prop : Properties) :
    putLines (.of (entryLine key value ++ behind)) prop =
      putLines (.of behind) (prop.put key value) := by
  rw [putLines, getline_entryLine clean]
  simp only
  rw [clean.putLine_entryText]

theorem putLines_entries {entries : List (Bytes × Bytes)}
    (clean : ∀ entry ∈ entries, Clean entry.1 entry.2) (prop : Properties) :
    putLines (.of (entries.flatMap fun entry => entryLine entry.1 entry.2)) prop =
      entries.foldl (fun p entry => p.put entry.1 entry.2) prop := by
  induction entries generalizing prop with
  | nil =>
      rw [List.flatMap_nil, putLines, getline]
      rfl
  | cons entry entries ih =>
      rw [List.flatMap_cons, putLines_entryLine (clean entry List.mem_cons_self),
        ih fun other mem => clean other (List.mem_cons_of_mem entry mem), List.foldl_cons]

/-- Properties that are clean are read back as they were written, in whatever order that
was. -/
theorem putLines_write (order : EntryOrder) (p : Properties)
    (clean : ∀ entry ∈ p.entries, Clean entry.1 entry.2) (key : Bytes) :
    (putLines (.of (Properties.write order p)) ∅).lookup key = p.lookup key := by
  rw [Properties.write, putLines_entries (order.clean clean)]
  exact lookup_foldl_insert_of_perm (order.perm p) key

/-- A value with a delimiter in it, beside an empty one. -/
def times : Properties :=
  ((∅ : Properties).put (ascii "Note") []).put (ascii "Time") (ascii "12:30")

theorem putLines_write_times :
    (putLines (.of (Properties.write .stored times)) ∅).lookup (ascii "Time") =
      times.lookup (ascii "Time") := by
  refine putLines_write .stored times ?_ (ascii "Time")
  decide

/-! ## What is written -/

/-- The properties of `write_headers`. -/
def headerProperties (protocol : Bytes) (conversation : PacketConversation) : Properties :=
  ((∅ : Properties).put protocolProp protocol).put testPortProp
    (toDecimal (ntohs conversation.testSockAddr.port).toNat)

/-- The numeral of the port is a clean value. -/
theorem clean_toDecimal (n : Nat) : Clean testPortProp (toDecimal n) where
  noDelimiter := by decide
  noComment := by decide
  keyLine := by decide
  keyTrimmed := by decide
  valueLine := not_mem_toDecimal (by decide)
  valueTrimmed := trim_eq_self fun c mem =>
    isspace_eq_false_of_isdigit (isdigit_of_mem_toDecimal mem)

theorem clean_protName : Clean protocolProp TcpConversation.protName := by decide

theorem clean_headerProperties {protocol : Bytes} (clean : Clean protocolProp protocol)
    (conversation : PacketConversation) :
    ∀ entry ∈ (headerProperties protocol conversation).entries, Clean entry.1 entry.2 := by
  have empty : ∀ entry ∈ (∅ : Properties).entries, Clean entry.1 entry.2 :=
    fun _ mem => absurd mem List.not_mem_nil
  exact clean_put (clean_put empty clean) (clean_toDecimal _)

/-- The address of the test server is none of the properties. -/
theorem lookup_headerProperties (protocol : Bytes) (conversation : PacketConversation) :
    (headerProperties protocol conversation).lookup testAddressProp = none := by
  have other : testAddressProp ≠ protocolProp ∧ testAddressProp ≠ testPortProp := by decide
  rw [headerProperties, put, put, AList.lookup_insert_ne other.2, AList.lookup_insert_ne other.1]
  rfl

theorem writeHeaders_eq (inet : Inet) (order : EntryOrder) (protocol : Bytes)
    (conversation : PacketConversation) :
    writeHeaders inet order protocol conversation =
      (order.entries (headerProperties protocol conversation)).flatMap fun entry =>
        entryLine entry.1 entry.2 := rfl

/-- Behind the headers there is the end of the text or a blank line. -/
theorem exists_write_eq (inet : Inet) (order : EntryOrder) (protocol : Bytes)
    (conversation : PacketConversation) :
    ∃ behind, (behind = [] ∨ ∃ text, behind = lf :: text) ∧
      write inet order protocol conversation =
        writeHeaders inet order protocol conversation ++ behind := by
  refine ⟨_, ?_, rfl⟩
  cases conversation.actionQueue with
  | nil => exact Or.inl rfl
  | cons action actions => exact Or.inr ⟨_, rfl⟩

/-- The headers read back are the properties that were written. -/
theorem lookup_readHeaders_write (inet : Inet) (order : EntryOrder)
    (conversation : PacketConversation) (key : Bytes) :
    (readHeaders (.of (write inet order TcpConversation.protName conversation)) ∅).1.lookup key =
      (headerProperties TcpConversation.protName conversation).lookup key := by
  have written := order.clean (clean_headerProperties clean_protName conversation)
  obtain ⟨behind, ends, text⟩ := exists_write_eq inet order TcpConversation.protName conversation
  rw [text, writeHeaders_eq, readHeaders_entries written, readHeaders_end ends]
  exact lookup_foldl_insert_of_perm (order.perm _) key

/-- Every script that is written makes `read` throw. -/
theorem read_write (inet : Inet) (order : EntryOrder) (conversation : PacketConversation) :
    read inet (.of (write inet order TcpConversation.protName conversation)) =
      .error (.thrown (.outOfRange (ascii "unordered_map::at"))) := by
  have missing := lookup_readHeaders_write inet order conversation testAddressProp
  rw [lookup_headerProperties] at missing
  rw [read]
  simp only [Properties.get, missing]
  rfl

/-! ## The round trip -/

/-- The script of a conversation is read back as one with the same test server and
the same actions. -/
def RoundTrips (inet : Inet) (order : EntryOrder) (conversation : TcpConversation) : Prop :=
  ∃ found : TcpConversation,
    read inet (.of (write inet order TcpConversation.protName conversation.toPacketConversation)) =
        .ok found ∧
      found.testSockAddr.addr = conversation.testSockAddr.addr ∧
      found.testSockAddr.port = conversation.testSockAddr.port ∧
      found.actionQueue.map (fun action => (action.type, action.data)) =
        conversation.actionQueue.map fun action => (action.type, action.data)

/-- No script is read back. -/
theorem not_roundTrips (inet : Inet) (order : EntryOrder) (conversation : TcpConversation) :
    ¬ RoundTrips inet order conversation := by
  intro given
  rcases given with ⟨found, read, -⟩
  rw [read_write] at read
  cases read

/-- A conversation without actions, on functions that read IPv4 addresses back. -/
theorem not_roundTrips_empty :
    ¬ ∀ inet : Inet, inet.ReadsIpV4 → ∀ order (conversation : TcpConversation),
      conversation.addrFamily = .inet →
        (∀ action ∈ conversation.actionQueue, ¬ dataEndTag <:+: action.data) →
          RoundTrips inet order conversation := by
  intro roundTrip
  obtain ⟨found, read, -⟩ := roundTrip dottedInet dottedInet_readsIpV4 .stored
    (TcpConversation.ofLayer dottedInet .inet ⟨ascii "127.0.0.1", 80⟩) rfl
    (fun action mem => by cases mem)
  rw [read_write] at read
  cases read

end ConversationSerializer

end PacketReplay
