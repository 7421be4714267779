import PacketReplay.Capture.Key
import PacketReplay.Capture.Store

/-!
# Client specs

`tcpIpCreateTargetTestServer`, which reads a client spec into the key and the test
server that the store keeps, and what a spec says, `readSpec`. What is filed for an
accepted spec is determined by what it says (`create_eq_ok`). A spec is given by the
characters of the C string.
-/

namespace PacketReplay

open Lib

/-! ## Reading a spec -/

def noPort : Int := -1

def throwInvalid {α : Type} (what : Bytes) : Outcome α := .error (.thrown (.invalidArgument what))

/-- `htons(stoul(text))`, where a text that is no number is named. -/
def parsePort (text : Bytes) : Outcome Int :=
  match stoul text with
  | .ok n => .ok (htons n).toNat
  | .error (.thrown (.invalidArgument _)) =>
      throwInvalid (ascii "invalid port number '" ++ text ++ ascii "'")
  | .error f => .error f

def checkIpV4 (inet : Inet) (text : Bytes) : Outcome Unit :=
  if (inet.pton .inet text).isSome then .ok ()
  else throwInvalid (ascii "invalid IP address '" ++ text ++ ascii "'")

def normalizeIpV6 (inet : Inet) (text : Bytes) : Outcome Bytes :=
  match inet.pton .inet6 text with
  | some addr => .ok (cstr (inet.ntop .inet6 addr))
  | none => throwInvalid (ascii "invalid IPv6 address '" ++ text ++ ascii "'")

/-- The key and the test server at the end of `parseIpV4Spec` and `parseIpV6Spec`. -/
def specEntry (srcAddr : Bytes) (srcPort : Int) (testAddr : Bytes) (testPort : Int) :
    Bytes × Option TargetTestServer :=
  (if srcPort ≠ noPort then srcAddr ++ ascii ":" ++ toDecimal srcPort.toNat else srcAddr,
    if testAddr = [] then none else some ⟨testAddr, (htons testPort).toNat⟩)

/-- The cases of the switch run into the next one. -/
def parseIpV4Spec (inet : Inet) (spec : Bytes) : Outcome (Bytes × Option TargetTestServer) :=
  match tokenize spec 58 with
  | [src] => do
      checkIpV4 inet src
      return specEntry src noPort [] noPort
  | [src, port] => do
      let srcPort ← parsePort port
      checkIpV4 inet src
      return specEntry src srcPort [] noPort
  | [src, port, test] => do
      checkIpV4 inet test
      let srcPort ← parsePort port
      checkIpV4 inet src
      return specEntry src srcPort test noPort
  | [src, port, test, toPort] => do
      let testPort ← parsePort toPort
      checkIpV4 inet test
      let srcPort ← parsePort port
      checkIpV4 inet src
      return specEntry src srcPort test testPort
  | _ => throwInvalid (ascii "invalid conversation specificiation '" ++ spec ++ ascii "'")

/-- A port that may be left out. -/
def parseOptionalPort (text : Bytes) : Outcome Int :=
  if text = [] then .ok noPort else parsePort text

/-- The source port, from the bracket on that closes the source address, and the
pointer behind it. -/
def parseIpV6SrcPort (first : Bytes) : Outcome (Int × Option Bytes) :=
  match first.tail with
  | 58 :: rest => (parseOptionalPort (token rest 58).2).map fun port => (port, (token rest 58).1)
  | _ => .ok (noPort, some first)

/-- A test address in brackets, from the closing one on, and its port. -/
def parseIpV6TestServer (inet : Inet) (spec close test : Bytes) : Outcome (Bytes × Int) :=
  if test.head? ≠ some 91 then throwInvalid (ascii "invalid spec '" ++ spec ++ ascii "'")
  else do
    let testAddr ← normalizeIpV6 inet test.tail
    if close.tail.head? ≠ some 58 then throwInvalid (ascii "invalid spec '" ++ spec ++ ascii "'")
    else
      match token close.tail.tail 58 with
      | (some _, _) => throwInvalid (ascii "invalid spec '" ++ spec ++ ascii "'")
      | (none, port) => (parseOptionalPort port).map fun testPort => (testAddr, testPort)

/-- The test address and port, behind the character that is pointed to. -/
def parseIpV6Test (inet : Inet) (spec first : Bytes) : Outcome (Bytes × Int) :=
  match token first.tail 93 with
  | (_, []) => .ok ([], noPort)
  | (none, test) => (normalizeIpV6 inet test).map fun testAddr => (testAddr, noPort)
  | (some close, test) => parseIpV6TestServer inet spec close test

/-- Without a closing bracket the character behind a null pointer is read. -/
def parseIpV6Spec (inet : Inet) (spec : Bytes) : Outcome (Bytes × Option TargetTestServer) :=
  match token spec 93 with
  | (none, _) => .error (.undefined .nullPointer)
  | (some first, src) => do
      let srcAddr ← normalizeIpV6 inet src.tail
      let (srcPort, next) ← parseIpV6SrcPort first
      match next with
      | none => return specEntry srcAddr srcPort [] noPort
      | some first => do
          let (testAddr, testPort) ← parseIpV6Test inet spec first
          return specEntry srcAddr srcPort testAddr testPort

def tcpIpCreateTargetTestServer (inet : Inet) (spec : Bytes) :
    Outcome (Bytes × Option TargetTestServer) :=
  if spec.head? = some 91 then parseIpV6Spec inet spec else parseIpV4Spec inet spec

/-- `addTargetTestServer` of a store, on its test servers. -/
def addTargetTestServer (inet : Inet) (testServers : TestServers) (spec : Bytes) :
    Outcome TestServers :=
  (tcpIpCreateTargetTestServer inet spec).map fun configured =>
    testServers.insert configured.1 configured.2

/-! ## What a spec says -/

/-- The parts of a spec. A part that is not given is empty. -/
structure SpecTexts : Type where
  family : AddrFamily
  srcAddr : Bytes
  srcPort : Bytes
  testAddr : Bytes
  testPort : Bytes
  deriving DecidableEq, Repr

/-- `<src IP>[:<src port>[:<test IP>[:<test port>]]]`. -/
def ipV4Texts (spec : Bytes) : SpecTexts :=
  let src := cut 58 spec
  let srcPort := cut 58 src.2
  let testAddr := cut 58 srcPort.2
  ⟨.inet, src.1, srcPort.1, testAddr.1, (cut 58 testAddr.2).1⟩

/-- What stands behind the source address and its bracket: a source port, if there is
a colon, and the test server. -/
def ipV6Port (text : Bytes) : Bytes × Bytes :=
  match text with
  | 58 :: text => cut 58 text
  | text => ([], text)

/-- A test server: `[<test IP>]:<test port>`, or the address alone without brackets.
Nothing is meant by a text that starts with a closing bracket. -/
def ipV6Test (text : Bytes) : Bytes × Bytes :=
  if text.head? = some 93 then ([], [])
  else if 93 ∈ text then ((cut 93 text.tail).1, (cut 93 text.tail).2.tail)
  else (text, [])

/-- The form for IPv6 has its addresses in brackets. -/
def ipV6Texts (spec : Bytes) : SpecTexts :=
  let src := cut 93 spec.tail
  let srcPort := ipV6Port src.2
  let test := ipV6Test srcPort.2
  ⟨.inet6, src.1, srcPort.1, test.1, test.2⟩

def specTexts (spec : Bytes) : SpecTexts :=
  if spec.head? = some 91 then ipV6Texts spec else ipV4Texts spec

/-- The address of a test server and its port, if that is given. -/
structure TestServerSpec : Type where
  addr : Bytes
  port : Option Nat
  deriving DecidableEq, Repr

/-- A client and, possibly, the test server for it. -/
structure ClientSpec : Type where
  family : AddrFamily
  srcAddr : Bytes
  srcPort : Option Nat
  test : Option TestServerSpec
  deriving DecidableEq, Repr

def readPort (text : Bytes) : Option (Option Nat) :=
  if text = [] then some none else (stoul text).toOption.map some

/-- There is no port without an address. -/
def readTest (inet : Inet) (family : AddrFamily) (addr port : Bytes) :
    Option (Option TestServerSpec) :=
  if addr = [] then if port = [] then some none else none
  else
    match inet.pton family addr, readPort port with
    | some addr, some port => some (some ⟨addr, port⟩)
    | _, _ => none

/-- What a spec says, where its parts are addresses and numbers. -/
def readSpec (inet : Inet) (spec : Bytes) : Option ClientSpec :=
  let texts := specTexts spec
  match inet.pton texts.family texts.srcAddr, readPort texts.srcPort,
    readTest inet texts.family texts.testAddr texts.testPort with
  | some srcAddr, some srcPort, some test => some ⟨texts.family, srcAddr, srcPort, test⟩
  | _, _, _ => none

/-- A port as the parsers hold it. -/
def networkPort : Option Nat → Int
  | some port => (htons port).toNat
  | none => noPort

/-- A test server as the parsers hold it. -/
def testFields (inet : Inet) (family : AddrFamily) : Option TestServerSpec → Bytes × Int
  | some test => (inet.ntop family test.addr, networkPort test.port)
  | none => ([], noPort)

/-- The text that a client is filed under: its address and, possibly, its port, which is
in network byte order. -/
def clientKey (inet : Inet) (family : AddrFamily) (addr : Bytes) : Option UInt16 → Bytes
  | some port => inet.ntop family addr ++ ascii ":" ++ toDecimal port.toNat
  | none => inet.ntop family addr

/-- The number behind the last colon and what stands in front of it. -/
theorem clientKey_some_inj {inet : Inet} {family other : AddrFamily} {a b : Bytes} {p q : UInt16}
    (same : clientKey inet family a (some p) = clientKey inet other b (some q)) :
    inet.ntop family a = inet.ntop other b ∧ p = q := by
  have colon : ascii ":" = [58] := rfl
  have decimal : ∀ n : Nat, (58 : UInt8) ∉ (toDecimal n).reverse :=
    fun n => mt List.mem_reverse.mp (not_mem_toDecimal (by decide))
  have turned := congrArg List.reverse same
  simp only [clientKey, colon, List.reverse_append, List.reverse_singleton,
    List.singleton_append] at turned
  obtain ⟨port, addr⟩ := append_cons_inj_of_not_mem (decimal _) (decimal _) turned
  refine ⟨List.reverse_injective addr, ?_⟩
  exact UInt16.toNat_inj.mp (toDecimal_injective (List.reverse_injective port))

namespace ClientSpec

/-- The ports are ports. -/
def InRange (s : ClientSpec) : Prop :=
  (∀ port ∈ s.srcPort, port < 2 ^ 16) ∧ ∀ port ∈ s.test.bind (·.port), port < 2 ^ 16

instance (s : ClientSpec) : Decidable s.InRange := inferInstanceAs (Decidable (_ ∧ _))

/-- The client that is meant: its address and, if the spec has it, its port. -/
def source (s : ClientSpec) : AddrFamily × Bytes × Option Nat := (s.family, s.srcAddr, s.srcPort)

/-- The key that a spec is filed under. -/
def key (inet : Inet) (s : ClientSpec) : Bytes :=
  clientKey inet s.family s.srcAddr (s.srcPort.map fun port : Nat => htons port)

/-- The test server that is made for a spec. -/
def server (inet : Inet) (s : ClientSpec) : Option TargetTestServer :=
  s.test.map fun test => ⟨inet.ntop s.family test.addr, (htons (networkPort test.port)).toNat⟩

end ClientSpec

/-! ## The text of an address -/

namespace Inet

/-- The texts of addresses are canonical: an address is read back from its text, the
only text of an IPv4 address has no colon, and that of an IPv6 address has two. -/
structure Canonical (inet : Inet) : Prop where
  length_pton : ∀ {family text addr}, inet.pton family text = some addr →
    addr.length = family.addrSize
  pton_ntop : ∀ {family addr}, addr.length = family.addrSize →
    inet.pton family (inet.ntop family addr) = some addr
  ntop_pton : ∀ {text addr}, inet.pton .inet text = some addr → inet.ntop .inet addr = text
  pton_nil : ∀ family, inet.pton family [] = none
  ne_zero : ∀ {family addr}, addr.length = family.addrSize → ∀ c ∈ inet.ntop family addr, c ≠ 0
  colon_inet : ∀ {addr}, addr.length = AddrFamily.inet.addrSize →
    (58 : UInt8) ∉ inet.ntop .inet addr
  colons_inet6 : ∀ {addr}, addr.length = AddrFamily.inet6.addrSize →
    2 ≤ (inet.ntop .inet6 addr).count 58

namespace Canonical

variable {inet : Inet} (canonical : inet.Canonical)

include canonical

theorem cstr_ntop {family : AddrFamily} {addr : Bytes} (size : addr.length = family.addrSize) :
    cstr (inet.ntop family addr) = inet.ntop family addr :=
  cstr_eq_self (canonical.ne_zero size)

theorem ntop_ne_nil {family : AddrFamily} {addr : Bytes} (size : addr.length = family.addrSize) :
    inet.ntop family addr ≠ [] := by
  intro empty
  have back := canonical.pton_ntop size
  rw [empty, canonical.pton_nil] at back
  cases back

theorem ntop_injective {family : AddrFamily} {a b : Bytes} (left : a.length = family.addrSize)
    (right : b.length = family.addrSize) (same : inet.ntop family a = inet.ntop family b) :
    a = b := by
  have back := canonical.pton_ntop left
  rw [same, canonical.pton_ntop right] at back
  exact (Option.some.inj back).symm

/-- The keys of a packet are those of its sender, with the port and without. -/
theorem targetTestServerKeys_eq (packet : TransportPacket) :
    tcpIpGetTargetTestServerKeys inet packet =
      [clientKey inet packet.network.family packet.network.srcAddr
          (some packet.transport.srcPort),
        clientKey inet packet.network.family packet.network.srcAddr none] := by
  rw [tcpIpGetTargetTestServerKeys, canonical.cstr_ntop packet.network.srcAddr_length]
  rfl

/-- The key of an IPv4 client has one colon at most, that of an IPv6 client two. -/
theorem count_clientKey {family : AddrFamily} {addr : Bytes}
    (size : addr.length = family.addrSize) (port : Option UInt16) :
    2 ≤ (clientKey inet family addr port).count 58 ↔ family = .inet6 := by
  have numeral : ∀ n : Nat, (toDecimal n).count 58 = 0 :=
    fun n => List.count_eq_zero.mpr (not_mem_toDecimal (by decide))
  have colon : (ascii ":").count 58 = 1 := rfl
  cases family with
  | inet =>
      have text := List.count_eq_zero.mpr (canonical.colon_inet size)
      cases port with
      | none => simp [clientKey, text]
      | some port =>
          rw [clientKey, List.count_append, List.count_append, text, numeral, colon]
          simp
  | inet6 =>
      have text := canonical.colons_inet6 size
      cases port with
      | none => simpa [clientKey] using text
      | some port =>
          rw [clientKey, List.count_append, List.count_append]
          simp only [iff_true]
          omega

/-- A key tells the family of its client. -/
theorem family_eq_of_clientKey_eq {family other : AddrFamily} {a b : Bytes}
    {p q : Option UInt16} (left : a.length = family.addrSize) (right : b.length = other.addrSize)
    (same : clientKey inet family a p = clientKey inet other b q) : family = other := by
  have here := canonical.count_clientKey left p
  rw [same, canonical.count_clientKey right q] at here
  revert here
  cases family <;> cases other <;> simp

/-- An IPv4 key has a colon when it has a port. -/
theorem colon_mem_clientKey_iff {addr : Bytes} (size : addr.length = AddrFamily.inet.addrSize)
    (port : Option UInt16) : 58 ∈ clientKey inet .inet addr port ↔ port ≠ none := by
  cases port with
  | none => simp [clientKey, canonical.colon_inet size]
  | some port =>
      have colon : (58 : UInt8) ∈ ascii ":" := List.mem_singleton.mpr rfl
      simp [clientKey, colon]

end Canonical

end Inet

/-! ## Accepted specs -/

section Accepted

theorem parsePort_eq_ok {text : Bytes} {port : Int} (parsed : parsePort text = .ok port) :
    ∃ n, stoul text = .ok n ∧ port = (htons n).toNat := by
  rw [parsePort] at parsed
  split at parsed
  · next n number => exact ⟨n, number, (Except.ok.inj parsed).symm⟩
  · cases parsed
  · cases parsed

theorem readPort_of_parsePort {text : Bytes} {port : Int} (parsed : parsePort text = .ok port) :
    ∃ n, readPort text = some (some n) ∧ port = networkPort (some n) := by
  obtain ⟨n, number, rfl⟩ := parsePort_eq_ok parsed
  have nonempty : text ≠ [] := by
    intro same
    subst same
    cases number
  refine ⟨n, ?_, rfl⟩
  rw [readPort, if_neg nonempty, number]
  rfl

theorem readPort_of_parseOptionalPort {text : Bytes} {port : Int}
    (parsed : parseOptionalPort text = .ok port) :
    ∃ n, readPort text = some n ∧ port = networkPort n := by
  rw [parseOptionalPort] at parsed
  split at parsed
  · next empty =>
      cases parsed
      exact ⟨none, if_pos empty, rfl⟩
  · obtain ⟨n, read, rfl⟩ := readPort_of_parsePort parsed
    exact ⟨some n, read, rfl⟩

theorem pton_of_checkIpV4 {inet : Inet} {text : Bytes} {u : Unit}
    (checked : checkIpV4 inet text = .ok u) : ∃ addr, inet.pton .inet text = some addr := by
  rw [checkIpV4] at checked
  split at checked
  · next known => exact Option.isSome_iff_exists.mp known
  · cases checked

theorem pton_of_normalizeIpV6 {inet : Inet} {text normal : Bytes}
    (normalized : normalizeIpV6 inet text = .ok normal) :
    ∃ addr, inet.pton .inet6 text = some addr ∧ normal = cstr (inet.ntop .inet6 addr) := by
  rw [normalizeIpV6] at normalized
  split at normalized
  · next addr known => exact ⟨addr, known, (Except.ok.inj normalized).symm⟩
  · cases normalized

theorem readSpec_eq {inet : Inet} {spec : Bytes} {s : ClientSpec}
    (family : (specTexts spec).family = s.family)
    (srcAddr : inet.pton s.family (specTexts spec).srcAddr = some s.srcAddr)
    (srcPort : readPort (specTexts spec).srcPort = some s.srcPort)
    (test : readTest inet s.family (specTexts spec).testAddr (specTexts spec).testPort =
      some s.test) :
    readSpec inet spec = some s := by
  rw [readSpec]
  simp only [family, srcAddr, srcPort, test]

variable {inet : Inet} (canonical : inet.Canonical)

include canonical

theorem readTest_of_pton {family : AddrFamily} {text port addr : Bytes} {n : Option Nat}
    (known : inet.pton family text = some addr) (read : readPort port = some n) :
    readTest inet family text port = some (some ⟨addr, n⟩) := by
  have nonempty : text ≠ [] := by
    intro same
    subst same
    rw [canonical.pton_nil] at known
    cases known
  rw [readTest, if_neg nonempty, known, read]

theorem length_of_readTest {family : AddrFamily} {text port : Bytes}
    {test : Option TestServerSpec} (read : readTest inet family text port = some test) :
    ∀ t ∈ test, t.addr.length = family.addrSize := by
  intro t given
  cases given
  rw [readTest] at read
  split at read
  · split at read <;> cases read
  · split at read
    · next addr n known _ =>
        cases read
        exact canonical.length_pton known
    · cases read

/-- The entry at the end of the parsers is that of the spec. -/
theorem specEntry_eq {s : ClientSpec} (size : ∀ t ∈ s.test, t.addr.length = s.family.addrSize) :
    specEntry (inet.ntop s.family s.srcAddr) (networkPort s.srcPort)
      (testFields inet s.family s.test).1 (testFields inet s.family s.test).2 =
      (s.key inet, s.server inet) := by
  rw [specEntry, Prod.mk.injEq]
  constructor
  · rw [ClientSpec.key]
    cases s.srcPort with
    | none => exact if_neg (not_not.mpr rfl)
    | some port =>
        have is_port : networkPort (some port) ≠ noPort := by
          rw [networkPort, noPort]
          omega
        rw [if_pos is_port]
        rfl
  · rw [ClientSpec.server]
    cases given : s.test with
    | none => rfl
    | some test => exact if_neg (canonical.ntop_ne_nil (size test given))

/-- What is filed for the IPv4 texts of a spec. -/
theorem exists_readSpec_of_ipV4Texts {spec addr : Bytes} {srcPort : Option Nat}
    {test : Option TestServerSpec} (form : specTexts spec = ipV4Texts spec)
    (known : inet.pton .inet (ipV4Texts spec).srcAddr = some addr)
    (readSrc : readPort (ipV4Texts spec).srcPort = some srcPort)
    (given : readTest inet .inet (ipV4Texts spec).testAddr (ipV4Texts spec).testPort = some test) :
    ∃ s, readSpec inet spec = some s ∧
      specEntry (ipV4Texts spec).srcAddr (networkPort srcPort) (testFields inet .inet test).1
        (testFields inet .inet test).2 = (s.key inet, s.server inet) := by
  rw [← form] at known readSrc given ⊢
  have family : (specTexts spec).family = .inet := by
    rw [form]
    rfl
  refine ⟨⟨.inet, addr, srcPort, test⟩, readSpec_eq family known readSrc given, ?_⟩
  rw [← specEntry_eq canonical (length_of_readTest canonical given), canonical.ntop_pton known]

/-- The same without a test server. -/
theorem exists_readSpec_of_source {spec addr : Bytes} {srcPort : Option Nat}
    (form : specTexts spec = ipV4Texts spec)
    (known : inet.pton .inet (ipV4Texts spec).srcAddr = some addr)
    (readSrc : readPort (ipV4Texts spec).srcPort = some srcPort)
    (none_left : (ipV4Texts spec).testAddr = [] ∧ (ipV4Texts spec).testPort = []) :
    ∃ s, readSpec inet spec = some s ∧
      specEntry (ipV4Texts spec).srcAddr (networkPort srcPort) [] noPort =
        (s.key inet, s.server inet) := by
  have no_test : readTest inet .inet (ipV4Texts spec).testAddr (ipV4Texts spec).testPort =
      some none := by
    rw [none_left.1, none_left.2]
    rfl
  exact exists_readSpec_of_ipV4Texts canonical form known readSrc no_test

/-- The same with one. -/
theorem exists_readSpec_of_server {spec addr testAddr : Bytes} {srcPort testPort : Option Nat}
    (form : specTexts spec = ipV4Texts spec)
    (known : inet.pton .inet (ipV4Texts spec).srcAddr = some addr)
    (readSrc : readPort (ipV4Texts spec).srcPort = some srcPort)
    (knownTest : inet.pton .inet (ipV4Texts spec).testAddr = some testAddr)
    (readTo : readPort (ipV4Texts spec).testPort = some testPort) :
    ∃ s, readSpec inet spec = some s ∧
      specEntry (ipV4Texts spec).srcAddr (networkPort srcPort) (ipV4Texts spec).testAddr
        (networkPort testPort) = (s.key inet, s.server inet) := by
  have filed := exists_readSpec_of_ipV4Texts canonical form known readSrc
    (readTest_of_pton canonical knownTest readTo)
  rwa [testFields, canonical.ntop_pton knownTest] at filed

theorem parseIpV4Spec_eq_ok {spec : Bytes} {entry : Bytes × Option TargetTestServer}
    (form : specTexts spec = ipV4Texts spec) (parsed : parseIpV4Spec inet spec = .ok entry) :
    ∃ s, readSpec inet spec = some s ∧ entry = (s.key inet, s.server inet) := by
  rw [parseIpV4Spec] at parsed
  split at parsed
  · next src tokens =>
      obtain ⟨rfl, rest⟩ := tokenize_eq_cons tokens
      have none_left := tokenize_eq_nil rest
      obtain ⟨u, checked, returned⟩ := bind_eq_ok.mp parsed
      obtain ⟨addr, known⟩ := pton_of_checkIpV4 checked
      cases returned
      have readSrc : readPort (ipV4Texts spec).srcPort = some none := by
        rw [ipV4Texts, none_left]
        rfl
      refine exists_readSpec_of_source canonical form known readSrc ?_
      rw [ipV4Texts, none_left]
      exact ⟨rfl, rfl⟩
  · next src port tokens =>
      obtain ⟨rfl, rest⟩ := tokenize_eq_cons tokens
      obtain ⟨rfl, behind⟩ := tokenize_eq_cons rest
      have none_left := tokenize_eq_nil behind
      obtain ⟨srcPort, parsedSrc, checking⟩ := bind_eq_ok.mp parsed
      obtain ⟨u, checked, returned⟩ := bind_eq_ok.mp checking
      obtain ⟨addr, known⟩ := pton_of_checkIpV4 checked
      obtain ⟨n, readSrc, rfl⟩ := readPort_of_parsePort parsedSrc
      cases returned
      refine exists_readSpec_of_source canonical form known readSrc ?_
      rw [ipV4Texts, none_left]
      exact ⟨rfl, rfl⟩
  · next src port test tokens =>
      obtain ⟨rfl, rest⟩ := tokenize_eq_cons tokens
      obtain ⟨rfl, behind⟩ := tokenize_eq_cons rest
      obtain ⟨rfl, last⟩ := tokenize_eq_cons behind
      have none_left := tokenize_eq_nil last
      obtain ⟨u, checkedTest, ports⟩ := bind_eq_ok.mp parsed
      obtain ⟨srcPort, parsedSrc, checking⟩ := bind_eq_ok.mp ports
      obtain ⟨v, checked, returned⟩ := bind_eq_ok.mp checking
      obtain ⟨addr, known⟩ := pton_of_checkIpV4 checked
      obtain ⟨testAddr, knownTest⟩ := pton_of_checkIpV4 checkedTest
      obtain ⟨n, readSrc, rfl⟩ := readPort_of_parsePort parsedSrc
      cases returned
      have no_port : readPort (ipV4Texts spec).testPort = some none := by
        rw [ipV4Texts, none_left]
        rfl
      have filed := exists_readSpec_of_server canonical form known readSrc knownTest no_port
      exact filed
  · next src port test toPort tokens =>
      obtain ⟨rfl, rest⟩ := tokenize_eq_cons tokens
      obtain ⟨rfl, behind⟩ := tokenize_eq_cons rest
      obtain ⟨rfl, last⟩ := tokenize_eq_cons behind
      obtain ⟨rfl, -⟩ := tokenize_eq_cons last
      obtain ⟨testPort, parsedTo, testing⟩ := bind_eq_ok.mp parsed
      obtain ⟨u, checkedTest, ports⟩ := bind_eq_ok.mp testing
      obtain ⟨srcPort, parsedSrc, checking⟩ := bind_eq_ok.mp ports
      obtain ⟨v, checked, returned⟩ := bind_eq_ok.mp checking
      obtain ⟨addr, known⟩ := pton_of_checkIpV4 checked
      obtain ⟨testAddr, knownTest⟩ := pton_of_checkIpV4 checkedTest
      obtain ⟨n, readSrc, rfl⟩ := readPort_of_parsePort parsedSrc
      obtain ⟨m, readTo, rfl⟩ := readPort_of_parsePort parsedTo
      cases returned
      have filed := exists_readSpec_of_server canonical form known readSrc knownTest readTo
      exact filed
  · cases parsed

omit canonical in
/-- The source port of an IPv6 spec, and where the test server is read from. -/
theorem parseIpV6SrcPort_eq_ok {text : Bytes} {port : Int} {next : Option Bytes}
    (parsed : parseIpV6SrcPort (93 :: text) = .ok (port, next)) :
    ∃ n, readPort (ipV6Port text).1 = some n ∧ port = networkPort n ∧
      (next = none ∧ (ipV6Port text).2 = [] ∨ ∃ c, next = some (c :: (ipV6Port text).2)) := by
  rw [parseIpV6SrcPort, List.tail_cons] at parsed
  split at parsed
  · next rest =>
      obtain ⟨p, parsedPort, same⟩ := map_eq_ok.mp parsed
      cases same
      by_cases mem : (58 : UInt8) ∈ rest
      · rw [token_of_mem mem] at parsedPort ⊢
        obtain ⟨n, read, rfl⟩ := readPort_of_parseOptionalPort parsedPort
        exact ⟨n, read, rfl, Or.inr ⟨58, rfl⟩⟩
      · rw [token_of_not_mem mem] at parsedPort ⊢
        obtain ⟨n, read, rfl⟩ := readPort_of_parseOptionalPort parsedPort
        rw [ipV6Port, cut_of_not_mem mem]
        exact ⟨n, read, rfl, Or.inl ⟨rfl, rfl⟩⟩
  · next other =>
      cases parsed
      have bare : ipV6Port text = ([], text) := by
        rw [ipV6Port.eq_def]
        split
        · next rest => exact absurd rfl (other rest)
        · rfl
      rw [bare]
      exact ⟨none, rfl, rfl, Or.inr ⟨93, rfl⟩⟩

/-- A test server in brackets. -/
theorem parseIpV6TestServer_eq_ok {spec close test testAddr : Bytes} {testPort : Int}
    (parsed : parseIpV6TestServer inet spec close test = .ok (testAddr, testPort)) :
    ∃ addr port, inet.pton .inet6 test.tail = some addr ∧
      readPort close.tail.tail = some port ∧
      testAddr = inet.ntop .inet6 addr ∧ testPort = networkPort port := by
  rw [parseIpV6TestServer] at parsed
  split at parsed
  · cases parsed
  · obtain ⟨normal, normalized, parsedPort⟩ := bind_eq_ok.mp parsed
    obtain ⟨addr, known, rfl⟩ := pton_of_normalizeIpV6 normalized
    split at parsedPort
    · cases parsedPort
    · split at parsedPort
      · cases parsedPort
      · next port only =>
          obtain ⟨p, optional, same⟩ := map_eq_ok.mp parsedPort
          cases same
          have clean : (58 : UInt8) ∉ close.tail.tail := by
            intro colon
            rw [token_of_mem colon] at only
            cases only
          rw [token_of_not_mem clean] at only
          cases only
          obtain ⟨n, read, rfl⟩ := readPort_of_parseOptionalPort optional
          exact ⟨addr, n, known, read, canonical.cstr_ntop (canonical.length_pton known), rfl⟩

/-- The test server of an IPv6 spec. -/
theorem parseIpV6Test_eq_ok {spec text testAddr : Bytes} {c : UInt8} {testPort : Int}
    (parsed : parseIpV6Test inet spec (c :: text) = .ok (testAddr, testPort)) :
    ∃ test, readTest inet .inet6 (ipV6Test text).1 (ipV6Test text).2 = some test ∧
      (testAddr, testPort) = testFields inet .inet6 test := by
  rw [parseIpV6Test, List.tail_cons] at parsed
  by_cases mem : (93 : UInt8) ∈ text
  · rw [token_of_mem mem] at parsed
    obtain ⟨a, behind, rfl⟩ := List.exists_cons_of_ne_nil (List.ne_nil_of_mem mem)
    by_cases closed : a = 93
    · subst closed
      have nothing : (cut 93 (93 :: behind)).1 = [] := by simp [cut]
      rw [nothing] at parsed
      cases parsed
      exact ⟨none, rfl, rfl⟩
    · have bracketed : ipV6Test (a :: behind) = ((cut 93 behind).1, (cut 93 behind).2.tail) := by
        rw [ipV6Test, if_neg (by simpa using closed), if_pos mem, List.tail_cons]
      rw [cut_cons_of_ne closed] at parsed
      rw [bracketed]
      obtain ⟨addr, port, known, read, rfl, rfl⟩ := parseIpV6TestServer_eq_ok canonical parsed
      exact ⟨some ⟨addr, port⟩, readTest_of_pton canonical known read, rfl⟩
  · rw [token_of_not_mem mem] at parsed
    have bare : ipV6Test text = (text, []) := by
      have other : text.head? ≠ some 93 := fun first => mem (List.mem_of_head? first)
      rw [ipV6Test, if_neg other, if_neg mem]
    rw [bare]
    cases text with
    | nil =>
        cases parsed
        exact ⟨none, rfl, rfl⟩
    | cons a behind =>
        obtain ⟨normal, normalized, same⟩ := map_eq_ok.mp parsed
        obtain ⟨addr, known, rfl⟩ := pton_of_normalizeIpV6 normalized
        rw [canonical.cstr_ntop (canonical.length_pton known)] at same
        exact ⟨some ⟨addr, none⟩, readTest_of_pton canonical known rfl, same.symm⟩

theorem parseIpV6Spec_eq_ok {body : Bytes} {entry : Bytes × Option TargetTestServer}
    (parsed : parseIpV6Spec inet (91 :: body) = .ok entry) :
    ∃ s, readSpec inet (91 :: body) = some s ∧ entry = (s.key inet, s.server inet) := by
  have texts : specTexts (91 :: body) = ipV6Texts (91 :: body) := if_pos rfl
  have filed : ∀ addr srcPort test, inet.pton .inet6 (cut 93 body).1 = some addr →
      readPort (ipV6Port (cut 93 body).2).1 = some srcPort →
      readTest inet .inet6 (ipV6Test (ipV6Port (cut 93 body).2).2).1
        (ipV6Test (ipV6Port (cut 93 body).2).2).2 = some test →
      ∃ s, readSpec inet (91 :: body) = some s ∧
        specEntry (inet.ntop .inet6 addr) (networkPort srcPort) (testFields inet .inet6 test).1
          (testFields inet .inet6 test).2 = (s.key inet, s.server inet) := by
    intro addr srcPort test known readSrc given
    refine ⟨⟨.inet6, addr, srcPort, test⟩, ?_, ?_⟩
    · apply readSpec_eq
      · rw [texts]
        rfl
      · rw [texts]
        exact known
      · rw [texts]
        exact readSrc
      · rw [texts]
        exact given
    · exact specEntry_eq canonical (s := ⟨.inet6, addr, srcPort, test⟩)
        (length_of_readTest canonical given)
  rw [parseIpV6Spec] at parsed
  by_cases mem : (93 : UInt8) ∈ 91 :: body
  · rw [token_of_mem mem, cut_cons_of_ne (by decide)] at parsed
    obtain ⟨normal, normalized, parsing⟩ := bind_eq_ok.mp parsed
    obtain ⟨addr, known, rfl⟩ := pton_of_normalizeIpV6 normalized
    obtain ⟨⟨srcPort, next⟩, parsedSrc, testing⟩ := bind_eq_ok.mp parsing
    obtain ⟨n, readSrc, rfl, pointer⟩ := parseIpV6SrcPort_eq_ok parsedSrc
    rw [canonical.cstr_ntop (canonical.length_pton known)] at testing
    rcases pointer with ⟨rfl, none_left⟩ | ⟨c, rfl⟩
    · cases testing
      have no_test : readTest inet .inet6 (ipV6Test (ipV6Port (cut 93 body).2).2).1
          (ipV6Test (ipV6Port (cut 93 body).2).2).2 = some none := by
        rw [none_left]
        rfl
      exact filed addr n none known readSrc no_test
    · obtain ⟨⟨testAddr, testPort⟩, parsedTest, returned⟩ := bind_eq_ok.mp testing
      obtain ⟨test, given, fields⟩ := parseIpV6Test_eq_ok canonical parsedTest
      cases returned
      obtain ⟨s, read, same⟩ := filed addr n test known readSrc given
      rw [← fields] at same
      exact ⟨s, read, same⟩
  · rw [token_of_not_mem mem] at parsed
    cases parsed

/-- The addresses of a spec are as long as its family says. -/
theorem length_of_readSpec {spec : Bytes} {s : ClientSpec} (read : readSpec inet spec = some s) :
    s.srcAddr.length = s.family.addrSize ∧ ∀ t ∈ s.test, t.addr.length = s.family.addrSize := by
  rw [readSpec] at read
  split at read
  · next addr port test known _ given =>
      cases read
      exact ⟨canonical.length_pton known, length_of_readTest canonical given⟩
  · cases read

/-- What is filed for an accepted spec. -/
theorem create_eq_ok {spec : Bytes} {entry : Bytes × Option TargetTestServer}
    (accepted : tcpIpCreateTargetTestServer inet spec = .ok entry) :
    ∃ s, readSpec inet spec = some s ∧ entry = (s.key inet, s.server inet) := by
  rw [tcpIpCreateTargetTestServer] at accepted
  split at accepted
  · next bracket =>
      obtain ⟨body, rfl⟩ := List.head?_eq_some_iff.mp bracket
      exact parseIpV6Spec_eq_ok canonical accepted
  · next other => exact parseIpV4Spec_eq_ok canonical (if_neg other) accepted

end Accepted

end PacketReplay
