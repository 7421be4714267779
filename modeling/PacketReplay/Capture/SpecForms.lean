import PacketReplay.Capture.IpV6Text
import PacketReplay.Capture.SpecPointers

/-!
# The documented forms of a spec

A spec is an address with, possibly, a port, a test address and a test port behind it,
where each part is only given with those in front of it. IPv6 addresses stand in
brackets. `acceptedAsMeant_iff` says which of the IPv6 specs are accepted with this
meaning, and `parsedExactly_iff` for which strings the IPv4 parser tells the specs from
all other strings.
-/

namespace PacketReplay

open Lib

/-- The forms of a spec. -/
inductive SpecForm : Type
  | source (src : Bytes)
  | sourcePort (src port : Bytes)
  | server (src port test : Bytes)
  | serverPort (src port test toPort : Bytes)
  deriving DecidableEq, Repr

namespace SpecForm

def srcAddr : SpecForm → Bytes
  | .source src => src
  | .sourcePort src _ => src
  | .server src _ _ => src
  | .serverPort src _ _ _ => src

def srcPort? : SpecForm → Option Bytes
  | .source _ => none
  | .sourcePort _ port => some port
  | .server _ port _ => some port
  | .serverPort _ port _ _ => some port

def testAddr? : SpecForm → Option Bytes
  | .source _ => none
  | .sourcePort _ _ => none
  | .server _ _ test => some test
  | .serverPort _ _ test _ => some test

def testPort? : SpecForm → Option Bytes
  | .source _ => none
  | .sourcePort _ _ => none
  | .server _ _ _ => none
  | .serverPort _ _ _ toPort => some toPort

def parts : SpecForm → List Bytes
  | .source src => [src]
  | .sourcePort src port => [src, port]
  | .server src port test => [src, port, test]
  | .serverPort src port test toPort => [src, port, test, toPort]

/-- The parts with colons between them. -/
def ipV4Text (form : SpecForm) : Bytes := [58].intercalate form.parts

def bracketed (text : Bytes) : Bytes := 91 :: (text ++ [93])

/-- The parts with colons between them, the addresses in brackets. -/
def ipV6Text : SpecForm → Bytes
  | .source src => bracketed src
  | .sourcePort src port => bracketed src ++ 58 :: port
  | .server src port test => bracketed src ++ 58 :: (port ++ 58 :: bracketed test)
  | .serverPort src port test toPort =>
      bracketed src ++ 58 :: (port ++ 58 :: (bracketed test ++ 58 :: toPort))

/-- A number in decimal digits below `2 ^ 16`. -/
def PortText (text : Bytes) : Prop :=
  text ≠ [] ∧ (∀ c ∈ text, isdigit 10 c = true) ∧ digitsValue 10 text < 2 ^ 16

instance (text : Bytes) : Decidable (PortText text) := inferInstanceAs (Decidable (_ ∧ _))

/-- The addresses are addresses. -/
def Addresses (inet : Inet) (family : AddrFamily) (form : SpecForm) : Prop :=
  (inet.pton family form.srcAddr).isSome ∧
    ∀ test ∈ form.testAddr?, (inet.pton family test).isSome

/-- The ports are ports. -/
def Ports (form : SpecForm) : Prop :=
  (∀ port ∈ form.srcPort?, PortText port) ∧ ∀ toPort ∈ form.testPort?, PortText toPort

instance (inet : Inet) (family : AddrFamily) (form : SpecForm) :
    Decidable (form.Addresses inet family) := inferInstanceAs (Decidable (_ ∧ _))

instance (form : SpecForm) : Decidable form.Ports := inferInstanceAs (Decidable (_ ∧ _))

/-- The text an address is kept as: that of an IPv6 address is normalised. -/
def keptText (inet : Inet) : AddrFamily → Bytes → Bytes
  | .inet, text => text
  | .inet6, text => ((inet.pton .inet6 text).map (inet.ntop .inet6)).getD text

/-- The key of a source address and port. -/
def keyText (addr : Bytes) : Option Bytes → Bytes
  | some port => addr ++ 58 :: toDecimal (htons (digitsValue 10 port)).toNat
  | none => addr

/-- The key of the source address and, if it is given, its port, and a test server
exactly when there is a test address, with that address and, if it is given, its port. -/
structure FiledAs (inet : Inet) (family : AddrFamily) (form : SpecForm)
    (entry : Bytes × Option TargetTestServer) : Prop where
  key : entry.1 = keyText (keptText inet family form.srcAddr) form.srcPort?
  server : entry.2.isSome = form.testAddr?.isSome
  testAddr : ∀ server ∈ entry.2, ∀ test ∈ form.testAddr?,
    server.testAddr = keptText inet family test
  testPort : ∀ server ∈ entry.2, ∀ toPort ∈ form.testPort?,
    server.testPort = digitsValue 10 toPort

/-! ## The entry of a form -/

/-- A port as the parsers hold it. -/
def heldPort (port : Option Bytes) : Int := networkPort (port.map (digitsValue 10))

/-- The entry at the end of the parsers. -/
def entry (inet : Inet) (family : AddrFamily) (form : SpecForm) :
    Bytes × Option TargetTestServer :=
  specEntry (keptText inet family form.srcAddr) (heldPort form.srcPort?)
    ((form.testAddr?.map (keptText inet family)).getD []) (heldPort form.testPort?)

theorem htons_htons {n : Nat} (small : n < 2 ^ 16) : (htons (htons n).toNat).toNat = n := by
  have number : (UInt16.ofInt n).toNat = n := by
    rw [UInt16.ofInt, UInt16.toNat_ofNat']
    omega
  rw [htons_toNat, htons, swapBytes_swapBytes, number]

theorem filedAs_entry {inet : Inet} {family : AddrFamily} {form : SpecForm}
    (kept : ∀ test ∈ form.testAddr?, keptText inet family test ≠ []) (ports : form.Ports) :
    form.FiledAs inet family (form.entry inet family) where
  key := by
    rw [entry, specEntry, heldPort]
    dsimp only
    cases form.srcPort? with
    | none => exact if_neg (not_not.mpr rfl)
    | some port =>
        have is_port : networkPort ((some port).map (digitsValue 10)) ≠ noPort := by
          rw [Option.map_some, networkPort, noPort]
          omega
        rw [if_pos is_port, keyText, List.append_assoc]
        rfl
  server := by
    rw [entry, specEntry]
    cases given : form.testAddr? with
    | none => rfl
    | some test => exact congrArg Option.isSome (if_neg (kept test given))
  testAddr := by
    intro server present test given
    rw [entry, specEntry, given] at present
    simp only [Option.map_some, Option.getD_some, if_neg (kept test given)] at present
    cases present
    rfl
  testPort := by
    intro server present toPort given
    rw [entry, specEntry, given] at present
    simp only at present
    split at present
    · cases present
    · cases present
      have small := (ports.2 toPort given).2.2
      exact congrArg Nat.cast (htons_htons small)

theorem PortText.stoul_eq {text : Bytes} (port : PortText text) :
    stoul text = .ok (digitsValue 10 text) := by
  have number := stoul_digits (t := []) port.1 port.2.1 (by simp)
  have small := port.2.2
  rwa [List.append_nil, if_neg (by omega)] at number

theorem PortText.not_mem_colon {text : Bytes} (port : PortText text) : (58 : UInt8) ∉ text := by
  intro colon
  have digit := port.2.1 58 colon
  revert digit
  decide

theorem parsePort_of_portText {text : Bytes} (port : PortText text) :
    parsePort text = .ok (heldPort (some text)) := by
  rw [parsePort, port.stoul_eq]
  rfl

theorem parseOptionalPort_of_portText {text : Bytes} (port : PortText text) :
    parseOptionalPort text = .ok (heldPort (some text)) := by
  rw [parseOptionalPort, if_neg port.1, parsePort_of_portText port]

/-! ## IPv6 -/

/-- `inet_pton` takes an IPv6 address in hexadecimal with colons, and dots in an IPv4
part, only. -/
def PlainIpV6 (inet : Inet) : Prop :=
  ∀ {text addr}, inet.pton .inet6 text = some addr →
    ∀ c ∈ text, isdigit 16 c = true ∨ c = 58 ∨ c = 46

/-- The spec is accepted with the meaning of its form. -/
def AcceptedAsMeant (inet : Inet) (form : SpecForm) : Prop :=
  ∃ entry, tcpIpCreateTargetTestServer inet form.ipV6Text = .ok entry ∧
    form.FiledAs inet .inet6 entry

section IpV6

variable {inet : Inet} (canonical : inet.Canonical) (plain : PlainIpV6 inet)

include canonical

theorem normalizeIpV6_of_isSome {text : Bytes} (known : (inet.pton .inet6 text).isSome) :
    normalizeIpV6 inet text = .ok (keptText inet .inet6 text) := by
  obtain ⟨addr, known⟩ := Option.isSome_iff_exists.mp known
  rw [normalizeIpV6, keptText, known]
  exact congrArg Except.ok (canonical.cstr_ntop (canonical.length_pton known))

theorem keptText_ne_nil {text : Bytes} (known : (inet.pton .inet6 text).isSome) :
    keptText inet .inet6 text ≠ [] := by
  obtain ⟨addr, known⟩ := Option.isSome_iff_exists.mp known
  rw [keptText, known]
  exact canonical.ntop_ne_nil (canonical.length_pton known)

include plain

omit canonical in
theorem not_mem_bracket {text : Bytes} (known : (inet.pton .inet6 text).isSome) :
    (93 : UInt8) ∉ text := by
  obtain ⟨addr, known⟩ := Option.isSome_iff_exists.mp known
  intro bracket
  have symbol := plain known 93 bracket
  revert symbol
  decide

/-- Behind the source address and its brackets. -/
theorem create_bracketed {src : Bytes} (known : (inet.pton .inet6 src).isSome) (behind : Bytes) :
    tcpIpCreateTargetTestServer inet (bracketed src ++ behind) = do
      let (srcPort, next) ← parseIpV6SrcPort (93 :: behind)
      match next with
      | none => return specEntry (keptText inet .inet6 src) srcPort [] noPort
      | some first => do
          let (testAddr, testPort) ← parseIpV6Test inet (bracketed src ++ behind) first
          return specEntry (keptText inet .inet6 src) srcPort testAddr testPort := by
  have clean : (93 : UInt8) ∉ 91 :: src := by
    rw [List.mem_cons, not_or]
    exact ⟨by decide, not_mem_bracket plain known⟩
  have text : bracketed src ++ behind = (91 :: src) ++ 93 :: behind := by
    simp [bracketed]
  have bracket : (bracketed src ++ behind).head? = some 91 := rfl
  rw [tcpIpCreateTargetTestServer, if_pos bracket, parseIpV6Spec, text, token_append clean]
  simp only [List.tail_cons, normalizeIpV6_of_isSome canonical known]
  rfl

theorem create_source {src : Bytes} (known : (inet.pton .inet6 src).isSome) :
    tcpIpCreateTargetTestServer inet (ipV6Text (.source src)) =
      .ok (entry inet .inet6 (.source src)) := by
  have created := create_bracketed canonical plain known []
  rw [List.append_nil] at created
  rw [ipV6Text, created]
  rfl

theorem create_sourcePort {src port : Bytes} (known : (inet.pton .inet6 src).isSome)
    (ported : PortText port) :
    tcpIpCreateTargetTestServer inet (ipV6Text (.sourcePort src port)) =
      .ok (entry inet .inet6 (.sourcePort src port)) := by
  rw [ipV6Text, create_bracketed canonical plain known, parseIpV6SrcPort, List.tail_cons]
  simp only
  rw [token_of_not_mem ported.not_mem_colon, parseOptionalPort_of_portText ported]
  rfl

/-- Behind the source port and the opening bracket. -/
theorem create_test {src port test : Bytes} (known : (inet.pton .inet6 src).isSome)
    (ported : PortText port) (tested : (inet.pton .inet6 test).isSome) (behind : Bytes) :
    tcpIpCreateTargetTestServer inet
        (bracketed src ++ 58 :: (port ++ 58 :: (bracketed test ++ behind))) =
      (parseIpV6TestServer inet
        (bracketed src ++ 58 :: (port ++ 58 :: (bracketed test ++ behind)))
        (93 :: behind) (91 :: test)).map fun server =>
          specEntry (keptText inet .inet6 src) (heldPort (some port)) server.1 server.2 := by
  have clean : (93 : UInt8) ∉ 91 :: test := by
    rw [List.mem_cons, not_or]
    exact ⟨by decide, not_mem_bracket plain tested⟩
  have text : bracketed test ++ behind = (91 :: test) ++ 93 :: behind := by
    simp [bracketed]
  rw [create_bracketed canonical plain known, parseIpV6SrcPort, List.tail_cons]
  simp only
  rw [token_append ported.not_mem_colon, parseOptionalPort_of_portText ported]
  simp only [Except.map, ok_bind]
  rw [parseIpV6Test, List.tail_cons, text, token_append clean]
  rfl

theorem create_serverPort {src port test toPort : Bytes} (known : (inet.pton .inet6 src).isSome)
    (ported : PortText port) (tested : (inet.pton .inet6 test).isSome)
    (toPorted : PortText toPort) :
    tcpIpCreateTargetTestServer inet (ipV6Text (.serverPort src port test toPort)) =
      .ok (entry inet .inet6 (.serverPort src port test toPort)) := by
  rw [ipV6Text, create_test canonical plain known ported tested, parseIpV6TestServer,
    if_neg (by simp), List.tail_cons, normalizeIpV6_of_isSome canonical tested, ok_bind,
    if_neg (by simp), List.tail_cons, List.tail_cons,
    token_of_not_mem toPorted.not_mem_colon]
  simp only [parseOptionalPort_of_portText toPorted]
  rfl

/-- Behind the bracket of a test address there has to be a colon. -/
theorem create_server {src port test : Bytes} (known : (inet.pton .inet6 src).isSome)
    (ported : PortText port) (tested : (inet.pton .inet6 test).isSome) :
    ∃ e, tcpIpCreateTargetTestServer inet (ipV6Text (.server src port test)) =
      .error (.thrown e) := by
  have created := create_test canonical plain known ported tested []
  rw [List.append_nil] at created
  rw [ipV6Text, created, parseIpV6TestServer, if_neg (by simp), List.tail_cons,
    normalizeIpV6_of_isSome canonical tested, ok_bind, if_pos (by simp)]
  exact ⟨_, rfl⟩

/-- A documented IPv6 spec is accepted with its meaning exactly when its test address,
if it has one, comes with a port. -/
theorem acceptedAsMeant_iff {form : SpecForm} (addresses : form.Addresses inet .inet6)
    (ports : form.Ports) :
    AcceptedAsMeant inet form ↔ (form.testAddr?.isSome → form.testPort?.isSome) := by
  have filed : form.FiledAs inet .inet6 (form.entry inet .inet6) :=
    filedAs_entry (fun test given => keptText_ne_nil canonical (addresses.2 test given)) ports
  cases form with
  | source src =>
      exact iff_of_true ⟨_, create_source canonical plain addresses.1, filed⟩ (by simp [testAddr?])
  | sourcePort src port =>
      exact iff_of_true
        ⟨_, create_sourcePort canonical plain addresses.1 (ports.1 port rfl), filed⟩
        (by simp [testAddr?])
  | server src port test =>
      have known : (inet.pton .inet6 src).isSome := addresses.1
      refine iff_of_false ?_ (by simp [testAddr?, testPort?])
      intro accepted
      rcases accepted with ⟨entry, created, -⟩
      rcases create_server canonical plain known (ports.1 port rfl) (addresses.2 test rfl)
        with ⟨e, thrown⟩
      rw [thrown] at created
      cases created
  | serverPort src port test toPort =>
      exact iff_of_true
        ⟨_, create_serverPort canonical plain addresses.1 (ports.1 port rfl)
          (addresses.2 test rfl) (ports.2 toPort rfl), filed⟩
        (by simp [testPort?])

end IpV6

theorem numericInet_plainIpV6 : PlainIpV6 numericInet := by
  intro text addr known c mem
  obtain ⟨groups, read, -⟩ := Option.map_eq_some_iff.mp known
  rw [readGroups] at read
  split at read
  · next form =>
      rw [← form.2] at mem
      exact forall_mem_writeGroups (P := fun c => isdigit 16 c = true ∨ c = 58 ∨ c = 46)
        (Or.inr (Or.inl rfl)) (fun _ digit => Or.inl digit) c mem
  · cases read

theorem acceptedAsMeant_linkLocal :
    AcceptedAsMeant numericInet
        (.serverPort (ascii "fe80::1") (ascii "80") (ascii "fe80::2") (ascii "8080")) ↔
      ((some (ascii "fe80::2")).isSome → (some (ascii "8080")).isSome) :=
  acceptedAsMeant_iff numericInet_canonical numericInet_plainIpV6 (by decide +kernel)
    (by decide +kernel)

/-- `[fe80::1]:80:[fe80::2]` is refused. -/
theorem not_acceptedAsMeant_server :
    ¬ ∀ inet : Inet, inet.Canonical → PlainIpV6 inet → ∀ form : SpecForm,
      form.Addresses inet .inet6 → form.Ports → AcceptedAsMeant inet form := by
  intro always
  have known : (numericInet.pton .inet6 (ascii "fe80::1")).isSome := by decide +kernel
  have tested : (numericInet.pton .inet6 (ascii "fe80::2")).isSome := by decide +kernel
  have ported : PortText (ascii "80") := by decide +kernel
  rcases always numericInet numericInet_canonical numericInet_plainIpV6
    (.server (ascii "fe80::1") (ascii "80") (ascii "fe80::2")) (by decide +kernel)
    (by decide +kernel)
    with ⟨entry, created, -⟩
  rcases create_server numericInet_canonical numericInet_plainIpV6 known ported tested
    with ⟨e, thrown⟩
  rw [thrown] at created
  cases created

/-! ## IPv4 -/

/-- The texts given for ports are taken for numbers. -/
def Numbers (form : SpecForm) : Prop :=
  (∀ port ∈ form.srcPort?, ∃ n, stoul port = .ok n) ∧
    ∀ toPort ∈ form.testPort?, ∃ n, stoul toPort = .ok n

/-- The texts given for ports have no colon. -/
def Separated (form : SpecForm) : Prop :=
  (∀ port ∈ form.srcPort?, (58 : UInt8) ∉ port) ∧ ∀ toPort ∈ form.testPort?, (58 : UInt8) ∉ toPort

/-- The string is parsed as a spec when it is one, and refused when it is none. -/
def ParsedExactly (inet : Inet) (s : Bytes) : Prop :=
  (∀ form : SpecForm, form.Addresses inet .inet → form.Ports → s = form.ipV4Text →
    ∃ entry, tcpIpCreateTargetTestServer inet s = .ok entry ∧ form.FiledAs inet .inet entry) ∧
  ((¬ ∃ form : SpecForm, form.Addresses inet .inet ∧ form.Ports ∧ s = form.ipV4Text) →
    ∃ e, tcpIpCreateTargetTestServer inet s = .error (.thrown e))

/-- What is taken for a number where a port should be is a port, and no separator stands
at the end. -/
def StrictlyWritten (inet : Inet) (s : Bytes) : Prop :=
  ∀ form : SpecForm, form.Addresses inet .inet → form.Numbers → form.Separated →
    (s = form.ipV4Text → form.Ports) ∧ s ≠ form.ipV4Text ++ [58]

section IpV4

variable {inet : Inet} {s : Bytes} {form : SpecForm}

theorem Ports.numbers (ports : form.Ports) : form.Numbers :=
  ⟨fun port given => ⟨_, (ports.1 port given).stoul_eq⟩,
    fun toPort given => ⟨_, (ports.2 toPort given).stoul_eq⟩⟩

theorem Ports.separated (ports : form.Ports) : form.Separated :=
  ⟨fun port given => (ports.1 port given).not_mem_colon,
    fun toPort given => (ports.2 toPort given).not_mem_colon⟩

theorem checkIpV4_of_isSome {text : Bytes} (known : (inet.pton .inet text).isSome) :
    checkIpV4 inet text = .ok () := if_pos known

theorem defined_checkIpV4 (text : Bytes) : Defined (checkIpV4 inet text) := by
  rw [checkIpV4]
  split
  · exact defined_ok _
  · exact defined_thrown _

theorem defined_parseIpV4Spec (s : Bytes) : Defined (parseIpV4Spec inet s) := by
  rw [parseIpV4Spec]
  split
  · exact defined_bind_ok.mpr (defined_checkIpV4 _)
  · refine (defined_parsePort _).bind fun srcPort _ => ?_
    exact defined_bind_ok.mpr (defined_checkIpV4 _)
  · refine (defined_checkIpV4 _).bind fun _ _ => ?_
    refine (defined_parsePort _).bind fun srcPort _ => ?_
    exact defined_bind_ok.mpr (defined_checkIpV4 _)
  · refine (defined_parsePort _).bind fun testPort _ => ?_
    refine (defined_checkIpV4 _).bind fun _ _ => ?_
    refine (defined_parsePort _).bind fun srcPort _ => ?_
    exact defined_bind_ok.mpr (defined_checkIpV4 _)
  · exact defined_thrown _

/-- What the parser holds for a port. -/
def Holds (held : Int) : Option Bytes → Prop
  | some text => parsePort text = .ok held
  | none => held = noPort

/-- Tokens that are those of a form are accepted. -/
theorem parseIpV4Spec_of_tokens {srcPort testPort : Int} (tokens : tokenize s 58 = form.parts)
    (addresses : form.Addresses inet .inet) (srcHeld : Holds srcPort form.srcPort?)
    (testHeld : Holds testPort form.testPort?) :
    parseIpV4Spec inet s =
      .ok (specEntry form.srcAddr srcPort (form.testAddr?.getD []) testPort) := by
  have known := checkIpV4_of_isSome addresses.1
  have tested := fun test given => checkIpV4_of_isSome (addresses.2 test given)
  rw [parseIpV4Spec, tokens]
  cases form with
  | source src =>
      rw [srcAddr] at known
      cases srcHeld
      cases testHeld
      simp only [parts, known, ok_bind]
      rfl
  | sourcePort src port =>
      rw [srcAddr] at known
      rw [srcPort?, Holds] at srcHeld
      cases testHeld
      simp only [parts, srcHeld, known, ok_bind]
      rfl
  | server src port test =>
      rw [srcAddr] at known
      rw [srcPort?, Holds] at srcHeld
      cases testHeld
      simp only [parts, tested test rfl, srcHeld, known, ok_bind]
      rfl
  | serverPort src port test toPort =>
      rw [srcAddr] at known
      rw [srcPort?, Holds] at srcHeld
      rw [testPort?, Holds] at testHeld
      simp only [parts, testHeld, tested test rfl, srcHeld, known, ok_bind]
      rfl

theorem exists_holds {port : Option Bytes} (number : ∀ text ∈ port, ∃ n, stoul text = .ok n) :
    ∃ held, Holds held port := by
  cases port with
  | none => exact ⟨_, rfl⟩
  | some text =>
      obtain ⟨n, number⟩ := number text rfl
      refine ⟨(htons n).toNat, ?_⟩
      rw [Holds, parsePort, number]

theorem holds_heldPort {port : Option Bytes} (ported : ∀ text ∈ port, PortText text) :
    Holds (heldPort port) port := by
  cases port with
  | none => rfl
  | some text => exact parsePort_of_portText (ported text rfl)

/-- Tokens that are accepted are those of a form. -/
theorem form_of_parseIpV4Spec {entry : Bytes × Option TargetTestServer}
    (parsed : parseIpV4Spec inet s = .ok entry) :
    ∃ form : SpecForm, tokenize s 58 = form.parts ∧ form.Addresses inet .inet ∧
      form.Numbers := by
  have known : ∀ {text u}, checkIpV4 inet text = .ok u → (inet.pton .inet text).isSome := by
    intro text u checked
    exact Option.isSome_iff_exists.mpr (pton_of_checkIpV4 checked)
  have number : ∀ {text port}, parsePort text = .ok port → ∃ n, stoul text = .ok n := by
    intro text port parsedPort
    obtain ⟨n, number, -⟩ := parsePort_eq_ok parsedPort
    exact ⟨n, number⟩
  rw [parseIpV4Spec] at parsed
  split at parsed
  · next src tokens =>
      obtain ⟨u, checked, -⟩ := bind_eq_ok.mp parsed
      exact ⟨.source src, tokens, ⟨known checked, by simp [testAddr?]⟩,
        by simp [srcPort?], by simp [testPort?]⟩
  · next src port tokens =>
      obtain ⟨srcPort, parsedSrc, checking⟩ := bind_eq_ok.mp parsed
      obtain ⟨u, checked, -⟩ := bind_eq_ok.mp checking
      exact ⟨.sourcePort src port, tokens, ⟨known checked, by simp [testAddr?]⟩,
        by simpa [srcPort?] using number parsedSrc, by simp [testPort?]⟩
  · next src port test tokens =>
      obtain ⟨u, checkedTest, ports⟩ := bind_eq_ok.mp parsed
      obtain ⟨srcPort, parsedSrc, checking⟩ := bind_eq_ok.mp ports
      obtain ⟨v, checked, -⟩ := bind_eq_ok.mp checking
      exact ⟨.server src port test, tokens,
        ⟨known checked, by simpa [testAddr?] using known checkedTest⟩,
        by simpa [srcPort?] using number parsedSrc, by simp [testPort?]⟩
  · next src port test toPort tokens =>
      obtain ⟨testPort, parsedTo, testing⟩ := bind_eq_ok.mp parsed
      obtain ⟨u, checkedTest, ports⟩ := bind_eq_ok.mp testing
      obtain ⟨srcPort, parsedSrc, checking⟩ := bind_eq_ok.mp ports
      obtain ⟨v, checked, -⟩ := bind_eq_ok.mp checking
      exact ⟨.serverPort src port test toPort, tokens,
        ⟨known checked, by simpa [testAddr?] using known checkedTest⟩,
        by simpa [srcPort?] using number parsedSrc, by simpa [testPort?] using number parsedTo⟩
  · cases parsed

theorem parts_injective {f g : SpecForm} (same : f.parts = g.parts) : f = g := by
  cases f <;> cases g <;> simp_all [parts]

variable (canonical : inet.Canonical)

include canonical

/-- The last part of a form is not empty. -/
theorem getLast_parts_ne_nil (addresses : form.Addresses inet .inet) (numbers : form.Numbers) :
    ∃ some_part : form.parts ≠ [], form.parts.getLast some_part ≠ [] := by
  have addr : ∀ {text}, (inet.pton .inet text).isSome → text ≠ [] := by
    intro text known same
    subst same
    rw [canonical.pton_nil] at known
    cases known
  have numeral : ∀ {text}, (∃ n, stoul text = .ok n) → text ≠ [] := by
    intro text number same
    subst same
    rcases number with ⟨n, number⟩
    cases number
  cases form with
  | source src => exact ⟨by simp [parts], addr addresses.1⟩
  | sourcePort src port => exact ⟨by simp [parts], numeral (numbers.1 port rfl)⟩
  | server src port test => exact ⟨by simp [parts], addr (addresses.2 test rfl)⟩
  | serverPort src port test toPort => exact ⟨by simp [parts], numeral (numbers.2 toPort rfl)⟩

/-- Addresses have no colon, so that only the ports can be cut. -/
theorem clean_parts_iff (addresses : form.Addresses inet .inet) :
    (∀ part ∈ form.parts, (58 : UInt8) ∉ part) ↔ form.Separated := by
  have addr : ∀ {text}, (inet.pton .inet text).isSome → (58 : UInt8) ∉ text := by
    intro text known
    obtain ⟨addr, known⟩ := Option.isSome_iff_exists.mp known
    have clean := canonical.colon_inet (canonical.length_pton known)
    rwa [canonical.ntop_pton known] at clean
  cases form with
  | source src =>
      have clean : (58 : UInt8) ∉ src := addr addresses.1
      simpa [parts, Separated, srcPort?, testPort?] using clean
  | sourcePort src port =>
      have clean : (58 : UInt8) ∉ src := addr addresses.1
      simp [parts, Separated, srcPort?, testPort?, clean]
  | server src port test =>
      have clean : (58 : UInt8) ∉ src := addr addresses.1
      have tested := addr (addresses.2 test rfl)
      simp [parts, Separated, srcPort?, testPort?, clean, tested]
  | serverPort src port test toPort =>
      have clean : (58 : UInt8) ∉ src := addr addresses.1
      have tested := addr (addresses.2 test rfl)
      simp [parts, Separated, srcPort?, testPort?, clean, tested]

/-- The tokens of a string are those of a form when it is its text, with or without a
colon behind it. -/
theorem tokenize_eq_parts_iff (addresses : form.Addresses inet .inet) (numbers : form.Numbers) :
    tokenize s 58 = form.parts ↔
      form.Separated ∧ (s = form.ipV4Text ∨ s = form.ipV4Text ++ [58]) := by
  obtain ⟨some_part, last⟩ := getLast_parts_ne_nil canonical addresses numbers
  rw [tokenize, getlines_eq_iff some_part last, clean_parts_iff canonical addresses]
  rfl

theorem ipV4Text_injective {f g : SpecForm} (left : f.Addresses inet .inet) (leftPorts : f.Ports)
    (right : g.Addresses inet .inet) (numbers : g.Numbers) (separated : g.Separated)
    (same : s = f.ipV4Text) (other : s = g.ipV4Text ∨ s = g.ipV4Text ++ [58]) : f = g := by
  have tokens := (tokenize_eq_parts_iff canonical left leftPorts.numbers).mpr
    ⟨leftPorts.separated, Or.inl same⟩
  rw [(tokenize_eq_parts_iff canonical right numbers).mpr ⟨separated, other⟩] at tokens
  exact (parts_injective tokens).symm

/-- The text of a form, with or without a colon behind it, is accepted. -/
theorem create_ipV4 (other : s.head? ≠ some 91) (addresses : form.Addresses inet .inet)
    (numbers : form.Numbers) (separated : form.Separated)
    (text : s = form.ipV4Text ∨ s = form.ipV4Text ++ [58]) :
    ∃ entry, tcpIpCreateTargetTestServer inet s = .ok entry := by
  have tokens := (tokenize_eq_parts_iff canonical addresses numbers).mpr ⟨separated, text⟩
  obtain ⟨srcPort, srcHeld⟩ := exists_holds numbers.1
  obtain ⟨testPort, testHeld⟩ := exists_holds numbers.2
  rw [tcpIpCreateTargetTestServer, if_neg other,
    parseIpV4Spec_of_tokens tokens addresses srcHeld testHeld]
  exact ⟨_, rfl⟩

/-- A spec is accepted with its meaning. -/
theorem create_ipV4_filed (other : s.head? ≠ some 91) (addresses : form.Addresses inet .inet)
    (ports : form.Ports) (text : s = form.ipV4Text) :
    ∃ entry, tcpIpCreateTargetTestServer inet s = .ok entry ∧ form.FiledAs inet .inet entry := by
  have tokens := (tokenize_eq_parts_iff canonical addresses ports.numbers).mpr
    ⟨ports.separated, Or.inl text⟩
  have kept : ∀ test ∈ form.testAddr?, keptText inet .inet test ≠ [] := by
    intro test given same
    have known := addresses.2 test given
    rw [keptText] at same
    rw [same, canonical.pton_nil] at known
    cases known
  refine ⟨form.entry inet .inet, ?_, filedAs_entry kept ports⟩
  rw [tcpIpCreateTargetTestServer, if_neg other,
    parseIpV4Spec_of_tokens tokens addresses (holds_heldPort ports.1) (holds_heldPort ports.2)]
  rw [entry, show keptText inet .inet = id from funext fun _ => rfl, Option.map_id]
  rfl

/-- IPv4 specs are told from all other strings exactly on the strings that are strictly
written: a port is read as far as it is a number, and a separator at the end is not
seen. -/
theorem parsedExactly_iff (other : s.head? ≠ some 91) :
    ParsedExactly inet s ↔ StrictlyWritten inet s := by
  constructor
  · intro exactly form addresses numbers separated
    have strict : s = form.ipV4Text ∨ s = form.ipV4Text ++ [58] →
        form.Ports ∧ s = form.ipV4Text := by
      intro text
      obtain ⟨entry, accepted⟩ := create_ipV4 canonical other addresses numbers separated text
      by_contra loose
      have none_strict : ¬ ∃ f : SpecForm, f.Addresses inet .inet ∧ f.Ports ∧ s = f.ipV4Text := by
        intro given
        rcases given with ⟨f, known, ports, same⟩
        have eq := ipV4Text_injective canonical known ports addresses numbers separated same text
        subst eq
        exact loose ⟨ports, same⟩
      obtain ⟨e, thrown⟩ := exactly.2 none_strict
      rw [thrown] at accepted
      cases accepted
    refine ⟨fun text => (strict (Or.inl text)).1, fun text => ?_⟩
    have bare := (strict (Or.inr text)).2
    rw [text] at bare
    exact absurd (congrArg List.length bare) (by simp)
  · intro strictly
    refine ⟨fun form addresses ports text =>
      create_ipV4_filed canonical other addresses ports text, ?_⟩
    intro none_strict
    have defined : Defined (parseIpV4Spec inet s) := defined_parseIpV4Spec s
    rw [tcpIpCreateTargetTestServer, if_neg other]
    rcases parsed : parseIpV4Spec inet s with (e | u) | entry
    · exact ⟨e, rfl⟩
    · exact absurd parsed (defined u)
    · obtain ⟨form, tokens, addresses, numbers⟩ := form_of_parseIpV4Spec parsed
      rcases (tokenize_eq_parts_iff canonical addresses numbers).mp tokens with
        ⟨separated, text | text⟩
      · have ports := (strictly form addresses numbers separated).1 text
        exact absurd ⟨form, addresses, ports, text⟩ none_strict
      · exact absurd text (strictly form addresses numbers separated).2

end IpV4

theorem parsedExactly_full :
    ParsedExactly numericInet (ascii "10.0.0.1:80:10.0.0.9:8080") ↔
      StrictlyWritten numericInet (ascii "10.0.0.1:80:10.0.0.9:8080") :=
  parsedExactly_iff numericInet_canonical (by decide)

/-- A separator at the end is not seen. -/
theorem not_parsedExactly_separator :
    ¬ ∀ inet : Inet, inet.Canonical → ∀ s : Bytes, s.head? ≠ some 91 → ParsedExactly inet s := by
  intro always
  have exactly := always numericInet numericInet_canonical (ascii "10.0.0.1:") (by decide)
  have none_strict : ¬ ∃ form : SpecForm, form.Addresses numericInet .inet ∧ form.Ports ∧
      ascii "10.0.0.1:" = form.ipV4Text := by
    intro given
    rcases given with ⟨form, addresses, ports, text⟩
    have tokens := (tokenize_eq_parts_iff numericInet_canonical addresses ports.numbers).mpr
      ⟨ports.separated, Or.inl text⟩
    have alone : (SpecForm.source (ascii "10.0.0.1")).parts = form.parts :=
      (by decide +kernel : tokenize (ascii "10.0.0.1:") 58 = [ascii "10.0.0.1"]).symm.trans tokens
    rw [← parts_injective alone] at text
    cases text
  obtain ⟨e, thrown⟩ := exactly.2 none_strict
  have accepted : tcpIpCreateTargetTestServer numericInet (ascii "10.0.0.1:") =
      .ok (ascii "10.0.0.1", none) := by decide +kernel
  rw [accepted] at thrown
  cases thrown

end SpecForm

end PacketReplay
