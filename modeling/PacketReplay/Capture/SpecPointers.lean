import PacketReplay.Capture.Address
import PacketReplay.Capture.ClientSpec
import PacketReplay.Lib.Checked

/-!
# The pointers of an IPv6 spec

`parseIpV6SpecAt` is `parseIpV6Spec` with its pointers: a pointer is an index into the C
string, or null when `token` has not found its delimiter, and reading through it is
checked. It reads what the model on suffixes reads (`parseIpV6SpecAt_eq`), and it reads
through the null pointer exactly when no bracket closes the source address.
-/

namespace PacketReplay

open Lib

/-! ## Reads -/

/-- `*(p + n)`. The NUL is behind the last character. -/
def charAt (spec : Bytes) (p : Option Nat) (n : Nat) : Outcome UInt8 :=
  match p with
  | none => .error (.undefined .nullPointer)
  | some i => within (i + n ≤ spec.length) (byteD spec (i + n))

/-- `token(p + n, delimiter)`, which reads to the delimiter or the NUL. -/
def tokenAt (spec : Bytes) (p : Option Nat) (n : Nat) (delimiter : UInt8) :
    Outcome (Option Nat × Bytes) :=
  match p with
  | none => .error (.undefined .nullPointer)
  | some i =>
      let text := (spec.drop (i + n)).takeWhile (· ≠ delimiter)
      within (i + n ≤ spec.length)
        (if i + n + text.length < spec.length then some (i + n + text.length) else none, text)

/-- `s.substr(n)`. -/
def substrFrom (s : Bytes) (n : Nat) : Outcome Bytes :=
  if s.length < n then .error (.thrown (.outOfRange (ascii "basic_string::substr")))
  else .ok (s.drop n)

/-- `s.at(n)`. -/
def stringAt (s : Bytes) (n : Nat) : Outcome UInt8 :=
  match s[n]? with
  | some c => .ok c
  | none => .error (.thrown (.outOfRange (ascii "basic_string::at")))

/-! ## The parser -/

def srcPortAt (spec : Bytes) (first : Option Nat) : Outcome (Int × Option Nat) := do
  let c ← charAt spec first 1
  if c = 58 then do
    let tok ← tokenAt spec first 2 58
    let srcPort ← parseOptionalPort tok.2
    return (srcPort, tok.1)
  else return (noPort, first)

def testServerAt (inet : Inet) (spec : Bytes) (close : Option Nat) (test : Bytes) :
    Outcome (Bytes × Int) := do
  let c ← stringAt test 0
  if c ≠ 91 then throwInvalid (ascii "invalid spec '" ++ spec ++ ascii "'")
  else do
    let text ← substrFrom test 1
    let testAddr ← normalizeIpV6 inet text
    let d ← charAt spec close 1
    if d ≠ 58 then throwInvalid (ascii "invalid spec '" ++ spec ++ ascii "'")
    else do
      let tok ← tokenAt spec close 2 58
      if tok.1 ≠ none then throwInvalid (ascii "invalid spec '" ++ spec ++ ascii "'")
      else do
        let testPort ← parseOptionalPort tok.2
        return (testAddr, testPort)

def testAt (inet : Inet) (spec : Bytes) (first : Option Nat) : Outcome (Bytes × Int) := do
  let tok ← tokenAt spec first 1 93
  if tok.2 = [] then return ([], noPort)
  else if tok.1 = none then do
    let testAddr ← normalizeIpV6 inet tok.2
    return (testAddr, noPort)
  else testServerAt inet spec tok.1 tok.2

/-- `parseIpV6Spec` on the pointers that `token` gives. -/
def parseIpV6SpecAt (inet : Inet) (spec : Bytes) : Outcome (Bytes × Option TargetTestServer) := do
  let tok ← tokenAt spec (some 0) 0 93
  let srcAddr ← if tok.1 ≠ none then substrFrom tok.2 1 >>= normalizeIpV6 inet else .ok []
  let port ← srcPortAt spec tok.1
  if port.2 ≠ none then do
    let test ← testAt inet spec port.2
    return specEntry srcAddr port.1 test.1 test.2
  else return specEntry srcAddr port.1 [] noPort

/-! ## Pointers as suffixes -/

/-- A pointer to a delimiter, and the text from there on. -/
def PointsTo (spec : Bytes) (p : Option Nat) (text : Option Bytes) : Prop :=
  text = p.map spec.drop ∧ ∀ i ∈ p, i < spec.length

section Pointers

variable {spec : Bytes} {i n : Nat}

theorem pointsTo_none_iff {p : Option Nat} {text : Option Bytes} (points : PointsTo spec p text) :
    p = none ↔ text = none := by
  rw [points.1, Option.map_eq_none_iff]

theorem charAt_some (inside : i + n ≤ spec.length) :
    charAt spec (some i) n = .ok (byteD spec (i + n)) :=
  within_of inside _

/-- A character that is not the NUL is one of the string. -/
theorem drop_eq_cons_of_byteD {c : UInt8} (read : byteD spec i = c) (nonzero : c ≠ 0) :
    spec.drop i = c :: spec.drop (i + 1) := by
  rcases Nat.lt_or_ge i spec.length with inside | outside
  · rw [byteD_eq_getElem inside] at read
    rw [List.drop_eq_getElem_cons inside, read]
  · rw [byteD, List.getD_eq_getElem?_getD, List.getElem?_eq_none outside, Option.getD_none] at read
    exact absurd read.symm nonzero

theorem byteD_of_drop_eq_cons {c : UInt8} {rest : Bytes} (behind : spec.drop i = c :: rest) :
    byteD spec i = c := by
  have symbol : spec[i]? = some c := by
    rw [← Nat.add_zero i, ← List.getElem?_drop, behind, List.getElem?_cons_zero]
  rw [byteD, List.getD_eq_getElem?_getD, symbol, Option.getD_some]

/-- `token` on the suffix that the pointer stands for. -/
theorem tokenAt_some (delimiter : UInt8) (inside : i + n ≤ spec.length) :
    ∃ p, tokenAt spec (some i) n delimiter = .ok (p, (token (spec.drop (i + n)) delimiter).2) ∧
      PointsTo spec p (token (spec.drop (i + n)) delimiter).1 := by
  set text := (spec.drop (i + n)).takeWhile (· ≠ delimiter) with text_def
  have rest : (spec.drop (i + n)).dropWhile (· ≠ delimiter) =
      spec.drop (i + n + text.length) := by
    have whole : text ++ (spec.drop (i + n)).dropWhile (· ≠ delimiter) = spec.drop (i + n) :=
      List.takeWhile_append_dropWhile
    have skipped : spec.drop (i + n + text.length) = (spec.drop (i + n)).drop text.length :=
      List.drop_drop.symm
    rw [skipped]
    conv_rhs => rw [← whole, List.drop_left]
  refine ⟨if i + n + text.length < spec.length then some (i + n + text.length) else none,
    within_of inside _, ?_, ?_⟩
  · rw [token, rest]
    by_cases found : i + n + text.length < spec.length
    · rw [if_pos found, if_neg (by simpa using found)]
      rfl
    · rw [if_neg found, if_pos (by simpa using found)]
      rfl
  · intro j pointed
    split at pointed
    · next found =>
        cases pointed
        exact found
    · cases pointed

end Pointers

section Parser

variable {inet : Inet} {spec : Bytes} {i : Nat}

theorem srcPortAt_some (inside : i < spec.length) :
    parseIpV6SrcPort (spec.drop i) =
        (srcPortAt spec (some i)).map (fun port => (port.1, port.2.map spec.drop)) ∧
      ∀ port, srcPortAt spec (some i) = .ok port → ∀ j ∈ port.2, j < spec.length := by
  rw [parseIpV6SrcPort, srcPortAt, charAt_some inside, ok_bind, List.tail_drop]
  by_cases colon : byteD spec (i + 1) = 58
  · have behind := drop_eq_cons_of_byteD colon (by decide)
    have there := congrArg List.length behind
    rw [List.length_drop, List.length_cons] at there
    have next_inside : i + 2 ≤ spec.length := by omega
    obtain ⟨p, read, points⟩ := tokenAt_some 58 next_inside
    rw [if_pos colon, behind, read, ok_bind]
    simp only
    rw [points.1]
    cases parseOptionalPort (token (spec.drop (i + 2)) 58).2 with
    | ok port =>
        refine ⟨rfl, ?_⟩
        intro port parsed
        cases parsed
        exact points.2
    | error e =>
        refine ⟨rfl, ?_⟩
        intro port parsed
        cases parsed
  · rw [if_neg colon]
    refine ⟨?_, ?_⟩
    · split
      · next rest behind => exact absurd (byteD_of_drop_eq_cons behind) colon
      · rfl
    · intro port parsed j pointed
      cases parsed
      cases pointed
      exact inside

theorem testServerAt_some {test : Bytes} (inside : i < spec.length) (nonempty : test ≠ []) :
    testServerAt inet spec (some i) test = parseIpV6TestServer inet spec (spec.drop i) test := by
  cases test with
  | nil => exact absurd rfl nonempty
  | cons c text =>
      have first : stringAt (c :: text) 0 = .ok c := rfl
      have behind : substrFrom (c :: text) 1 = .ok text := rfl
      rw [testServerAt, parseIpV6TestServer, first, ok_bind, List.head?_cons, List.tail_cons]
      by_cases bracket : c = 91
      · subst bracket
        rw [if_neg (not_not.mpr rfl), if_neg (not_not.mpr rfl), behind, ok_bind]
        congr 1
        funext testAddr
        rw [charAt_some inside, ok_bind, List.tail_drop]
        by_cases colon : byteD spec (i + 1) = 58
        · have rest : spec.drop (i + 1) = 58 :: spec.drop (i + 2) :=
            drop_eq_cons_of_byteD colon (by decide)
          have there := congrArg List.length rest
          rw [List.length_drop, List.length_cons] at there
          have next_inside : i + 2 ≤ spec.length := by omega
          obtain ⟨p, read, points⟩ := tokenAt_some 58 next_inside
          rw [if_neg (not_not.mpr colon), rest, List.head?_cons, if_neg (not_not.mpr rfl), read,
            ok_bind, List.tail_cons]
          generalize token (spec.drop (i + 2)) 58 = tok at points ⊢
          rcases tok with ⟨next, port⟩
          have null := pointsTo_none_iff points
          cases next with
          | some next => rw [if_pos (by simp [null])]
          | none =>
              rw [if_neg (by simp [null])]
              rfl
        · have other : (spec.drop (i + 1)).head? ≠ some 58 := by
            intro head
            obtain ⟨rest, behind⟩ := List.head?_eq_some_iff.mp head
            exact colon (byteD_of_drop_eq_cons behind)
          rw [if_pos colon, if_pos other]
      · rw [if_pos bracket, if_pos (by simpa using bracket)]

theorem testAt_some (inside : i < spec.length) :
    testAt inet spec (some i) = parseIpV6Test inet spec (spec.drop i) := by
  have next_inside : i + 1 ≤ spec.length := inside
  obtain ⟨p, read, points⟩ := tokenAt_some 93 next_inside
  rw [testAt, parseIpV6Test, read, ok_bind, List.tail_drop]
  generalize token (spec.drop (i + 1)) 93 = tok at points ⊢
  rcases tok with ⟨next, test⟩
  rcases points with ⟨suffix, bound⟩
  cases test with
  | nil => rfl
  | cons c test =>
      rw [if_neg (List.cons_ne_nil _ _)]
      cases p with
      | none =>
          cases suffix
          rfl
      | some j =>
          cases suffix
          exact testServerAt_some (bound j rfl) (List.cons_ne_nil _ _)

/-- With its pointers the parser reads what it reads on suffixes. -/
theorem parseIpV6SpecAt_eq (body : Bytes) :
    parseIpV6SpecAt inet (91 :: body) = parseIpV6Spec inet (91 :: body) := by
  have start : 0 + 0 ≤ (91 :: body).length := Nat.zero_le _
  obtain ⟨p, read, points⟩ := tokenAt_some 93 start
  rw [Nat.add_zero, List.drop_zero] at read points
  rw [parseIpV6SpecAt, parseIpV6Spec, read, ok_bind]
  rcases points with ⟨suffix, bound⟩
  cases p with
  | none =>
      have missing : token (91 :: body) 93 = (none, (token (91 :: body) 93).2) :=
        Prod.ext suffix rfl
      rw [missing]
      rfl
  | some j =>
      have inside := bound j rfl
      have found : token (91 :: body) 93 =
          (some ((91 :: body).drop j), 91 :: (cut 93 body).1) := by
        refine Prod.ext suffix ?_
        rw [token, List.takeWhile_cons_of_pos (by decide)]
        rfl
      obtain ⟨ports, bounds⟩ := srcPortAt_some inside
      have bracket : substrFrom (91 :: (cut 93 body).1) 1 = .ok (cut 93 body).1 := rfl
      rw [found]
      simp only
      rw [if_pos (by simp), bracket, ok_bind, ports, List.tail_cons]
      congr 1
      funext srcAddr
      cases at_port : srcPortAt (91 :: body) (some j) with
      | error e => rfl
      | ok port =>
          rcases port with ⟨srcPort, next⟩
          cases next with
          | none => rfl
          | some k =>
              have later : testAt inet (91 :: body) (some k) = _ :=
                testAt_some (bounds _ at_port k rfl)
              simp only [Except.map, ok_bind, Option.map_some, ne_eq, reduceCtorEq,
                not_false_eq_true, if_true]
              rw [later]

/-! ## Null pointers -/

theorem defined_parsePort (text : Bytes) : Defined (parsePort text) := by
  have number := defined_stoul text
  rw [parsePort]
  split
  · exact defined_ok _
  · exact defined_thrown _
  · next e _ same =>
      cases e with
      | thrown e => exact defined_thrown _
      | undefined u => exact absurd same (number u)

theorem defined_parseOptionalPort (text : Bytes) : Defined (parseOptionalPort text) := by
  rw [parseOptionalPort]
  split
  · exact defined_ok _
  · exact defined_parsePort text

theorem defined_normalizeIpV6 (text : Bytes) : Defined (normalizeIpV6 inet text) := by
  rw [normalizeIpV6]
  split
  · exact defined_ok _
  · exact defined_thrown _

theorem defined_parseIpV6SrcPort (first : Bytes) : Defined (parseIpV6SrcPort first) := by
  rw [parseIpV6SrcPort]
  split
  · exact defined_map.mpr (defined_parseOptionalPort _)
  · exact defined_ok _

theorem defined_parseIpV6TestServer (close test : Bytes) :
    Defined (parseIpV6TestServer inet spec close test) := by
  rw [parseIpV6TestServer]
  split
  · exact defined_thrown _
  · refine (defined_normalizeIpV6 _).bind fun testAddr _ => ?_
    split
    · exact defined_thrown _
    · split
      · exact defined_thrown _
      · exact defined_map.mpr (defined_parseOptionalPort _)

theorem defined_parseIpV6Test (first : Bytes) : Defined (parseIpV6Test inet spec first) := by
  rw [parseIpV6Test]
  split
  · exact defined_ok _
  · exact defined_map.mpr (defined_normalizeIpV6 _)
  · exact defined_parseIpV6TestServer _ _

theorem defined_parseIpV6Spec {body : Bytes} :
    Defined (parseIpV6Spec inet (91 :: body)) ↔ 93 ∈ body := by
  rw [parseIpV6Spec]
  by_cases closed : (93 : UInt8) ∈ body
  · rw [token_of_mem (List.mem_cons_of_mem _ closed)]
    refine iff_of_true ?_ closed
    refine (defined_normalizeIpV6 _).bind fun srcAddr _ => ?_
    refine (defined_parseIpV6SrcPort _).bind fun port _ => ?_
    rcases port with ⟨srcPort, next⟩
    cases next with
    | none => exact defined_ok _
    | some first => exact defined_bind_ok.mpr (defined_parseIpV6Test first)
  · rw [token_of_not_mem (by simpa using closed)]
    exact iff_of_false (fun defined => defined _ rfl) closed

/-- Every character that is read is one of the string or its NUL, and the parser returns
or throws, exactly when a bracket closes the source address. -/
theorem parseIpV6SpecAt_defined_iff (inet : Inet) (body : Bytes) :
    Defined (parseIpV6SpecAt inet (91 :: body)) ↔ 93 ∈ body := by
  rw [parseIpV6SpecAt_eq, defined_parseIpV6Spec]

/-- The address `[::1` reads through the null pointer. -/
theorem not_parseIpV6SpecAt_defined :
    ¬ ∀ inet body, Defined (parseIpV6SpecAt inet (91 :: body)) := by
  intro defined
  have closed : 93 ∈ ascii "::1" := defined_parseIpV6Spec.mp
    (parseIpV6SpecAt_eq (ascii "::1") ▸ defined dottedInet (ascii "::1"))
  revert closed
  decide

end Parser

end PacketReplay
