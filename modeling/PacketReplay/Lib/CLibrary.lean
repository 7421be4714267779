import Mathlib.Data.Nat.Digits.Defs
import Mathlib.Data.Nat.Digits.Lemmas
import Mathlib.Data.List.Basic
import Mathlib.Data.List.TakeWhile
import Mathlib.Tactic.Ring

/-!
# The C and C++ library functions in use

Byte strings, the character classes of the C locale, number parsing, block
comparison and the integer conversions of C++ on a host with 32-bit `int` and
64-bit `unsigned long`. A call that throws, and one that the language leaves
undefined, is a `Fault`.
-/

namespace PacketReplay.Lib

/-- The exceptions of the C++ library that the sources throw or let through. -/
inductive Exn : Type
  | runtimeError (what : List UInt8)
  | invalidArgument (what : List UInt8)
  | outOfRange (what : List UInt8)
  | badArrayNewLength
  deriving DecidableEq, Repr

/-- What the language leaves undefined. -/
inductive Undefined : Type
  | nullPointer
  | outOfBounds
  | indeterminateValue
  | reversedRange
  | noProgress
  deriving DecidableEq, Repr

/-- A call that does not return: it throws, or its behaviour is undefined. -/
inductive Fault : Type
  | thrown (e : Exn)
  | undefined (u : Undefined)
  deriving DecidableEq, Repr

/-- The outcome of a call. -/
abbrev Outcome (α : Type) := Except Fault α

section Outcomes

variable {ε α β : Type}

@[simp] theorem ok_bind (a : α) (f : α → Except ε β) : (Except.ok a >>= f) = f a := rfl

@[simp] theorem error_bind (e : ε) (f : α → Except ε β) :
    (Except.error e >>= f) = Except.error e := rfl

theorem bind_eq_ok {x : Except ε α} {f : α → Except ε β} {b : β} :
    x >>= f = .ok b ↔ ∃ a, x = .ok a ∧ f a = .ok b := by
  cases x <;> simp

theorem map_eq_ok {x : Except ε α} {f : α → β} {b : β} :
    x.map f = .ok b ↔ ∃ a, x = .ok a ∧ f a = b := by
  cases x <;> simp [Except.map]

theorem map_eq_error {x : Except ε α} {f : α → β} {e : ε} :
    x.map f = .error e ↔ x = .error e := by
  cases x <;> simp [Except.map]

end Outcomes

abbrev Bytes := List UInt8

/-- The bytes of an ASCII literal. -/
def ascii (s : String) : Bytes := s.toList.map fun c => UInt8.ofNat c.toNat

def cr : UInt8 := 13

def lf : UInt8 := 10

/-- The C string at the start of a byte string: what comes before the first NUL. -/
def cstr (s : Bytes) : Bytes := s.takeWhile (· ≠ 0)

theorem cstr_eq_self {s : Bytes} (clean : ∀ c ∈ s, c ≠ 0) : cstr s = s :=
  List.takeWhile_eq_self_iff.mpr fun c mem => by simpa using clean c mem

@[simp] theorem cstr_nil : cstr [] = [] := rfl

theorem cstr_append_of_clean {s : Bytes} (clean : ∀ c ∈ s, c ≠ 0) (t : Bytes) :
    cstr (s ++ t) = s ++ cstr t :=
  List.takeWhile_append_of_pos fun c mem => by simpa using clean c mem

theorem cstr_cons (c : UInt8) (s : Bytes) : cstr (c :: s) = if c = 0 then [] else c :: cstr s := by
  by_cases nul : c = 0 <;> simp [cstr, nul]

theorem cstr_take (s : Bytes) (n : Nat) : cstr (s.take n) = (cstr s).take n := by
  induction s generalizing n with
  | nil => simp
  | cons c s ih =>
      cases n with
      | zero => simp
      | succ n =>
          rw [List.take_succ_cons, cstr_cons, cstr_cons]
          split
          · rfl
          · rw [List.take_succ_cons, ih]

theorem cstr_prefix_append (s t : Bytes) : cstr s <+: cstr (s ++ t) := by
  induction s with
  | nil => exact List.nil_prefix
  | cons c s ih =>
      rw [List.cons_append, cstr_cons, cstr_cons]
      split
      · exact List.prefix_rfl
      · exact List.cons_prefix_cons.mpr ⟨rfl, ih⟩

theorem cstr_isPrefix (s : Bytes) : cstr s <+: s := List.takeWhile_prefix _

/-! ## Character classes of the C locale -/

def isspace (c : UInt8) : Bool := c = 32 || (9 ≤ c && c ≤ 13)

def isprint (c : UInt8) : Bool := 32 ≤ c && c ≤ 126

def tolower (c : UInt8) : UInt8 := if 65 ≤ c ∧ c ≤ 90 then c + 32 else c

/-! ## Integer conversions -/

/-- The conversion of an integer to `int`. -/
def toInt32 (n : Int) : Int := n.bmod (2 ^ 32)

/-- The conversion of an integer to `unsigned long`. -/
def toUInt64 (n : Int) : Nat := (n % 2 ^ 64).toNat

theorem toInt32_of_range {n : Int} (low : -2 ^ 31 ≤ n) (high : n < 2 ^ 31) : toInt32 n = n :=
  Int.bmod_eq_of_le (by omega) (by omega)

theorem toInt32_natCast_eq_self_iff {n : Nat} : toInt32 n = n ↔ n < 2 ^ 31 := by
  constructor
  · intro same
    have bound : toInt32 n < (2 ^ 32 + 1) / 2 := Int.bmod_lt (by omega)
    rw [same] at bound
    omega
  · intro small
    exact toInt32_of_range (by omega) (by omega)

/-- Conversion to `int` loses the multiples of `2 ^ 32`. -/
theorem toInt32_sub_eq_zero_iff {m n : Nat} :
    toInt32 ((m : Int) - n) = 0 ↔ m % 2 ^ 32 = n % 2 ^ 32 := by
  unfold toInt32
  rw [← Int.dvd_iff_bmod_eq_zero]
  omega

/-! ## Reading numbers -/

/-- The value of a digit in the given base, letters standing for ten and more. -/
def digitValue (base : Nat) (c : UInt8) : Option Nat :=
  let value :=
    if 48 ≤ c ∧ c ≤ 57 then c.toNat - 48
    else if 97 ≤ tolower c ∧ tolower c ≤ 122 then (tolower c).toNat - 87
    else base
  if value < base then some value else none

/-- The digits of the base. -/
def isdigit (base : Nat) (c : UInt8) : Bool := (digitValue base c).isSome

/-- The number a string of digits denotes. -/
def digitsValue (base : Nat) (ds : Bytes) : Nat :=
  ds.foldl (fun acc c => acc * base + (digitValue base c).getD 0) 0

theorem digitValue_lt {base v : Nat} {c : UInt8} (value : digitValue base c = some v) :
    v < base := by
  rw [digitValue] at value
  grind

/-- A numeral of `n` digits is below the power of the base. -/
theorem digitsValue_lt {base : Nat} {ds : Bytes} (digits : ∀ c ∈ ds, isdigit base c = true) :
    digitsValue base ds < base ^ ds.length := by
  induction ds using List.reverseRecOn with
  | nil => exact Nat.one_pos
  | append_singleton ds c ih =>
      rcases Option.isSome_iff_exists.mp (digits c (by simp)) with ⟨v, value⟩
      have front := ih fun d mem => digits d (List.mem_append_left _ mem)
      have last := digitValue_lt value
      rw [digitsValue] at front ⊢
      rw [List.foldl_append, List.foldl_cons, List.foldl_nil, value, Option.getD_some,
        List.length_append, List.length_singleton, Nat.pow_succ]
      calc
        _ < (ds.foldl (fun acc c => acc * base + (digitValue base c).getD 0) 0) * base + base :=
          Nat.add_lt_add_left last _
        _ = (ds.foldl (fun acc c => acc * base + (digitValue base c).getD 0) 0 + 1) * base := by
            ring
        _ ≤ base ^ ds.length * base := Nat.mul_le_mul_right _ front

/-- Zero is the one digit of no value. -/
theorem eq_of_digitValue_eq_zero {base : Nat} {c : UInt8} (value : digitValue base c = some 0) :
    c = 48 := by
  simp only [digitValue, Option.ite_none_right_eq_some, Option.some.injEq] at value
  rcases value with ⟨within, value⟩
  apply UInt8.toNat_inj.mp
  split at value
  · next numeral =>
      have low := UInt8.le_iff_toNat_le.mp numeral.1
      change 48 ≤ c.toNat at low
      change c.toNat = 48
      omega
  · split at value
    · next letter =>
        have low := UInt8.le_iff_toNat_le.mp letter.1
        change 97 ≤ (tolower c).toNat at low
        omega
    · omega

/-- A numeral of `n + 1` digits whose first is not zero is no less than the power of the base. -/
theorem pow_le_digitsValue {base : Nat} {d : UInt8} (digit : isdigit base d = true)
    (leading : d ≠ 48) (ds : Bytes) : base ^ ds.length ≤ digitsValue base (d :: ds) := by
  induction ds using List.reverseRecOn with
  | nil =>
      rcases Option.isSome_iff_exists.mp digit with ⟨v, value⟩
      have nonzero : v ≠ 0 := by
        intro zero
        subst zero
        exact leading (eq_of_digitValue_eq_zero value)
      simp only [digitsValue, List.foldl_cons, List.foldl_nil, value, Option.getD_some,
        List.length_nil, Nat.pow_zero]
      omega
  | append_singleton ds c ih =>
      rw [digitsValue] at ih ⊢
      rw [← List.cons_append, List.foldl_append, List.length_append, List.length_singleton,
        Nat.pow_succ]
      exact (Nat.mul_le_mul_right base ih).trans (Nat.le_add_right _ _)

/-- `0x` or `0X` in front of a hexadecimal digit. -/
def hexPrefixed : Bytes → Bool
  | 48 :: x :: d :: _ => tolower x = 120 && isdigit 16 d
  | _ => false

/-- How many characters the base prefix takes. -/
def markLength (base : Nat) (body : Bytes) : Nat := if base = 16 ∧ hexPrefixed body then 2 else 0

/-- An integer read off the front of a string. -/
structure Scanned : Type where
  negative : Bool
  magnitude : Nat
  /-- The index just after the number: `endptr`. -/
  stop : Nat
  deriving DecidableEq, Repr

/-- The sign at the front of a string, if there is one: whether it is a minus,
and how many characters it takes. -/
def scanSign : Bytes → Bool × Nat
  | 45 :: _ => (true, 1)
  | 43 :: _ => (false, 1)
  | _ => (false, 0)

/-- The common scan of the `strto` family: white space, a sign, the base prefix
and digits. -/
def scanInteger (base : Nat) (s : Bytes) : Option Scanned :=
  let blanks := s.takeWhile isspace
  let unsigned := s.drop blanks.length
  let sign := scanSign unsigned
  let body := unsigned.drop sign.2
  let mark := markLength base body
  let digits := (body.drop mark).takeWhile (isdigit base)
  if digits = [] then none
  else some ⟨sign.1, digitsValue base digits, blanks.length + sign.2 + mark + digits.length⟩

/-- `strtoul`: the value and the index that `endptr` receives, 0 when there is no
number. Out of range gives `ULONG_MAX`, and a minus negates in the unsigned type. -/
def strtoul (base : Nat) (s : Bytes) : Nat × Nat :=
  match scanInteger base s with
  | none => (0, 0)
  | some n =>
      if 2 ^ 64 ≤ n.magnitude then (2 ^ 64 - 1, n.stop)
      else (if n.negative then toUInt64 (-n.magnitude) else n.magnitude, n.stop)

/-- `std::stoul` in base 10. -/
def stoul (s : Bytes) : Outcome Nat :=
  match scanInteger 10 (cstr s) with
  | none => .error (.thrown (.invalidArgument (ascii "stoul")))
  | some n =>
      if 2 ^ 64 ≤ n.magnitude then .error (.thrown (.outOfRange (ascii "stoul")))
      else .ok (if n.negative then toUInt64 (-n.magnitude) else n.magnitude)

/-- `std::stoi` in base 10. -/
def stoi (s : Bytes) : Outcome Int :=
  match scanInteger 10 (cstr s) with
  | none => .error (.thrown (.invalidArgument (ascii "stoi")))
  | some n =>
      let value : Int := if n.negative then -n.magnitude else n.magnitude
      if value < -2 ^ 31 ∨ 2 ^ 31 ≤ value then .error (.thrown (.outOfRange (ascii "stoi")))
      else .ok value

theorem isspace_eq_false_of_isdigit {base : Nat} {c : UInt8} (digit : isdigit base c = true) :
    isspace c = false := by
  by_contra blank
  simp only [isspace, Bool.not_eq_false, Bool.or_eq_true, decide_eq_true_eq, Bool.and_eq_true]
    at blank
  have noNumeral : ¬ (48 ≤ c ∧ c ≤ 57) := by grind
  have noLetter : ¬ (97 ≤ tolower c ∧ tolower c ≤ 122) := by
    unfold tolower
    split <;> grind
  simp [isdigit, digitValue, noNumeral, noLetter] at digit

theorem not_sign_of_isdigit {base : Nat} {c : UInt8} (digit : isdigit base c = true) :
    c ≠ 45 ∧ c ≠ 43 := by
  constructor
  · intro same
    subst same
    simp [isdigit, digitValue, tolower] at digit
  · intro same
    subst same
    simp [isdigit, digitValue, tolower] at digit

/-- The scan of a run of digits that no digit follows, where no prefix of the base is. -/
theorem scanInteger_numeral {base : Nat} {ds rest : Bytes} (nonempty : ds ≠ [])
    (digits : ∀ c ∈ ds, isdigit base c = true) (stop : ∀ c ∈ rest.head?, isdigit base c = false)
    (unmarked : markLength base (ds ++ rest) = 0) :
    scanInteger base (ds ++ rest) = some ⟨false, digitsValue base ds, ds.length⟩ := by
  obtain ⟨d, tail, rfl⟩ := List.exists_cons_of_ne_nil nonempty
  have lead := digits d List.mem_cons_self
  have noBlank : ((d :: tail) ++ rest).takeWhile isspace = [] := by
    simp [isspace_eq_false_of_isdigit lead]
  have noSign : scanSign ((d :: tail) ++ rest) = (false, 0) := by
    rw [List.cons_append, scanSign.eq_def]
    split
    · next heq => exact absurd (List.cons.inj heq).1 (not_sign_of_isdigit lead).1
    · next heq => exact absurd (List.cons.inj heq).1 (not_sign_of_isdigit lead).2
    · rfl
  have run : ((d :: tail) ++ rest).takeWhile (isdigit base) = d :: tail := by
    rw [List.takeWhile_append_of_pos digits]
    cases rest with
    | nil => simp
    | cons c rest => simp [stop c (by simp)]
  simp only [scanInteger, noBlank, List.length_nil, List.drop_zero, noSign, unmarked, run]
  simp

/-- The scan of a run of decimal digits that no digit follows. -/
theorem scanInteger_digits {ds rest : Bytes} (nonempty : ds ≠ [])
    (digits : ∀ c ∈ ds, isdigit 10 c = true) (stop : ∀ c ∈ rest.head?, isdigit 10 c = false) :
    scanInteger 10 (ds ++ rest) = some ⟨false, digitsValue 10 ds, ds.length⟩ :=
  scanInteger_numeral nonempty digits stop (by simp [markLength])

theorem ne_zero_of_isdigit {base : Nat} {c : UInt8} (digit : isdigit base c = true) : c ≠ 0 := by
  intro same
  subst same
  simp [isdigit, digitValue, tolower] at digit

/-- `stoul` of decimal digits that no digit follows. -/
theorem stoul_digits {ds t : Bytes} (nonempty : ds ≠ [])
    (digits : ∀ c ∈ ds, isdigit 10 c = true) (stop : ∀ c ∈ t.head?, isdigit 10 c = false) :
    stoul (ds ++ t) =
      if 2 ^ 64 ≤ digitsValue 10 ds then .error (.thrown (.outOfRange (ascii "stoul")))
      else .ok (digitsValue 10 ds) := by
  have clean : cstr (ds ++ t) = ds ++ cstr t :=
    cstr_append_of_clean (fun c mem => ne_zero_of_isdigit (digits c mem)) t
  have stops : ∀ c ∈ (cstr t).head?, isdigit 10 c = false := by
    intro c first
    cases t with
    | nil => simp at first
    | cons a t =>
        rw [cstr_cons] at first
        split at first
        · simp at first
        · exact stop c first
  rw [stoul, clean, scanInteger_digits nonempty digits stops]
  rfl

theorem hexPrefixed_append_stop {v : Bytes} {c : UInt8} (stop : isdigit 16 c = false)
    (other : tolower c ≠ 120) (t : Bytes) : hexPrefixed (v ++ c :: t) = hexPrefixed v := by
  have notZero : c ≠ 48 := by
    intro same
    subst same
    cases stop
  match v with
  | [] => simp [hexPrefixed, notZero]
  | [a] =>
      by_cases zero : a = 48
      · subst zero
        cases t <;> simp [hexPrefixed, other]
      · simp [hexPrefixed, zero]
  | [a, x] =>
      by_cases zero : a = 48
      · subst zero
        simp [hexPrefixed, stop]
      · simp [hexPrefixed, zero]
  | a :: x :: d :: v =>
      by_cases zero : a = 48
      · subst zero
        rfl
      · simp [hexPrefixed, zero]

theorem hexPrefixed_append {v : Bytes} (long : 2 < v.length) (t : Bytes) :
    hexPrefixed (v ++ t) = hexPrefixed v := by
  match v with
  | [] => simp at long
  | [a] => simp at long
  | [a, x] => simp at long
  | a :: x :: d :: v =>
      by_cases zero : a = 48
      · subst zero
        rfl
      · simp [hexPrefixed, zero]

theorem scanSign_append {u : Bytes} (nonempty : u ≠ []) (t : Bytes) :
    scanSign (u ++ t) = scanSign u := by
  obtain ⟨a, u, rfl⟩ := List.exists_cons_of_ne_nil nonempty
  rw [List.cons_append, scanSign.eq_def, scanSign.eq_def]
  grind

theorem scanSign_le_length (u : Bytes) : (scanSign u).2 ≤ u.length := by
  rw [scanSign.eq_def]
  split <;> simp

theorem markLength_le_length (base : Nat) (body : Bytes) : markLength base body ≤ body.length := by
  unfold markLength hexPrefixed
  split
  · split
    · exact Nat.le_add_left 2 _
    · exact Nat.zero_le _
  · simp

theorem takeWhile_append_stop {p : UInt8 → Bool} {w t : Bytes} {c : UInt8} (stop : p c = false) :
    (w ++ c :: t).takeWhile p = w.takeWhile p := by
  induction w with
  | nil => simp [stop]
  | cons a w ih => cases head : p a <;> simp [head, ih]

theorem takeWhile_append_of_exists {p : UInt8 → Bool} {l t : Bytes} (stops : ∃ b ∈ l, p b = false) :
    (l ++ t).takeWhile p = l.takeWhile p := by
  induction l with
  | nil => simp at stops
  | cons a l ih =>
      cases head : p a with
      | false => simp [head]
      | true =>
          obtain ⟨b, mem, fails⟩ := stops
          rcases List.mem_cons.mp mem with rfl | later
          · rw [head] at fails
            cases fails
          · simp [head, ih ⟨b, later, fails⟩]

/-- The text behind the white space and the sign. -/
def scanBody (s : Bytes) : Bytes :=
  (s.drop (s.takeWhile isspace).length).drop (scanSign (s.drop (s.takeWhile isspace).length)).2

/-- A text that is not all blank is scanned for the same number when what is appended
changes neither the prefix nor the digits. -/
theorem scanInteger_append_of {base : Nat} {s t : Bytes} (text : ∃ b ∈ s, isspace b = false)
    (mark : markLength base (scanBody s ++ t) = markLength base (scanBody s))
    (run : ((scanBody s ++ t).drop (markLength base (scanBody s))).takeWhile (isdigit base) =
      ((scanBody s).drop (markLength base (scanBody s))).takeWhile (isdigit base)) :
    scanInteger base (s ++ t) = scanInteger base s := by
  have blanks : (s ++ t).takeWhile isspace = s.takeWhile isspace := takeWhile_append_of_exists text
  have within : (s.takeWhile isspace).length ≤ s.length := (List.takeWhile_prefix _).length_le
  have unsigned : (s ++ t).drop (s.takeWhile isspace).length =
      s.drop (s.takeWhile isspace).length ++ t := List.drop_append_of_le_length within
  have nonempty : s.drop (s.takeWhile isspace).length ≠ [] := by
    intro empty
    have all : s.takeWhile isspace = s :=
      (List.takeWhile_prefix _).eq_of_length_le (List.drop_eq_nil_iff.mp empty)
    rcases text with ⟨b, mem, fails⟩
    rw [List.takeWhile_eq_self_iff.mp all b mem] at fails
    cases fails
  have sign := scanSign_append nonempty t
  have body : (s.drop (s.takeWhile isspace).length ++ t).drop
      (scanSign (s.drop (s.takeWhile isspace).length)).2 = scanBody s ++ t :=
    List.drop_append_of_le_length (scanSign_le_length _)
  have kept : (s.drop (s.takeWhile isspace).length).drop
      (scanSign (s.drop (s.takeWhile isspace).length)).2 = scanBody s := rfl
  simp only [scanInteger, blanks, unsigned, sign, body, kept, mark, run]

/-- A number that starts on a text not all blank is not changed by what follows a
character that is no digit. -/
theorem scanInteger_append_stop {l : Bytes} {c : UInt8} (text : ∃ b ∈ l, isspace b = false)
    (stop : isdigit 16 c = false) (other : tolower c ≠ 120) (t : Bytes) :
    scanInteger 16 (l ++ c :: t) = scanInteger 16 l := by
  apply scanInteger_append_of text
  · rw [markLength, markLength, hexPrefixed_append_stop stop other]
  · rw [List.drop_append_of_le_length (markLength_le_length 16 _), takeWhile_append_stop stop]

theorem strtoul_append_stop {l : Bytes} {c : UInt8} (text : ∃ b ∈ l, isspace b = false)
    (stop : isdigit 16 c = false) (other : tolower c ≠ 120) (t : Bytes) :
    strtoul 16 (l ++ c :: t) = strtoul 16 l := by
  rw [strtoul, strtoul, scanInteger_append_stop text stop other t]

theorem hexPrefixed_of_digits {ds : Bytes} (digits : ∀ c ∈ ds, isdigit 16 c = true) :
    hexPrefixed ds = false := by
  rw [hexPrefixed.eq_def]
  split
  · next x d rest =>
      have letter := digits x (by simp)
      by_cases mark : tolower x = 120
      · have noNumeral : ¬ (48 ≤ x ∧ x ≤ 57) := by
          intro numeral
          rw [tolower, if_neg (by grind)] at mark
          grind
        simp [isdigit, digitValue, noNumeral, mark] at letter
      · simp [mark]
  · rfl

/-- `strtoul` of hexadecimal digits in front of a character that is neither a digit nor
the letter of the prefix. -/
theorem strtoul_hex {ds : Bytes} {c : UInt8} (nonempty : ds ≠ [])
    (digits : ∀ d ∈ ds, isdigit 16 d = true) (stop : isdigit 16 c = false)
    (other : tolower c ≠ 120) (t : Bytes) :
    strtoul 16 (ds ++ c :: t) =
      (if 2 ^ 64 ≤ digitsValue 16 ds then 2 ^ 64 - 1 else digitsValue 16 ds, ds.length) := by
  have unmarked : markLength 16 (ds ++ c :: t) = 0 := by
    rw [markLength, hexPrefixed_append_stop stop other, hexPrefixed_of_digits digits]
    rfl
  rw [strtoul, scanInteger_numeral nonempty digits (by simpa using stop) unmarked]
  dsimp only
  split <;> rfl

/-- Where a scanned number ends: behind the prefix and the digits, of which there is one. -/
theorem scanInteger_stop {base : Nat} {s : Bytes} {n : Scanned}
    (scanned : scanInteger base s = some n) :
    ∃ digits, ((scanBody s).drop (markLength base (scanBody s))).takeWhile (isdigit base) = digits ∧
      digits ≠ [] ∧ n.stop + (scanBody s).length =
        s.length + markLength base (scanBody s) + digits.length := by
  have blanks : (s.takeWhile isspace).length ≤ s.length := (List.takeWhile_prefix _).length_le
  have sign := scanSign_le_length (s.drop (s.takeWhile isspace).length)
  rw [List.length_drop] at sign
  have length : (scanBody s).length = s.length - (s.takeWhile isspace).length -
      (scanSign (s.drop (s.takeWhile isspace).length)).2 := by
    rw [scanBody, List.length_drop, List.length_drop]
  rw [scanInteger] at scanned
  split at scanned
  · cases scanned
  · next some_digit =>
      rw [Option.some.injEq] at scanned
      subst scanned
      refine ⟨_, rfl, some_digit, ?_⟩
      dsimp only
      rw [← scanBody]
      omega

/-- `strtoul` stops within the text. -/
theorem strtoul_stop_le (base : Nat) (s : Bytes) : (strtoul base s).2 ≤ s.length := by
  rw [strtoul]
  cases scanned : scanInteger base s with
  | none => exact Nat.zero_le _
  | some n =>
      rcases scanInteger_stop scanned with ⟨digits, run, -, stop⟩
      have inside := (List.takeWhile_prefix (p := isdigit base)
        (l := (scanBody s).drop (markLength base (scanBody s)))).length_le
      rw [run, List.length_drop] at inside
      have mark := markLength_le_length base (scanBody s)
      dsimp only
      split <;> dsimp only <;> omega

/-- A scanned number stays what it is when text is appended two characters behind it or
later. -/
theorem scanInteger_append {base : Nat} {s : Bytes} {n : Scanned}
    (scanned : scanInteger base s = some n) (within : n.stop + 2 ≤ s.length) (t : Bytes) :
    scanInteger base (s ++ t) = some n := by
  rcases scanInteger_stop scanned with ⟨digits, run, some_digit, stop⟩
  have pos := List.length_pos_iff.mpr some_digit
  rw [← scanned]
  apply scanInteger_append_of
  · by_contra! blank
    have all : s.takeWhile isspace = s :=
      List.takeWhile_eq_self_iff.mpr fun b mem => by simpa using blank b mem
    have empty : scanBody s = [] := by rw [scanBody, all, List.drop_length, List.drop_nil]
    rw [empty, List.drop_nil, List.takeWhile_nil] at run
    exact some_digit run.symm
  · rw [markLength, markLength, hexPrefixed_append (by omega)]
  · rw [List.drop_append_of_le_length (markLength_le_length base _)]
    apply takeWhile_append_of_exists
    by_contra! all
    have whole : digits = (scanBody s).drop (markLength base (scanBody s)) := by
      rw [← run]
      exact List.takeWhile_eq_self_iff.mpr fun b mem => by simpa using all b mem
    have length : digits.length = (scanBody s).length - markLength base (scanBody s) := by
      rw [whole, List.length_drop]
    omega

theorem strtoul_append {base : Nat} {s : Bytes} (some : (strtoul base s).2 ≠ 0)
    (within : (strtoul base s).2 + 2 ≤ s.length) (t : Bytes) :
    strtoul base (s ++ t) = strtoul base s := by
  rw [strtoul] at some within
  cases scanned : scanInteger base s with
  | none =>
      rw [scanned] at some
      exact absurd rfl some
  | some n =>
      have stop : n.stop + 2 ≤ s.length := by
        rw [scanned] at within
        dsimp only at within
        split at within <;> exact within
      rw [strtoul, strtoul, scanInteger_append scanned stop t, scanned]

/-- There is no number on a blank text. -/
theorem strtoul_blank {base : Nat} {s : Bytes} (blank : ∀ b ∈ s, isspace b = true) :
    strtoul base s = (0, 0) := by
  have all : s.takeWhile isspace = s := List.takeWhile_eq_self_iff.mpr blank
  have none : scanInteger base s = none := by
    simp [scanInteger, all, scanSign]
  rw [strtoul, none]

/-! ## Writing numbers -/

/-- `std::to_string` of an unsigned number. -/
def toDecimal (n : Nat) : Bytes :=
  if n = 0 then [48] else ((Nat.digits 10 n).map fun d => 48 + UInt8.ofNat d).reverse

theorem digitValue_numeral {d : Nat} (digit : d < 10) :
    digitValue 10 (48 + UInt8.ofNat d) = some d := by
  revert d
  decide

theorem isdigit_of_mem_toDecimal {n : Nat} {c : UInt8} (mem : c ∈ toDecimal n) :
    isdigit 10 c = true := by
  unfold toDecimal at mem
  split at mem
  · rw [List.mem_singleton] at mem
    rw [mem]
    decide
  · rw [List.mem_reverse, List.mem_map] at mem
    obtain ⟨d, inDigits, rfl⟩ := mem
    rw [isdigit, digitValue_numeral (Nat.digits_lt_base (by decide) inDigits)]
    rfl

/-- The number written is the number read. -/
theorem digitsValue_toDecimal (n : Nat) : digitsValue 10 (toDecimal n) = n := by
  have value : ∀ ds : List Nat, (∀ d ∈ ds, d < 10) →
      digitsValue 10 ((ds.map fun d => 48 + UInt8.ofNat d).reverse) = Nat.ofDigits 10 ds := by
    intro ds
    induction ds with
    | nil => exact fun _ => rfl
    | cons d ds ih =>
        intro digits
        have rest := ih fun e mem => digits e (List.mem_cons_of_mem d mem)
        rw [digitsValue] at rest ⊢
        rw [List.map_cons, List.reverse_cons, List.foldl_append, rest, List.foldl_cons,
          List.foldl_nil, digitValue_numeral (digits d List.mem_cons_self), Nat.ofDigits_cons,
          Option.getD_some]
        omega
  unfold toDecimal
  split
  · next zero => rw [zero]; decide
  · rw [value _ fun d mem => Nat.digits_lt_base (by decide) mem, Nat.ofDigits_digits]

theorem toDecimal_injective {m n : Nat} (same : toDecimal m = toDecimal n) : m = n := by
  rw [← digitsValue_toDecimal m, same, digitsValue_toDecimal]

/-- A decimal numeral has no white space and no punctuation. -/
theorem not_mem_toDecimal {n : Nat} {c : UInt8} (other : isdigit 10 c = false) :
    c ∉ toDecimal n := by
  intro mem
  rw [isdigit_of_mem_toDecimal mem] at other
  cases other

/-! ## Comparing blocks -/

/-- `memcmp` on the first `n` bytes of two blocks. -/
def memcmp : Bytes → Bytes → Nat → Outcome Int
  | _, _, 0 => .ok 0
  | x :: a, y :: b, n + 1 => if x = y then memcmp a b n else .ok (x.toNat - y.toNat)
  | _, _, _ + 1 => .error (.undefined .outOfBounds)

/-- `strncmp` on at most `n` bytes of two blocks. -/
def strncmp : Bytes → Bytes → Nat → Outcome Int
  | _, _, 0 => .ok 0
  | x :: a, y :: b, n + 1 =>
      if x = y then if x = 0 then .ok 0 else strncmp a b n else .ok (x.toNat - y.toNat)
  | _, _, _ + 1 => .error (.undefined .outOfBounds)

/-- `strcasecmp` on the C strings `a` and `b`. -/
def strcasecmp : Bytes → Bytes → Int
  | [], [] => 0
  | x :: _, [] => (tolower x).toNat
  | [], y :: _ => -(tolower y).toNat
  | x :: a, y :: b =>
      if tolower x = tolower y then strcasecmp a b else (tolower x).toNat - (tolower y).toNat

/-- Within the blocks `memcmp` has a result. -/
theorem exists_memcmp {a b : Bytes} {n : Nat} (inA : n ≤ a.length) (inB : n ≤ b.length) :
    ∃ r, memcmp a b n = .ok r := by
  induction n generalizing a b with
  | zero => exact ⟨0, by rw [memcmp]⟩
  | succ n ih =>
      obtain ⟨x, a, rfl⟩ := List.exists_cons_of_length_pos (Nat.lt_of_lt_of_le n.succ_pos inA)
      obtain ⟨y, b, rfl⟩ := List.exists_cons_of_length_pos (Nat.lt_of_lt_of_le n.succ_pos inB)
      rw [memcmp]
      split
      · exact ih (Nat.le_of_succ_le_succ inA) (Nat.le_of_succ_le_succ inB)
      · exact ⟨_, rfl⟩

theorem memcmp_eq_zero_iff {a b : Bytes} {n : Nat} (inA : n ≤ a.length) (inB : n ≤ b.length) :
    memcmp a b n = .ok 0 ↔ a.take n = b.take n := by
  induction n generalizing a b with
  | zero => simp [memcmp]
  | succ n ih =>
      obtain ⟨x, a, rfl⟩ := List.exists_cons_of_length_pos (Nat.lt_of_lt_of_le n.succ_pos inA)
      obtain ⟨y, b, rfl⟩ := List.exists_cons_of_length_pos (Nat.lt_of_lt_of_le n.succ_pos inB)
      rw [memcmp, List.take_succ_cons, List.take_succ_cons, List.cons.injEq]
      by_cases same : x = y
      · rw [if_pos same, ih (Nat.le_of_succ_le_succ inA) (Nat.le_of_succ_le_succ inB)]
        simp [same]
      · have differ : x.toNat ≠ y.toNat := fun eq => same (UInt8.toNat_inj.mp eq)
        have nonzero : (x.toNat : Int) - y.toNat ≠ 0 := by omega
        simp [same, nonzero]

/-- Blocks that compare equal are equal, whatever their lengths are. -/
theorem take_eq_of_memcmp {a b : Bytes} {n : Nat} (equal : memcmp a b n = .ok 0) :
    a.take n = b.take n := by
  induction n generalizing a b with
  | zero => rfl
  | succ n ih =>
      cases a with
      | nil => cases equal
      | cons x a =>
          cases b with
          | nil => cases equal
          | cons y b =>
              rw [memcmp] at equal
              by_cases same : x = y
              · rw [if_pos same] at equal
                rw [List.take_succ_cons, List.take_succ_cons, ih equal, same]
              · have differ : x.toNat ≠ y.toNat := fun eq => same (UInt8.toNat_inj.mp eq)
                rw [if_neg same, Except.ok.injEq] at equal
                omega

/-- Exchanging the blocks turns the order round. -/
theorem memcmp_symm {a b : Bytes} {n : Nat} {r : Int} (compared : memcmp a b n = .ok r) :
    memcmp b a n = .ok (-r) := by
  induction n generalizing a b with
  | zero =>
      rw [memcmp] at compared ⊢
      cases compared
      rfl
  | succ n ih =>
      cases a with
      | nil => cases compared
      | cons x a =>
          cases b with
          | nil => cases compared
          | cons y b =>
              rw [memcmp] at compared ⊢
              by_cases same : x = y
              · rw [if_pos same] at compared
                rw [if_pos same.symm]
                exact ih compared
              · rw [if_neg same] at compared
                rw [if_neg (Ne.symm same)]
                cases compared
                rw [Int.neg_sub]

/-- `memcmp` on blocks of which it may read all `n` bytes, also behind a difference. -/
def memcmpWithin (a b : Bytes) (n : Nat) : Outcome Int :=
  if n ≤ a.length ∧ n ≤ b.length then memcmp a b n else .error (.undefined .outOfBounds)

/-- `memcmp(a, b, n) == 0` for an `int` that becomes a `size_t`: no block is as long as
what a negative number becomes. -/
def sameBlock (a b : Bytes) (n : Int) : Outcome Bool :=
  if n < 0 then .error (.undefined .outOfBounds)
  else (memcmpWithin a b n.toNat).map fun r => r = 0

theorem sameBlock_natCast (a b : Bytes) (n : Nat) :
    sameBlock a b n =
      if n ≤ a.length ∧ n ≤ b.length then .ok (a.take n = b.take n)
      else .error (.undefined .outOfBounds) := by
  rw [sameBlock, if_neg (by omega), Int.toNat_natCast, memcmpWithin]
  split
  · next within =>
      obtain ⟨r, compared⟩ := exists_memcmp within.1 within.2
      have equal := memcmp_eq_zero_iff within.1 within.2
      rw [compared, Except.ok.injEq] at equal
      rw [compared, Except.map, decide_eq_decide.mpr equal]
  · rfl

/-- The blocks differ at an index of both, with no NUL in front of it. -/
def DifferBeforeNul (a b : Bytes) : Prop :=
  ∃ i < a.length, i < b.length ∧ a[i]? ≠ b[i]? ∧ ∀ j < i, a[j]? ≠ some 0

instance (a b : Bytes) : Decidable (DifferBeforeNul a b) :=
  inferInstanceAs (Decidable (∃ i < a.length, _))

theorem differBeforeNul_cons {x y : UInt8} {a b : Bytes} :
    DifferBeforeNul (x :: a) (y :: b) ↔ x ≠ y ∨ x ≠ 0 ∧ DifferBeforeNul a b := by
  constructor
  · intro given
    rcases given with ⟨i, inA, inB, differ, clean⟩
    cases i with
    | zero => exact Or.inl fun same => differ (congrArg some same)
    | succ i =>
        refine Or.inr ⟨fun nul => clean 0 i.succ_pos (congrArg some nul), i, ?_, ?_, differ, ?_⟩
        · exact Nat.lt_of_succ_lt_succ inA
        · exact Nat.lt_of_succ_lt_succ inB
        · intro j below
          exact clean (j + 1) (Nat.succ_lt_succ below)
  · intro given
    rcases given with differ | ⟨noNul, i, inA, inB, differ, clean⟩
    · refine ⟨0, Nat.succ_pos _, Nat.succ_pos _, ?_, ?_⟩
      · exact fun same => differ (Option.some.inj same)
      · exact fun j below => absurd below (Nat.not_lt_zero j)
    · refine ⟨i + 1, Nat.succ_lt_succ inA, Nat.succ_lt_succ inB, differ, ?_⟩
      intro j below
      cases j with
      | zero => exact fun nul => noNul (Option.some.inj nul)
      | succ j => exact clean j (Nat.lt_of_succ_lt_succ below)

/-- `strncmp` over the length of a block tells exactly the blocks apart that differ
before a NUL. -/
theorem strncmp_ne_zero_iff {a b : Bytes} :
    (∃ r, strncmp a b a.length = .ok r ∧ r ≠ 0) ↔ DifferBeforeNul a b := by
  induction a generalizing b with
  | nil => simp [strncmp, DifferBeforeNul]
  | cons x a ih =>
      cases b with
      | nil => simp [strncmp, DifferBeforeNul]
      | cons y b =>
          rw [List.length_cons, strncmp, differBeforeNul_cons]
          by_cases same : x = y
          · by_cases nul : x = 0
            · simp [← same, nul]
            · rw [if_pos same, if_neg nul, ih]
              simp [same, show y ≠ 0 from same ▸ nul]
          · have differ : x.toNat ≠ y.toNat := fun eq => same (UInt8.toNat_inj.mp eq)
            have nonzero : (x.toNat : Int) - y.toNat ≠ 0 := by omega
            simp [same, nonzero]

/-- Over the length of a block that is not longer than the other, `strncmp` has a result. -/
theorem exists_strncmp {a b : Bytes} (shorter : a.length ≤ b.length) :
    ∃ r, strncmp a b a.length = .ok r := by
  induction a generalizing b with
  | nil => exact ⟨0, by rw [List.length_nil, strncmp]⟩
  | cons x a ih =>
      cases b with
      | nil => cases shorter
      | cons y b =>
          obtain ⟨r, result⟩ := ih (Nat.le_of_succ_le_succ shorter)
          rw [List.length_cons, strncmp]
          split
          · split
            · exact ⟨0, rfl⟩
            · exact ⟨r, result⟩
          · exact ⟨_, rfl⟩

theorem strncmp_self (a : Bytes) : strncmp a a a.length = .ok 0 := by
  induction a with
  | nil => rw [List.length_nil, strncmp]
  | cons x a ih =>
      rw [List.length_cons, strncmp, if_pos rfl, ih]
      split <;> rfl

end PacketReplay.Lib
