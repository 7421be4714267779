import Mathlib.Data.List.DropRight
import PacketReplay.Lib.CLibrary

/-!
# String helpers

`src/lib/util.cc`, and `std::getline` on a string stream: a stream that is never
asked for its state bits is the text it has still to deliver.
-/

namespace PacketReplay

open Lib

/-! ## Hexadecimal -/

def hexDigit (n : Nat) : UInt8 := UInt8.ofNat (if n < 10 then 48 + n else 87 + n)

/-- `bytes_to_hex_string` of a whole block. -/
def bytesToHexString (data : Bytes) : Bytes :=
  data.flatMap fun b => [hexDigit (b.toNat / 16), hexDigit (b.toNat % 16)]

theorem digitValue_hexDigit {n : Nat} (digit : n < 16) : digitValue 16 (hexDigit n) = some n := by
  revert n
  decide

theorem hexDigit_inj {m n : Nat} (left : m < 16) (right : n < 16)
    (same : hexDigit m = hexDigit n) : m = n := by
  have value := digitValue_hexDigit left
  rw [same, digitValue_hexDigit right] at value
  exact (Option.some.inj value).symm

theorem isdigit_of_mem_bytesToHexString {data : Bytes} {c : UInt8}
    (mem : c ∈ bytesToHexString data) : isdigit 16 c = true := by
  obtain ⟨b, -, inPair⟩ := List.mem_flatMap.mp mem
  have byte := b.toNat_lt
  have high : b.toNat / 16 < 16 := by omega
  have low : b.toNat % 16 < 16 := by omega
  rcases List.mem_pair.mp inPair with rfl | rfl
  · rw [isdigit, digitValue_hexDigit high, Option.isSome_some]
  · rw [isdigit, digitValue_hexDigit low, Option.isSome_some]

theorem bytesToHexString_injective {a b : Bytes}
    (same : bytesToHexString a = bytesToHexString b) : a = b := by
  induction a generalizing b with
  | nil =>
      cases b with
      | nil => rfl
      | cons y b => cases same
  | cons x a ih =>
      cases b with
      | nil => cases same
      | cons y b =>
          have boundX := x.toNat_lt
          have boundY := y.toNat_lt
          simp only [bytesToHexString, List.flatMap_cons, List.cons_append, List.nil_append,
            List.cons.injEq] at same
          obtain ⟨high, low, rest⟩ := same
          have quotients := hexDigit_inj (by omega) (by omega) high
          have remainders := hexDigit_inj (by omega) (by omega) low
          have first : x = y := UInt8.toNat_inj.mp (by omega)
          rw [first, ih rest]

/-! ## White space and case -/

def trimLeft (s : Bytes) : Bytes := s.dropWhile isspace

def trimRight (s : Bytes) : Bytes := s.rdropWhile isspace

def trim (s : Bytes) : Bytes := trimRight (trimLeft s)

theorem trim_eq_self {s : Bytes} (visible : ∀ c ∈ s, isspace c = false) : trim s = s := by
  have left : trimLeft s = s := by
    rw [trimLeft, List.dropWhile_eq_self_iff]
    intro nonempty
    simp [visible _ (List.getElem_mem nonempty)]
  rw [trim, left, trimRight, List.rdropWhile_eq_self_iff]
  intro nonempty
  simp [visible _ (List.getLast_mem nonempty)]

/-- There is no white space at either end. -/
def Bare (s : Bytes) : Prop :=
  (∀ c ∈ s.head?, isspace c = false) ∧ ∀ c ∈ s.getLast?, isspace c = false

instance (s : Bytes) : Decidable (Bare s) := inferInstanceAs (Decidable (_ ∧ _))

/-- The text without the white space around it. -/
def Trimmed (s text : Bytes) : Prop :=
  Bare text ∧ ∃ left right, s = left ++ (text ++ right) ∧
    (∀ c ∈ left, isspace c = true) ∧ ∀ c ∈ right, isspace c = true

theorem trimLeft_append {left s : Bytes} (blank : ∀ c ∈ left, isspace c = true) :
    trimLeft (left ++ s) = trimLeft s :=
  List.dropWhile_append_of_pos blank

theorem trimRight_append {s right : Bytes} (blank : ∀ c ∈ right, isspace c = true) :
    trimRight (s ++ right) = trimRight s := by
  induction right using List.reverseRecOn with
  | nil => rw [List.append_nil]
  | append_singleton right c ih =>
      have last := blank c (by simp)
      have before := ih fun d mem => blank d (List.mem_append_left _ mem)
      rw [← List.append_assoc, trimRight, List.rdropWhile_concat_pos _ _ _ last]
      exact before

theorem trimLeft_of_head {s : Bytes} (visible : ∀ c ∈ s.head?, isspace c = false) :
    trimLeft s = s := by
  cases s with
  | nil => rfl
  | cons c s => exact List.dropWhile_cons_of_neg (by simp [visible c rfl])

theorem trimRight_of_getLast {s : Bytes} (visible : ∀ c ∈ s.getLast?, isspace c = false) :
    trimRight s = s := by
  rw [trimRight, List.rdropWhile_eq_self_iff]
  intro nonempty
  simp [visible _ (List.getLast_mem_getLast? nonempty)]

theorem trimmed_trim (s : Bytes) : Trimmed s (trim s) := by
  have front : trimLeft s = trim s ++ (trimLeft s).rtakeWhile isspace :=
    List.rdropWhile_append_rtakeWhile.symm
  refine ⟨⟨?_, ?_⟩, s.takeWhile isspace, (trimLeft s).rtakeWhile isspace, ?_, ?_, ?_⟩
  · intro c first
    have head : c ∈ (trimLeft s).head? := by
      rw [front, List.head?_append, first]
      rfl
    have stops := List.head?_dropWhile_not isspace s
    rw [show s.dropWhile isspace = trimLeft s from rfl, show (trimLeft s).head? = some c from head]
      at stops
    simpa using stops
  · intro c last
    rcases List.getLast?_eq_some_iff.mp last with ⟨init, ends⟩
    have whole : trimRight (trim s) = trim s := List.rdropWhile_idempotent _ _
    by_contra blank
    rw [ends, trimRight, List.rdropWhile_concat_pos _ _ _ (by simpa using blank)] at whole
    have shorter := (List.rdropWhile_prefix (l := init) isspace).length_le
    rw [whole, List.length_append, List.length_singleton] at shorter
    omega
  · rw [← front]
    exact (List.takeWhile_append_dropWhile ..).symm
  · exact fun c mem => List.mem_takeWhile_imp mem
  · exact fun c mem => List.mem_rtakeWhile_imp mem

/-- `trim` takes the white space away, and nothing else. -/
theorem trimmed_iff {s text : Bytes} : Trimmed s text ↔ trim s = text := by
  constructor
  · intro trimmed
    rcases trimmed with ⟨bare, left, right, rfl, blankLeft, blankRight⟩
    rw [trim, trimLeft_append blankLeft]
    rcases List.eq_nil_or_concat text with rfl | ⟨_, _, nonempty⟩
    · have nothing : trimLeft right = [] := List.dropWhile_eq_nil_iff.mpr blankRight
      rw [List.nil_append, nothing]
      rfl
    · have head : ∀ c ∈ (text ++ right).head?, isspace c = false := by
        intro c first
        rw [List.head?_append_of_ne_nil _ (by simp [nonempty])] at first
        exact bare.1 c first
      rw [trimLeft_of_head head, trimRight_append blankRight, trimRight_of_getLast bare.2]
  · intro same
    subst same
    exact trimmed_trim s

def toLower (s : Bytes) : Bytes := s.map tolower

/-! ## Lines -/

/-- `std::getline` on a string stream: the characters up to the delimiter, which is
taken out, and what is left; it fails on an exhausted stream. -/
def getlineUpTo (delim : UInt8) (s : Bytes) : Option (Bytes × Bytes) :=
  if s = [] then none
  else some (s.takeWhile (· ≠ delim), (s.dropWhile (· ≠ delim)).tail)

theorem getlineUpTo_append {delim : UInt8} {line : Bytes} (clean : delim ∉ line) (rest : Bytes) :
    getlineUpTo delim (line ++ delim :: rest) = some (line, rest) := by
  have inside : ∀ c ∈ line, decide (c ≠ delim) = true := by
    intro c mem
    exact decide_eq_true fun eq => clean (eq ▸ mem)
  rw [getlineUpTo, if_neg (by simp), List.takeWhile_append_of_pos inside,
    List.dropWhile_append_of_pos inside]
  simp

theorem getlineUpTo_last {delim : UInt8} {line : Bytes} (clean : delim ∉ line)
    (nonempty : line ≠ []) : getlineUpTo delim line = some (line, []) := by
  have inside : ∀ c ∈ line, decide (c ≠ delim) = true := by
    intro c mem
    exact decide_eq_true fun eq => clean (eq ▸ mem)
  rw [getlineUpTo, if_neg nonempty, List.takeWhile_eq_self_iff.mpr inside,
    List.dropWhile_eq_nil_iff.mpr inside]
  rfl

/-- A line delivered from a text is shorter than what was left of it. -/
theorem getlineUpTo_length {delim : UInt8} {s line rest : Bytes}
    (read : getlineUpTo delim s = some (line, rest)) : rest.length < s.length := by
  rw [getlineUpTo] at read
  split at read
  · cases read
  · next nonempty =>
      cases read
      have pos := List.length_pos_iff.mpr nonempty
      have suffix := (List.dropWhile_suffix (l := s) (· ≠ delim)).length_le
      rw [List.length_tail]
      omega

/-- The lines that a loop on `std::getline` delivers. -/
def getlines (delim : UInt8) (s : Bytes) : List Bytes :=
  match _read : getlineUpTo delim s with
  | none => []
  | some (line, rest) => line :: getlines delim rest
termination_by s.length
decreasing_by exact getlineUpTo_length _read

@[simp] theorem getlines_nil (delim : UInt8) : getlines delim [] = [] := by
  rw [getlines, getlineUpTo, if_pos rfl]

theorem getlines_append {delim : UInt8} {line : Bytes} (clean : delim ∉ line) (rest : Bytes) :
    getlines delim (line ++ delim :: rest) = line :: getlines delim rest := by
  rw [getlines, getlineUpTo_append clean]

theorem getlines_of_ne_nil {delim : UInt8} {s : Bytes} (nonempty : s ≠ []) :
    getlines delim s =
      s.takeWhile (· ≠ delim) :: getlines delim (s.dropWhile (· ≠ delim)).tail := by
  rw [getlines, getlineUpTo, if_neg nonempty]

theorem getlines_last {delim : UInt8} {line : Bytes} (clean : delim ∉ line)
    (nonempty : line ≠ []) : getlines delim line = [line] := by
  rw [getlines, getlineUpTo_last clean nonempty]
  exact congrArg _ (getlines_nil delim)

theorem not_mem_takeWhile_ne (delim : UInt8) (s : Bytes) : delim ∉ s.takeWhile (· ≠ delim) := by
  intro mem
  simpa using List.mem_takeWhile_imp mem

/-- A text is one line, or a line and the text behind its delimiter. -/
theorem takeWhile_line (delim : UInt8) (s : Bytes) :
    (s.dropWhile (· ≠ delim)).tail = [] ∧ s = s.takeWhile (· ≠ delim) ∨
      s = s.takeWhile (· ≠ delim) ++ delim :: (s.dropWhile (· ≠ delim)).tail := by
  have whole : s.takeWhile (· ≠ delim) ++ s.dropWhile (· ≠ delim) = s :=
    List.takeWhile_append_dropWhile
  have stops := List.head?_dropWhile_not (· ≠ delim) s
  rcases rest : s.dropWhile (· ≠ delim) with _ | ⟨c, behind⟩
  · rw [rest, List.append_nil] at whole
    exact Or.inl ⟨rfl, whole.symm⟩
  · rw [rest] at whole stops
    have same : c = delim := by simpa using stops
    rw [same] at whole
    exact Or.inr whole.symm

theorem ne_nil_of_getlines_eq_cons {delim : UInt8} {s line : Bytes} {lines : List Bytes}
    (read : getlines delim s = line :: lines) : s ≠ [] := by
  intro empty
  rw [empty, getlines_nil] at read
  cases read

/-- What lines a text has: they are put together with a delimiter between them, and
possibly one at the end. -/
theorem getlines_eq_iff {delim : UInt8} {s : Bytes} {lines : List Bytes} (some_line : lines ≠ [])
    (last : lines.getLast some_line ≠ []) :
    getlines delim s = lines ↔ (∀ line ∈ lines, delim ∉ line) ∧
      (s = [delim].intercalate lines ∨ s = [delim].intercalate lines ++ [delim]) := by
  induction lines generalizing s with
  | nil => exact absurd rfl some_line
  | cons line lines ih =>
      cases lines with
      | nil =>
          rw [List.getLast_singleton] at last
          rw [List.forall_mem_singleton, List.intercalate_singleton]
          constructor
          · intro only
            rw [getlines_of_ne_nil (ne_nil_of_getlines_eq_cons only), List.cons.injEq] at only
            rcases only with ⟨rfl, ended⟩
            have nothing : (s.dropWhile (· ≠ delim)).tail = [] := by
              by_contra more
              rw [getlines_of_ne_nil more] at ended
              cases ended
            refine ⟨not_mem_takeWhile_ne delim s, ?_⟩
            rcases takeWhile_line delim s with ⟨-, whole⟩ | split
            · exact Or.inl whole
            · rw [nothing] at split
              exact Or.inr split
          · intro given
            rcases given with ⟨bare, rfl | rfl⟩
            · exact getlines_last bare last
            · rw [getlines_append bare, getlines_nil]
      | cons next lines =>
          rw [List.getLast_cons (List.cons_ne_nil _ _)] at last
          have rest := fun t => ih (s := t) (List.cons_ne_nil _ _) last
          rw [List.forall_mem_cons, List.intercalate_cons_cons, List.append_assoc,
            List.append_assoc, List.append_assoc, List.singleton_append, List.singleton_append]
          constructor
          · intro read
            rw [getlines_of_ne_nil (ne_nil_of_getlines_eq_cons read), List.cons.injEq] at read
            rcases read with ⟨rfl, behind⟩
            obtain ⟨others, joined⟩ := (rest _).mp behind
            refine ⟨⟨not_mem_takeWhile_ne delim s, others⟩, ?_⟩
            rcases takeWhile_line delim s with ⟨nothing, -⟩ | split
            · exact absurd nothing (ne_nil_of_getlines_eq_cons behind)
            · rcases joined with same | same
              · exact Or.inl (split.trans (by rw [same]))
              · exact Or.inr (split.trans (by rw [same]))
          · intro given
            rcases given with ⟨⟨bare, others⟩, rfl | rfl⟩
            · rw [getlines_append bare, (rest _).mpr ⟨others, Or.inl rfl⟩]
            · rw [getlines_append bare, (rest _).mpr ⟨others, Or.inr rfl⟩]

/-! ## Tokens -/

/-- `tokenize`, which cuts at colons whatever the delimiter is. -/
def tokenize (str : Bytes) (_delimiter : UInt8) : List Bytes := getlines 58 str

/-- `token`: the text from the delimiter on, where there is one and the pointer is not
null, and the text in front of it. -/
def token (s : Bytes) (delimiter : UInt8) : Option Bytes × Bytes :=
  let rest := s.dropWhile (· ≠ delimiter)
  (if rest = [] then none else some rest, s.takeWhile (· ≠ delimiter))

/-- The text in front of a delimiter and the text behind it. -/
def cut (delimiter : UInt8) (s : Bytes) : Bytes × Bytes :=
  (s.takeWhile (· ≠ delimiter), (s.dropWhile (· ≠ delimiter)).tail)

theorem cut_cons_of_ne {delimiter c : UInt8} (other : c ≠ delimiter) (s : Bytes) :
    cut delimiter (c :: s) = (c :: (cut delimiter s).1, (cut delimiter s).2) := by
  rw [cut, List.takeWhile_cons_of_pos (by simp [other]),
    List.dropWhile_cons_of_pos (by simp [other])]
  rfl

theorem cut_of_not_mem {delimiter : UInt8} {s : Bytes} (clean : delimiter ∉ s) :
    cut delimiter s = (s, []) := by
  have inside : ∀ c ∈ s, decide (c ≠ delimiter) = true := by
    intro c mem
    exact decide_eq_true fun eq => clean (eq ▸ mem)
  rw [cut, List.takeWhile_eq_self_iff.mpr inside, List.dropWhile_eq_nil_iff.mpr inside]
  rfl

theorem token_of_mem {delimiter : UInt8} {s : Bytes} (mem : delimiter ∈ s) :
    token s delimiter = (some (delimiter :: (cut delimiter s).2), (cut delimiter s).1) := by
  have rest : s.dropWhile (· ≠ delimiter) = delimiter :: (cut delimiter s).2 := by
    obtain ⟨front, back, rfl, clean⟩ := List.eq_append_cons_of_mem mem
    have inside : ∀ c ∈ front, decide (c ≠ delimiter) = true := by
      intro c mem
      exact decide_eq_true fun eq => clean (eq ▸ mem)
    rw [cut, List.dropWhile_append_of_pos inside]
    simp
  rw [token, rest, if_neg (List.cons_ne_nil _ _)]
  rfl

theorem token_append {delimiter : UInt8} {front : Bytes} (clean : delimiter ∉ front)
    (behind : Bytes) :
    token (front ++ delimiter :: behind) delimiter = (some (delimiter :: behind), front) := by
  have inside : ∀ c ∈ front, decide (c ≠ delimiter) = true := by
    intro c mem
    exact decide_eq_true fun eq => clean (eq ▸ mem)
  rw [token, List.dropWhile_append_of_pos inside, List.takeWhile_append_of_pos inside]
  simp

theorem token_of_not_mem {delimiter : UInt8} {s : Bytes} (clean : delimiter ∉ s) :
    token s delimiter = (none, s) := by
  have front := congrArg Prod.fst (cut_of_not_mem clean)
  have inside : ∀ c ∈ s, decide (c ≠ delimiter) = true := by
    intro c mem
    exact decide_eq_true fun eq => clean (eq ▸ mem)
  rw [token, List.dropWhile_eq_nil_iff.mpr inside, if_pos rfl]
  exact congrArg _ front

theorem tokenize_eq_nil {s : Bytes} {delimiter : UInt8} (none_left : tokenize s delimiter = []) :
    s = [] := by
  by_contra nonempty
  rw [tokenize, getlines_of_ne_nil nonempty] at none_left
  cases none_left

/-- A token is what stands in front of a colon, the others are those behind it. -/
theorem tokenize_eq_cons {s front : Bytes} {delimiter : UInt8} {behind : List Bytes}
    (tokens : tokenize s delimiter = front :: behind) :
    (cut 58 s).1 = front ∧ tokenize (cut 58 s).2 delimiter = behind := by
  rw [tokenize] at tokens
  have nonempty : s ≠ [] := by
    intro same
    subst same
    rw [getlines_nil] at tokens
    cases tokens
  rw [getlines_of_ne_nil nonempty] at tokens
  exact List.cons.inj tokens

end PacketReplay
