import PacketReplay.Http.Response
import PacketReplay.Lib.Registry

/-!
# Heads

A `Head` is a status line with a code of three digits and header lines of any names and
values. `parseHeader_text` says what a fresh processor makes of it: the code, and under
each name, whatever its case, the value of the last line with that name, without the
white space around it.
-/

namespace PacketReplay

open Lib

/-- The head of a response up to the blank line. -/
structure Head : Type where
  version : Bytes
  code : Bytes
  reason : Bytes
  fields : List Field
  version_clean : InLine version
  version_space : 32 ∉ version
  code_length : code.length = 3
  code_digits : ∀ c ∈ code, isdigit 10 c = true
  reason_clean : InLine reason
  names : ∀ f ∈ fields, f.name ≠ [] ∧ Bare f.name

/-- Each letter with its lower-case one. -/
def letterCases : List (UInt8 × UInt8) :=
  (ascii "ABCDEFGHIJKLMNOPQRSTUVWXYZ").zip (ascii "abcdefghijklmnopqrstuvwxyz")

/-- A letter in lower case; other bytes have none. -/
def lowerCase (c : UInt8) : UInt8 := (letterCases.lookup c).getD c

theorem tolower_eq_lowerCase (c : UInt8) : tolower c = lowerCase c := by
  have all : ∀ n < 256, tolower (UInt8.ofNat n) = lowerCase (UInt8.ofNat n) := by decide +kernel
  rw [← UInt8.ofNat_toNat (x := c)]
  exact all c.toNat c.toNat_lt

/-- `toLower` does it byte by byte. -/
theorem toLower_eq_map_lowerCase (s : Bytes) : toLower s = s.map lowerCase :=
  List.map_congr_left fun c _ => tolower_eq_lowerCase c

namespace Field

/-- The name without regard to its case. -/
def lowerName (f : Field) : Bytes := f.name.map lowerCase

theorem key_of_bare {f : Field} (bare : Bare f.name) : f.key = f.lowerName := by
  have same : trim f.name = f.name :=
    trimmed_iff.mp ⟨bare, [], [], by simp, by simp, by simp⟩
  rw [key, lowerName, same, toLower_eq_map_lowerCase]

end Field

/-- What is filed under a key is what the last field with it says. -/
theorem fileFields_eq (headers : Bytes → Option Bytes) (fields : List Field) (key : Bytes) :
    fileFields headers fields key =
      ((lastWith Field.key key fields).map Field.content).or (headers key) := by
  induction fields using List.reverseRecOn with
  | nil => rfl
  | append_singleton fields f ih =>
      rw [fileFields, List.foldl_append, List.foldl_cons, List.foldl_nil, lastWith_append]
      by_cases same : f.key = key
      · rw [lastWith_singleton_of_eq same, ← same, Function.update_self]
        rfl
      · rw [lastWith_singleton_of_ne same, Function.update_of_ne (Ne.symm same), Option.none_or]
        exact ih

namespace Head

variable (h : Head)

def statusLine : Bytes := h.version ++ 32 :: (h.code ++ 32 :: h.reason)

/-- The lines of the head, joined by line ends. -/
def text : Bytes := h.statusLine ++ headerLines h.fields

def status : Int32 := Int32.ofNat (digitsValue 10 h.code)

/-- The last line with a name in whatever case. -/
def lastNamed (name : Bytes) : Option Field := lastWith Field.lowerName name h.fields

theorem statusLine_clean : InLine h.statusLine := by
  refine h.version_clean.append fun c mem => ?_
  rcases List.mem_cons.mp mem with rfl | later
  · decide
  · rcases List.mem_append.mp later with inCode | behind
    · exact inLine_of_digits h.code_digits c inCode
    · rcases List.mem_cons.mp behind with rfl | inReason
      · decide
      · exact h.reason_clean c inReason

theorem lastWith_key (name : Bytes) : lastWith Field.key name h.fields = h.lastNamed name := by
  rw [lastNamed, lastWith, lastWith]
  congr 1
  refine List.filter_congr fun f mem => ?_
  rw [Field.key_of_bare (h.names f mem).2]

/-- A word of digits between two spaces is the status. -/
theorem parseStatus_statusLine (ending : Bytes) (old : Int32) :
    HttpResponseProcessor.parseStatus (h.statusLine ++ ending) old = .ok h.status := by
  have codeSpace : 32 ∉ h.code := by
    intro mem
    have digit := h.code_digits 32 mem
    cases digit
  have unfolded : h.statusLine ++ ending =
      h.version ++ 32 :: (h.code ++ 32 :: (h.reason ++ ending)) := by
    simp [statusLine]
  have word : HttpResponseProcessor.statusToken (h.statusLine ++ ending) = some h.code := by
    rw [HttpResponseProcessor.statusToken, unfolded, getlineUpTo_append h.version_space]
    change (do let second ← getlineUpTo 32 (h.code ++ 32 :: (h.reason ++ ending)); _) = _
    rw [getlineUpTo_append codeSpace]
    rfl
  have nonempty : h.code ≠ [] := by
    intro empty
    have three := h.code_length
    rw [empty] at three
    cases three
  have small : digitsValue 10 h.code < 10 ^ 3 := h.code_length ▸ digitsValue_lt h.code_digits
  have read := stoul_digits nonempty h.code_digits (t := []) (by simp)
  rw [List.append_nil, if_neg (by omega)] at read
  rw [HttpResponseProcessor.parseStatus, word]
  change (stoul h.code).map Int32.ofNat = _
  rw [read]
  rfl

/-- The head as the processor parses it. -/
theorem parseHeader_eq (p : HttpResponseProcessor) :
    p.parseHeader h.text =
      (.ok (), { p with
        statusCode := h.status
        headers := fileFields p.headers h.fields }) := by
  cases lines : h.fields with
  | nil =>
      have nonempty : h.statusLine ≠ [] := by simp [statusLine]
      have whole := h.parseStatus_statusLine [] p.statusCode
      rw [List.append_nil] at whole
      rw [HttpResponseProcessor.parseHeader, text, lines, headerLines, List.flatMap_nil,
        List.append_nil, getlineUpTo_last h.statusLine_clean.no_lf nonempty]
      simp only [whole, getlines_nil]
      rfl
  | cons f fields =>
      have unfolded : h.statusLine ++ headerLines (f :: fields) =
          (h.statusLine ++ [cr]) ++ lf :: (f.line ++ headerLines fields) := by
        simp [headerLines, crlf]
      rw [HttpResponseProcessor.parseHeader, text, lines, unfolded,
        getlineUpTo_append h.statusLine_clean.no_lf_cr]
      simp only [h.parseStatus_statusLine, putHeaders_fields]

/-- A fresh processor has the code of a head behind it and, under each name in lower
case, the value of the last line with that name, trimmed; there is nothing else in its
headers. -/
theorem parseHeader_text :
    ∃ headers, ({} : HttpResponseProcessor).parseHeader h.text =
        (.ok (), { statusCode := h.status, headers := headers }) ∧
      ∀ name value, headers name = some value ↔
        ∃ f, h.lastNamed name = some f ∧ Trimmed f.value value := by
  refine ⟨fileFields (fun _ => none) h.fields, h.parseHeader_eq {}, fun name value => ?_⟩
  rw [fileFields_eq, Option.or_none, h.lastWith_key, Option.map_eq_some_iff]
  exact exists_congr fun f => and_congr_right fun _ => trimmed_iff.symm

end Head

end PacketReplay
