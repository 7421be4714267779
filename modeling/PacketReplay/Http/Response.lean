import PacketReplay.Http.ResponseProcessor

/-!
# Responses

A `Response` is what a server with a `Content-Length` sends: a status line with a
numeric status, header fields among which every `Content-Length` gives the length
of the body, the blank line and the body. `find_headEnd` says that the blank line
is the first place where the processor sees one, and `parseHeader_headText` what
it makes of the head.
-/

namespace PacketReplay

open Lib
open HttpResponseProcessor (headEnd contentLength)

/-- The characters a line of the head is made of. -/
def InLine (s : Bytes) : Prop := ∀ c ∈ s, c ≠ cr ∧ c ≠ lf

instance (s : Bytes) : Decidable (InLine s) := List.decidableBAll _ _

theorem InLine.append {s t : Bytes} (left : InLine s) (right : InLine t) : InLine (s ++ t) := by
  intro c mem
  rcases List.mem_append.mp mem with first | second
  · exact left c first
  · exact right c second

theorem InLine.no_cr {s : Bytes} (clean : InLine s) : cr ∉ s := fun mem => (clean cr mem).1 rfl

theorem InLine.no_lf {s : Bytes} (clean : InLine s) : lf ∉ s := fun mem => (clean lf mem).2 rfl

theorem InLine.no_lf_cr {s : Bytes} (clean : InLine s) : lf ∉ s ++ [cr] := by
  rw [List.mem_append, not_or]
  exact ⟨clean.no_lf, by decide⟩

structure Field : Type where
  name : Bytes
  value : Bytes
  name_clean : InLine name
  name_colon : 58 ∉ name
  value_clean : InLine value

namespace Field

def line (f : Field) : Bytes := f.name ++ 58 :: f.value

/-- The key the field is filed under. -/
def key (f : Field) : Bytes := toLower (trim f.name)

/-- What is filed under it. -/
def content (f : Field) : Bytes := trim f.value

theorem line_clean (f : Field) : InLine f.line := by
  refine f.name_clean.append fun c mem => ?_
  rcases List.mem_cons.mp mem with rfl | later
  · decide
  · exact f.value_clean c later

theorem line_ne_nil (f : Field) : f.line ≠ [] := by
  simp [line]

/-- A line is read the same with and without the CR of its end. -/
theorem headerField_line (f : Field) {ending : Bytes} (endings : ending = [] ∨ ending = [cr]) :
    HttpResponseProcessor.headerField (f.line ++ ending) = (f.key, f.content) := by
  have split : getlineUpTo 58 (f.line ++ ending) = some (f.name, f.value ++ ending) := by
    rw [line, List.append_assoc, List.cons_append]
    exact getlineUpTo_append f.name_colon _
  have value : ((getlineUpTo cr (f.value ++ ending)).getD ([], [])).1 = f.value := by
    rcases endings with rfl | rfl
    · rw [List.append_nil]
      rcases List.eq_nil_or_concat f.value with empty | ⟨_, _, nonempty⟩
      · rw [empty]
        rfl
      · rw [getlineUpTo_last f.value_clean.no_cr (by simp [nonempty])]
        rfl
    · rw [getlineUpTo_append f.value_clean.no_cr]
      rfl
  rw [HttpResponseProcessor.headerField, split]
  exact Prod.ext rfl (congrArg trim value)

end Field

structure Response : Type where
  version : Bytes
  code : Bytes
  /-- What stands on the status line behind the code. -/
  reason : Bytes
  fields : List Field
  body : Bytes
  version_clean : InLine version
  version_space : 32 ∉ version
  code_ne_nil : code ≠ []
  code_digits : ∀ c ∈ code, isdigit 10 c = true
  code_small : digitsValue 10 code < 2 ^ 31
  reason_clean : InLine reason
  reason_space : ∀ c ∈ reason.head?, c = 32
  sized : ∃ f ∈ fields, f.key = contentLength
  sizes : ∀ f ∈ fields, f.key = contentLength →
    f.content ≠ [] ∧ (∀ c ∈ f.content, isdigit 10 c = true) ∧
      digitsValue 10 f.content = body.length

/-- Header lines, each behind the end of the line before. -/
def headerLines (fields : List Field) : Bytes := fields.flatMap fun f => crlf ++ f.line

namespace Response

def statusLine (r : Response) : Bytes := r.version ++ 32 :: (r.code ++ r.reason)

/-- The head up to the blank line. -/
def headText (r : Response) : Bytes := r.statusLine ++ headerLines r.fields

/-- The head with the blank line. -/
def head (r : Response) : Bytes := r.headText ++ headEnd

theorem length_head (r : Response) : r.head.length = r.headText.length + 4 := by
  rw [head, List.length_append]
  rfl

def bytes (r : Response) : Bytes := r.head ++ r.body

def status (r : Response) : Int32 := Int32.ofNat (digitsValue 10 r.code)

/-- The status code is not the one that stands for no status. -/
theorem status_ne (r : Response) : r.status ≠ -1 := by
  intro same
  have value : r.status.toInt = digitsValue 10 r.code := Int32.toInt_ofNat_of_lt r.code_small
  rw [same] at value
  have negative : (-1 : Int32).toInt = -1 := by decide
  omega

end Response

/-! ## The blank line -/

theorem inLine_of_digits {ds : Bytes} (digits : ∀ c ∈ ds, isdigit 10 c = true) : InLine ds := by
  intro c mem
  have digit := digits c mem
  constructor
  · intro same
    subst same
    cases digit
  · intro same
    subst same
    cases digit

theorem Response.statusLine_clean (r : Response) : InLine r.statusLine := by
  refine r.version_clean.append fun c mem => ?_
  rcases List.mem_cons.mp mem with rfl | later
  · decide
  · exact ((inLine_of_digits r.code_digits).append r.reason_clean) c later

/-- The end of a line is not yet a blank line when another line follows. -/
theorem find_headEnd_crlf {line t : Bytes} (clean : InLine line) (nonempty : line ≠ []) :
    find headEnd (crlf ++ (line ++ t)) = (find headEnd (line ++ t)).map (2 + ·) := by
  obtain ⟨a, line, rfl⟩ := List.exists_cons_of_ne_nil nonempty
  have notCr : a ≠ cr := (clean a List.mem_cons_self).1
  have here : ¬ headEnd <+: cr :: lf :: a :: (line ++ t) := by
    intro starts
    simp only [headEnd, crlf, List.cons_append, List.nil_append, List.cons_prefix_cons] at starts
    exact notCr starts.2.2.1.symm
  have next : ¬ headEnd <+: lf :: a :: (line ++ t) := by
    intro starts
    simp only [headEnd, crlf, List.cons_append, List.cons_prefix_cons] at starts
    exact absurd starts.1 (by decide)
  have unfolded : crlf ++ ((a :: line) ++ t) = cr :: lf :: a :: (line ++ t) := rfl
  rw [unfolded, find, if_neg here, find, if_neg next, Option.map_map]
  congr 1
  funext i
  simp only [Function.comp_apply]
  omega

theorem find_headEnd_lines {first : Bytes} (clean : InLine first) (fields : List Field)
    (rest : Bytes) :
    find headEnd (first ++ (headerLines fields ++ (headEnd ++ rest))) =
      some (first ++ headerLines fields).length := by
  induction fields generalizing first with
  | nil =>
      have here : find headEnd (headEnd ++ rest) = some 0 :=
        find_eq_some_of_first (List.prefix_append _ _) (Nat.zero_le _)
          fun j below => absurd below (Nat.not_lt_zero j)
      have skip := find_append_of_not_mem (u := lf :: crlf) clean.no_cr (headEnd ++ rest)
      rw [headerLines, List.flatMap_nil, List.nil_append, List.append_nil]
      exact skip.trans (by rw [show find (cr :: lf :: crlf) _ = some 0 from here]; rfl)
  | cons f fields ih =>
      have skip := find_append_of_not_mem (u := lf :: crlf) clean.no_cr
        (crlf ++ (f.line ++ (headerLines fields ++ (headEnd ++ rest))))
      have unfolded : headerLines (f :: fields) = crlf ++ (f.line ++ headerLines fields) := by
        rw [headerLines, List.flatMap_cons, List.append_assoc]
        rfl
      have behind := find_headEnd_crlf (t := headerLines fields ++ (headEnd ++ rest)) f.line_clean
        f.line_ne_nil
      rw [ih f.line_clean, Option.map_some] at behind
      rw [unfolded]
      simp only [List.append_assoc]
      refine skip.trans ?_
      rw [show find (cr :: lf :: crlf) _ = some _ from behind]
      simp only [Option.map_some, List.length_append, Option.some.injEq]
      rfl

/-- The blank line of a response is the first one in it. -/
theorem Response.find_headEnd (r : Response) (rest : Bytes) :
    find headEnd (r.head ++ rest) = some r.headText.length := by
  have found := find_headEnd_lines r.statusLine_clean r.fields rest
  rw [head, headText]
  simpa only [List.append_assoc] using found

/-! ## The parsed head -/

/-- The fields filed in order. -/
def fileFields (headers : Bytes → Option Bytes) (fields : List Field) : Bytes → Option Bytes :=
  fields.foldl (fun headers f => Function.update headers f.key (some f.content)) headers

theorem putHeaders_fields (headers : Bytes → Option Bytes) (f : Field) (fields : List Field) :
    HttpResponseProcessor.putHeaders headers (getlines lf (f.line ++ headerLines fields)) =
      fileFields headers (f :: fields) := by
  induction fields generalizing f headers with
  | nil =>
      have line := f.headerField_line (Or.inl rfl)
      rw [List.append_nil] at line
      rw [headerLines, List.flatMap_nil, List.append_nil,
        getlines_last f.line_clean.no_lf f.line_ne_nil, HttpResponseProcessor.putHeaders,
        List.foldl_cons, line]
      rfl
  | cons g fields ih =>
      have unfolded : f.line ++ headerLines (g :: fields) =
          (f.line ++ [cr]) ++ lf :: (g.line ++ headerLines fields) := by
        simp [headerLines, crlf]
      rw [unfolded, getlines_append f.line_clean.no_lf_cr, HttpResponseProcessor.putHeaders,
        List.foldl_cons, f.headerField_line (Or.inr rfl)]
      exact ih _ g

/-- Fields of other keys leave a key alone. -/
theorem fileFields_of_absent {key : Bytes} {fields : List Field}
    (absent : ∀ f ∈ fields, f.key ≠ key) (headers : Bytes → Option Bytes) :
    fileFields headers fields key = headers key := by
  induction fields generalizing headers with
  | nil => rfl
  | cons f fields ih =>
      refine (ih (fun g mem => absent g (List.mem_cons_of_mem f mem)) _).trans ?_
      exact Function.update_of_ne (Ne.symm (absent f List.mem_cons_self)) _ _

/-- A key that some field has holds the content of one of them. -/
theorem fileFields_of_mem {key : Bytes} {fields : List Field}
    (present : ∃ f ∈ fields, f.key = key) (headers : Bytes → Option Bytes) :
    ∃ f ∈ fields, f.key = key ∧ fileFields headers fields key = some f.content := by
  induction fields generalizing headers with
  | nil => simp at present
  | cons f fields ih =>
      by_cases later : ∃ g ∈ fields, g.key = key
      · obtain ⟨g, mem, there, filed⟩ := ih later (Function.update headers f.key (some f.content))
        exact ⟨g, List.mem_cons_of_mem f mem, there, filed⟩
      · have absent : ∀ g ∈ fields, g.key ≠ key := fun g mem there => later ⟨g, mem, there⟩
        have here : f.key = key := by
          obtain ⟨g, mem, there⟩ := present
          rcases List.mem_cons.mp mem with rfl | behind
          · exact there
          · exact absurd there (absent g behind)
        refine ⟨f, List.mem_cons_self, here, ?_⟩
        refine (fileFields_of_absent absent _).trans ?_
        rw [← here]
        exact Function.update_self _ _ _

theorem stop_of_reason {reason : Bytes} (space : ∀ c ∈ reason.head?, c = 32) :
    reason = [] ∨ ∃ t, reason = 32 :: t := by
  cases reason with
  | nil => exact Or.inl rfl
  | cons c t => exact Or.inr ⟨t, by rw [space c (by simp)]⟩

theorem Response.parseStatus_statusLine (r : Response) (old : Int32) :
    HttpResponseProcessor.parseStatus (r.statusLine ++ [cr]) old = .ok r.status := by
  have unfolded : r.statusLine ++ [cr] = r.version ++ 32 :: (r.code ++ (r.reason ++ [cr])) := by
    simp [statusLine]
  have codeSpace : 32 ∉ r.code := by
    intro mem
    have digit := r.code_digits 32 mem
    cases digit
  have word : ∃ rest, HttpResponseProcessor.statusToken (r.statusLine ++ [cr]) =
      some (r.code ++ rest) ∧ ∀ c ∈ rest.head?, isdigit 10 c = false := by
    rw [HttpResponseProcessor.statusToken, unfolded, getlineUpTo_append r.version_space]
    rcases stop_of_reason r.reason_space with none | ⟨t, space⟩
    · refine ⟨[cr], ?_, fun c first => by cases first; rfl⟩
      have clean : 32 ∉ r.code ++ [cr] := by
        rw [List.mem_append, not_or]
        exact ⟨codeSpace, by decide⟩
      have last := getlineUpTo_last clean (by simp)
      simp [none, last]
    · refine ⟨[], ?_, by simp⟩
      have middle := getlineUpTo_append codeSpace (t ++ [cr])
      simp [space, middle]
  obtain ⟨rest, token, stop⟩ := word
  have fits : ¬ 2 ^ 64 ≤ digitsValue 10 r.code := by
    have small := r.code_small
    omega
  rw [HttpResponseProcessor.parseStatus, token]
  change (stoul (r.code ++ rest)).map _ = _
  rw [stoul_digits r.code_ne_nil r.code_digits stop, if_neg fits]
  rfl

/-- The headers as the head of a response leaves them. -/
theorem Response.parseHeader_headText (r : Response) (p : HttpResponseProcessor) :
    p.parseHeader r.headText =
      (.ok (), { p with
        statusCode := r.status
        headers := fileFields p.headers r.fields }) := by
  obtain ⟨f, mem, -⟩ := r.sized
  obtain ⟨g, fields, split⟩ := List.exists_cons_of_ne_nil (List.ne_nil_of_mem mem)
  have unfolded : r.headText = (r.statusLine ++ [cr]) ++ lf :: (g.line ++ headerLines fields) := by
    simp [headText, split, headerLines, crlf]
  rw [HttpResponseProcessor.parseHeader, unfolded,
    getlineUpTo_append r.statusLine_clean.no_lf_cr]
  simp only [r.parseStatus_statusLine, putHeaders_fields, split]

/-- What stands under `content-length` is read as the length of the body. -/
theorem Response.stoul_contentLength (r : Response) (headers : Bytes → Option Bytes) :
    ∃ value, fileFields headers r.fields contentLength = some value ∧
      stoul value =
        if 2 ^ 64 ≤ r.body.length then .error (.thrown (.outOfRange (ascii "stoul")))
        else .ok r.body.length := by
  obtain ⟨f, mem, key, filed⟩ := fileFields_of_mem r.sized headers
  obtain ⟨nonempty, digits, length⟩ := r.sizes f mem key
  have read := stoul_digits nonempty digits (t := []) (by simp)
  rw [List.append_nil, length] at read
  exact ⟨f.content, filed, read⟩

end PacketReplay
