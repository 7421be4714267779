import PacketReplay.Lib.CLibrary

/-!
# Input streams

The unformatted input of a `std::istream`: the characters still to come and the two
state bits that reading sets. A stream that is not good delivers nothing more. The
`_good` lemmas are what a reader's proof uses: what each operation does to a stream
in a good state.
-/

namespace PacketReplay.Lib

structure IStream : Type where
  rest : Bytes
  eof : Bool := false
  fail : Bool := false
  deriving DecidableEq, Repr

namespace IStream

/-- A stream that delivers a text. -/
def of (text : Bytes) : IStream := ⟨text, false, false⟩

def good (s : IStream) : Bool := !s.eof && !s.fail

/-- `peek`: the next character, if there is one. -/
def peek (s : IStream) : Option UInt8 × IStream :=
  if s.good then
    match s.rest with
    | [] => (none, { s with eof := true })
    | c :: _ => (some c, s)
  else (none, { s with fail := true })

/-- `get()`. -/
def get (s : IStream) : Option UInt8 × IStream :=
  if s.good then
    match s.rest with
    | [] => (none, { s with eof := true, fail := true })
    | c :: rest => (some c, { s with rest := rest })
  else (none, { s with fail := true })

/-- `get(buf, n, delim)`: at most `n - 1` characters in front of the delimiter, which
stays. It looks at the character behind each one it takes, so the end of the stream is
seen also where there is no room for more. -/
def getUpTo (n : Nat) (delim : UInt8) (s : IStream) : Bytes × IStream :=
  if s.good then
    let chunk := (s.rest.take (n - 1)).takeWhile (· ≠ delim)
    let rest := s.rest.drop chunk.length
    (chunk, ⟨rest, rest = [], chunk = []⟩)
  else ([], { s with fail := true })

/-- `std::getline`: the characters up to the delimiter, which is taken out. -/
def getline (delim : UInt8) (s : IStream) : Option Bytes × IStream :=
  if s.good then
    if s.rest = [] then (none, { s with eof := true, fail := true })
    else
      let behind := s.rest.dropWhile (· ≠ delim)
      (some (s.rest.takeWhile (· ≠ delim)), { s with rest := behind.tail, eof := behind = [] })
  else (none, { s with fail := true })

@[simp] theorem of_rest (t : Bytes) : (of t).rest = t := rfl

@[simp] theorem of_eof (t : Bytes) : (of t).eof = false := rfl

@[simp] theorem of_fail (t : Bytes) : (of t).fail = false := rfl

@[simp] theorem of_good (t : Bytes) : (of t).good = true := rfl

theorem peek_good (t : Bytes) :
    (of t).peek = (t.head?, { of t with eof := t = [] }) := by
  cases t <;> rfl

theorem get_good (c : UInt8) (t : Bytes) : (of (c :: t)).get = (some c, of t) := rfl

/-- Where no character is left the end is noticed. -/
theorem get_eq_none {s after : IStream} (sound : s.fail = false) (got : s.get = (none, after)) :
    after.eof = true ∧ after.rest = s.rest := by
  rcases s with ⟨rest, eof, fail⟩
  cases sound
  cases eof with
  | true =>
      cases got
      exact ⟨rfl, rfl⟩
  | false =>
      cases rest with
      | nil =>
          cases got
          exact ⟨rfl, rfl⟩
      | cons c rest => cases got

theorem get_eq_some {s after : IStream} {c : UInt8} (got : s.get = (some c, after)) :
    s.rest = c :: after.rest := by
  rcases s with ⟨rest, eof, fail⟩
  cases eof with
  | true => cases fail <;> cases got
  | false =>
      cases fail with
      | true => cases got
      | false =>
          cases rest with
          | nil => cases got
          | cons d rest =>
              cases got
              rfl

/-- Reading has not put characters back, and a stream that is still good has
delivered some. -/
def Consumes (before after : IStream) : Prop :=
  after.rest.length ≤ before.rest.length ∧
    (after.good = true → after.rest.length < before.rest.length)

theorem Consumes.trans {s t u : IStream} (first : Consumes s t) (second : Consumes t u) :
    Consumes s u :=
  ⟨second.1.trans first.1, fun good => (second.2 good).trans_le first.1⟩

theorem getline_consumes (delim : UInt8) (s : IStream) : Consumes s (s.getline delim).2 := by
  unfold getline
  split
  · next good =>
      split
      · exact ⟨le_rfl, fun still => by simp [IStream.good] at still⟩
      · next nonempty =>
          have pos := List.length_pos_iff.mpr nonempty
          have suffix := (List.dropWhile_suffix (l := s.rest) (· ≠ delim)).length_le
          constructor
          · simp only [List.length_tail]
            omega
          · intro _
            simp only [List.length_tail]
            omega
  · exact ⟨le_rfl, fun still => by simp [IStream.good] at still⟩

/-- A line delivered has been taken out of the stream. -/
theorem length_getline {delim : UInt8} {s : IStream} {line : Bytes}
    (read : (s.getline delim).1 = some line) :
    (s.getline delim).2.rest.length < s.rest.length := by
  unfold getline at read ⊢
  split at read
  · next good =>
      rw [if_pos good]
      split at read
      · cases read
      · next nonempty =>
          rw [if_neg nonempty]
          have pos := List.length_pos_iff.mpr nonempty
          have suffix := (List.dropWhile_suffix (l := s.rest) (· ≠ delim)).length_le
          simp only [List.length_tail]
          omega
  · cases read

theorem getline_good {delim : UInt8} {line : Bytes} (clean : delim ∉ line) (t : Bytes) :
    (of (line ++ delim :: t)).getline delim = (some line, of t) := by
  have inside : ∀ c ∈ line, decide (c ≠ delim) = true := by
    intro c mem
    exact decide_eq_true fun eq => clean (eq ▸ mem)
  have taken : (line ++ delim :: t).takeWhile (· ≠ delim) = line := by
    rw [List.takeWhile_append_of_pos inside]
    simp
  have left : (line ++ delim :: t).dropWhile (· ≠ delim) = delim :: t := by
    rw [List.dropWhile_append_of_pos inside]
    simp
  unfold getline
  rw [of_rest, if_pos (of_good _), if_neg (by simp), taken, left]
  rfl

/-- `get` into a buffer moves characters from the stream to the buffer. -/
theorem length_getUpTo (n : Nat) (delim : UInt8) (s : IStream) :
    (s.getUpTo n delim).1.length + (s.getUpTo n delim).2.rest.length = s.rest.length := by
  unfold getUpTo
  split
  · have bound := (List.takeWhile_prefix (l := s.rest.take (n - 1)) (· ≠ delim)).length_le
    rw [List.length_take] at bound
    simp only [List.length_drop]
    omega
  · exact Nat.zero_add _

/-- What `get` into a buffer takes from a good stream: `k` characters, none of them
the delimiter, up to the room in the buffer, the delimiter or the end. -/
theorem getUpTo_good (n : Nat) (delim : UInt8) (t : Bytes) :
    ∃ k ≤ n - 1, k ≤ t.length ∧ (∀ j < k, t[j]? ≠ some delim) ∧
      (k = n - 1 ∨ t[k]? = some delim ∨ k = t.length) ∧
      (of t).getUpTo n delim = (t.take k, ⟨t.drop k, t.drop k = [], t.take k = []⟩) := by
  set chunk := (t.take (n - 1)).takeWhile (· ≠ delim) with chunk_def
  have starts : chunk <+: t.take (n - 1) := List.takeWhile_prefix _
  have bound := starts.length_le
  rw [List.length_take] at bound
  have inText : chunk = t.take chunk.length := by
    have all := starts.trans (List.take_prefix (n - 1) t)
    exact List.prefix_iff_eq_take.mp all
  refine ⟨chunk.length, by omega, by omega, ?_, ?_, ?_⟩
  · intro j below here
    have symbol : chunk[j]? = some delim := by
      rw [inText, List.getElem?_take_of_lt below]
      exact here
    have clean := List.mem_takeWhile_imp (List.mem_of_getElem? symbol)
    simp at clean
  · rcases Nat.lt_or_ge chunk.length (t.take (n - 1)).length with stopped | whole
    · right
      left
      have split := List.takeWhile_append_dropWhile (p := (· ≠ delim)) (l := t.take (n - 1))
      rw [← chunk_def] at split
      cases behind : (t.take (n - 1)).dropWhile (· ≠ delim) with
      | nil =>
          rw [behind, List.append_nil] at split
          rw [split] at stopped
          omega
      | cons c cs =>
          have stop : c = delim := by
            have head := List.head?_dropWhile_not (· ≠ delim) (t.take (n - 1))
            rw [behind] at head
            simpa using head
          rw [behind] at split
          have symbol : (t.take (n - 1))[chunk.length]? = some delim := by
            rw [← split, List.getElem?_append_right (Nat.le_refl _), Nat.sub_self, ← stop]
            rfl
          rw [List.length_take] at stopped
          rwa [List.getElem?_take_of_lt (by omega)] at symbol
    · rw [List.length_take] at whole
      omega
  · unfold getUpTo
    rw [of_rest, if_pos (of_good t)]
    simp only [← chunk_def, ← inText]

/-- What is taken is empty only where the delimiter comes first or nothing is left. -/
theorem getUpTo_pos {n k : Nat} {delim : UInt8} {t : Bytes} (room : 0 < n) (some_left : t ≠ [])
    (first : t.head? ≠ some delim) (stop : k = n ∨ t[k]? = some delim ∨ k = t.length) :
    0 < k := by
  have pos := List.length_pos_iff.mpr some_left
  by_contra none
  have zero : k = 0 := by omega
  subst zero
  rcases stop with full | here | done
  · omega
  · exact first (by rwa [List.head?_eq_getElem?])
  · omega

theorem not_mem_take {k : Nat} {delim : UInt8} {t : Bytes}
    (clean : ∀ j < k, t[j]? ≠ some delim) : delim ∉ t.take k := by
  intro mem
  obtain ⟨j, symbol⟩ := List.mem_iff_getElem?.mp mem
  rw [List.getElem?_take] at symbol
  split at symbol
  · next below => exact clean j below symbol
  · cases symbol

/-- There is room for the NUL that `get` puts behind what it takes. -/
theorem length_getUpTo_lt {n : Nat} (room : 0 < n) (delim : UInt8) (s : IStream) :
    (s.getUpTo n delim).1.length < n := by
  unfold getUpTo
  split
  · have starts := List.takeWhile_prefix (l := s.rest.take (n - 1)) (· ≠ delim)
    have bound := starts.length_le
    rw [List.length_take] at bound
    simp only
    omega
  · exact room

/-! ## Streams that fail at their end only -/

/-- The stream has not failed, or it has noticed its end. -/
def FailsAtEnd (s : IStream) : Prop := s.fail = true → s.eof = true

theorem FailsAtEnd.eof_or_good {s : IStream} (ends : s.FailsAtEnd) :
    s.eof = true ∨ s.good = true := by
  rcases s with ⟨rest, eof, fail⟩
  cases eof with
  | true => exact Or.inl rfl
  | false =>
      cases fail with
      | true => exact Or.inl (ends rfl)
      | false => exact Or.inr rfl

theorem failsAtEnd_of_sound {s : IStream} (sound : s.fail = false) : s.FailsAtEnd := by
  intro failed
  rw [sound] at failed
  cases failed

theorem eq_of_good {s : IStream} (good : s.good = true) : s = .of s.rest := by
  rcases s with ⟨rest, eof, fail⟩
  cases eof <;> cases fail <;> first | rfl | cases good

theorem failsAtEnd_of_good {s : IStream} (good : s.good = true) : s.FailsAtEnd := by
  rw [eq_of_good good]
  exact failsAtEnd_of_sound rfl

theorem FailsAtEnd.get {s : IStream} (ends : s.FailsAtEnd) : s.get.2.FailsAtEnd := by
  rcases ends.eof_or_good with ended | good
  · intro _
    simp [IStream.get, IStream.good, ended]
  · rw [eq_of_good good]
    cases s.rest with
    | nil => exact fun _ => rfl
    | cons c rest => exact failsAtEnd_of_sound rfl

theorem FailsAtEnd.peek {s : IStream} (ends : s.FailsAtEnd) : s.peek.2.FailsAtEnd := by
  rcases ends.eof_or_good with ended | good
  · intro _
    simp [IStream.peek, IStream.good, ended]
  · rw [eq_of_good good, peek_good]
    exact failsAtEnd_of_sound rfl

theorem FailsAtEnd.getline {s : IStream} (ends : s.FailsAtEnd) (delim : UInt8) :
    (s.getline delim).2.FailsAtEnd := by
  rcases ends.eof_or_good with ended | good
  · intro _
    simp [IStream.getline, IStream.good, ended]
  · rw [eq_of_good good, IStream.getline, if_pos (of_good _)]
    split
    · exact fun _ => rfl
    · exact failsAtEnd_of_sound rfl

end IStream

end PacketReplay.Lib
