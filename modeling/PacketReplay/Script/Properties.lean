import Mathlib.Data.List.AList
import PacketReplay.Lib.Search
import PacketReplay.Util

/-!
# Properties

`Properties`: a map with keys and values of text. `write` lists the entries in the
order of an `unordered_map`, which nothing fixes: it is a parameter.
-/

namespace PacketReplay

open Lib

abbrev Properties : Type := AList fun _ : Bytes => Bytes

namespace Properties

/-- `delimiter_`. -/
def delimiter : Bytes := ascii ":"

/-- `put(key, value)`. -/
def put (p : Properties) (key value : Bytes) : Properties := p.insert key value

/-- `put(line)`, which leaves the map alone when the line has no delimiter. -/
def putLine (p : Properties) (line : Bytes) : Properties :=
  match find delimiter line with
  | none => p
  | some index => p.put (trim (line.take index)) (trim (line.drop (index + delimiter.length)))

/-- `get(key)`. -/
def get (p : Properties) (key : Bytes) : Outcome Bytes :=
  match p.lookup key with
  | some value => .ok value
  | none => .error (.thrown (.outOfRange (ascii "unordered_map::at")))

/-- `getAsInt(key)`. -/
def getAsInt (p : Properties) (key : Bytes) : Outcome Int := p.get key >>= stoi

/-- The line of an entry. -/
def entryLine (key value : Bytes) : Bytes := key ++ delimiter ++ ascii " " ++ value ++ ascii "\n"

/-- The entries in the order in which an `unordered_map` goes through them. -/
structure EntryOrder : Type where
  entries : Properties → List (Bytes × Bytes)
  perm : ∀ p, (entries p).Perm (p.entries.map fun entry => (entry.1, entry.2))

/-- The order in which the map holds its entries. -/
def EntryOrder.stored : EntryOrder := ⟨fun p => p.entries.map fun entry => (entry.1, entry.2),
  fun _ => List.Perm.refl _⟩

/-- `write(output)`: what is written. -/
def write (order : EntryOrder) (p : Properties) : Bytes :=
  (order.entries p).flatMap fun entry => entryLine entry.1 entry.2

/-- A single entry comes in no other order. -/
theorem write_singleton (order : EntryOrder) (key value : Bytes) :
    write order ((∅ : Properties).put key value) = entryLine key value := by
  have perm := order.perm ((∅ : Properties).put key value)
  have only : order.entries ((∅ : Properties).put key value) = [(key, value)] := by
    rw [← List.perm_singleton]
    exact perm
  rw [write, only]
  simp

/-! ## Lines read back -/

/-- An entry whose line can be told from a comment and cut at its delimiter. -/
structure Clean (key value : Bytes) : Prop where
  noDelimiter : 58 ∉ key
  noComment : key.head? ≠ some 35
  keyLine : lf ∉ key
  keyTrimmed : trim key = key
  valueLine : lf ∉ value
  valueTrimmed : trim value = value

theorem clean_iff {key value : Bytes} : Clean key value ↔
    58 ∉ key ∧ key.head? ≠ some 35 ∧ lf ∉ key ∧ trim key = key ∧ lf ∉ value ∧
      trim value = value := by
  constructor
  · intro clean
    exact ⟨clean.noDelimiter, clean.noComment, clean.keyLine, clean.keyTrimmed, clean.valueLine,
      clean.valueTrimmed⟩
  · intro given
    rcases given with ⟨noDelimiter, noComment, keyLine, keyTrimmed, valueLine, valueTrimmed⟩
    exact ⟨noDelimiter, noComment, keyLine, keyTrimmed, valueLine, valueTrimmed⟩

instance (key value : Bytes) : Decidable (Clean key value) := decidable_of_iff' _ clean_iff

section Entries

variable {p : Properties}

/-- Putting a clean entry keeps a map clean. -/
theorem clean_put {key value : Bytes} (clean : ∀ entry ∈ p.entries, Clean entry.1 entry.2)
    (added : Clean key value) : ∀ entry ∈ (p.put key value).entries, Clean entry.1 entry.2 := by
  intro entry mem
  rw [put, AList.entries_insert, List.mem_cons] at mem
  rcases mem with rfl | kept
  · exact added
  · exact clean entry ((List.kerase_sublist key p.entries).subset kept)

theorem EntryOrder.clean (order : EntryOrder) (clean : ∀ entry ∈ p.entries, Clean entry.1 entry.2) :
    ∀ entry ∈ order.entries p, Clean entry.1 entry.2 := by
  intro entry mem
  rw [(order.perm p).mem_iff, List.mem_map] at mem
  obtain ⟨held, inMap, rfl⟩ := mem
  exact clean held inMap

end Entries

/-- The line of an entry without its end. -/
def entryText (key value : Bytes) : Bytes := key ++ delimiter ++ ascii " " ++ value

theorem entryLine_append (key value behind : Bytes) :
    entryLine key value ++ behind = entryText key value ++ lf :: behind := by
  rw [entryLine, ← entryText, List.append_assoc]
  rfl

theorem trimLeft_of_trim {s : Bytes} (trimmed : trim s = s) : trimLeft s = s := by
  have left : trimLeft s <:+ s := List.dropWhile_suffix _
  refine left.eq_of_length_le ?_
  calc s.length = (trim s).length := by rw [trimmed]
    _ ≤ (trimLeft s).length := (List.rdropWhile_prefix isspace (l := trimLeft s)).length_le

theorem Clean.trimLeft_entryText {key value : Bytes} (clean : Clean key value) :
    trimLeft (entryText key value) = entryText key value := by
  have trimmed := trimLeft_of_trim clean.keyTrimmed
  cases key with
  | nil => rfl
  | cons c key =>
      have visible : isspace c = false := by
        by_contra blank
        rw [Bool.not_eq_false] at blank
        have shorter := (List.dropWhile_suffix (l := key) isspace).length_le
        rw [trimLeft, List.dropWhile_cons_of_pos blank] at trimmed
        rw [trimmed, List.length_cons] at shorter
        omega
      rw [trimLeft, entryText]
      simp [visible]

theorem Clean.lf_not_mem {key value : Bytes} (clean : Clean key value) :
    lf ∉ entryText key value := by
  have middle : lf ∉ delimiter ++ ascii " " := by decide
  rw [entryText, List.append_assoc key, List.mem_append, List.mem_append]
  intro given
  rcases given with (inKey | between) | inValue
  · exact clean.keyLine inKey
  · exact middle between
  · exact clean.valueLine inValue

theorem Clean.head?_entryText {key value : Bytes} (clean : Clean key value) :
    (entryText key value).head? ≠ some 35 := by
  have noComment := clean.noComment
  cases key with
  | nil => exact fun comment => absurd (Option.some.inj comment) (by decide)
  | cons c key => exact noComment

/-- A clean entry is put under its key. -/
theorem Clean.putLine_entryText {key value : Bytes} (clean : Clean key value) (p : Properties) :
    p.putLine (entryText key value) = p.put key value := by
  have text : entryText key value = key ++ 58 :: (32 :: value) := by
    rw [entryText, List.append_assoc, List.append_assoc]
    rfl
  have found : find delimiter (entryText key value) = some key.length := by
    have first := find_append_of_not_mem (u := []) clean.noDelimiter (58 :: (32 :: value))
    rw [text]
    refine first.trans ?_
    rw [find, if_pos (by simp)]
    rfl
  have cut : (entryText key value).take key.length = key := by rw [text, List.take_left]
  have behind : (entryText key value).drop (key.length + delimiter.length) = 32 :: value := by
    rw [text, ← List.drop_drop, List.drop_left]
    rfl
  have blank : trim (32 :: value) = trim value := rfl
  rw [putLine, found]
  simp only [cut, behind, blank, clean.keyTrimmed, clean.valueTrimmed]

end Properties

end PacketReplay
