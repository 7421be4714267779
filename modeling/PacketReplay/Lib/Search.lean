import Mathlib.Data.List.Infix

/-!
# First occurrence of a pattern

`find pat s` is the index of the first occurrence of `pat` in `s`, and
`findFrom` the same search started at an index: the searches behind
`strstr` and `std::string::find`. `find_eq_some_iff`, `findFrom_eq_some_iff` and
`findFrom_eq_none_iff` say what they compute, and the remaining results move an
occurrence across an append. `find_append_self` is the one a framing format needs: a
terminator whose first symbol does not come back inside it is first met where it was
appended, unless the text already held one.
-/

namespace PacketReplay.Lib

variable {α : Type} {pat s t : List α} {i j : Nat}

/-- `pat` occurs in `s` at index `i`. -/
def OccursAt (pat s : List α) (i : Nat) : Prop := pat <+: s.drop i

instance [DecidableEq α] : Decidable (OccursAt pat s i) := inferInstanceAs (Decidable (_ <+: _))

/-! ## Occurrences -/

@[simp] theorem occursAt_zero : OccursAt pat s 0 ↔ pat <+: s := Iff.rfl

@[simp] theorem occursAt_cons_succ {a : α} : OccursAt pat (a :: s) (i + 1) ↔ OccursAt pat s i :=
  Iff.rfl

theorem OccursAt.le_length (at_i : OccursAt pat s i) (nonempty : pat ≠ []) :
    i + pat.length ≤ s.length := by
  have short := at_i.length_le
  have pos := List.length_pos_iff.mpr nonempty
  rw [List.length_drop] at short
  omega

theorem OccursAt.append_right (at_i : OccursAt pat s i) (t : List α) : OccursAt pat (s ++ t) i := by
  by_cases empty : pat = []
  · subst empty
    exact List.nil_prefix
  · have bound := at_i.le_length empty
    have pos := List.length_pos_iff.mpr empty
    have inside : (s ++ t).drop i = s.drop i ++ t := List.drop_append_of_le_length (by omega)
    rw [OccursAt, inside]
    exact at_i.trans (List.prefix_append _ _)

theorem OccursAt.of_append_right (at_i : OccursAt pat (s ++ t) i)
    (bound : i + pat.length ≤ s.length) : OccursAt pat s i := by
  have inside : (s ++ t).drop i = s.drop i ++ t := List.drop_append_of_le_length (by omega)
  rw [OccursAt, inside] at at_i
  exact List.prefix_of_prefix_length_le at_i (List.prefix_append _ _)
    (by rw [List.length_drop]; omega)

/-- The symbols of an occurrence are the symbols of the pattern. -/
theorem OccursAt.getElem? (at_i : OccursAt pat s i) {k : Nat} (inside : k < pat.length) :
    s[i + k]? = pat[k]? := by
  obtain ⟨rest, split⟩ := at_i
  rw [← List.getElem?_drop, ← split, List.getElem?_append_left inside]

/-- The text cut around an occurrence. -/
theorem OccursAt.eq_append (at_i : OccursAt pat s i) :
    s = s.take i ++ (pat ++ s.drop (i + pat.length)) := by
  obtain ⟨rest, split⟩ := at_i
  have behind : rest = s.drop (i + pat.length) := by
    rw [← List.drop_drop, ← split, List.drop_left]
  rw [← behind, split, List.take_append_drop]

/-- A text in two parts lies where the first does, the second behind it. -/
theorem occursAt_append {u v : List α} :
    OccursAt (u ++ v) s i ↔ OccursAt u s i ∧ OccursAt v s (i + u.length) := by
  rw [OccursAt, OccursAt, OccursAt, ← List.drop_drop]
  constructor
  · intro given
    rcases given with ⟨rest, split⟩
    rw [← split, List.append_assoc]
    refine ⟨List.prefix_append _ _, ?_⟩
    rw [List.drop_left]
    exact List.prefix_append _ _
  · intro given
    rcases given with ⟨⟨behind, split⟩, second⟩
    rw [← split] at second ⊢
    rw [List.drop_left] at second
    exact (List.prefix_append_right_inj u).mpr second

theorem OccursAt.take_drop (at_i : OccursAt pat s i) : (s.drop i).take pat.length = pat :=
  (List.prefix_iff_eq_take.mp at_i).symm

theorem isInfix_iff_occursAt : pat <:+: s ↔ ∃ i, OccursAt pat s i := by
  constructor
  · intro given
    rcases given with ⟨before, after, rfl⟩
    exact ⟨before.length, by
      rw [OccursAt, List.append_assoc, List.drop_left]
      exact List.prefix_append _ _⟩
  · intro given
    rcases given with ⟨i, at_i⟩
    exact at_i.isInfix.trans (List.drop_suffix i s).isInfix

/-- Text is cut at the first delimiter in one way. -/
theorem append_cons_inj_of_not_mem {a : α} {u v : List α} (inS : a ∉ s) (inT : a ∉ t)
    (same : s ++ a :: u = t ++ a :: v) : s = t ∧ u = v := by
  induction s generalizing t with
  | nil =>
      cases t with
      | nil => exact ⟨rfl, (List.cons.inj same).2⟩
      | cons b t => exact absurd ((List.cons.inj same).1 ▸ List.mem_cons_self) inT
  | cons b s ih =>
      cases t with
      | nil => exact absurd ((List.cons.inj same).1 ▸ List.mem_cons_self) inS
      | cons c t =>
          obtain ⟨head, tail⟩ := List.cons.inj same
          rw [List.mem_cons, not_or] at inS inT
          obtain ⟨rfl, rfl⟩ := ih inS.2 inT.2 tail
          rw [head]
          exact ⟨rfl, rfl⟩

/-! ## The search -/

variable [DecidableEq α]

/-- The index of the first occurrence of `pat` in the text, if there is one. -/
def find (pat : List α) : List α → Option Nat
  | [] => if pat = [] then some 0 else none
  | a :: s => if pat <+: a :: s then some 0 else (find pat s).map (· + 1)

/-- The first occurrence at or after the index `start`. -/
def findFrom (pat s : List α) (start : Nat) : Option Nat :=
  (find pat (s.drop start)).map (start + ·)

theorem find_eq_some_iff :
    find pat s = some i ↔ OccursAt pat s i ∧ i ≤ s.length ∧ ∀ j < i, ¬ OccursAt pat s j := by
  induction s generalizing i with
  | nil =>
      rw [find]
      by_cases empty : pat = []
      · subst empty
        simp only [↓reduceIte, Option.some.injEq, List.length_nil, Nat.le_zero_eq]
        constructor
        · intro same
          subst same
          exact ⟨List.nil_prefix, rfl, fun j below => absurd below (Nat.not_lt_zero j)⟩
        · intro given
          rcases given with ⟨-, rfl, -⟩
          rfl
      · simp [empty, OccursAt]
  | cons a s ih =>
      rw [find]
      by_cases here : pat <+: a :: s
      · rw [if_pos here]
        constructor
        · intro given
          cases given
          exact ⟨here, Nat.zero_le _, fun j below => absurd below (Nat.not_lt_zero j)⟩
        · intro given
          rcases given with ⟨-, -, first⟩
          cases i with
          | zero => rfl
          | succ i => exact absurd here (first 0 (Nat.succ_pos i))
      · rw [if_neg here]
        cases i with
        | zero => simp [here]
        | succ i =>
            simp only [Option.map_eq_some_iff, Nat.add_right_cancel_iff, exists_eq_right, ih,
              occursAt_cons_succ, List.length_cons, Nat.add_le_add_iff_right]
            refine and_congr_right fun _ => and_congr_right fun _ => ⟨fun first j below => ?_,
              fun first j below => first (j + 1) (Nat.succ_lt_succ below)⟩
            cases j with
            | zero => exact here
            | succ j => exact first j (Nat.lt_of_succ_lt_succ below)

theorem find_eq_some_of_first (at_i : OccursAt pat s i) (bound : i ≤ s.length)
    (first : ∀ j < i, ¬ OccursAt pat s j) : find pat s = some i :=
  find_eq_some_iff.mpr ⟨at_i, bound, first⟩

theorem find_le_length (nonempty : pat ≠ []) (found : find pat s = some i) :
    i + pat.length ≤ s.length :=
  (find_eq_some_iff.mp found).1.le_length nonempty

theorem findFrom_zero : findFrom pat s 0 = find pat s := by
  simp [findFrom]

theorem findFrom_bounds {start : Nat} (nonempty : pat ≠ [])
    (found : findFrom pat s start = some i) : start ≤ i ∧ i + pat.length ≤ s.length := by
  rw [findFrom, Option.map_eq_some_iff] at found
  obtain ⟨k, found, rfl⟩ := found
  have bound := find_le_length nonempty found
  have pos := List.length_pos_iff.mpr nonempty
  rw [List.length_drop] at bound
  omega

theorem OccursAt.of_findFrom {start : Nat} (found : findFrom pat s start = some i) :
    OccursAt pat s i := by
  rw [findFrom, Option.map_eq_some_iff] at found
  obtain ⟨k, found, rfl⟩ := found
  have at_k := (find_eq_some_iff.mp found).1
  rw [OccursAt, List.drop_drop] at at_k
  exact at_k

theorem findFrom_eq_some_iff {start : Nat} (nonempty : pat ≠ []) :
    findFrom pat s start = some i ↔
      OccursAt pat s i ∧ start ≤ i ∧ ∀ j, start ≤ j → j < i → ¬ OccursAt pat s j := by
  constructor
  · intro found
    refine ⟨.of_findFrom found, (findFrom_bounds nonempty found).1, ?_⟩
    intro j behind below at_j
    rw [findFrom, Option.map_eq_some_iff] at found
    obtain ⟨k, found, rfl⟩ := found
    refine (find_eq_some_iff.mp found).2.2 (j - start) (by omega) ?_
    rwa [OccursAt, List.drop_drop, Nat.add_sub_cancel' behind]
  · intro given
    rcases given with ⟨at_i, behind, first⟩
    have bound := at_i.le_length nonempty
    have searched : find pat (s.drop start) = some (i - start) := by
      refine find_eq_some_of_first ?_ (by rw [List.length_drop]; omega) ?_
      · rwa [OccursAt, List.drop_drop, Nat.add_sub_cancel' behind]
      · intro j below at_j
        rw [OccursAt, List.drop_drop] at at_j
        exact first (start + j) (by omega) (by omega) at_j
    rw [findFrom, searched, Option.map_some, Nat.add_sub_cancel' behind]

theorem findFrom_eq_none_iff {start : Nat} (nonempty : pat ≠ []) :
    findFrom pat s start = none ↔ ∀ j, start ≤ j → ¬ OccursAt pat s j := by
  constructor
  · intro missed j behind at_j
    induction j using Nat.strongRecOn with
    | ind j ih =>
        by_cases first : ∀ k, start ≤ k → k < j → ¬ OccursAt pat s k
        · rw [(findFrom_eq_some_iff nonempty).mpr ⟨at_j, behind, first⟩] at missed
          cases missed
        · push Not at first
          rcases first with ⟨k, later, below, at_k⟩
          exact ih k below later at_k
  · intro absent
    cases found : findFrom pat s start with
    | none => rfl
    | some i =>
        exact absurd (OccursAt.of_findFrom found) (absent i (findFrom_bounds nonempty found).1)

/-! ## Searching an append -/

/-- An occurrence already there stays the first one when text is appended. -/
theorem find_append_of_eq_some (nonempty : pat ≠ []) (found : find pat s = some i) (t : List α) :
    find pat (s ++ t) = some i := by
  obtain ⟨at_i, bound, first⟩ := find_eq_some_iff.mp found
  have fits := at_i.le_length nonempty
  refine find_eq_some_of_first (at_i.append_right t) (by rw [List.length_append]; omega) ?_
  intro j below at_j
  exact first j below (at_j.of_append_right (by omega))

/-- An occurrence met after an append that fits in the old text was there already. -/
theorem find_of_append (found : find pat (s ++ t) = some i)
    (fits : i + pat.length ≤ s.length) : find pat s = some i := by
  obtain ⟨at_i, -, first⟩ := find_eq_some_iff.mp found
  refine find_eq_some_of_first (at_i.of_append_right fits) (by omega) ?_
  intro j below at_j
  exact first j below (at_j.append_right t)

/-- The first occurrence in a text cut anywhere after that occurrence. -/
theorem find_take (nonempty : pat ≠ []) (found : find pat s = some i) {n : Nat}
    (fits : i + pat.length ≤ n) : find pat (s.take n) = some i := by
  have bound := find_le_length nonempty found
  refine find_of_append (t := s.drop n) (by rwa [List.take_append_drop]) ?_
  rw [List.length_take]
  omega

/-- Text that lacks the first symbol of the pattern is skipped. -/
theorem find_append_of_not_mem {a : α} {u : List α} (absent : a ∉ s) (t : List α) :
    find (a :: u) (s ++ t) = (find (a :: u) t).map (s.length + ·) := by
  induction s with
  | nil => simp
  | cons b s ih =>
      rw [List.mem_cons, not_or] at absent
      have here : ¬ (a :: u) <+: b :: (s ++ t) := by
        intro starts
        exact absent.1 (List.cons_prefix_cons.mp starts).1
      rw [List.cons_append, find, if_neg here, ih absent.2, Option.map_map]
      congr 1
      funext i
      simp only [Function.comp_apply, List.length_cons]
      omega

/-- A pattern whose first symbol does not come back inside it is first met where
it was appended, unless the text before already held it. -/
theorem find_append_self {a : α} {u : List α} (border : a ∉ u)
    (absent : ¬ (a :: u) <:+: s) (t : List α) :
    find (a :: u) (s ++ (a :: u) ++ t) = some s.length := by
  refine find_eq_some_of_first ?_ (by simp only [List.length_append]; omega) ?_
  · rw [OccursAt, List.append_assoc, List.drop_left]
    exact List.prefix_append _ _
  · intro j before at_j
    rcases Nat.lt_or_ge s.length (j + (a :: u).length) with straddles | fits
    · -- the occurrence would cover the appended `a` with a symbol of `u`
      have offset : s.length - j < (a :: u).length := by omega
      have symbol := at_j.getElem? offset
      rw [Nat.add_sub_cancel' before.le, List.append_assoc, List.getElem?_append_right le_rfl,
        Nat.sub_self, List.cons_append, List.getElem?_cons_zero] at symbol
      obtain ⟨k, later⟩ : ∃ k, s.length - j = k + 1 := ⟨s.length - j - 1, by omega⟩
      rw [later, List.getElem?_cons_succ, eq_comm] at symbol
      exact border (List.mem_of_getElem? symbol)
    · rw [List.append_assoc] at at_j
      exact absent (isInfix_iff_occursAt.mpr ⟨j, at_j.of_append_right fits⟩)

end PacketReplay.Lib
