import PacketReplay.Script.SubTokens
import PacketReplay.Lib.Checked

/-!
# The ranges of the placeholders

`subTokensLoop` is the loop of `create_action` on the `int` index and the `size_t`
positions that the code uses. On data shorter than `2 ^ 31` bytes it ends with the tokens
of `createAction`, and their ranges are what `validate` takes them for: in order, apart
from each other, and each a placeholder of the data.
-/

namespace PacketReplay

open Lib

namespace ConversationSerializer

/-- `std::string_view::npos`. -/
def npos : Nat := 2 ^ 64 - 1

/-- `std::string_view::find`. -/
def viewFind (pattern view : Bytes) (start : Nat) : Nat := (findFrom pattern view start).getD npos

/-- `std::string_view::substr`. -/
def viewSubstr (view : Bytes) (pos n : Nat) : Outcome Bytes :=
  if view.length < pos then .error (.thrown (.outOfRange (ascii "basic_string_view::substr")))
  else .ok ((view.drop pos).take n)

/-- A sub-token with the `int` indices it is kept with. -/
structure IntSubToken : Type where
  token : Bytes
  beginIdx : Int
  endIdx : Int
  deriving DecidableEq, Repr

/-- A sub-token as it is kept. -/
def asInts (t : SubToken) : IntSubToken := ⟨t.token, t.beginIdx, t.endIdx⟩

/-- The loop of `create_action`: `start_idx` is an `int`, compared as a `size_t`. -/
def subTokensLoop (view : Bytes) : Nat → Int → Outcome (List IntSubToken)
  | 0, _ => .error (.undefined .noProgress)
  | fuel + 1, start =>
      if toUInt64 start = npos then .ok []
      else
        let startIdx := toInt32 (viewFind subPrefix view (toUInt64 start))
        if toUInt64 startIdx = npos then .ok []
        else
          let endIdx := viewFind subSuffix view (toUInt64 (startIdx + subPrefix.length))
          if endIdx = npos then .ok []
          else do
            let token ← viewSubstr view (toUInt64 (startIdx + subPrefix.length)) endIdx
            let next := toInt32 (endIdx + subSuffix.length)
            let tokens ← subTokensLoop view fuel next
            return ⟨token, startIdx, next⟩ :: tokens

/-! ## One round -/

theorem length_subPrefix : subPrefix.length = 2 := rfl

theorem length_subSuffix : subSuffix.length = 1 := rfl

/-- A round finds the first opening and the nearest closing behind it, or there is no
placeholder left. -/
theorem subTokensFrom_cases (view : Bytes) (start : Nat) :
    (subTokensFrom view start = [] ∧ findFrom subPrefix view start = none) ∨
    (∃ startIdx, subTokensFrom view start = [] ∧
      findFrom subPrefix view start = some startIdx ∧
      findFrom subSuffix view (startIdx + 2) = none) ∨
    (∃ startIdx endIdx, findFrom subPrefix view start = some startIdx ∧
      findFrom subSuffix view (startIdx + 2) = some endIdx ∧
      subTokensFrom view start =
        ⟨(view.drop (startIdx + 2)).take endIdx, startIdx, endIdx + 1⟩ ::
          subTokensFrom view (endIdx + 1)) := by
  rw [subTokensFrom]
  split
  · next missed => exact Or.inl ⟨rfl, missed⟩
  · next startIdx opened =>
      split
      · next missed => exact Or.inr (Or.inl ⟨startIdx, rfl, opened, missed⟩)
      · next endIdx closed => exact Or.inr (Or.inr ⟨startIdx, endIdx, opened, closed, rfl⟩)

theorem toUInt64_of_lt {n : Nat} (small : n < 2 ^ 64) : toUInt64 n = n := by
  unfold toUInt64
  omega

/-- The loop on the machine's integers goes the same rounds. -/
theorem subTokensLoop_eq {view : Bytes} (small : view.length < 2 ^ 31) (fuel start : Nat)
    (inside : start ≤ view.length) (enough : view.length - start < fuel) :
    subTokensLoop view fuel start = .ok ((subTokensFrom view start).map asInts) := by
  induction fuel generalizing start with
  | zero => exact absurd enough (Nat.not_lt_zero _)
  | succ fuel ih =>
      have unmarked : toUInt64 start ≠ npos := by
        rw [toUInt64_of_lt (by omega), npos]
        omega
      rw [subTokensLoop, if_neg unmarked, toUInt64_of_lt (by omega)]
      rcases subTokensFrom_cases view start with
        ⟨none_left, missed⟩ | ⟨startIdx, none_left, opened, missed⟩ |
          ⟨startIdx, endIdx, opened, closed, pushed⟩
      · rw [viewFind, missed, none_left]
        rfl
      · have bounds := findFrom_bounds (by decide) opened
        rw [length_subPrefix] at bounds
        have kept : toInt32 startIdx = startIdx := toInt32_of_range (by omega) (by omega)
        have behind : toUInt64 ((startIdx : Int) + 2) = startIdx + 2 := by
          unfold toUInt64
          omega
        simp only [viewFind, opened, Option.getD_some, kept, length_subPrefix, Nat.cast_ofNat,
          behind, missed, Option.getD_none, if_true, none_left, List.map_nil]
        exact ite_self _
      · have opens := findFrom_bounds (by decide) opened
        have closes := findFrom_bounds (by decide) closed
        rw [length_subPrefix] at opens
        rw [length_subSuffix] at closes
        have kept : toInt32 startIdx = startIdx := toInt32_of_range (by omega) (by omega)
        have behind : toUInt64 ((startIdx : Int) + 2) = startIdx + 2 := by
          unfold toUInt64
          omega
        have opened_at : ¬ toUInt64 (startIdx : Int) = npos := by
          rw [toUInt64_of_lt (by omega), npos]
          omega
        have closed_at : ¬ endIdx = npos := by
          rw [npos]
          omega
        have next : toInt32 ((endIdx : Int) + 1) = ((endIdx + 1 : Nat) : Int) :=
          toInt32_of_range (by omega) (by omega)
        have taken : viewSubstr view (startIdx + 2) endIdx =
            .ok ((view.drop (startIdx + 2)).take endIdx) := if_neg (by omega)
        have rest := ih (endIdx + 1) (by omega) (by omega)
        simp only [viewFind, opened, Option.getD_some, kept, length_subPrefix, Nat.cast_ofNat,
          behind, closed, length_subSuffix, Nat.cast_one, next, if_neg opened_at,
          if_neg closed_at, taken, rest, pushed, ok_bind]
        rfl

/-! ## The ranges -/

/-- The ranges of the tokens found from an index on: they follow each other, each is a
placeholder up to its first closing brace, and no placeholder is left out. -/
structure TokenRanges (data : Bytes) (start : Nat) (tokens : List SubToken) : Prop where
  disjoint : tokens.Pairwise fun s t => s.endIdx ≤ t.beginIdx
  inside : ∀ t ∈ tokens, start ≤ t.beginIdx ∧ t.beginIdx < t.endIdx ∧ t.endIdx ≤ data.length
  placeholder : ∀ t ∈ tokens, ∃ name, 125 ∉ name ∧
    (data.take t.endIdx).drop t.beginIdx = subPrefix ++ name ++ subSuffix
  complete : ∀ i, start ≤ i → OccursAt subPrefix data i →
    (∃ j, i + 2 ≤ j ∧ OccursAt subSuffix data j) →
      ∃ t ∈ tokens, t.beginIdx ≤ i ∧ i + 2 ≤ t.endIdx

theorem occursAt_subSuffix {data : Bytes} {i : Nat} :
    OccursAt subSuffix data i ↔ data[i]? = some 125 := by
  constructor
  · intro at_i
    exact at_i.getElem? (k := 0) Nat.one_pos
  · intro symbol
    obtain ⟨inside, same⟩ := List.getElem?_eq_some_iff.mp symbol
    rw [OccursAt, List.drop_eq_getElem_cons inside, same]
    exact List.prefix_append [125] _

/-- From an opening to the first closing brace behind it there is one placeholder. -/
theorem placeholder_of_found {data : Bytes} {startIdx endIdx : Nat}
    (opened : OccursAt subPrefix data startIdx)
    (closed : findFrom subSuffix data (startIdx + 2) = some endIdx) :
    ∃ name, 125 ∉ name ∧
      (data.take (endIdx + 1)).drop startIdx = subPrefix ++ name ++ subSuffix := by
  obtain ⟨at_end, behind, first⟩ := (findFrom_eq_some_iff (by decide)).mp closed
  refine ⟨(data.drop (startIdx + 2)).take (endIdx - (startIdx + 2)), ?_, ?_⟩
  · intro mem
    obtain ⟨k, symbol⟩ := List.mem_iff_getElem?.mp mem
    rw [List.getElem?_take] at symbol
    split at symbol
    · next below =>
        rw [List.getElem?_drop] at symbol
        exact first _ (by omega) (by omega) (occursAt_subSuffix.mpr symbol)
    · cases symbol
  · have front : data.drop startIdx = subPrefix ++ data.drop (startIdx + 2) := by
      rw [← opened.take_drop, length_subPrefix, ← List.drop_drop]
      exact (List.take_append_drop 2 _).symm
    have back : (data.drop (startIdx + 2)).drop (endIdx - (startIdx + 2)) =
        subSuffix ++ data.drop (endIdx + 1) := by
      rw [List.drop_drop, Nat.add_sub_cancel' behind]
      obtain ⟨rest, split⟩ := at_end
      rw [← List.drop_drop, ← split]
      rfl
    have whole : data.drop startIdx = subPrefix ++
        ((data.drop (startIdx + 2)).take (endIdx - (startIdx + 2)) ++
          (subSuffix ++ data.drop (endIdx + 1))) := by
      rw [front, ← back, List.take_append_drop]
    have bound := at_end.le_length (by decide)
    rw [length_subSuffix] at bound
    have size : (subPrefix ++ (data.drop (startIdx + 2)).take (endIdx - (startIdx + 2)) ++
        subSuffix).length = endIdx + 1 - startIdx := by
      simp only [List.length_append, List.length_take, List.length_drop, length_subPrefix,
        length_subSuffix]
      omega
    rw [List.drop_take, whole, ← List.append_assoc, ← List.append_assoc, ← size, List.take_left]

/-- An opening that begins no later than a closing brace ends before it. -/
theorem opening_before_closing {data : Bytes} {i endIdx : Nat}
    (opened : OccursAt subPrefix data i) (closed : OccursAt subSuffix data endIdx)
    (order : i ≤ endIdx) : i + 2 ≤ endIdx := by
  have closing := occursAt_subSuffix.mp closed
  have dollar : data[i]? = some 36 := opened.getElem? (k := 0) (by decide)
  have brace : data[i + 1]? = some 123 := opened.getElem? (k := 1) (by decide)
  rcases Nat.lt_or_ge endIdx (i + 2) with near | far
  · have place : endIdx = i ∨ endIdx = i + 1 := by omega
    rcases place with rfl | rfl
    · rw [dollar] at closing
      cases closing
    · rw [brace] at closing
      cases closing
  · exact far

theorem tokenRanges_from (data : Bytes) (start : Nat) :
    TokenRanges data start (subTokensFrom data start) := by
  induction left : data.length - start using Nat.strongRecOn generalizing start with
  | ind bound ih =>
      rcases subTokensFrom_cases data start with
        ⟨none_left, missed⟩ | ⟨startIdx, none_left, opened, missed⟩ |
          ⟨startIdx, endIdx, opened, closed, pushed⟩
      · rw [none_left]
        refine ⟨.nil, by simp, by simp, ?_⟩
        intro i behind at_i
        exact absurd at_i ((findFrom_eq_none_iff (by decide)).mp missed i behind)
      · rw [none_left]
        refine ⟨.nil, by simp, by simp, ?_⟩
        intro i behind at_i given
        rcases given with ⟨j, later, at_j⟩
        have first := ((findFrom_eq_some_iff (by decide)).mp opened).2.2 i behind
        have from_first : startIdx ≤ i := Nat.le_of_not_lt fun below => first below at_i
        exact absurd at_j
          ((findFrom_eq_none_iff (by decide)).mp missed j (by omega))
      · obtain ⟨at_start, from_start, first⟩ := (findFrom_eq_some_iff (by decide)).mp opened
        obtain ⟨at_end, behind, -⟩ := (findFrom_eq_some_iff (by decide)).mp closed
        have fits := at_end.le_length (by decide)
        rw [length_subSuffix] at fits
        have rest := ih _ (by omega) (endIdx + 1) rfl
        rw [pushed]
        refine ⟨?_, ?_, ?_, ?_⟩
        · exact .cons (fun t mem => (rest.inside t mem).1) rest.disjoint
        · intro t mem
          rcases List.mem_cons.mp mem with rfl | mem
          · exact ⟨from_start, by simp only; omega, fits⟩
          · have bounds := rest.inside t mem
            exact ⟨by omega, bounds.2⟩
        · intro t mem
          rcases List.mem_cons.mp mem with rfl | mem
          · exact placeholder_of_found at_start closed
          · exact rest.placeholder t mem
        · intro i from_i at_i closing
          rcases Nat.lt_or_ge endIdx i with later | within
          · obtain ⟨t, mem, covers⟩ := rest.complete i later at_i closing
            exact ⟨t, List.mem_cons_of_mem _ mem, covers⟩
          · have opening : startIdx ≤ i := Nat.le_of_not_lt fun below => first i from_i below at_i
            have before := opening_before_closing at_i at_end within
            exact ⟨_, List.mem_cons_self, opening, by simp only; omega⟩

/-- On data of any size that an `int` can index the loop ends, and the ranges of the
tokens it adds are the placeholders of the data. -/
theorem createAction_ranges (type : ActionType) (data : Bytes) (small : data.length < 2 ^ 31) :
    (∀ fuel, data.length < fuel →
      subTokensLoop data fuel 0 = .ok ((createAction type data).subTokens.map asInts)) ∧
    TokenRanges data 0 (createAction type data).subTokens := by
  refine ⟨fun fuel enough => ?_, tokenRanges_from data 0⟩
  exact subTokensLoop_eq small fuel 0 (Nat.zero_le _) (by omega)

/-- An opening inside a placeholder, and one that is never closed. -/
def nestedOpenings : Bytes := ascii "$\x7b$\x7ba\x7d$\x7b"

theorem createAction_ranges_nested :
    (∀ fuel, nestedOpenings.length < fuel → subTokensLoop nestedOpenings fuel 0 =
      .ok ((createAction .send nestedOpenings).subTokens.map asInts)) ∧
    TokenRanges nestedOpenings 0 (createAction .send nestedOpenings).subTokens :=
  createAction_ranges .send nestedOpenings (by decide)

end ConversationSerializer

end PacketReplay
