import PacketReplay.Action
import PacketReplay.Script.Properties

/-!
# The packet validator

`PacketValidator::validate`, with and without sub-tokens. The tokens stand for values
of the context, so a packet should be valid exactly when it is the expected one with
the values put in. The loop over the tokens compares at positions of the expected
packet where it should use those of the actual one; `decides_all_iff` says for which
packets the answer is right all the same. Lengths and positions are natural numbers, no
larger than an `int` holds.
-/

namespace PacketReplay

open Lib

namespace PacketValidator

def validate (expected actual : Bytes) : Outcome Bool :=
  if expected.length ≠ actual.length then .ok false
  else sameBlock expected actual expected.length

/-- `actual_idx` and `start_idx`. -/
structure Cursor : Type where
  actualIdx : Nat := 0
  startIdx : Nat := 0
  deriving DecidableEq, Repr

namespace Cursor

/-- The cursor behind a token. -/
def next (c : Cursor) (context : Properties) (t : SubToken) : Cursor :=
  match context.lookup t.token with
  | some value => ⟨c.actualIdx + value.length, t.endIdx⟩
  | none => ⟨c.actualIdx + (t.endIdx - t.beginIdx), t.endIdx⟩

end Cursor

section Loop

variable (expected actual : Bytes) (context : Properties)

/-- The comparison of what stands in front of a token. -/
def sameLiteral (c : Cursor) (t : SubToken) : Outcome Bool :=
  let len : Int := t.beginIdx - c.startIdx
  if 0 < len then sameBlock (expected.drop c.startIdx) (actual.drop c.startIdx) len else .ok true

/-- The comparison of a token, with its value if the context has one. -/
def sameToken (c : Cursor) (t : SubToken) : Outcome Bool :=
  match context.lookup t.token with
  | some value => sameBlock value (actual.drop c.startIdx) value.length
  | none =>
      sameBlock (expected.drop c.startIdx) (actual.drop c.actualIdx) (t.endIdx - t.beginIdx)

/-- The loop over the tokens: the cursor behind the last, or nothing where it returns
`false`. -/
def validateTokens (c : Cursor) : List SubToken → Outcome (Option Cursor)
  | [] => .ok (some c)
  | t :: ts =>
      match sameLiteral expected actual c t with
      | .error f => .error f
      | .ok false => .ok none
      | .ok true =>
          match sameToken expected actual context c t with
          | .error f => .error f
          | .ok false => .ok none
          | .ok true => validateTokens (c.next context t) ts

/-- `validate` with sub-tokens. -/
def validateWith (subTokens : List SubToken) : Outcome Bool :=
  match validateTokens expected actual context {} subTokens with
  | .error f => .error f
  | .ok none => .ok false
  | .ok (some c) =>
      let remainingActual : Int := actual.length - c.actualIdx
      let remainingExpected : Int := expected.length - c.startIdx
      if remainingActual ≠ remainingExpected then .ok false
      else sameBlock (actual.drop c.actualIdx) (expected.drop expected.length) remainingActual

end Loop

/-- Without sub-tokens a packet is valid when it is the expected one. -/
theorem validate_eq (expected actual : Bytes) :
    validate expected actual = .ok (expected = actual) := by
  rw [validate, sameBlock_natCast]
  by_cases same : expected.length = actual.length
  · rw [if_neg (not_not.mpr same), if_pos ⟨le_rfl, same.le⟩, List.take_length, same,
      List.take_length]
  · have differ : expected ≠ actual := fun eq => same (congrArg List.length eq)
    rw [if_pos same, decide_eq_false differ]

/-! ## What the tokens stand for -/

/-- The tokens are sorted, disjoint and within `start` and `size`. -/
def Placed (size : Nat) : Nat → List SubToken → Prop
  | start, [] => start ≤ size
  | start, t :: ts => start ≤ t.beginIdx ∧ t.beginIdx ≤ t.endIdx ∧ Placed size t.endIdx ts

instance decidablePlaced (size : Nat) :
    ∀ start subTokens, Decidable (Placed size start subTokens)
  | start, [] => inferInstanceAs (Decidable (start ≤ size))
  | _, t :: ts =>
      have := decidablePlaced size t.endIdx ts
      inferInstanceAs (Decidable (_ ∧ _ ∧ _))

/-- What stands in the place of a token. -/
def replacement (expected : Bytes) (context : Properties) (t : SubToken) : Bytes :=
  match context.lookup t.token with
  | some value => value
  | none => (expected.drop t.beginIdx).take (t.endIdx - t.beginIdx)

/-- The expected packet from `start` on with the values of the tokens put in. -/
def substitute (expected : Bytes) (context : Properties) : Nat → List SubToken → Bytes
  | start, [] => expected.drop start
  | start, t :: ts =>
      (expected.drop start).take (t.beginIdx - start) ++
        (replacement expected context t ++ substitute expected context t.endIdx ts)

/-- `validate` answers whether the packet is the expected one with the values put in. -/
def Decides (expected actual : Bytes) (context : Properties) (subTokens : List SubToken) : Prop :=
  ∃ answer, validateWith expected actual context subTokens = .ok answer ∧
    (answer = true ↔ actual = substitute expected context 0 subTokens)

/-! ## The comparisons -/

/-- A comparison: the bytes that are looked for and the position in the actual packet. -/
structure Check : Type where
  bytes : Bytes
  position : Nat
  deriving DecidableEq, Repr

namespace Check

/-- The bytes stand at the position. -/
def Stands (actual : Bytes) (check : Check) : Prop := check.bytes <+: actual.drop check.position

instance (actual : Bytes) (check : Check) : Decidable (check.Stands actual) :=
  inferInstanceAs (Decidable (_ <+: _))

/-- Other bytes stand at the position, and no fewer. -/
def Fails (actual : Bytes) (check : Check) : Prop :=
  check.bytes.length ≤ (actual.drop check.position).length ∧ ¬ check.Stands actual

instance (actual : Bytes) (check : Check) : Decidable (check.Fails actual) :=
  inferInstanceAs (Decidable (_ ∧ _))

/-- The outcome of a comparison. -/
def outcome (actual : Bytes) (check : Check) : Outcome Bool :=
  if check.Stands actual then .ok true
  else if check.Fails actual then .ok false
  else .error (.undefined .outOfBounds)

theorem outcome_of_stands {actual : Bytes} {check : Check} (stands : check.Stands actual) :
    check.outcome actual = .ok true := if_pos stands

theorem outcome_of_fails {actual : Bytes} {check : Check} (fails : check.Fails actual) :
    check.outcome actual = .ok false := (if_neg fails.2).trans (if_pos fails)

/-- A comparison of `n` bytes that the first block has. -/
theorem sameBlock_eq_outcome (block actual : Bytes) (n position : Nat) (has : n ≤ block.length) :
    sameBlock block (actual.drop position) n = outcome actual ⟨block.take n, position⟩ := by
  have size : (block.take n).length = n := List.length_take_of_le has
  have stands : Stands actual ⟨block.take n, position⟩ ↔
      block.take n = (actual.drop position).take n := by
    rw [Stands, List.prefix_iff_eq_take, size]
  rw [sameBlock_natCast]
  by_cases within : n ≤ (actual.drop position).length
  · rw [if_pos ⟨has, within⟩]
    by_cases same : block.take n = (actual.drop position).take n
    · rw [outcome_of_stands (stands.mpr same), decide_eq_true same]
    · have fails : Fails actual ⟨block.take n, position⟩ :=
        ⟨size.trans_le within, mt stands.mp same⟩
      rw [outcome_of_fails fails, decide_eq_false same]
  · have misses : ¬ Stands actual ⟨block.take n, position⟩ := by
      intro same
      exact within (size.ge.trans same.length_le)
    have short : ¬ Fails actual ⟨block.take n, position⟩ := by
      intro fails
      exact within (size.ge.trans fails.1)
    rw [if_neg fun both => within both.2, outcome, if_neg misses, if_neg short]

end Check

/-- The comparison of what stands in front of a token. -/
def literalCheck (expected : Bytes) (c : Cursor) (t : SubToken) : Check :=
  ⟨(expected.drop c.startIdx).take (t.beginIdx - c.startIdx), c.startIdx⟩

/-- The comparison of a token. -/
def tokenCheck (expected : Bytes) (context : Properties) (c : Cursor) (t : SubToken) : Check :=
  match context.lookup t.token with
  | some value => ⟨value, c.startIdx⟩
  | none => ⟨(expected.drop c.startIdx).take (t.endIdx - t.beginIdx), c.actualIdx⟩

/-- The comparisons of the loop, in order. They do not depend on the actual packet. -/
def checks (expected : Bytes) (context : Properties) : Cursor → List SubToken → List Check
  | _, [] => []
  | c, t :: ts =>
      literalCheck expected c t :: tokenCheck expected context c t ::
        checks expected context (c.next context t) ts

/-- The cursor behind the last token. -/
def lastCursor (context : Properties) (subTokens : List SubToken) : Cursor :=
  subTokens.foldl (fun c t => c.next context t) {}

/-- The first comparison that does not come out equal fails. -/
def FirstFails (actual : Bytes) (checks : List Check) : Prop :=
  ∃ before check behind, checks = before ++ check :: behind ∧
    (∀ earlier ∈ before, earlier.Stands actual) ∧ check.Fails actual

/-- Comparisons up to the first that does not come out equal. -/
def runChecks (actual : Bytes) : List Check → Outcome Bool
  | [] => .ok true
  | check :: checks =>
      match check.outcome actual with
      | .ok true => runChecks actual checks
      | stopped => stopped

theorem Check.stands_of_outcome {actual : Bytes} {check : Check}
    (stands : check.outcome actual = .ok true) : check.Stands actual := by
  rw [outcome] at stands
  split at stands
  · assumption
  · split at stands <;> cases stands

theorem Check.fails_of_outcome {actual : Bytes} {check : Check}
    (fails : check.outcome actual = .ok false) : check.Fails actual := by
  rw [outcome] at fails
  split at fails
  · cases fails
  · split at fails
    · assumption
    · cases fails

theorem runChecks_eq_true_iff {actual : Bytes} {checks : List Check} :
    runChecks actual checks = .ok true ↔ ∀ check ∈ checks, check.Stands actual := by
  induction checks with
  | nil => exact ⟨fun _ _ mem => absurd mem List.not_mem_nil, fun _ => rfl⟩
  | cons check checks ih =>
      rw [List.forall_mem_cons, ← ih, runChecks.eq_def]
      simp only
      constructor
      · intro ran
        split at ran
        · next stands => exact ⟨Check.stands_of_outcome stands, ran⟩
        · next other => exact absurd ran other
      · intro ⟨stands, rest⟩
        rw [Check.outcome_of_stands stands]
        exact rest

theorem runChecks_eq_false_iff {actual : Bytes} {checks : List Check} :
    runChecks actual checks = .ok false ↔ FirstFails actual checks := by
  induction checks with
  | nil =>
      constructor
      · intro ran
        cases ran
      · intro ⟨before, check, behind, cut, _⟩
        cases (List.append_eq_nil_iff.mp cut.symm).2
  | cons check checks ih =>
      rw [runChecks.eq_def]
      simp only
      constructor
      · intro ran
        split at ran
        · next stands =>
            rcases ih.mp ran with ⟨before, failing, behind, rfl, earlier, fails⟩
            refine ⟨check :: before, failing, behind, rfl, ?_, fails⟩
            exact List.forall_mem_cons.mpr ⟨Check.stands_of_outcome stands, earlier⟩
        · exact ⟨[], check, checks, rfl, fun _ mem => absurd mem List.not_mem_nil,
            Check.fails_of_outcome ran⟩
      · intro ⟨before, failing, behind, cut, earlier, fails⟩
        cases before with
        | nil =>
            rcases List.cons.inj cut with ⟨rfl, rfl⟩
            rw [Check.outcome_of_fails fails]
        | cons first before =>
            rcases List.cons.inj cut with ⟨rfl, rfl⟩
            rcases List.forall_mem_cons.mp earlier with ⟨stands, earlier⟩
            rw [Check.outcome_of_stands stands]
            exact ih.mpr ⟨before, failing, behind, rfl, earlier, fails⟩

theorem sameLiteral_eq {expected actual : Bytes} {c : Cursor} {t : SubToken}
    (inside : t.beginIdx ≤ expected.length) :
    sameLiteral expected actual c t = (literalCheck expected c t).outcome actual := by
  rw [sameLiteral, literalCheck]
  by_cases gap : c.startIdx < t.beginIdx
  · have size : (t.beginIdx : Int) - c.startIdx = ((t.beginIdx - c.startIdx : Nat) : Int) := by
      omega
    rw [size]
    rw [if_pos (by omega)]
    apply Check.sameBlock_eq_outcome
    rw [List.length_drop]
    omega
  · have none : t.beginIdx - c.startIdx = 0 := by omega
    rw [if_neg (by omega), none, List.take_zero]
    have stands : Check.Stands actual ⟨[], c.startIdx⟩ := List.nil_prefix
    exact (Check.outcome_of_stands stands).symm

theorem sameToken_eq {expected actual : Bytes} {context : Properties} {c : Cursor} {t : SubToken}
    (sorted : c.startIdx ≤ t.beginIdx) (ordered : t.beginIdx ≤ t.endIdx)
    (inside : t.endIdx ≤ expected.length) :
    sameToken expected actual context c t =
      (tokenCheck expected context c t).outcome actual := by
  rw [sameToken, tokenCheck]
  cases found : context.lookup t.token with
  | some value =>
      have whole := Check.sameBlock_eq_outcome value actual value.length c.startIdx le_rfl
      rw [List.take_length] at whole
      exact whole
  | none =>
      have size : (t.endIdx : Int) - t.beginIdx = ((t.endIdx - t.beginIdx : Nat) : Int) := by omega
      simp only [size]
      apply Check.sameBlock_eq_outcome
      rw [List.length_drop]
      omega

theorem startIdx_next (c : Cursor) (context : Properties) (t : SubToken) :
    (c.next context t).startIdx = t.endIdx := by
  rw [Cursor.next]
  split <;> rfl

theorem Placed.start_le {size start : Nat} {subTokens : List SubToken}
    (placed : Placed size start subTokens) : start ≤ size := by
  induction subTokens generalizing start with
  | nil => exact placed
  | cons t ts ih => exact placed.1.trans (placed.2.1.trans (ih placed.2.2))

/-- The loop makes the comparisons. -/
theorem validateTokens_eq {expected actual : Bytes} {context : Properties} {c : Cursor}
    {subTokens : List SubToken} (placed : Placed expected.length c.startIdx subTokens) :
    validateTokens expected actual context c subTokens =
      (runChecks actual (checks expected context c subTokens)).map fun equal =>
        if equal then some (subTokens.foldl (fun c t => c.next context t) c) else none := by
  induction subTokens generalizing c with
  | nil => rfl
  | cons t ts ih =>
      rcases placed with ⟨sorted, ordered, rest⟩
      have inside := rest.start_le
      rw [validateTokens, sameLiteral_eq (ordered.trans inside),
        sameToken_eq sorted ordered inside, checks, runChecks, runChecks]
      cases (literalCheck expected c t).outcome actual with
      | error f => rfl
      | ok literal =>
          cases literal with
          | false => rfl
          | true =>
              cases (tokenCheck expected context c t).outcome actual with
              | error f => rfl
              | ok same =>
                  cases same with
                  | false => rfl
                  | true =>
                      rw [← startIdx_next c context t] at rest
                      exact ih rest

/-- The packet is longer behind the tokens than the expected one, or shorter. -/
def LengthsDiffer (expected actual : Bytes) (context : Properties) (subTokens : List SubToken) :
    Prop :=
  actual.length + (lastCursor context subTokens).startIdx ≠
    expected.length + (lastCursor context subTokens).actualIdx

instance (expected actual : Bytes) (context : Properties) (subTokens : List SubToken) :
    Decidable (LengthsDiffer expected actual context subTokens) :=
  inferInstanceAs (Decidable (_ ≠ _))

/-- The tokens leave nothing of the expected packet out. -/
def Covers (size : Nat) : Nat → List SubToken → Prop
  | start, [] => start = size
  | start, t :: ts => t.beginIdx = start ∧ Covers size t.endIdx ts

theorem startIdx_foldl_le {size : Nat} {context : Properties} {c : Cursor}
    {subTokens : List SubToken} (placed : Placed size c.startIdx subTokens) :
    (subTokens.foldl (fun c t => c.next context t) c).startIdx ≤ size := by
  induction subTokens generalizing c with
  | nil => exact placed
  | cons t ts ih =>
      have rest := placed.2.2
      rw [← startIdx_next c context t] at rest
      exact ih rest

/-- The end of `validate`, behind the tokens: the last comparison reads behind the
expected packet unless nothing is left. -/
theorem remaining_eq {expected actual : Bytes} {c : Cursor}
    (inside : c.startIdx ≤ expected.length) :
    (if (actual.length : Int) - c.actualIdx ≠ expected.length - c.startIdx then .ok false
      else sameBlock (actual.drop c.actualIdx) (expected.drop expected.length)
        (actual.length - c.actualIdx)) =
      if actual.length + c.startIdx ≠ expected.length + c.actualIdx then .ok false
      else if c.startIdx = expected.length then .ok true
      else Except.error (.undefined .outOfBounds) := by
  by_cases same : actual.length + c.startIdx = expected.length + c.actualIdx
  · have size :
        (actual.length : Int) - c.actualIdx = ((expected.length - c.startIdx : Nat) : Int) := by
      omega
    rw [if_neg (by omega), if_neg (by omega), size, sameBlock_natCast, List.drop_length,
      List.length_nil]
    by_cases all : c.startIdx = expected.length
    · rw [if_pos all, if_pos (by omega), all, Nat.sub_self]
      rfl
    · rw [if_neg all, if_neg (by omega)]
  · rw [if_pos (by omega), if_pos same]

theorem validateWith_eq {expected actual : Bytes} {context : Properties}
    {subTokens : List SubToken} (placed : Placed expected.length 0 subTokens) :
    validateWith expected actual context subTokens =
      match runChecks actual (checks expected context {} subTokens) with
      | .error f => .error f
      | .ok false => .ok false
      | .ok true =>
          if LengthsDiffer expected actual context subTokens then .ok false
          else if (lastCursor context subTokens).startIdx = expected.length then .ok true
          else .error (.undefined .outOfBounds) := by
  have inside : (lastCursor context subTokens).startIdx ≤ expected.length :=
    startIdx_foldl_le (c := {}) placed
  rw [validateWith, validateTokens_eq (c := {}) placed]
  cases runChecks actual (checks expected context {} subTokens) with
  | error f => rfl
  | ok equal =>
      cases equal with
      | false => rfl
      | true => exact remaining_eq inside

/-- `true` is answered when every comparison comes out equal and nothing is left. -/
theorem validateWith_eq_true_iff {expected actual : Bytes} {context : Properties}
    {subTokens : List SubToken} (placed : Placed expected.length 0 subTokens) :
    validateWith expected actual context subTokens = .ok true ↔
      (∀ check ∈ checks expected context {} subTokens, check.Stands actual) ∧
        (lastCursor context subTokens).actualIdx = actual.length ∧
        (lastCursor context subTokens).startIdx = expected.length := by
  rw [validateWith_eq placed, ← runChecks_eq_true_iff]
  cases runChecks actual (checks expected context {} subTokens) with
  | error f => simp
  | ok equal =>
      cases equal with
      | false => simp
      | true =>
          simp only [true_and]
          split
          · next differ =>
              rw [LengthsDiffer] at differ
              simp only [Except.ok.injEq, Bool.false_eq_true, false_iff]
              omega
          · next same =>
              rw [LengthsDiffer] at same
              split
              · simp only [true_iff]
                omega
              · simp only [reduceCtorEq, false_iff]
                omega

/-- `false` is answered when a comparison fails, or the lengths differ behind the
tokens. -/
theorem validateWith_eq_false_iff {expected actual : Bytes} {context : Properties}
    {subTokens : List SubToken} (placed : Placed expected.length 0 subTokens) :
    validateWith expected actual context subTokens = .ok false ↔
      FirstFails actual (checks expected context {} subTokens) ∨
        (∀ check ∈ checks expected context {} subTokens, check.Stands actual) ∧
          LengthsDiffer expected actual context subTokens := by
  rw [validateWith_eq placed, ← runChecks_eq_true_iff, ← runChecks_eq_false_iff]
  cases runChecks actual (checks expected context {} subTokens) with
  | error f => simp
  | ok equal =>
      cases equal with
      | false => simp
      | true =>
          simp only [Except.ok.injEq, Bool.true_eq_false, false_or, true_and]
          split
          · next differ => simp [differ]
          · next same => split <;> simp [same]

/-! ## The packet with the values put in -/

theorem actualIdx_next {expected : Bytes} {t : SubToken} (inside : t.endIdx ≤ expected.length)
    (c : Cursor) (context : Properties) :
    (c.next context t).actualIdx = c.actualIdx + (replacement expected context t).length := by
  rw [Cursor.next, replacement]
  cases context.lookup t.token with
  | some value => rfl
  | none =>
      simp only [List.length_take, List.length_drop]
      omega

/-- The tokens stand for no more bytes than the packet has, and for all of them when
they leave nothing out. -/
theorem actualIdx_foldl {expected : Bytes} (context : Properties) {c : Cursor}
    {subTokens : List SubToken} (placed : Placed expected.length c.startIdx subTokens) :
    (subTokens.foldl (fun c t => c.next context t) c).actualIdx ≤
        c.actualIdx + (substitute expected context c.startIdx subTokens).length ∧
      ((subTokens.foldl (fun c t => c.next context t) c).actualIdx =
            c.actualIdx + (substitute expected context c.startIdx subTokens).length ∧
          (subTokens.foldl (fun c t => c.next context t) c).startIdx = expected.length ↔
        Covers expected.length c.startIdx subTokens) := by
  induction subTokens generalizing c with
  | nil =>
      rw [Placed] at placed
      simp only [List.foldl_nil, substitute, Covers, List.length_drop]
      omega
  | cons t ts ih =>
      rcases placed with ⟨sorted, ordered, rest⟩
      have inside := rest.start_le
      have start := startIdx_next c context t
      rcases ih (c := c.next context t) (by rw [start]; exact rest) with ⟨bound, all⟩
      rw [actualIdx_next inside, start] at bound all
      have literal : ((expected.drop c.startIdx).take (t.beginIdx - c.startIdx)).length =
          t.beginIdx - c.startIdx := by
        rw [List.length_take, List.length_drop]
        omega
      rw [List.foldl_cons, substitute, List.length_append, List.length_append, literal, Covers,
        ← all]
      omega

/-- Where the tokens leave nothing out, the packet with the values put in passes all
comparisons but those of the values. -/
theorem stands_substitute {expected : Bytes} {context : Properties} {c : Cursor}
    {subTokens : List SubToken} (placed : Placed expected.length c.startIdx subTokens)
    (covers : Covers expected.length c.startIdx subTokens) {actual : Bytes} (front : Bytes)
    (size : front.length = c.actualIdx)
    (whole : actual = front ++ substitute expected context c.startIdx subTokens) :
    (∀ check ∈ checks expected context c subTokens, check.Stands actual) ↔
      ∀ t ∈ subTokens, ∀ value ∈ context.lookup t.token, value <+: actual.drop t.beginIdx := by
  induction subTokens generalizing c front with
  | nil => simp [checks]
  | cons t ts ih =>
      rcases placed with ⟨sorted, ordered, rest⟩
      rcases covers with ⟨same, covers⟩
      have start := startIdx_next c context t
      have literal : (literalCheck expected c t).Stands actual := by
        rw [literalCheck, same, Nat.sub_self, List.take_zero]
        exact List.nil_prefix
      rw [substitute, same, Nat.sub_self, List.take_zero, List.nil_append] at whole
      have token : (tokenCheck expected context c t).Stands actual ↔
          ∀ value ∈ context.lookup t.token, value <+: actual.drop t.beginIdx := by
        rw [tokenCheck]
        cases found : context.lookup t.token with
        | some value => simp [Check.Stands, same]
        | none =>
            have here : actual.drop c.actualIdx = replacement expected context t ++
                substitute expected context t.endIdx ts := by
              rw [whole, ← size, List.drop_left]
            rw [replacement, found] at here
            simp only [Check.Stands, here, same]
            simp
      have later := ih (c := c.next context t) (by rw [start]; exact rest)
        (by rw [start]; exact covers) (front ++ replacement expected context t)
        (by rw [actualIdx_next rest.start_le, List.length_append, size])
        (by rw [start, whole, List.append_assoc])
      rw [checks, List.forall_mem_cons, List.forall_mem_cons, List.forall_mem_cons, later, token]
      exact and_iff_right literal

/-- The tokens leave nothing of the expected packet out, and each value also stands in
the actual packet where its token stands in the expected one. -/
def ValuesInPlace (expected actual : Bytes) (context : Properties) (subTokens : List SubToken) :
    Prop :=
  Covers expected.length 0 subTokens ∧
    ∀ t ∈ subTokens, ∀ value ∈ context.lookup t.token, value <+: actual.drop t.beginIdx

theorem validateWith_substitute_iff {expected : Bytes} {context : Properties}
    {subTokens : List SubToken} (placed : Placed expected.length 0 subTokens) :
    validateWith expected (substitute expected context 0 subTokens) context subTokens = .ok true ↔
      ValuesInPlace expected (substitute expected context 0 subTokens) context subTokens := by
  rcases actualIdx_foldl (c := {}) context placed with ⟨-, all⟩
  rw [Nat.zero_add] at all
  rw [validateWith_eq_true_iff placed, ValuesInPlace, lastCursor, all]
  constructor
  · intro ⟨stand, covers⟩
    exact ⟨covers, (stands_substitute (c := {}) placed covers [] rfl rfl).mp stand⟩
  · intro ⟨covers, values⟩
    exact ⟨(stands_substitute (c := {}) placed covers [] rfl rfl).mpr values, covers⟩

theorem decides_substitute_iff {expected : Bytes} {context : Properties}
    {subTokens : List SubToken} (placed : Placed expected.length 0 subTokens) :
    Decides expected (substitute expected context 0 subTokens) context subTokens ↔
      ValuesInPlace expected (substitute expected context 0 subTokens) context subTokens := by
  rw [Decides, ← validateWith_substitute_iff placed]
  simp

theorem decides_of_ne_iff {expected actual : Bytes} {context : Properties}
    {subTokens : List SubToken} (other : actual ≠ substitute expected context 0 subTokens) :
    Decides expected actual context subTokens ↔
      validateWith expected actual context subTokens = .ok false := by
  simp [Decides, other]

/-! ## Packets that are always decided -/

/-- Behind a token that leaves nothing out the bytes compared are those put in. -/
theorem tokenCheck_bytes {expected : Bytes} {context : Properties} {c : Cursor} {t : SubToken}
    (same : t.beginIdx = c.startIdx) :
    (tokenCheck expected context c t).bytes = replacement expected context t := by
  rw [tokenCheck, replacement, same]
  cases context.lookup t.token <;> rfl

/-- Nothing is compared exactly when nothing is put in. -/
theorem bytes_eq_nil_iff {expected : Bytes} {context : Properties} {c : Cursor}
    {subTokens : List SubToken} (covers : Covers expected.length c.startIdx subTokens) :
    (∀ check ∈ checks expected context c subTokens, check.bytes = []) ↔
      substitute expected context c.startIdx subTokens = [] := by
  induction subTokens generalizing c with
  | nil =>
      rw [Covers] at covers
      simp [checks, substitute, covers]
  | cons t ts ih =>
      rcases covers with ⟨same, covers⟩
      rw [← startIdx_next c context t] at covers
      have literal : (literalCheck expected c t).bytes = [] := by
        rw [literalCheck, same, Nat.sub_self, List.take_zero]
      rw [checks, List.forall_mem_cons, List.forall_mem_cons, ih covers, literal,
        tokenCheck_bytes same, startIdx_next, substitute, same, Nat.sub_self, List.take_zero,
        List.nil_append, List.append_eq_nil_iff]
      exact and_iff_right rfl

theorem Check.stands_of_empty {actual : Bytes} {check : Check} (empty : check.bytes = []) :
    check.Stands actual := by
  rw [Check.Stands, empty]
  exact List.nil_prefix

/-- In an empty packet only nothing is found. -/
theorem Check.stands_nil_iff {check : Check} : check.Stands [] ↔ check.bytes = [] := by
  rw [Check.Stands, List.drop_nil, List.prefix_nil]

theorem Check.not_fails_nil {check : Check} : ¬ check.Fails [] := by
  intro ⟨short, misses⟩
  rw [List.drop_nil, List.length_nil, Nat.le_zero, List.length_eq_zero_iff] at short
  exact misses (Check.stands_of_empty short)

/-- Where nothing is compared and the tokens leave nothing out, only the empty packet is
accepted. -/
theorem decides_of_empty {expected : Bytes} {context : Properties} {subTokens : List SubToken}
    (placed : Placed expected.length 0 subTokens) (covers : Covers expected.length 0 subTokens)
    (empty : substitute expected context 0 subTokens = []) (actual : Bytes) :
    Decides expected actual context subTokens := by
  have nothing : ∀ check ∈ checks expected context {} subTokens, check.bytes = [] :=
    (bytes_eq_nil_iff covers).mpr empty
  rcases actualIdx_foldl (c := {}) context placed with ⟨-, all⟩
  have last := all.mpr covers
  rw [show substitute expected context (Cursor.startIdx {}) subTokens = [] from empty] at last
  have stand : ∀ check ∈ checks expected context {} subTokens, check.Stands actual :=
    fun check mem => Check.stands_of_empty (nothing check mem)
  rcases List.eq_nil_or_concat actual with rfl | ⟨_, _, nonempty⟩
  · refine ⟨true, (validateWith_eq_true_iff placed).mpr ⟨stand, last⟩, ?_⟩
    rw [empty]
    exact iff_of_true rfl rfl
  · have some_left : actual ≠ [] := by simp [nonempty]
    refine (decides_of_ne_iff (by rwa [empty])).mpr ?_
    refine (validateWith_eq_false_iff placed).mpr (Or.inr ⟨stand, ?_⟩)
    have pos := List.length_pos_iff.mpr some_left
    have ended : (lastCursor context subTokens).actualIdx = 0 ∧
        (lastCursor context subTokens).startIdx = expected.length := last
    rw [LengthsDiffer]
    omega

/-- Where something is put in, the comparisons run out of an empty packet. -/
theorem not_decides_nil {expected : Bytes} {context : Properties} {subTokens : List SubToken}
    (placed : Placed expected.length 0 subTokens) (covers : Covers expected.length 0 subTokens)
    (nonempty : substitute expected context 0 subTokens ≠ []) :
    ¬ Decides expected [] context subTokens := by
  rw [decides_of_ne_iff (Ne.symm nonempty), validateWith_eq_false_iff placed]
  intro answered
  rcases answered with ⟨before, check, behind, -, -, fails⟩ | ⟨stand, -⟩
  · exact Check.not_fails_nil fails
  · exact nonempty ((bytes_eq_nil_iff (c := {}) covers).mp fun check mem =>
      Check.stands_nil_iff.mp (stand check mem))

/-- Without sub-tokens the two forms of `validate` agree on packets of different
lengths, and on two that are empty. -/
theorem validateWith_nil_iff (expected actual : Bytes) (context : Properties) :
    validateWith expected actual context [] = validate expected actual ↔
      expected.length ≠ actual.length ∨ expected = [] ∧ actual = [] := by
  have ends : validateWith expected actual context [] =
      if actual.length ≠ expected.length then .ok false
      else if 0 = expected.length then .ok true else .error (.undefined .outOfBounds) := by
    rw [validateWith_eq (Nat.zero_le _)]
    rfl
  rw [ends, validate_eq]
  by_cases same : actual.length = expected.length
  · rw [if_neg (not_not.mpr same)]
    by_cases empty : expected = []
    · have nothing : actual = [] := List.length_eq_zero_iff.mp (by rw [same, empty]; rfl)
      simp [empty, nothing]
    · have some_left : 0 ≠ expected.length :=
        fun none => empty (List.length_eq_zero_iff.mp none.symm)
      rw [if_neg some_left]
      simp [empty, same]
  · have differ : expected ≠ actual := fun eq => same (congrArg List.length eq.symm)
    simp [same, differ, Ne.symm same]

/-- Every packet is judged right exactly when the tokens leave nothing of the expected packet
out and nothing is put in for them. The packet with the values put in is accepted exactly
when the tokens leave nothing out and each value also stands at the position of its token.
Without tokens only packets of different lengths, or two that are empty, are judged as by
the other `validate`. -/
theorem decides_all_iff (expected : Bytes) (context : Properties) (subTokens : List SubToken)
    (placed : Placed expected.length 0 subTokens) :
    ((∀ actual, Decides expected actual context subTokens) ↔
        Covers expected.length 0 subTokens ∧ substitute expected context 0 subTokens = []) ∧
      (Decides expected (substitute expected context 0 subTokens) context subTokens ↔
        ValuesInPlace expected (substitute expected context 0 subTokens) context subTokens) ∧
      ∀ actual, validateWith expected actual context [] = validate expected actual ↔
        expected.length ≠ actual.length ∨ expected = [] ∧ actual = [] := by
  refine ⟨⟨fun all => ?_, fun given => decides_of_empty placed given.1 given.2⟩,
    decides_substitute_iff placed, fun actual => validateWith_nil_iff expected actual context⟩
  have covers := ((decides_substitute_iff placed).mp (all _)).1
  refine ⟨covers, ?_⟩
  by_contra nonempty
  exact not_decides_nil placed covers nonempty (all [])

/-- A token for all of the packet: the packet that is meant is accepted, and not every
other one is judged right. -/
theorem decides_all_iff_whole :
    Decides (ascii "@id@") (ascii "12345") ((∅ : Properties).put (ascii "id") (ascii "12345"))
        [⟨ascii "id", 0, 4⟩] ∧
      ¬ ∀ actual, Decides (ascii "@id@") actual
        ((∅ : Properties).put (ascii "id") (ascii "12345")) [⟨ascii "id", 0, 4⟩] := by
  have judged := decides_all_iff (ascii "@id@")
    ((∅ : Properties).put (ascii "id") (ascii "12345")) [⟨ascii "id", 0, 4⟩] (by decide)
  have whole : substitute (ascii "@id@") ((∅ : Properties).put (ascii "id") (ascii "12345")) 0
      [⟨ascii "id", 0, 4⟩] = ascii "12345" := by decide +kernel
  rw [whole] at judged
  exact ⟨judged.2.1.mpr ⟨⟨rfl, rfl⟩, by decide +kernel⟩,
    fun all => absurd (judged.1.mp all).2 (by decide)⟩

/-- With a literal in front of the token, the packet with the value put in is turned
down. -/
theorem not_decides_literal :
    ¬ ∀ (expected actual : Bytes) (context : Properties) (subTokens : List SubToken),
      Placed expected.length 0 subTokens → Decides expected actual context subTokens := by
  intro decides
  obtain ⟨answer, result, right⟩ := decides (ascii "a@") (ascii "ab")
    ((∅ : Properties).put (ascii "id") (ascii "b")) [⟨ascii "id", 1, 2⟩]
    (by decide)
  have turned : validateWith (ascii "a@") (ascii "ab")
      ((∅ : Properties).put (ascii "id") (ascii "b")) [⟨ascii "id", 1, 2⟩] = .ok false := by
    decide +kernel
  rw [result, Except.ok.injEq] at turned
  rw [turned] at right
  cases right.mpr (by decide +kernel)

end PacketValidator

end PacketReplay
