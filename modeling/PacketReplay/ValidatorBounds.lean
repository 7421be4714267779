import PacketReplay.PacketValidator
import PacketReplay.Lib.Checked

/-!
# The reads of the packet validator

A comparison of blocks reads all of both. `StaysWithin` follows the loop of `validate`
as long as the actual packet agrees and says when each block ends within its packet;
behind the tokens it is the expected packet that is read behind its end.
`defined_validateWith_iff` says that nothing else is read outside.
-/

namespace PacketReplay

open Lib

namespace PacketValidator

/-! ## Comparisons that fit -/

namespace Check

variable {actual : Bytes}

/-- The bytes at the position are there. -/
def Fits (actual : Bytes) (check : Check) : Prop :=
  check.bytes.length ≤ (actual.drop check.position).length

theorem Stands.fits {check : Check} (stands : check.Stands actual) : check.Fits actual :=
  stands.length_le

theorem fits_iff {bytes : Bytes} {position : Nat} :
    Fits actual ⟨bytes, position⟩ ↔ bytes = [] ∨ position + bytes.length ≤ actual.length := by
  rw [Fits, List.length_drop]
  cases bytes with
  | nil => simp
  | cons c bytes =>
      simp only [List.length_cons, reduceCtorEq, false_or]
      omega

theorem defined_outcome {check : Check} : Defined (check.outcome actual) ↔ check.Fits actual := by
  rw [outcome]
  split
  · next stands => exact iff_of_true (defined_ok _) stands.fits
  · next misses =>
      split
      · next fails => exact iff_of_true (defined_ok _) fails.1
      · next short =>
          exact iff_of_false (fun defined => defined _ rfl) fun fits => short ⟨fits, misses⟩

end Check

/-- Each comparison that is reached fits, and so does what is left behind the last. -/
def FitsUntil (actual : Bytes) (last : Prop) : List Check → Prop
  | [] => last
  | check :: checks => check.Fits actual ∧ (check.Stands actual → FitsUntil actual last checks)

/-- What is done behind comparisons that all come out equal. -/
def thenLast (equal : Outcome Bool) (last : Outcome Bool) : Outcome Bool :=
  match equal with
  | .error f => .error f
  | .ok false => .ok false
  | .ok true => last

theorem defined_runChecks {actual : Bytes} {last : Outcome Bool} {checks : List Check} :
    Defined (thenLast (runChecks actual checks) last) ↔
      FitsUntil actual (Defined last) checks := by
  induction checks with
  | nil => exact Iff.rfl
  | cons check checks ih =>
      rw [FitsUntil, ← Check.defined_outcome, runChecks.eq_def]
      simp only
      split
      · next stands =>
          rw [ih, stands]
          have equal := Check.stands_of_outcome stands
          exact ⟨fun fits => ⟨defined_ok _, fun _ => fits⟩, fun both => both.2 equal⟩
      · next other =>
          have misses : ¬ check.Stands actual := fun stands =>
            other (Check.outcome_of_stands stands)
          cases ended : check.outcome actual with
          | error f =>
              refine ⟨fun defined => ⟨defined, fun stands => absurd stands misses⟩,
                fun both => both.1⟩
          | ok equal =>
              cases equal with
              | true => exact absurd ended other
              | false =>
                  exact iff_of_true (defined_ok _)
                    ⟨defined_ok _, fun stands => absurd stands misses⟩

/-! ## Positions -/

/-- What is compared for a token ends within the actual packet. -/
def TokenFits (actual : Bytes) (context : Properties) (c : Cursor) (t : SubToken) : Prop :=
  match context.lookup t.token with
  | some value => value = [] ∨ c.startIdx + value.length ≤ actual.length
  | none => t.beginIdx = t.endIdx ∨ c.actualIdx + (t.endIdx - t.beginIdx) ≤ actual.length

/-- As long as the actual packet agrees, the literal in front of each token ends within
it, and so does what is compared for the token. Behind the tokens the rests have different
lengths, or the last token ends the expected packet. -/
def StaysWithin (expected actual : Bytes) (context : Properties) : Cursor → List SubToken → Prop
  | c, [] =>
      actual.length + c.startIdx ≠ expected.length + c.actualIdx ∨ c.startIdx = expected.length
  | c, t :: ts =>
      (c.startIdx = t.beginIdx ∨ t.beginIdx ≤ actual.length) ∧
        ((literalCheck expected c t).Stands actual →
          TokenFits actual context c t ∧
            ((tokenCheck expected context c t).Stands actual →
              StaysWithin expected actual context (c.next context t) ts))

section Positions

variable {expected actual : Bytes} {context : Properties} {c : Cursor} {t : SubToken}

theorem fits_literalCheck (sorted : c.startIdx ≤ t.beginIdx)
    (inside : t.beginIdx ≤ expected.length) :
    (literalCheck expected c t).Fits actual ↔
      c.startIdx = t.beginIdx ∨ t.beginIdx ≤ actual.length := by
  have size : ((expected.drop c.startIdx).take (t.beginIdx - c.startIdx)).length =
      t.beginIdx - c.startIdx := by
    rw [List.length_take, List.length_drop]
    omega
  rw [literalCheck, Check.fits_iff, ← List.length_eq_zero_iff, size]
  omega

theorem fits_tokenCheck (sorted : c.startIdx ≤ t.beginIdx) (ordered : t.beginIdx ≤ t.endIdx)
    (inside : t.endIdx ≤ expected.length) :
    (tokenCheck expected context c t).Fits actual ↔ TokenFits actual context c t := by
  rw [tokenCheck, TokenFits]
  cases context.lookup t.token with
  | some value => exact Check.fits_iff
  | none =>
      have size : ((expected.drop c.startIdx).take (t.endIdx - t.beginIdx)).length =
          t.endIdx - t.beginIdx := by
        rw [List.length_take, List.length_drop]
        omega
      simp only
      rw [Check.fits_iff, ← List.length_eq_zero_iff, size]
      omega

theorem staysWithin_iff_fitsUntil {subTokens : List SubToken}
    (placed : Placed expected.length c.startIdx subTokens) :
    StaysWithin expected actual context c subTokens ↔
      FitsUntil actual
        (actual.length + (subTokens.foldl (fun c t => c.next context t) c).startIdx ≠
            expected.length + (subTokens.foldl (fun c t => c.next context t) c).actualIdx ∨
          (subTokens.foldl (fun c t => c.next context t) c).startIdx = expected.length)
        (checks expected context c subTokens) := by
  induction subTokens generalizing c with
  | nil => exact Iff.rfl
  | cons t ts ih =>
      rcases placed with ⟨sorted, ordered, rest⟩
      have inside := rest.start_le
      have later := ih (c := c.next context t) (by rw [startIdx_next]; exact rest)
      rw [StaysWithin, checks, FitsUntil, FitsUntil, later,
        fits_literalCheck sorted (ordered.trans inside), fits_tokenCheck sorted ordered inside]
      rfl

end Positions

theorem defined_last {expected actual : Bytes} {context : Properties}
    {subTokens : List SubToken} :
    Defined (if LengthsDiffer expected actual context subTokens then .ok false
      else if (lastCursor context subTokens).startIdx = expected.length then .ok true
      else .error (.undefined .outOfBounds)) ↔
      LengthsDiffer expected actual context subTokens ∨
        (lastCursor context subTokens).startIdx = expected.length := by
  split
  · next differ => exact iff_of_true (defined_ok _) (Or.inl differ)
  · next same =>
      rw [or_iff_right same]
      split
      · next ends => exact iff_of_true (defined_ok _) ends
      · next ends => exact iff_of_false (fun defined => defined _ rfl) ends

/-- Nothing outside of the two packets is compared exactly when the loop stays within
the actual packet and nothing is left to compare behind it. -/
theorem defined_validateWith_iff (expected actual : Bytes) (context : Properties)
    (subTokens : List SubToken) (placed : Placed expected.length 0 subTokens) :
    Defined (validateWith expected actual context subTokens) ↔
      StaysWithin expected actual context {} subTokens := by
  have ran : validateWith expected actual context subTokens =
      thenLast (runChecks actual (checks expected context {} subTokens))
        (if LengthsDiffer expected actual context subTokens then .ok false
          else if (lastCursor context subTokens).startIdx = expected.length then .ok true
          else .error (.undefined .outOfBounds)) := validateWith_eq placed
  rw [ran, defined_runChecks, staysWithin_iff_fitsUntil (c := {}) placed, propext defined_last]
  rfl

theorem defined_validateWith_whole :
    Defined (validateWith (ascii "@id@") (ascii "12345")
        ((∅ : Properties).put (ascii "id") (ascii "12345")) [⟨ascii "id", 0, 4⟩]) ↔
      StaysWithin (ascii "@id@") (ascii "12345")
        ((∅ : Properties).put (ascii "id") (ascii "12345")) {} [⟨ascii "id", 0, 4⟩] :=
  defined_validateWith_iff _ _ _ _ (by decide)

/-- Two equal packets without tokens are compared behind the end of the first. -/
theorem not_defined_validateWith :
    ¬ ∀ (expected actual : Bytes) (context : Properties) (subTokens : List SubToken),
      Placed expected.length 0 subTokens →
        Defined (validateWith expected actual context subTokens) := by
  intro defined
  have within := defined (ascii "ab") (ascii "ab") ∅ [] (by decide)
  revert within
  decide

end PacketValidator

end PacketReplay
