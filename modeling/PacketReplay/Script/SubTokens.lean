import PacketReplay.Script.Serializer

/-!
# Placeholders

What the data of an action has to have substituted: `Scans` reads the placeholders off
from the left, and `carriesNames_iff` compares `create_action` with it. The length that
is handed to `substr` there is the index of the closing brace, which is more than the
length of the name, and the data goes on at least to that brace: no name is right.
-/

namespace PacketReplay

open Lib

namespace ConversationSerializer

/-- No opening of a placeholder has a closing brace behind it. -/
def NoPlaceholder (data : Bytes) : Prop :=
  ∀ before after, data = before ++ (subPrefix ++ after) → 125 ∉ after

/-- The placeholders of a text that begins at an offset, from left to right: each
reaches from the first opening to the nearest closing brace, and its name is what stands
between the two. -/
inductive Scans : Nat → Bytes → List SubToken → Prop
  | done {offset : Nat} {data : Bytes} (none_left : NoPlaceholder data) : Scans offset data []
  | token {offset : Nat} {before name after : Bytes} {tokens : List SubToken}
      (first : ¬ subPrefix <:+: before) (nearest : 125 ∉ name)
      (rest : Scans (offset + (before.length + name.length + 3)) after tokens) :
      Scans offset (before ++ (subPrefix ++ (name ++ (subSuffix ++ after))))
        (⟨name, offset + before.length, offset + (before.length + name.length + 3)⟩ :: tokens)

/-- The two searches of one round find a placeholder. -/
theorem not_noPlaceholder_of_found {view : Bytes} {startIdx endIdx : Nat}
    (opened : OccursAt subPrefix view startIdx)
    (closed : findFrom subSuffix view (startIdx + subPrefix.length) = some endIdx) :
    ¬ NoPlaceholder view := by
  intro without
  have open_brace := opened.eq_append
  have close_brace := (OccursAt.of_findFrom closed).eq_append
  have behind := (findFrom_bounds (by decide) closed).1
  refine without _ _ open_brace ?_
  have inside : view.drop (startIdx + subPrefix.length) =
      (view.take endIdx).drop (startIdx + subPrefix.length) ++
        (subSuffix ++ view.drop (endIdx + subSuffix.length)) := by
    have bound := (findFrom_bounds (by decide) closed).2
    have shorter : startIdx + subPrefix.length ≤ (view.take endIdx).length := by
      rw [List.length_take]
      omega
    conv_lhs => rw [close_brace, List.drop_append_of_le_length shorter]
  rw [inside, List.mem_append]
  exact Or.inr List.mem_cons_self

theorem subTokensFrom_of_noPlaceholder {data : Bytes} (without : NoPlaceholder data) :
    subTokensFrom data 0 = [] := by
  rw [subTokensFrom]
  split
  · rfl
  · next startIdx opened =>
      split
      · rfl
      · next endIdx closed =>
          exact absurd without
            (not_noPlaceholder_of_found (OccursAt.of_findFrom opened) closed)

/-- The text of a token goes on behind the closing brace. -/
theorem text_ne_of_placeholder {before name after text : Bytes} {start stop : Nat}
    {tokens : List SubToken}
    (found : subTokensFrom (before ++ (subPrefix ++ (name ++ (subSuffix ++ after)))) 0 =
      ⟨text, start, stop⟩ :: tokens)
    (begins : start = before.length) (ends : stop = before.length + name.length + 3) :
    text ≠ name := by
  have lengths : subPrefix.length = 2 ∧ subSuffix.length = 1 := by decide
  rw [subTokensFrom] at found
  split at found
  · cases found
  · next startIdx opened =>
      split at found
      · cases found
      · next endIdx closed =>
          rw [List.cons.injEq, SubToken.mk.injEq] at found
          rcases found with ⟨⟨rfl, rfl, rfl⟩, -⟩
          intro same
          have size := congrArg List.length same
          simp only [List.length_take, List.length_drop, List.length_append] at size
          omega

theorem noPlaceholder_of_scans {data : Bytes} (scans : Scans 0 data (subTokensFrom data 0)) :
    NoPlaceholder data := by
  generalize found : subTokensFrom data 0 = tokens at scans
  cases scans with
  | done none_left => exact none_left
  | token first nearest rest =>
      exact absurd rfl (text_ne_of_placeholder found (Nat.zero_add _) (Nat.zero_add _))

/-- The tokens of an action are the placeholders of its data exactly when there are
none. -/
theorem carriesNames_iff (type : ActionType) (data : Bytes) :
    Scans 0 data (createAction type data).subTokens ↔ NoPlaceholder data := by
  rw [createAction]
  constructor
  · exact noPlaceholder_of_scans
  · intro without
    rw [subTokensFrom_of_noPlaceholder without]
    exact .done without

/-- The token of `${a}` is `a}`. -/
theorem not_carriesNames_brace :
    ¬ ∀ type data, Scans 0 data (createAction type data).subTokens := by
  intro always
  have without := noPlaceholder_of_scans (always .send (ascii "$\x7ba\x7d"))
  exact without [] (ascii "a\x7d") rfl (by decide)

example : (createAction .send (ascii "$\x7ba\x7d b")).subTokens =
    [⟨ascii "a\x7d ", 0, 4⟩] := by decide +kernel

end ConversationSerializer

end PacketReplay
