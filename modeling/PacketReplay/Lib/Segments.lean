import Mathlib.Data.List.Basic

/-!
# Machines fed in segments

A machine consumes an input symbol by symbol and answers either with its next
state or with a final result; `drive` runs it along a list. A *segmented*
machine is the same thing over lists: one call per segment. This module relates
the two. `drive_segments` says that a segmented machine whose calls each agree,
under an abstraction of its state, with driving a symbol machine along the
segment, agrees with it on the concatenation of the segments, so it cannot tell
how its input was cut. The agreement is only asked of the calls that meet a
condition `Ok`, and `Along Ok` says that every call of a run meets it.

A call is most often a loop that consumes a block of its segment at a time.
`blockLoop` is that loop, and `blockLoop_drive` reduces the agreement of a call
to that of each of its iterations.
-/

namespace PacketReplay.Lib

/-- What a machine answers: its next state, or a final result. -/
inductive Verdict (σ ρ : Type) : Type
  | more (s : σ)
  | halt (r : ρ)
  deriving DecidableEq, Repr

namespace Verdict

variable {σ τ υ ρ π : Type}

/-- Go on from the next state, if there is one. -/
def bind (v : Verdict σ ρ) (k : σ → Verdict τ ρ) : Verdict τ ρ :=
  match v with
  | more s => k s
  | halt r => halt r

/-- Read the state through `f` and the result through `g`. -/
def map (f : σ → τ) (g : ρ → π) : Verdict σ ρ → Verdict τ π
  | more s => more (f s)
  | halt r => halt (g r)

@[simp] theorem bind_more (s : σ) (k : σ → Verdict τ ρ) : (more s).bind k = k s := rfl

@[simp] theorem bind_halt (r : ρ) (k : σ → Verdict τ ρ) : (halt r).bind k = halt r := rfl

@[simp] theorem map_more (f : σ → τ) (g : ρ → π) (s : σ) : (more s).map f g = more (f s) := rfl

@[simp] theorem map_halt (f : σ → τ) (g : ρ → π) (r : ρ) :
    (halt r : Verdict σ ρ).map f g = halt (g r) := rfl

theorem bind_assoc (v : Verdict σ ρ) (k : σ → Verdict τ ρ) (l : τ → Verdict υ ρ) :
    (v.bind k).bind l = v.bind fun s => (k s).bind l := by
  cases v <;> rfl

theorem bind_more_right (v : Verdict σ ρ) : v.bind more = v := by
  cases v <;> rfl

end Verdict

variable {σ τ ρ π α : Type}

/-- Run a machine along a list of symbols, up to its first result. -/
def drive (step : σ → α → Verdict σ ρ) (s : σ) : List α → Verdict σ ρ
  | [] => .more s
  | a :: as => (step s a).bind fun s' => drive step s' as

section Drive

variable {step : σ → α → Verdict σ ρ} {s : σ}

@[simp] theorem drive_nil : drive step s [] = .more s := rfl

@[simp] theorem drive_cons (a : α) (as : List α) :
    drive step s (a :: as) = (step s a).bind fun s' => drive step s' as := rfl

theorem drive_append (as bs : List α) :
    drive step s (as ++ bs) = (drive step s as).bind fun s' => drive step s' bs := by
  induction as generalizing s with
  | nil => rfl
  | cons a as ih =>
      rw [List.cons_append, drive_cons, drive_cons, Verdict.bind_assoc]
      simp only [ih]

/-- Driving along a prefix, then along what is left. -/
theorem drive_take_drop (n : Nat) (as : List α) :
    drive step s as = (drive step s (as.take n)).bind fun s' => drive step s' (as.drop n) := by
  rw [← drive_append, List.take_append_drop]

/-- A state no symbol moves absorbs every input. -/
theorem drive_of_fixed (fixed : ∀ a, step s a = .more s) (as : List α) :
    drive step s as = .more s := by
  induction as with
  | nil => rfl
  | cons a as ih => rw [drive_cons, fixed, Verdict.bind_more, ih]

end Drive

/-- The segments are a way of cutting the input into non-empty consecutive pieces. -/
def Cutting (input : List α) (segments : List (List α)) : Prop :=
  segments.flatten = input ∧ ∀ segment ∈ segments, segment ≠ []

instance [DecidableEq α] (input : List α) (segments : List (List α)) :
    Decidable (Cutting input segments) :=
  inferInstanceAs (Decidable (_ ∧ _))

/-- Every call of the run of a segmented machine meets the condition `Ok`. -/
def Along (call : σ → List α → Verdict σ ρ) (Ok : σ → List α → Prop) :
    σ → List (List α) → Prop
  | _, [] => True
  | s, seg :: segs => Ok s seg ∧ ∀ s', call s seg = .more s' → Along call Ok s' segs

instance Along.decidable (call : σ → List α → Verdict σ ρ) (Ok : σ → List α → Prop)
    [∀ s seg, Decidable (Ok s seg)] : ∀ s segs, Decidable (Along call Ok s segs)
  | _, [] => .isTrue trivial
  | s, seg :: segs =>
      match answer : call s seg with
      | .more s' =>
          have := Along.decidable call Ok s' segs
          decidable_of_iff (Ok s seg ∧ Along call Ok s' segs)
            (and_congr_right fun _ => ⟨fun rest t same => by
              rw [answer, Verdict.more.injEq] at same
              exact same ▸ rest, fun rest => rest s' answer⟩)
      | .halt r =>
          decidable_of_iff (Ok s seg)
            ⟨fun ok => ⟨ok, fun t same => by rw [answer] at same; cases same⟩, And.left⟩

/-- Segment by segment, a machine whose calls agree with driving `step` along
their segment agrees with driving `step` along the whole input. -/
theorem drive_segments {call : σ → List α → Verdict σ ρ} {step : τ → α → Verdict τ π}
    {abs : σ → τ} {out : ρ → π} {Ok : σ → List α → Prop}
    (agrees : ∀ s seg, Ok s seg → (call s seg).map abs out = drive step (abs s) seg)
    {s : σ} {segs : List (List α)} (along : Along call Ok s segs) :
    (drive call s segs).map abs out = drive step (abs s) segs.flatten := by
  induction segs generalizing s with
  | nil => rfl
  | cons seg segs ih =>
      obtain ⟨ok, rest⟩ := along
      have agree := agrees s seg ok
      rw [List.flatten_cons, drive_append, drive_cons, ← agree]
      cases answer : call s seg with
      | more s' => exact ih (rest s' answer)
      | halt r => rfl

/-! ## Loops over a segment -/

/-- One iteration of a loop over a segment: go on after consuming some symbols,
or leave the loop. -/
inductive BlockStep (σ ρ : Type) : Type
  | next (s : σ) (consumed : Nat)
  | exit (r : ρ)
  deriving DecidableEq, Repr

/-- Run the loop up to its first exit, or to the end of the segment. An iteration
that goes on has consumed the symbol it looked at. -/
def blockLoop (step : σ → α → List α → BlockStep σ ρ) (finish : σ → ρ) (s : σ) : List α → ρ
  | [] => finish s
  | a :: as =>
      match step s a as with
      | .exit r => r
      | .next s' n => blockLoop step finish s' (as.drop (n - 1))
termination_by as => as.length
decreasing_by
  rw [List.length_drop, List.length_cons]
  omega

/-- Every iteration of a loop meets the condition `Ok`. -/
def LoopAlong (step : σ → α → List α → BlockStep σ ρ) (Ok : σ → α → List α → Prop) (s : σ) :
    List α → Prop
  | [] => True
  | a :: as =>
      Ok s a as ∧
        match step s a as with
        | .exit _ => True
        | .next s' n => LoopAlong step Ok s' (as.drop (n - 1))
termination_by as => as.length
decreasing_by
  rw [List.length_drop, List.length_cons]
  omega

/-- `LoopAlong` as a check. -/
def checkLoop (step : σ → α → List α → BlockStep σ ρ) (ok : σ → α → List α → Bool) (s : σ) :
    List α → Bool
  | [] => true
  | a :: as =>
      ok s a as &&
        match step s a as with
        | .exit _ => true
        | .next s' n => checkLoop step ok s' (as.drop (n - 1))
termination_by as => as.length
decreasing_by
  rw [List.length_drop, List.length_cons]
  omega

theorem checkLoop_iff {step : σ → α → List α → BlockStep σ ρ} {Ok : σ → α → List α → Prop}
    [∀ s a as, Decidable (Ok s a as)] {s : σ} {as : List α} :
    checkLoop step (fun s a as => decide (Ok s a as)) s as = true ↔ LoopAlong step Ok s as := by
  induction size : as.length using Nat.strongRecOn generalizing s as with
  | ind bound ih =>
      cases as with
      | nil => rw [checkLoop, LoopAlong]; simp
      | cons a as =>
          rw [checkLoop, LoopAlong, Bool.and_eq_true, decide_eq_true_iff]
          refine and_congr_right fun _ => ?_
          cases step s a as with
          | exit r => simp
          | next s' n =>
              refine ih _ ?_ rfl
              rw [← size, List.length_drop, List.length_cons]
              omega

instance (step : σ → α → List α → BlockStep σ ρ) (Ok : σ → α → List α → Prop)
    [∀ s a as, Decidable (Ok s a as)] (s : σ) (as : List α) :
    Decidable (LoopAlong step Ok s as) :=
  decidable_of_iff _ checkLoop_iff

/-- A condition that every iteration meets. -/
theorem LoopAlong.of_forall {step : σ → α → List α → BlockStep σ ρ} {Ok : σ → α → List α → Prop}
    (always : ∀ s a as, Ok s a as) (s : σ) (as : List α) : LoopAlong step Ok s as := by
  induction size : as.length using Nat.strongRecOn generalizing s as with
  | ind bound ih =>
      cases as with
      | nil =>
          rw [LoopAlong]
          trivial
      | cons a as =>
          rw [LoopAlong]
          refine ⟨always s a as, ?_⟩
          cases step s a as with
          | exit r => trivial
          | next s' n =>
              refine ih _ ?_ s' _ rfl
              rw [← size, List.length_drop, List.length_cons]
              omega

section Invariants

variable {Inv : σ → Prop}

/-- An invariant that every conforming call keeps holds at every call of a run. -/
theorem Along.with_invariant {call : σ → List α → Verdict σ ρ} {Ok : σ → List α → Prop}
    (kept : ∀ s seg s', Inv s → Ok s seg → call s seg = .more s' → Inv s')
    {s : σ} {segs : List (List α)} (inv : Inv s) (along : Along call Ok s segs) :
    Along call (fun s seg => Inv s ∧ Ok s seg) s segs := by
  induction segs generalizing s with
  | nil => trivial
  | cons seg segs ih =>
      obtain ⟨ok, rest⟩ := along
      exact ⟨⟨inv, ok⟩, fun s' answer => ih (kept s seg s' inv ok answer) (rest s' answer)⟩

/-- An invariant that every conforming iteration keeps holds at every iteration of
a loop. -/
theorem LoopAlong.with_invariant {step : σ → α → List α → BlockStep σ ρ}
    {Ok : σ → α → List α → Prop}
    (kept : ∀ s a as s' n, Inv s → Ok s a as → step s a as = .next s' n → Inv s')
    {s : σ} {as : List α} (inv : Inv s) (along : LoopAlong step Ok s as) :
    LoopAlong step (fun s a as => Inv s ∧ Ok s a as) s as := by
  induction size : as.length using Nat.strongRecOn generalizing s as with
  | ind bound ih =>
      cases as with
      | nil => rw [LoopAlong]; trivial
      | cons a as =>
          rw [LoopAlong] at along ⊢
          obtain ⟨ok, rest⟩ := along
          refine ⟨⟨inv, ok⟩, ?_⟩
          cases answer : step s a as with
          | exit r => trivial
          | next s' n =>
              simp only [answer] at rest
              refine ih _ ?_ (kept s a as s' n inv ok answer) rest rfl
              rw [← size, List.length_drop, List.length_cons]
              omega

/-- What a loop leaves satisfies what its exits and its end do. -/
theorem blockLoop_induct {step : σ → α → List α → BlockStep σ ρ} {finish : σ → ρ}
    {Ok : σ → α → List α → Prop} (Left : ρ → Prop)
    (kept : ∀ s a as s' n, Inv s → Ok s a as → step s a as = .next s' n → Inv s')
    (left : ∀ s a as r, Inv s → Ok s a as → step s a as = .exit r → Left r)
    (finished : ∀ s, Inv s → Left (finish s))
    {s : σ} {as : List α} (inv : Inv s) (along : LoopAlong step Ok s as) :
    Left (blockLoop step finish s as) := by
  induction size : as.length using Nat.strongRecOn generalizing s as with
  | ind bound ih =>
      cases as with
      | nil =>
          rw [blockLoop]
          exact finished s inv
      | cons a as =>
          rw [LoopAlong] at along
          obtain ⟨ok, rest⟩ := along
          rw [blockLoop]
          cases answer : step s a as with
          | exit r => exact left s a as r inv ok answer
          | next s' n =>
              simp only [answer] at rest
              refine ih _ ?_ (kept s a as s' n inv ok answer) rest rfl
              rw [← size, List.length_drop, List.length_cons]
              omega

end Invariants

/-- What an iteration must do to agree with the symbol machine: going on, its
consumed symbols lead to its next state; leaving, the whole rest of the segment
leads to the verdict it stands for. -/
def BlockStep.Agrees (step : τ → α → Verdict τ π) (abs : σ → τ) (verdict : ρ → Verdict τ π)
    (s : σ) (as : List α) : BlockStep σ ρ → Prop
  | .next s' n => 0 < n ∧ drive step (abs s) (as.take n) = .more (abs s')
  | .exit r => drive step (abs s) as = verdict r

theorem blockLoop_drive {block : σ → α → List α → BlockStep σ ρ} {finish : σ → ρ}
    {step : τ → α → Verdict τ π} {abs : σ → τ} (verdict : ρ → Verdict τ π)
    {Ok : σ → α → List α → Prop} (finished : ∀ s, verdict (finish s) = .more (abs s))
    (agrees : ∀ s a as, Ok s a as → (block s a as).Agrees step abs verdict s (a :: as))
    {s : σ} {as : List α} (along : LoopAlong block Ok s as) :
    verdict (blockLoop block finish s as) = drive step (abs s) as := by
  induction size : as.length using Nat.strongRecOn generalizing s as with
  | ind bound ih =>
      cases as with
      | nil => rw [blockLoop, finished, drive_nil]
      | cons a as =>
          rw [LoopAlong] at along
          obtain ⟨ok, rest⟩ := along
          have agree := agrees s a as ok
          rw [blockLoop]
          cases answer : block s a as with
          | exit r =>
              rw [answer] at agree
              exact agree.symm
          | next s' n =>
              simp only [answer] at rest agree
              obtain ⟨consumed, agree⟩ := agree
              have shorter : (as.drop (n - 1)).length < bound := by
                rw [← size, List.length_drop, List.length_cons]
                omega
              have dropped : (a :: as).drop n = as.drop (n - 1) := by
                obtain ⟨k, rfl⟩ : ∃ k, n = k + 1 := ⟨n - 1, by omega⟩
                rfl
              rw [drive_take_drop n, agree, Verdict.bind_more, dropped]
              exact ih _ shorter rest rfl

end PacketReplay.Lib
