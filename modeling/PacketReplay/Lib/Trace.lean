import Mathlib.Data.List.Basic

/-!
# Objects called in turn

An object answers a call with a result and the object it leaves. `trace` lists the
answers of a run of calls, up to the first one that ends the run. The rule for
comparing two objects is `trace_map_eq_of_simulation`: a relation that makes two
calls look alike, and that the objects they leave are again in, makes the whole
runs look alike.
-/

namespace PacketReplay.Lib

variable {σ τ α ρ ω : Type}

/-- The answers to the calls on `as`, up to the first whose result ends the run. -/
def trace (call : σ → α → ρ × σ) (ends : ρ → Bool) (s : σ) : List α → List (ρ × σ)
  | [] => []
  | a :: as =>
      call s a :: if ends (call s a).1 then [] else trace call ends (call s a).2 as

/-- The object that a run leaves. -/
def leaves (call : σ → α → ρ × σ) (ends : ρ → Bool) (s : σ) (as : List α) : σ :=
  ((trace call ends s as).getLast?.map Prod.snd).getD s

section Runs

variable {call : σ → α → ρ × σ} {ends : ρ → Bool} {s : σ}

@[simp] theorem trace_nil : trace call ends s [] = [] := rfl

theorem trace_cons_of_ends {a : α} (stop : ends (call s a).1 = true) (as : List α) :
    trace call ends s (a :: as) = [call s a] := by
  rw [trace, if_pos stop]

theorem trace_cons_of_goes {a : α} (goes : ends (call s a).1 = false) (as : List α) :
    trace call ends s (a :: as) = call s a :: trace call ends (call s a).2 as := by
  rw [trace, if_neg (by simp [goes])]

/-- The first answer of a run is that to its first call. -/
theorem getElem?_trace_zero (a : α) (as : List α) :
    (trace call ends s (a :: as))[0]? = some (call s a) := by
  rw [trace, List.getElem?_cons_zero]

/-- There are no more answers than calls. -/
theorem length_trace_le (as : List α) : (trace call ends s as).length ≤ as.length := by
  induction as generalizing s with
  | nil => exact Nat.le_refl 0
  | cons a as ih =>
      rw [trace, List.length_cons, List.length_cons]
      split
      · exact Nat.succ_le_succ (Nat.zero_le _)
      · exact Nat.succ_le_succ ih

@[simp] theorem leaves_nil : leaves call ends s [] = s := rfl

theorem leaves_cons_of_goes {a : α} (goes : ends (call s a).1 = false) (as : List α) :
    leaves call ends s (a :: as) = leaves call ends (call s a).2 as := by
  rw [leaves, leaves, trace_cons_of_goes goes, List.getLast?_cons]
  cases (trace call ends (call s a).2 as).getLast? <;> rfl

/-- A run depends on its object through the answer to the first call only. -/
theorem trace_cons_congr {s t : σ} {a b : α} (same : call s a = call t b) (as : List α) :
    trace call ends s (a :: as) = trace call ends t (b :: as) := by
  rw [trace, trace, same]

theorem leaves_cons_congr {s t : σ} {a b : α} (same : call s a = call t b) (as : List α) :
    leaves call ends s (a :: as) = leaves call ends t (b :: as) := by
  rw [leaves, leaves, trace_cons_congr same, trace, List.getLast?_cons]
  rfl

end Runs

/-- Each call of a run meets a condition on the object it is made on. -/
def EachCall (call : σ → α → ρ × σ) (ends : ρ → Bool) (Good : σ → α → Prop) :
    σ → List α → Prop
  | _, [] => True
  | s, a :: as =>
      Good s a ∧ (ends (call s a).1 = false → EachCall call ends Good (call s a).2 as)

/-- Where the answer to a call is as it should be exactly when the call meets a
condition, and leaves an object of which this is true again, the answers of a run are as
they should be exactly when each of its calls meets the condition. -/
theorem forall_trace_iff {call : σ → α → ρ × σ} {ends : ρ → Bool} {Good : σ → α → Prop}
    {Right : ρ × σ → Prop} (Inv : σ → Prop)
    (exact : ∀ s a, Inv s → (Right (call s a) ↔ Good s a))
    (kept : ∀ s a, Right (call s a) → Inv (call s a).2)
    {s : σ} (inv : Inv s) (as : List α) :
    (∀ r ∈ trace call ends s as, Right r) ↔ EachCall call ends Good s as := by
  induction as generalizing s with
  | nil => exact iff_of_true (fun r mem => by cases mem) trivial
  | cons a as ih =>
      have first := exact s a inv
      rcases goes : ends (call s a).1 with _ | _
      · rw [trace_cons_of_goes goes, List.forall_mem_cons, EachCall, first]
        refine and_congr_right fun good => ?_
        rw [ih (kept s a (first.mpr good)), goes]
        exact ⟨fun rest _ => rest, fun rest => rest rfl⟩
      · rw [trace_cons_of_ends goes, List.forall_mem_singleton, EachCall, first, goes]
        exact (and_iff_left fun never => by cases never).symm

/-- Runs of two objects look alike when each pair of calls does and leaves objects
that are related again. -/
theorem trace_map_eq_of_simulation {call : σ → α → ρ × σ} {other : τ → α → ρ × τ}
    {ends : ρ → Bool} {view : ρ × σ → ω} {otherView : ρ × τ → ω} (Related : σ → τ → Prop)
    (result : ∀ s t a, Related s t → (call s a).1 = (other t a).1)
    (looks : ∀ s t a, Related s t → view (call s a) = otherView (other t a))
    (related : ∀ s t a, Related s t → ends (call s a).1 = false →
      Related (call s a).2 (other t a).2)
    {s : σ} {t : τ} (start : Related s t) (as : List α) :
    (trace call ends s as).map view = (trace other ends t as).map otherView := by
  induction as generalizing s t with
  | nil => rfl
  | cons a as ih =>
      have same := result s t a start
      rcases goes : ends (call s a).1 with _ | _
      · rw [trace_cons_of_goes goes, trace_cons_of_goes (same ▸ goes), List.map_cons,
          List.map_cons, looks s t a start, ih (related s t a start goes)]
      · rw [trace_cons_of_ends goes, trace_cons_of_ends (same ▸ goes), List.map_singleton,
          List.map_singleton, looks s t a start]

end PacketReplay.Lib
