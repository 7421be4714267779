import Mathlib.Data.List.Induction

/-!
# Procedures

A procedure runs on a state and returns a value or stops; the state it leaves is there
in both cases. A loop over a list is cut where it stops (`each_cut`): behind the elements
that are done it stands at one that stops it, or behind all of them. What the procedure
keeps on each element it keeps on the way to every cut (`Done.keeps`).
-/

namespace PacketReplay.Lib

/-- How a run ends, and the state it leaves. -/
def Proc (ε σ α : Type) : Type := σ → Except ε α × σ

namespace Proc

variable {ε σ α β : Type}

instance : Monad (Proc ε σ) where
  pure a := fun s => (.ok a, s)
  bind x f := fun s =>
    match x s with
    | (.ok a, t) => f a t
    | (.error e, t) => (.error e, t)

/-- Stop. -/
def stop (e : ε) : Proc ε σ α := fun s => (.error e, s)

/-- Change the state. -/
def modify (f : σ → σ) : Proc ε σ Unit := fun s => (.ok (), f s)

/-- The loop over a list. -/
def each (f : α → Proc ε σ Unit) : List α → Proc ε σ Unit
  | [] => pure ()
  | a :: as => do
      f a
      each f as

variable {x : Proc ε σ α} {f : α → Proc ε σ β} {s t : σ} {a : α} {e : ε}

theorem bind_of_ok (first : x s = (.ok a, t)) : (x >>= f) s = f a t := by
  change (match x s with | (.ok a, t) => f a t | (.error e, t) => (.error e, t)) = _
  rw [first]

theorem bind_of_error (first : x s = (.error e, t)) : (x >>= f) s = (.error e, t) := by
  change (match x s with | (.ok a, t) => f a t | (.error e, t) => (.error e, t)) = _
  rw [first]

theorem bind_pure_apply (x : Proc ε σ α) (f : α → β) (s : σ) :
    (x >>= fun a => pure (f a)) s = ((x s).1.map f, (x s).2) := by
  rcases first : x s with ⟨e | a, t⟩
  · exact bind_of_error first
  · exact bind_of_ok first

/-- A run of two procedures stops in the first or goes on to the second. -/
theorem bind_cases (x : Proc ε σ α) (f : α → Proc ε σ β) (s : σ) :
    (∃ e t, x s = (.error e, t) ∧ (x >>= f) s = (.error e, t)) ∨
      ∃ a t, x s = (.ok a, t) ∧ (x >>= f) s = f a t := by
  rcases first : x s with ⟨e | a, t⟩
  · exact Or.inl ⟨e, t, rfl, bind_of_error first⟩
  · exact Or.inr ⟨a, t, rfl, bind_of_ok first⟩

/-! ## Relations that runs go along -/

section Along

variable {R : σ → σ → Prop}

theorem bind_along (trans : ∀ {s t u}, R s t → R t u → R s u) (first : ∀ s, R s (x s).2)
    (behind : ∀ a s, R s (f a s).2) (s : σ) : R s ((x >>= f) s).2 := by
  rcases bind_cases x f s with ⟨e, t, runs, whole⟩ | ⟨a, t, runs, whole⟩
  · have here := first s
    rw [runs] at here
    rwa [whole]
  · have here := first s
    rw [runs] at here
    rw [whole]
    exact trans here (behind a t)

theorem each_along (refl : ∀ s, R s s) (trans : ∀ {s t u}, R s t → R t u → R s u)
    {g : α → Proc ε σ Unit} (step : ∀ a s, R s (g a s).2) (as : List α) (s : σ) :
    R s (each g as s).2 := by
  induction as generalizing s with
  | nil => exact refl s
  | cons a as ih =>
      exact bind_along (R := R) (f := fun _ => each g as) trans (step a) (fun _ => ih) s

end Along

/-! ## Loops -/

variable {g : α → Proc ε σ Unit}

theorem each_singleton (g : α → Proc ε σ Unit) (a : α) (s : σ) : each g [a] s = g a s := by
  rcases first : g a s with ⟨e | _, t⟩
  · exact bind_of_error first
  · exact bind_of_ok first

/-- Behind the first elements the loop goes on with the others. -/
theorem each_append_of_ok {as bs : List α} (first : each g as s = (.ok (), t)) :
    each g (as ++ bs) s = each g bs t := by
  induction as generalizing s with
  | nil =>
      cases first
      rfl
  | cons a as ih =>
      rcases here : g a s with ⟨e | _, u⟩
      · have stops : each g (a :: as) s = (.error e, u) := bind_of_error here
        rw [stops] at first
        cases first
      · have goes : each g (a :: as) s = each g as u := bind_of_ok here
        rw [goes] at first
        exact (bind_of_ok here).trans (ih first)

theorem each_append_of_error {as : List α} (first : each g as s = (.error e, t)) (bs : List α) :
    each g (as ++ bs) s = (.error e, t) := by
  induction as generalizing s with
  | nil => cases first
  | cons a as ih =>
      rcases here : g a s with ⟨f | _, u⟩
      · have stops : each g (a :: as) s = (.error f, u) := bind_of_error here
        rw [stops] at first
        cases first
        exact bind_of_error here
      · have goes : each g (a :: as) s = each g as u := bind_of_ok here
        rw [goes] at first
        exact (bind_of_ok here).trans (ih first)

/-- The elements that are done, from one state to another. -/
inductive Done (f : α → Proc ε σ Unit) : σ → List α → σ → Prop
  | nil (s : σ) : Done f s [] s
  | cons {s t u : σ} {a : α} {as : List α} (first : f a s = (.ok (), t)) (rest : Done f t as u) :
      Done f s (a :: as) u

variable {u : σ} {as bs : List α}

theorem Done.append (before : Done g s as t) (behind : Done g t bs u) : Done g s (as ++ bs) u := by
  induction before with
  | nil => exact behind
  | cons first _ ih => exact .cons first (ih behind)

/-- What each element keeps holds behind all that are done. -/
theorem Done.keeps {motive : List α → σ → Prop} (done : Done g s as t) (start : motive [] s)
    (step : ∀ before a s t, motive before s → g a s = (.ok (), t) → motive (before ++ [a]) t) :
    motive as t := by
  induction done generalizing motive with
  | nil => exact start
  | cons first _ ih =>
      exact ih (motive := fun before s => motive (_ :: before) s) (step [] _ _ _ start first)
        fun before a s t holds next => step (_ :: before) a s t holds next

/-- A loop is done with all elements, or it stops at one behind those that are done. -/
theorem each_cut (g : α → Proc ε σ Unit) (as : List α) (s : σ) :
    (∃ t, Done g s as t ∧ each g as s = (.ok (), t)) ∨
      ∃ before a behind t e u, as = before ++ a :: behind ∧ Done g s before t ∧
        g a t = (.error e, u) ∧ each g as s = (.error e, u) := by
  induction as generalizing s with
  | nil => exact Or.inl ⟨s, .nil s, rfl⟩
  | cons a as ih =>
      rcases first : g a s with ⟨e | _, t⟩
      · exact Or.inr ⟨[], a, as, s, e, t, rfl, .nil s, first, bind_of_error first⟩
      · have whole : each g (a :: as) s = each g as t := bind_of_ok first
        rcases ih t with ⟨u, done, runs⟩ | ⟨before, b, behind, v, e, u, rfl, done, stops, runs⟩
        · exact Or.inl ⟨u, .cons first done, whole.trans runs⟩
        · exact Or.inr ⟨a :: before, b, behind, v, e, u, rfl, .cons first done, stops,
            whole.trans runs⟩

end Proc

end PacketReplay.Lib
