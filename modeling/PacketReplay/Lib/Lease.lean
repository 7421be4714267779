import Mathlib.Data.List.Induction

/-!
# Leases of one resource

A log of events, some of which acquire the one resource, use it or release it. The
log is `Disciplined` when uses and releases happen while the resource is held, and
`Exclusive` when it is never acquired while it is held. For a disciplined log the
second is the same as one release between every two acquisitions
(`exclusive_iff_one_release`).
-/

namespace PacketReplay.Lib

/-- What an event does to the resource. -/
inductive Lease : Type
  | acquire
  | use
  | release
  deriving DecidableEq, Repr

namespace Lease

variable {α : Type} (lease : α → Lease)

/-- Whether the resource is held behind one more event. -/
def hold (held : Bool) (a : α) : Bool :=
  match lease a with
  | acquire => true
  | use => held
  | release => false

/-- Whether the resource is held at the end of a log that begins without it. -/
def held (log : List α) : Bool := log.foldl (hold lease) false

/-- Uses and releases happen while the resource is held. -/
def Disciplined (log : List α) : Prop :=
  ∀ before a behind, log = before ++ a :: behind → lease a ≠ acquire → held lease before = true

/-- The resource is not acquired while it is held. -/
def Exclusive (log : List α) : Prop :=
  ∀ before a behind, log = before ++ a :: behind → lease a = acquire → held lease before = false

variable {lease} {log before behind : List α} {a : α}

theorem held_append_singleton : held lease (log ++ [a]) = hold lease (held lease log) a := by
  rw [held, List.foldl_append, ← held, List.foldl_cons, List.foldl_nil]

theorem held_append_of_acquire (kind : lease a = acquire) :
    held lease (log ++ [a]) = true := by
  rw [held_append_singleton, hold, kind]

theorem held_append_of_release (kind : lease a = release) :
    held lease (log ++ [a]) = false := by
  rw [held_append_singleton, hold, kind]

/-- Uses keep a resource that is held. -/
theorem held_append_of_uses {uses : List α} (kinds : ∀ a ∈ uses, lease a = use) :
    held lease (log ++ uses) = held lease log := by
  induction uses generalizing log with
  | nil => rw [List.append_nil]
  | cons a uses ih =>
      have kind := kinds a List.mem_cons_self
      rw [List.append_cons, ih fun b mem => kinds b (List.mem_cons_of_mem a mem),
        held_append_singleton, hold, kind]

/-! ## Growing logs -/

/-- The cuts of a log that has grown by one event. -/
theorem append_singleton_eq {b : α} (cut : log ++ [b] = before ++ a :: behind) :
    before = log ∧ a = b ∧ behind = [] ∨
      ∃ rest, behind = rest ++ [b] ∧ log = before ++ a :: rest := by
  rcases List.eq_nil_or_concat behind with rfl | ⟨rest, last, rfl⟩
  · rcases List.append_inj' cut rfl with ⟨same, final⟩
    cases final
    exact Or.inl ⟨same.symm, rfl, rfl⟩
  · rw [List.concat_eq_append, ← List.cons_append, ← List.append_assoc] at cut
    rcases List.append_inj' cut rfl with ⟨same, final⟩
    cases final
    exact Or.inr ⟨rest, List.concat_eq_append, same⟩

theorem disciplined_nil : Disciplined lease [] := by
  intro before a behind cut
  cases (List.append_eq_nil_iff.mp cut.symm).2

theorem exclusive_nil : Exclusive lease [] := by
  intro before a behind cut
  cases (List.append_eq_nil_iff.mp cut.symm).2

theorem Disciplined.of_append (disciplined : Disciplined lease (log ++ behind)) :
    Disciplined lease log := by
  intro before a rest cut
  apply disciplined before a (rest ++ behind)
  rw [cut, List.append_assoc, List.cons_append]

theorem Exclusive.of_append (exclusive : Exclusive lease (log ++ behind)) :
    Exclusive lease log := by
  intro before a rest cut
  apply exclusive before a (rest ++ behind)
  rw [cut, List.append_assoc, List.cons_append]

theorem disciplined_append_singleton :
    Disciplined lease (log ++ [a]) ↔
      Disciplined lease log ∧ (lease a ≠ acquire → held lease log = true) := by
  constructor
  · intro disciplined
    exact ⟨disciplined.of_append, disciplined log a [] rfl⟩
  · intro ⟨disciplined, last⟩ before b behind cut kind
    rcases append_singleton_eq cut with ⟨rfl, rfl, -⟩ | ⟨rest, -, inside⟩
    · exact last kind
    · exact disciplined before b rest inside kind

theorem exclusive_append_singleton :
    Exclusive lease (log ++ [a]) ↔
      Exclusive lease log ∧ (lease a = acquire → held lease log = false) := by
  constructor
  · intro exclusive
    exact ⟨exclusive.of_append, exclusive log a [] rfl⟩
  · intro ⟨exclusive, last⟩ before b behind cut kind
    rcases append_singleton_eq cut with ⟨rfl, rfl, -⟩ | ⟨rest, -, inside⟩
    · exact last kind
    · exact exclusive before b rest inside kind

/-- What every use keeps is kept by many. -/
theorem append_uses_induct {P : List α → Prop}
    (kept : ∀ log a, lease a = use → P log → P (log ++ [a])) {uses : List α}
    (kinds : ∀ a ∈ uses, lease a = use) (holds : P log) : P (log ++ uses) := by
  induction uses generalizing log with
  | nil => rwa [List.append_nil]
  | cons a uses ih =>
      rw [List.append_cons]
      apply ih
      · exact fun b mem => kinds b (List.mem_cons_of_mem a mem)
      · exact kept log a (kinds a List.mem_cons_self) holds

/-- Uses of a resource that is held are disciplined. -/
theorem Disciplined.append_uses (disciplined : Disciplined lease log)
    (holds : held lease log = true) {uses : List α} (kinds : ∀ a ∈ uses, lease a = use) :
    Disciplined lease (log ++ uses) := by
  refine (append_uses_induct (P := fun l => Disciplined lease l ∧ held lease l = true) ?_ kinds
    ⟨disciplined, holds⟩).1
  intro log a kind both
  refine ⟨disciplined_append_singleton.mpr ⟨both.1, fun _ => both.2⟩, ?_⟩
  rw [held_append_singleton, hold, kind]
  exact both.2

theorem Exclusive.append_uses (exclusive : Exclusive lease log) {uses : List α}
    (kinds : ∀ a ∈ uses, lease a = use) : Exclusive lease (log ++ uses) := by
  refine append_uses_induct ?_ kinds exclusive
  intro log a kind exclusive
  refine exclusive_append_singleton.mpr ⟨exclusive, fun acquires => ?_⟩
  rw [kind] at acquires
  cases acquires

/-! ## Releases between acquisitions -/

theorem held_eq_false_of_no_acquire (none : ∀ a ∈ log, lease a ≠ acquire) :
    held lease log = false := by
  induction log using List.reverseRecOn with
  | nil => rfl
  | append_singleton log a ih =>
      have earlier := ih fun b mem => none b (List.mem_append_left [a] mem)
      have kind := none a (List.mem_append_right log List.mem_cons_self)
      rw [held_append_singleton, hold]
      split
      · next acquires => exact absurd acquires kind
      · exact earlier
      · rfl

/-- Behind an acquisition a disciplined log has at most one release, which says
whether the resource is held still. -/
theorem countP_release (kind : lease a = acquire) {between : List α}
    (none : ∀ b ∈ between, lease b ≠ acquire)
    (disciplined : Disciplined lease (before ++ a :: between)) :
    between.countP (fun b => lease b = release) =
      if held lease (before ++ a :: between) then 0 else 1 := by
  induction between using List.reverseRecOn with
  | nil => rw [held_append_of_acquire kind, if_pos rfl, List.countP_nil]
  | append_singleton between b ih =>
      rw [← List.cons_append, ← List.append_assoc] at disciplined ⊢
      rcases disciplined_append_singleton.mp disciplined with ⟨earlier, last⟩
      have count := ih (fun c mem => none c (List.mem_append_left [b] mem)) earlier
      have other := none b (List.mem_append_right between List.mem_cons_self)
      rw [last other, if_pos rfl] at count
      rw [List.countP_append, count, List.countP_singleton, held_append_singleton, hold]
      cases kind : lease b with
      | acquire => exact absurd kind other
      | use => simp [last other]
      | release => simp

/-- The last element of a kind in a list. -/
theorem exists_last {p : α → Prop} (some : ∃ a ∈ log, p a) :
    ∃ before a behind, log = before ++ a :: behind ∧ p a ∧ ∀ b ∈ behind, ¬ p b := by
  induction log using List.reverseRecOn with
  | nil =>
      rcases some with ⟨a, mem, -⟩
      cases mem
  | append_singleton log b ih =>
      by_cases last : p b
      · exact ⟨log, b, [], rfl, last, fun c mem => absurd mem List.not_mem_nil⟩
      · have earlier : ∃ a ∈ log, p a := by
          rcases some with ⟨a, mem, holds⟩
          rcases List.mem_append.mp mem with inside | final
          · exact ⟨a, inside, holds⟩
          · rw [List.mem_singleton.mp final] at holds
            exact absurd holds last
        rcases ih earlier with ⟨before, a, behind, rfl, holds, none⟩
        refine ⟨before, a, behind ++ [b], by simp, holds, fun c mem => ?_⟩
        rcases List.mem_append.mp mem with inside | final
        · exact none c inside
        · rw [List.mem_singleton.mp final]
          exact last

/-- A disciplined log is exclusive exactly when there is one release between an
acquisition and the next. -/
theorem exclusive_iff_one_release (disciplined : Disciplined lease log) :
    Exclusive lease log ↔
      ∀ before a between b behind, log = before ++ a :: (between ++ b :: behind) →
        lease a = acquire → lease b = acquire → (∀ c ∈ between, lease c ≠ acquire) →
          between.countP (fun c => lease c = release) = 1 := by
  constructor
  · intro exclusive before a between b behind cut first second none
    rw [← List.cons_append, ← List.append_assoc] at cut
    have free := exclusive _ b behind cut second
    rw [cut] at disciplined
    rw [countP_release first none disciplined.of_append, free]
    rfl
  · intro once before b behind cut second
    by_cases first : ∃ a ∈ before, lease a = acquire
    · rcases exists_last first with ⟨earlier, a, between, rfl, kind, none⟩
      rw [List.append_assoc, List.cons_append] at cut
      have count := once earlier a between b behind cut kind second none
      rw [cut, ← List.cons_append, ← List.append_assoc] at disciplined
      rw [countP_release kind none disciplined.of_append] at count
      revert count
      cases held lease (earlier ++ a :: between) <;> decide
    · apply held_eq_false_of_no_acquire
      exact fun a mem kind => first ⟨a, mem, kind⟩

end Lease

end PacketReplay.Lib
