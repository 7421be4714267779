import Mathlib.Data.List.Basic

/-!
# Comparing texts outside of fields

Fields of one width in a text, given by where they start. Slices are compared index by
index, and fields far enough apart are determined by the indices they cover
(`eq_of_inField_iff`).
-/

namespace PacketReplay.Lib

variable {α : Type} {a b : List α} {start stop : Nat}

/-! ## Slices -/

theorem drop_eq_iff : a.drop start = b.drop start ↔ ∀ i, start ≤ i → a[i]? = b[i]? := by
  rw [List.ext_getElem?_iff]
  constructor
  · intro same i from_start
    have symbol := same (i - start)
    rw [List.getElem?_drop, List.getElem?_drop, Nat.add_sub_cancel' from_start] at symbol
    exact symbol
  · intro same i
    rw [List.getElem?_drop, List.getElem?_drop]
    exact same (start + i) (Nat.le_add_right _ _)

/-- Slices from `start` to `stop` are the same when the indices in between are. -/
theorem slice_eq_iff :
    (a.take stop).drop start = (b.take stop).drop start ↔
      ∀ i, start ≤ i → i < stop → a[i]? = b[i]? := by
  rw [drop_eq_iff]
  refine forall_congr' fun i => forall_congr' fun _ => ?_
  rw [List.getElem?_take, List.getElem?_take]
  by_cases inside : i < stop
  · rw [if_pos inside, if_pos inside]
    exact ⟨fun same _ => same, fun same => same inside⟩
  · rw [if_neg inside, if_neg inside]
    exact iff_of_true rfl fun absurd_inside => absurd absurd_inside inside

/-- Texts that agree at every index but those of fields in front of the last one are of one
length. -/
theorem length_eq_of_getElem? {n : Nat} (length : a.length = n + 1) (last : a[n]? = b[n]?)
    (behind : a[n + 1]? = b[n + 1]?) : a.length = b.length := by
  have none : b.length ≤ n + 1 := by
    rw [List.getElem?_eq_none (by omega)] at behind
    exact List.getElem?_eq_none_iff.mp behind.symm
  have some : n < b.length := by
    by_contra short
    rw [List.getElem?_eq_none (Nat.le_of_not_lt short), List.getElem?_eq_none_iff] at last
    omega
  omega

/-! ## Fields -/

/-- The index lies in a field. -/
def InField (width : Nat) (starts : List Nat) (i : Nat) : Prop :=
  ∃ s ∈ starts, s ≤ i ∧ i < s + width

instance (width : Nat) (starts : List Nat) (i : Nat) : Decidable (InField width starts i) :=
  inferInstanceAs (Decidable (∃ s ∈ starts, _))

/-- Every field starts `gap` behind the one before it, or later. -/
def Spaced (gap : Nat) (starts : List Nat) : Prop :=
  starts.Pairwise fun s t => s + gap ≤ t

section Spaced

variable {width gap n : Nat} {us ts : List Nat}

@[simp] theorem not_inField_nil (i : Nat) : ¬ InField width [] i := by
  simp [InField]

theorem inField_cons {s i : Nat} :
    InField width (s :: us) i ↔ (s ≤ i ∧ i < s + width) ∨ InField width us i := by
  simp [InField]

theorem Spaced.le_of_inField {s i : Nat} (spaced : Spaced gap (s :: us))
    (field : InField width us i) : s + gap ≤ i := by
  rcases field with ⟨t, mem, from_t, -⟩
  exact Nat.le_trans (List.rel_of_pairwise_cons spaced mem) from_t

theorem Spaced.head_le {s i : Nat} (spaced : Spaced gap (s :: us))
    (field : InField width (s :: us) i) : s ≤ i := by
  rcases inField_cons.mp field with here | later
  · exact here.1
  · exact Nat.le_trans (Nat.le_add_right s gap) (spaced.le_of_inField later)

/-- Behind its first field the indices of a text are those of the other fields. -/
theorem Spaced.inField_tail {s i : Nat} (spaced : Spaced gap (s :: us)) (apart : width ≤ gap) :
    InField width us i ↔ s + width ≤ i ∧ InField width (s :: us) i := by
  rw [inField_cons]
  constructor
  · intro field
    have behind := spaced.le_of_inField field
    exact ⟨by omega, .inr field⟩
  · intro given
    rcases given with ⟨behind, here | field⟩
    · omega
    · exact field

/-- A text that is changed at one index agrees with the old one outside of the fields
exactly when the index lies in one. -/
theorem agree_set_iff {j : Nat} {c : α} (inside : j < a.length) (differs : c ≠ a[j]) :
    (∀ i, ¬ InField width us i → a[i]? = (a.set j c)[i]?) ↔ InField width us j := by
  constructor
  · intro agree
    by_contra outside
    have symbol := agree j outside
    rw [List.getElem?_set_self inside, List.getElem?_eq_getElem inside, Option.some.injEq] at symbol
    exact differs symbol.symm
  · intro field i outside
    have other : j ≠ i := by
      intro same
      subst same
      exact outside field
    rw [List.getElem?_set_ne other]

/-- Fields that cover the same indices are the same. -/
theorem eq_of_inField_iff (some : 0 < width) (apart : width ≤ gap) (spacedU : Spaced gap us)
    (spacedT : Spaced gap ts) (insideU : ∀ u ∈ us, u < n) (insideT : ∀ t ∈ ts, t < n)
    (same : ∀ i < n, InField width us i ↔ InField width ts i) : us = ts := by
  induction us generalizing ts with
  | nil =>
      cases ts with
      | nil => rfl
      | cons t ts =>
          have first := (same t (insideT t List.mem_cons_self)).mpr
            (inField_cons.mpr (.inl ⟨Nat.le_refl _, Nat.lt_add_of_pos_right some⟩))
          exact absurd first (not_inField_nil t)
  | cons u us ih =>
      have atU : InField width (u :: us) u :=
        inField_cons.mpr (.inl ⟨Nat.le_refl _, Nat.lt_add_of_pos_right some⟩)
      cases ts with
      | nil =>
          have first := (same u (insideU u List.mem_cons_self)).mp atU
          exact absurd first (not_inField_nil u)
      | cons t ts =>
          have atT : InField width (t :: ts) t :=
            inField_cons.mpr (.inl ⟨Nat.le_refl _, Nat.lt_add_of_pos_right some⟩)
          have one := spacedT.head_le ((same u (insideU u List.mem_cons_self)).mp atU)
          have other := spacedU.head_le ((same t (insideT t List.mem_cons_self)).mpr atT)
          have heads : u = t := Nat.le_antisymm other one
          subst heads
          congr 1
          apply ih (List.Pairwise.of_cons spacedU) (List.Pairwise.of_cons spacedT)
            (fun v mem => insideU v (List.mem_cons_of_mem u mem))
            (fun v mem => insideT v (List.mem_cons_of_mem u mem))
          intro i inside
          rw [spacedU.inField_tail apart, spacedT.inField_tail apart, same i inside]

end Spaced

end PacketReplay.Lib
