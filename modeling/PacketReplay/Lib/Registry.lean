import Mathlib.Data.List.AList
import Mathlib.Data.List.Induction

/-!
# Registries

Items are filed one after the other, each under a key, and a later one replaces an
earlier one of its key (`lookup_foldl_insert`); the entries of a map, filed in any
order, make the map again. The key of an item is made from what
it is for, its source. Items may be filed in another order that keeps the items of
each source in order, `Reordered`: which item is then found is known where sources do
not share a key, and any of those that share one can be (`exists_reordered_lastWith`).
-/

namespace PacketReplay.Lib

section Last

variable {α β : Type} [DecidableEq β]

/-- The last item with the given value. -/
def lastWith (f : α → β) (b : β) (items : List α) : Option α :=
  (items.filter fun a => f a = b).getLast?

variable {f : α → β} {a : α} {b : β} {items : List α}

theorem lastWith_append (items more : List α) :
    lastWith f b (items ++ more) = (lastWith f b more).or (lastWith f b items) := by
  rw [lastWith, List.filter_append, List.getLast?_append]
  rfl

theorem lastWith_singleton_of_eq (same : f a = b) : lastWith f b [a] = some a := by
  rw [lastWith, List.filter_cons_of_pos (by simp [same])]
  rfl

theorem lastWith_singleton_of_ne (differ : f a ≠ b) : lastWith f b [a] = none := by
  rw [lastWith, List.filter_cons_of_neg (by simp [differ])]
  rfl

theorem mem_of_lastWith (found : lastWith f b items = some a) : a ∈ items ∧ f a = b := by
  rcases List.mem_filter.mp (List.mem_of_getLast? found) with ⟨mem, same⟩
  exact ⟨mem, of_decide_eq_true same⟩

theorem lastWith_eq_none_iff : lastWith f b items = none ↔ ∀ a ∈ items, f a ≠ b := by
  rw [lastWith, List.getLast?_eq_none_iff, List.filter_eq_nil_iff]
  simp only [decide_eq_true_eq, ne_eq]

theorem exists_lastWith (mem : a ∈ items) (same : f a = b) : ∃ c, lastWith f b items = some c := by
  rw [← Option.ne_none_iff_exists', ne_eq, lastWith_eq_none_iff]
  exact fun none => none a mem same

end Last

section Registry

variable {α K V S : Type} [DecidableEq K] [DecidableEq S]

/-- A lookup finds the last item that was filed under the key. -/
theorem lookup_foldl_insert (key : α → K) (value : α → V) (items : List α) (k : K) :
    (items.foldl (fun filed a => filed.insert (key a) (value a)) (∅ : AList fun _ : K => V)).lookup
        k = (lastWith key k items).map value := by
  induction items using List.reverseRecOn with
  | nil => exact AList.lookup_empty k
  | append_singleton items a ih =>
      rw [List.foldl_append, List.foldl_cons, List.foldl_nil, lastWith_append]
      by_cases same : key a = k
      · rw [lastWith_singleton_of_eq same, ← same, AList.lookup_insert]
        rfl
      · rw [lastWith_singleton_of_ne same, AList.lookup_insert_ne (Ne.symm same), ih]
        rfl

/-- Entries filed in any order make the map that they are the entries of. -/
theorem lookup_foldl_insert_of_perm {map : AList fun _ : K => V} {items : List (K × V)}
    (perm : items.Perm (map.entries.map fun entry => (entry.1, entry.2))) (k : K) :
    (items.foldl (fun filed item => filed.insert item.1 item.2) (∅ : AList fun _ : K => V)).lookup
        k = map.lookup k := by
  have listed : ∀ v, (k, v) ∈ items ↔ map.lookup k = some v := by
    intro v
    rw [perm.mem_iff, ← Option.mem_def, AList.mem_lookup_iff, List.mem_map]
    constructor
    · intro given
      obtain ⟨entry, mem, same⟩ := given
      cases same
      exact mem
    · intro mem
      exact ⟨_, mem, rfl⟩
  rw [lookup_foldl_insert]
  cases held : map.lookup k with
  | none =>
      have absent : lastWith Prod.fst k items = none := by
        rw [lastWith_eq_none_iff]
        intro item mem same
        subst same
        have found := (listed item.2).mp mem
        rw [held] at found
        cases found
      rw [absent]
      rfl
  | some v =>
      obtain ⟨item, last⟩ := exists_lastWith (f := Prod.fst) ((listed v).mpr held) rfl
      obtain ⟨mem, same⟩ := mem_of_lastWith last
      subst same
      have found := (listed item.2).mp mem
      rw [last, Option.map_some, ← found, held]

/-- The same items, those of each source in the same order. -/
def Reordered (source : α → S) (items other : List α) : Prop :=
  ∀ s, other.filter (fun a => source a = s) = items.filter fun a => source a = s

section Order

variable {source : α → S} {items other : List α} {a : α}

theorem Reordered.mem_iff (reordered : Reordered source items other) : a ∈ other ↔ a ∈ items := by
  have same := congrArg (a ∈ ·) (reordered (source a))
  simpa using same

theorem Reordered.lastWith_eq (reordered : Reordered source items other) (s : S) :
    lastWith source s other = lastWith source s items := by
  rw [lastWith, lastWith, reordered s]

/-- The last item of a key is the last of its source. -/
theorem lastWith_source {key : α → K} {k : K}
    (coarser : ∀ b ∈ items, source b = source a → key b = key a)
    (found : lastWith key k items = some a) : lastWith source (source a) items = some a := by
  induction items using List.reverseRecOn with
  | nil => cases found
  | append_singleton items b ih =>
      rw [lastWith_append] at found ⊢
      by_cases filed : key b = k
      · rw [lastWith_singleton_of_eq filed] at found
        cases found
        rw [lastWith_singleton_of_eq rfl]
        rfl
      · rw [lastWith_singleton_of_ne filed, Option.none_or] at found
        have other : source b ≠ source a := by
          intro same
          exact filed ((coarser b (by simp) same).trans (mem_of_lastWith found).2)
        rw [lastWith_singleton_of_ne other, Option.none_or]
        exact ih (fun c mem => coarser c (List.mem_append_left _ mem)) found

/-- Where nothing is filed under a key there is no item of a source of that key. -/
theorem Reordered.lastWith_eq_none {key : α → K} {k : K} {s : S}
    (reordered : Reordered source items other) (absent : lastWith key k other = none)
    (of_source : ∀ a, source a = s → key a = k) : lastWith source s items = none := by
  rw [lastWith_eq_none_iff]
  intro a mem same
  exact lastWith_eq_none_iff.mp absent a (reordered.mem_iff.mpr mem) (of_source a same)

/-- The last item of a source can be the one that is found under its key. -/
theorem exists_reordered_lastWith (key : α → K)
    (coarser : ∀ b ∈ items, source b = source a → key b = key a)
    (last : lastWith source (source a) items = some a) :
    ∃ other, Reordered source items other ∧ lastWith key (key a) other = some a := by
  refine ⟨items.filter (fun b => source b ≠ source a) ++
    items.filter (fun b => source b = source a), ?_, ?_⟩
  · intro s
    rw [List.filter_append, List.filter_filter, List.filter_filter]
    by_cases mine : s = source a
    · have others : items.filter
          (fun b => (decide (source b = s) && decide (source b ≠ source a))) = [] := by
        rw [List.filter_eq_nil_iff]
        intro b _
        simp [mine]
      rw [others, List.nil_append]
      simp [mine]
    · have own : items.filter
          (fun b => (decide (source b = s) && decide (source b = source a))) = [] := by
        rw [List.filter_eq_nil_iff]
        intro b _ both
        rw [Bool.and_eq_true, decide_eq_true_iff, decide_eq_true_iff] at both
        exact mine (both.1.symm.trans both.2)
      rw [own, List.append_nil]
      apply List.filter_congr
      intro b _
      rw [Bool.and_eq_left_iff_imp, decide_eq_true_iff, decide_eq_true_iff]
      exact fun same back => mine (same.symm.trans back)
  · have whole : (items.filter fun b => source b = source a).filter (fun b => key b = key a) =
        items.filter fun b => source b = source a := by
      rw [List.filter_eq_self]
      intro b mem
      rcases List.mem_filter.mp mem with ⟨inItems, same⟩
      exact decide_eq_true (coarser b inItems (of_decide_eq_true same))
    have own : lastWith key (key a) (items.filter fun b => source b = source a) = some a := by
      rw [lastWith, whole]
      exact last
    rw [lastWith_append, own]
    rfl

end Order

end Registry

end PacketReplay.Lib
