import Mathlib.Data.List.AList
import Mathlib.Data.List.TakeWhile

/-!
# Demultiplexers

A demultiplexer keeps a conversation for each key, and delivers a packet to the
conversation of its key or to one that it opens for it. What a run keeps is given in
closed form for the two ways of admitting a packet of an unknown key: by the packet
alone (`lookup_run`), or only when there is no conversation yet (`run_cons_of_lone`).
`record_filter` and `run_filter_of_lone` compare a run with the one on the packets
that are not ignored.
-/

namespace PacketReplay.Lib

variable {K P C : Type}

structure Demux (K P C : Type) : Type where
  key : P → K
  /-- The conversation that a packet opens, before it is recorded in it. -/
  create : P → C
  /-- A packet is recorded in the conversation of its key. -/
  process : C → P → C
  /-- Whether a packet of an unknown key opens a conversation, there being none yet or
  some. -/
  admits : P → Bool → Bool

namespace Demux

variable [DecidableEq K]

def deliver (d : Demux K P C) (s : AList fun _ : K => C) (p : P) : AList fun _ : K => C :=
  match s.lookup (d.key p) with
  | some c => s.insert (d.key p) (d.process c p)
  | none =>
      if d.admits p s.entries.isEmpty then
        s.insert (d.key p) (d.process (d.create p) p)
      else s

def run (d : Demux K P C) (s : AList fun _ : K => C) (ps : List P) : AList fun _ : K => C :=
  ps.foldl d.deliver s

/-- The packets of a key recorded in a conversation. -/
def converse (d : Demux K P C) (k : K) (c : C) (ps : List P) : C :=
  (ps.filter fun p => d.key p = k).foldl d.process c

/-- The conversation of a key when packets are admitted on their own account: the
first that is admitted opens it, and those behind it are recorded in it. -/
def record (d : Demux K P C) (k : K) : List P → Option C
  | [] => none
  | p :: ps =>
      if d.key p = k ∧ d.admits p false then some (d.converse k (d.create p) (p :: ps))
      else d.record k ps

variable {d : Demux K P C} {s : AList fun _ : K => C} {k : K} {p : P} {c : C}

theorem run_cons (d : Demux K P C) (s : AList fun _ : K => C) (p : P) (ps : List P) :
    d.run s (p :: ps) = d.run (d.deliver s p) ps := rfl

theorem converse_cons_of_eq (same : d.key p = k) (ps : List P) :
    d.converse k c (p :: ps) = d.converse k (d.process c p) ps := by
  rw [converse, List.filter_cons_of_pos (by simp [same]), List.foldl_cons, ← converse]

theorem converse_cons_of_ne (other : d.key p ≠ k) (ps : List P) :
    d.converse k c (p :: ps) = d.converse k c ps := by
  rw [converse, List.filter_cons_of_neg (by simp [other]), ← converse]

theorem converse_append (k : K) (c : C) (before behind : List P) :
    d.converse k c (before ++ behind) = d.converse k (d.converse k c before) behind := by
  rw [converse, List.filter_append, List.foldl_append, ← converse, ← converse]

/-- Packets that leave the conversation as it is. -/
theorem converse_eq_self {ps : List P} (idle : ∀ p ∈ ps, d.key p = k → d.process c p = c) :
    d.converse k c ps = c := by
  induction ps with
  | nil => rfl
  | cons p ps ih =>
      have rest := ih fun q mem => idle q (List.mem_cons_of_mem p mem)
      by_cases same : d.key p = k
      · rw [converse_cons_of_eq same, idle p List.mem_cons_self same, rest]
      · rw [converse_cons_of_ne same, rest]

/-! ## Runs -/

theorem lookup_deliver_of_ne (other : d.key p ≠ k) :
    (d.deliver s p).lookup k = s.lookup k := by
  unfold deliver
  split
  · exact AList.lookup_insert_ne other.symm
  · split
    · exact AList.lookup_insert_ne other.symm
    · rfl

theorem deliver_of_some (found : s.lookup (d.key p) = some c) :
    d.deliver s p = s.insert (d.key p) (d.process c p) := by
  rw [deliver, found]

theorem deliver_of_admitted (unknown : s.lookup (d.key p) = none)
    (admitted : d.admits p s.entries.isEmpty = true) :
    d.deliver s p = s.insert (d.key p) (d.process (d.create p) p) := by
  rw [deliver, unknown]
  exact if_pos admitted

theorem deliver_of_not_admitted (unknown : s.lookup (d.key p) = none)
    (turned : d.admits p s.entries.isEmpty = false) : d.deliver s p = s := by
  rw [deliver, unknown]
  exact if_neg (by simp [turned])

/-- A conversation that exists records the packets of its key. -/
theorem lookup_run_of_some (found : s.lookup k = some c) (ps : List P) :
    (d.run s ps).lookup k = some (d.converse k c ps) := by
  induction ps generalizing s c with
  | nil => exact found
  | cons p ps ih =>
      rw [run_cons]
      by_cases same : d.key p = k
      · subst same
        rw [converse_cons_of_eq rfl, deliver_of_some found]
        exact ih (AList.lookup_insert _)
      · rw [converse_cons_of_ne same]
        exact ih ((lookup_deliver_of_ne same).trans found)

/-- What a run keeps under a key, when packets are admitted on their own account. -/
theorem lookup_run (fixed : ∀ p e, d.admits p e = d.admits p false) (unknown : s.lookup k = none)
    (ps : List P) : (d.run s ps).lookup k = d.record k ps := by
  induction ps generalizing s with
  | nil => exact unknown
  | cons p ps ih =>
      rw [run_cons, record]
      by_cases same : d.key p = k
      · subst same
        cases admitted : d.admits p false with
        | true =>
            rw [if_pos ⟨rfl, rfl⟩, converse_cons_of_eq rfl,
              deliver_of_admitted unknown (by rw [fixed, admitted])]
            exact lookup_run_of_some (AList.lookup_insert _) ps
        | false =>
            rw [if_neg (by simp), deliver_of_not_admitted unknown (by rw [fixed, admitted])]
            exact ih unknown
      · rw [if_neg (by simp [same])]
        exact ih ((lookup_deliver_of_ne same).trans unknown)

/-- The packets of a key from the first one on that is admitted. -/
def history (d : Demux K P C) (k : K) (ps : List P) : List P :=
  (ps.filter fun p => d.key p = k).dropWhile fun p => !d.admits p false

/-- What is recorded under a key is its history, in order. -/
theorem record_eq (k : K) (ps : List P) :
    d.record k ps =
      (d.history k ps).head?.map fun p => (d.history k ps).foldl d.process (d.create p) := by
  induction ps with
  | nil => rfl
  | cons p ps ih =>
      rw [record]
      by_cases same : d.key p = k
      · cases admitted : d.admits p false with
        | true =>
            have whole : d.history k (p :: ps) = p :: ps.filter fun q => d.key q = k := by
              rw [history, List.filter_cons_of_pos (by simp [same]),
                List.dropWhile_cons_of_neg (by simp [admitted])]
            rw [if_pos ⟨same, rfl⟩, whole, List.head?_cons, Option.map_some, converse,
              List.filter_cons_of_pos (by simp [same])]
        | false =>
            have rest : d.history k (p :: ps) = d.history k ps := by
              rw [history, List.filter_cons_of_pos (by simp [same]),
                List.dropWhile_cons_of_pos (by simp [admitted]), ← history]
            rw [if_neg (by simp), rest, ih]
      · have rest : d.history k (p :: ps) = d.history k ps := by
          rw [history, List.filter_cons_of_neg (by simp [same]), ← history]
        rw [if_neg (by simp [same]), rest, ih]

/-- There is a history exactly when a packet of the key is admitted. -/
theorem history_ne_nil_iff {ps : List P} :
    d.history k ps ≠ [] ↔ ∃ p ∈ ps, d.key p = k ∧ d.admits p false = true := by
  rw [history, ne_eq, List.dropWhile_eq_nil_iff]
  simp

/-- A lone conversation admits no other. -/
theorem run_singleton (lone : ∀ p e, d.admits p e = e) (k : K) (c : C) (ps : List P) :
    d.run (AList.singleton k c) ps = AList.singleton k (d.converse k c ps) := by
  induction ps generalizing c with
  | nil => rfl
  | cons p ps ih =>
      rw [run_cons]
      by_cases same : d.key p = k
      · subst same
        have found :
            (AList.singleton (d.key p) c : AList fun _ : K => C).lookup (d.key p) = some c := by
          rw [← AList.insert_empty, AList.lookup_insert]
        rw [converse_cons_of_eq rfl, deliver_of_some found, AList.insert_singleton_eq, ih]
      · have unknown :
            (AList.singleton k c : AList fun _ : K => C).lookup (d.key p) = none := by
          rw [← AList.insert_empty, AList.lookup_insert_ne same, AList.lookup_empty]
        rw [converse_cons_of_ne same, deliver_of_not_admitted unknown (lone p _), ih]

/-- When packets are admitted as long as there is no conversation, the first packet
opens the only one. -/
theorem run_cons_of_lone (lone : ∀ p e, d.admits p e = e) (p : P) (ps : List P) :
    d.run ∅ (p :: ps) =
      AList.singleton (d.key p) (d.converse (d.key p) (d.create p) (p :: ps)) := by
  rw [run_cons, deliver_of_admitted (AList.lookup_empty _) (lone p _), AList.insert_empty,
    run_singleton lone, converse_cons_of_eq rfl]

/-! ## Packets that are ignored -/

section Ignored

variable {own : P → Bool}

theorem converse_filter (ignores : ∀ c p, own p = false → d.process c p = c) (ps : List P) :
    d.converse k c (ps.filter own) = d.converse k c ps := by
  induction ps generalizing c with
  | nil => rfl
  | cons p ps ih =>
      cases mine : own p with
      | true =>
          rw [List.filter_cons_of_pos mine]
          by_cases same : d.key p = k
          · rw [converse_cons_of_eq same, converse_cons_of_eq same, ih]
          · rw [converse_cons_of_ne same, converse_cons_of_ne same, ih]
      | false =>
          rw [List.filter_cons_of_neg (by simp [mine]), ih]
          by_cases same : d.key p = k
          · rw [converse_cons_of_eq same, ignores c p mine]
          · rw [converse_cons_of_ne same]

/-- Behind an ignored packet that opened a conversation of the key: the next packet of
the key that is admitted opens the same conversation, and those before it leave it as
it is. -/
def Resumes (d : Demux K P C) (own : P → Bool) (k : K) (c : C) : List P → Prop
  | [] => True
  | q :: rest =>
      if own q ∧ d.key q = k then
        if d.admits q false then d.create q = c else d.process c q = c ∧ d.Resumes own k c rest
      else d.Resumes own k c rest

/-- The first packet of the key that is admitted is not ignored, or the conversation
resumes behind it. -/
def Undisturbed (d : Demux K P C) (own : P → Bool) (k : K) : List P → Prop
  | [] => True
  | p :: rest =>
      if d.key p = k ∧ d.admits p false then own p = false → d.Resumes own k (d.create p) rest
      else d.Undisturbed own k rest

/-- What is recorded behind the ignored packet is what a run on the other packets
records, or nothing. -/
theorem converse_of_resumes (ignores : ∀ c p, own p = false → d.process c p = c) {ps : List P}
    (resumes : d.Resumes own k c ps) :
    d.record k (ps.filter own) = some (d.converse k c ps) ∨
      d.record k (ps.filter own) = none ∧ d.converse k c ps = c := by
  induction ps with
  | nil => exact Or.inr ⟨rfl, rfl⟩
  | cons q rest ih =>
      rw [Resumes] at resumes
      cases mine : own q with
      | false =>
          rw [if_neg (by simp [mine])] at resumes
          rw [List.filter_cons_of_neg (by simp [mine])]
          by_cases same : d.key q = k
          · rw [converse_cons_of_eq same, ignores c q mine]
            exact ih resumes
          · rw [converse_cons_of_ne same]
            exact ih resumes
      | true =>
          rw [List.filter_cons_of_pos mine, record]
          by_cases same : d.key q = k
          · rw [if_pos ⟨mine, same⟩] at resumes
            cases admitted : d.admits q false with
            | true =>
                rw [if_pos admitted] at resumes
                rw [if_pos ⟨same, rfl⟩, resumes, converse_cons_of_eq same, converse_cons_of_eq same,
                  converse_filter ignores]
                exact Or.inl rfl
            | false =>
                rw [if_neg (by simp [admitted])] at resumes
                rw [if_neg (by simp), converse_cons_of_eq same, resumes.1]
                exact ih resumes.2
          · rw [if_neg (by simp [same])] at resumes
            rw [if_neg (by simp [same]), converse_cons_of_ne same]
            exact ih resumes

/-- Without the ignored packets a key has the same conversation, or none where the
other run has one in which nothing is recorded. -/
theorem record_filter (ignores : ∀ c p, own p = false → d.process c p = c) {ps : List P}
    (undisturbed : d.Undisturbed own k ps) :
    d.record k (ps.filter own) = d.record k ps ∨
      d.record k (ps.filter own) = none ∧ ∃ f, d.record k ps = some (d.create f) := by
  induction ps with
  | nil => exact Or.inl rfl
  | cons p rest ih =>
      rw [Undisturbed] at undisturbed
      rw [record]
      by_cases opens : d.key p = k ∧ d.admits p false
      · rw [if_pos opens] at undisturbed
        rw [if_pos opens, converse_cons_of_eq opens.1]
        cases mine : own p with
        | true =>
            rw [List.filter_cons_of_pos mine, record, if_pos opens, converse_cons_of_eq opens.1,
              converse_filter ignores]
            exact Or.inl rfl
        | false =>
            rw [List.filter_cons_of_neg (by simp [mine]), ignores _ p mine]
            rcases converse_of_resumes ignores (undisturbed mine) with same | ⟨missing, fresh⟩
            · exact Or.inl same
            · exact Or.inr ⟨missing, p, congrArg some fresh⟩
      · rw [if_neg opens] at undisturbed
        rw [if_neg opens]
        cases mine : own p with
        | true =>
            rw [List.filter_cons_of_pos mine, record, if_neg opens]
            exact ih undisturbed
        | false =>
            rw [List.filter_cons_of_neg (by simp [mine])]
            exact ih undisturbed

/-- The same where there is a lone conversation: if an ignored packet opens it, the
first of the others has to open the same one. -/
theorem run_filter_of_lone (lone : ∀ p e, d.admits p e = e)
    (ignores : ∀ c p, own p = false → d.process c p = c) {ps : List P}
    (resumes : ∀ f ∈ ps.head?, own f = false → ∀ q ∈ (ps.filter own).head?,
      d.key q = d.key f ∧ d.create q = d.create f) :
    d.run ∅ (ps.filter own) = d.run ∅ ps ∨
      d.run ∅ (ps.filter own) = ∅ ∧ ∃ f, d.run ∅ ps = AList.singleton (d.key f) (d.create f) := by
  cases ps with
  | nil => exact Or.inl rfl
  | cons p rest =>
      have record := converse_filter (k := d.key p) (c := d.create p) ignores (p :: rest)
      rw [run_cons_of_lone lone, ← record]
      cases others : (p :: rest).filter own with
      | nil => exact Or.inr ⟨rfl, p, rfl⟩
      | cons q behind =>
          have opener : d.key q = d.key p ∧ d.create q = d.create p := by
            cases mine : own p with
            | true =>
                rw [List.filter_cons_of_pos mine] at others
                rw [(List.cons.inj others).1]
                exact ⟨rfl, rfl⟩
            | false => exact resumes p rfl mine q (by rw [others]; rfl)
          rw [run_cons_of_lone lone, opener.1, opener.2]
          exact Or.inl rfl

end Ignored

end Demux

end PacketReplay.Lib
