import PacketReplay.Python.Dns

/-!
# Any two packets

What `validate` says about packets that need not be DNS messages: it fails for an expected
packet whatever the other one is, or it compares every byte outside of fields of four bytes
that it takes for the TTLs (`validate_decides`).
-/

namespace PacketReplay.Dns

open Lib

theorem skipQuestions_eq_ok {n : Nat} {r left : ByteReader}
    (skipped : skipQuestions n r = .ok left) :
    ∃ pos, left = r.seek pos ∧ r.pos ≤ pos := by
  induction n generalizing r with
  | zero =>
      cases skipped
      exact ⟨left.pos, rfl, le_rfl⟩
  | succ n ih =>
      obtain ⟨next, question, rest⟩ := bind_eq_ok.mp skipped
      obtain ⟨behind, name, same⟩ := bind_eq_ok.mp question
      obtain ⟨pos, rfl, further, -⟩ := skipName_eq_ok name
      cases same
      obtain ⟨last, rfl, later⟩ := ih rest
      refine ⟨last, rfl, ?_⟩
      simp only [ByteReader.read, ByteReader.seek] at later
      omega

/-- The TTLs of a packet lie behind its header. -/
theorem bounds_of_ttlsOf {expected : Bytes} {ttls : List Nat} (found : ttlsOf expected = .ok ttls) :
    Spaced 7 ttls ∧ ∀ t ∈ ttls, 17 ≤ t ∧ t + 2 ≤ expected.length := by
  rw [ttlsOf] at found
  dsimp only at found
  split at found
  · cases found
  · next whole =>
      obtain ⟨left, skipped, read⟩ := bind_eq_ok.mp found
      obtain ⟨pos, rfl, later⟩ := skipQuestions_eq_ok skipped
      obtain ⟨spaced, bounds⟩ := spaced_of_readTtls read
      refine ⟨spaced, fun t mem => ?_⟩
      have bound := bounds t mem
      simp only [ByteReader.seek_pos, ByteReader.seek_buffer, ByteReader.read] at bound later whole
      omega

/-- What the comparison with a packet compares. -/
structure Decides (expected : Bytes) (ttls : List Nat) : Prop where
  spaced : Spaced 7 ttls
  inside : ∀ t ∈ ttls, 17 ≤ t ∧ t + 2 ≤ expected.length
  valid : ∀ actual, ∃ valid, validate expected actual = .ok valid ∧
    (valid = true ↔ ∀ i, ¬ InField 4 ttls i → expected[i]? = actual[i]?)
  length : ∀ actual, validate expected actual = .ok true →
    actual.length = expected.length ∨
      ∃ t ∈ ttls, expected.length ≤ t + 4 ∧ actual.length ≤ t + 4

/-- A field that starts behind another starts behind its gap. -/
theorem le_of_spaced {gap : Nat} {starts : List Nat} (spaced : Spaced gap starts) {s t : Nat}
    (one : s ∈ starts) (two : t ∈ starts) (before : s < t) : s + gap ≤ t := by
  induction starts with
  | nil => cases one
  | cons first rest ih =>
    have parts := List.pairwise_cons.mp spaced
    rcases List.mem_cons.mp one with rfl | behind
    · rcases List.mem_cons.mp two with rfl | further
      · exact absurd before (lt_irrefl _)
      · exact parts.1 t further
    · rcases List.mem_cons.mp two with rfl | further
      · have later := parts.1 s behind
        omega
      · exact ih parts.2 behind further

/-- Packets that agree outside of the fields are of one length, or end in one field. -/
theorem length_of_agree {expected actual : Bytes} {ttls : List Nat} (spaced : Spaced 7 ttls)
    (agree : ∀ i, ¬ InField 4 ttls i → expected[i]? = actual[i]?) :
    actual.length = expected.length ∨
      ∃ t ∈ ttls, expected.length ≤ t + 4 ∧ actual.length ≤ t + 4 := by
  by_cases same : actual.length = expected.length
  · exact Or.inl same
  · -- where the shorter one ends, a field hides the end
    have hidden : InField 4 ttls (min expected.length actual.length) := by
      by_contra outside
      have there := agree _ outside
      rcases Nat.lt_or_gt_of_ne same with shorter | longer
      · rw [Nat.min_eq_right (by omega), List.getElem?_eq_none (le_refl actual.length),
          List.getElem?_eq_getElem shorter] at there
        cases there
      · rw [Nat.min_eq_left (by omega), List.getElem?_eq_none (le_refl expected.length),
          List.getElem?_eq_getElem longer] at there
        cases there
    obtain ⟨t, mem, from_t, before⟩ := hidden
    have behind : ¬ InField 4 ttls (t + 4) := by
      rintro ⟨u, other, from_u, to_u⟩
      have apart := le_of_spaced spaced mem other (by omega)
      omega
    have there := agree _ behind
    refine Or.inr ⟨t, mem, ?_⟩
    rcases Nat.lt_or_ge (t + 4) expected.length with long | short
    · rw [List.getElem?_eq_getElem long] at there
      have also := (List.getElem?_eq_some_iff.mp there.symm).1
      omega
    · rw [List.getElem?_eq_none short] at there
      exact ⟨short, List.getElem?_eq_none_iff.mp there.symm⟩

/-- The comparison fails for whatever packet is received, or it compares the bytes outside
of the fields that it finds; packets that pass it are of one length unless both end in one of
these fields. -/
theorem validate_decides (expected : Bytes) :
    (∃ e, ∀ actual, validate expected actual = .error e) ∨ ∃ ttls, Decides expected ttls := by
  rcases found : ttlsOf expected with e | ttls
  · refine Or.inl ⟨e, fun actual => ?_⟩
    rw [validate, found]
    rfl
  · obtain ⟨spaced, inside⟩ := bounds_of_ttlsOf found
    have compared (actual : Bytes) : validate expected actual =
        .ok (sameBetween expected actual 0 ttls) := by
      rw [validate, found]
      rfl
    have agrees (actual : Bytes) : sameBetween expected actual 0 ttls = true ↔
        ∀ i, ¬ InField 4 ttls i → expected[i]? = actual[i]? := by
      rw [sameBetween_iff (by decide : 4 ≤ 7) spaced fun t _ => Nat.zero_le t]
      exact forall_congr' fun i => forall_prop_of_true (Nat.zero_le i)
    refine Or.inr ⟨ttls, spaced, inside, fun actual => ⟨_, compared actual, agrees actual⟩,
      fun actual passed => length_of_agree spaced ((agrees actual).mp ?_)⟩
    rw [compared] at passed
    exact Except.ok.inj passed

end PacketReplay.Dns
