import PacketReplay.Lib.CLibrary
import PacketReplay.Lib.Search

/-!
# Checked reads

Reads of a block of bytes at positions that may lie outside it. A read is `within` its
bounds or undefined, and a computation that reads is `Defined` when each of its reads
is: `defined_within_bind` takes the reads off one by one.
-/

namespace PacketReplay.Lib

variable {α β : Type}

/-- The call returns or throws. -/
def Defined (x : Outcome α) : Prop := ∀ u, x ≠ .error (.undefined u)

/-- The call throws. -/
def Throws (x : Outcome α) : Prop := ∃ e, x = .error (.thrown e)

/-- A value that is only there when the bounds are kept. -/
def within (bounds : Prop) [Decidable bounds] (a : α) : Outcome α :=
  if bounds then .ok a else .error (.undefined .outOfBounds)

instance decidableDefined : ∀ x : Outcome α, Decidable (Defined x)
  | .ok _ => isTrue fun _ undefined => by cases undefined
  | .error (.thrown _) => isTrue fun _ undefined => by cases undefined
  | .error (.undefined u) => isFalse fun defined => defined u rfl

theorem defined_ok (a : α) : Defined (.ok a) := by
  intro u undefined
  cases undefined

theorem defined_thrown (e : Exn) : Defined (.error (.thrown e) : Outcome α) := by
  intro u undefined
  cases undefined

theorem throws_thrown (e : Exn) : Throws (.error (.thrown e) : Outcome α) := ⟨e, rfl⟩

theorem not_throws_ok (a : α) : ¬ Throws (.ok a : Outcome α) := by
  intro throws
  rcases throws with ⟨e, thrown⟩
  cases thrown

theorem not_throws_undefined (u : Undefined) : ¬ Throws (.error (.undefined u) : Outcome α) := by
  intro throws
  rcases throws with ⟨e, thrown⟩
  cases thrown

section Within

variable {bounds : Prop} [Decidable bounds] {a : α}

theorem within_of (kept : bounds) (a : α) : within bounds a = .ok a := if_pos kept

theorem within_of_not (broken : ¬ bounds) (a : α) :
    within bounds a = .error (.undefined .outOfBounds) := if_neg broken

theorem within_bind_of (kept : bounds) (a : α) (f : α → Outcome β) :
    (within bounds a >>= f) = f a := by
  rw [within_of kept]
  rfl

theorem within_bind_of_not (broken : ¬ bounds) (a : α) (f : α → Outcome β) :
    (within bounds a >>= f) = .error (.undefined .outOfBounds) := by
  rw [within_of_not broken]
  rfl

theorem defined_within : Defined (within bounds a) ↔ bounds := by
  by_cases kept : bounds
  · rw [within_of kept]
    exact iff_of_true (defined_ok a) kept
  · rw [within_of_not kept]
    exact iff_of_false (fun defined => defined _ rfl) kept

/-- A read is within its bounds, and what is done with its value is defined. -/
theorem defined_within_bind {f : α → Outcome β} :
    Defined (within bounds a >>= f) ↔ bounds ∧ Defined (f a) := by
  by_cases kept : bounds
  · rw [within_bind_of kept]
    exact (and_iff_right kept).symm
  · rw [within_bind_of_not kept]
    exact iff_of_false (fun defined => defined _ rfl) fun both => kept both.1

/-- A read whose bounds are among those of the whole. -/
theorem within_bind_of_imp {q : Prop} [Decidable q] {f : α → Outcome β} {b : β}
    (wider : q → bounds) (same : bounds → f a = within q b) :
    (within bounds a >>= f) = within q b := by
  by_cases kept : bounds
  · rw [within_bind_of kept, same kept]
  · rw [within_bind_of_not kept, within_of_not (mt wider kept)]

end Within

theorem defined_bind_ok {x : Outcome α} {f : α → β} :
    Defined (x >>= fun a => .ok (f a)) ↔ Defined x := by
  cases x with
  | ok a => exact iff_of_true (defined_ok _) (defined_ok _)
  | error f =>
      cases f with
      | thrown e => exact iff_of_true (defined_thrown e) (defined_thrown e)
      | undefined u =>
          exact iff_of_false (fun defined => defined u rfl) fun defined => defined u rfl

theorem Defined.bind {x : Outcome α} {f : α → Outcome β} (first : Defined x)
    (then_on : ∀ a, x = .ok a → Defined (f a)) : Defined (x >>= f) := by
  cases x with
  | ok a => exact then_on a rfl
  | error e =>
      cases e with
      | thrown e => exact defined_thrown e
      | undefined u => exact absurd rfl (first u)

theorem Defined.of_bind {x : Outcome α} {f : α → Outcome β} (whole : Defined (x >>= f)) :
    Defined x := by
  intro u undefined
  rw [undefined] at whole
  exact whole u rfl

theorem defined_map {x : Outcome α} {f : α → β} : Defined (x.map f) ↔ Defined x :=
  defined_bind_ok

theorem defined_stoul (text : Bytes) : Defined (stoul text) := by
  rw [stoul]
  split
  · exact defined_thrown _
  · split
    · exact defined_thrown _
    · exact defined_ok _

theorem defined_stoi (text : Bytes) : Defined (stoi text) := by
  rw [stoi]
  split
  · exact defined_thrown _
  · dsimp only
    split_ifs <;> first | exact defined_thrown _ | exact defined_ok _

/-! ## Blocks of bytes -/

/-- The byte at a position, 0 outside the block. -/
def byteD (block : Bytes) (i : Nat) : UInt8 := block.getD i 0

theorem byteD_eq_getElem {block : Bytes} {i : Nat} (inside : i < block.length) :
    byteD block i = block[i] := by
  rw [byteD, List.getD_eq_getElem?_getD, List.getElem?_eq_getElem inside, Option.getD_some]

/-- The 16 bits at a position in network byte order. -/
def wordD (block : Bytes) (i : Nat) : Nat :=
  (byteD block i).toNat * 256 + (byteD block (i + 1)).toNat

/-- The bytes at a position, with zeros behind the block. -/
def blockD (block : Bytes) (i n : Nat) : { b : Bytes // b.length = n } :=
  ⟨(block.drop i ++ List.replicate n 0).take n, by simp⟩

def byteAt (block : Bytes) (i : Nat) : Outcome UInt8 := within (i < block.length) (byteD block i)

def wordAt (block : Bytes) (i : Nat) : Outcome Nat :=
  within (i + 2 ≤ block.length) (wordD block i)

def blockAt (block : Bytes) (i n : Nat) : Outcome { b : Bytes // b.length = n } :=
  within (i + n ≤ block.length) (blockD block i n)

/-- A range of a size that is an `int`. -/
def rangeAt (block : Bytes) (i : Nat) (size : Int) : Outcome Bytes :=
  if size < 0 then .error (.undefined .reversedRange)
  else within (i + size.toNat ≤ block.length) ((block.drop i).take size.toNat)

theorem defined_rangeAt {block : Bytes} {i : Nat} {size : Int} :
    Defined (rangeAt block i size) ↔ 0 ≤ size ∧ i + size ≤ block.length := by
  rw [rangeAt]
  split
  · next negative =>
      exact iff_of_false (fun defined => defined _ rfl) fun both => by omega
  · rw [defined_within]
    omega

/-! ## Fields that lie in a block -/

/-- A number of 16 bits in network byte order. -/
def wordBytes (n : Nat) : Bytes := [UInt8.ofNat (n / 256), UInt8.ofNat n]

theorem length_wordBytes (n : Nat) : (wordBytes n).length = 2 := rfl

section Fields

variable {block field : Bytes} {i : Nat}

theorem byteD_of_occursAt {c : UInt8} (at_i : OccursAt [c] block i) : byteD block i = c := by
  have symbol := at_i.getElem? (k := 0) Nat.one_pos
  rw [Nat.add_zero, List.getElem?_cons_zero] at symbol
  rw [byteD, List.getD_eq_getElem?_getD, symbol, Option.getD_some]

theorem wordD_of_occursAt {n : Nat} (small : n < 2 ^ 16) (at_i : OccursAt (wordBytes n) block i) :
    wordD block i = n := by
  rcases occursAt_append (u := [UInt8.ofNat (n / 256)]).mp at_i with ⟨high, low⟩
  rw [List.length_singleton] at low
  rw [wordD, byteD_of_occursAt high, byteD_of_occursAt low, UInt8.toNat_ofNat', UInt8.toNat_ofNat']
  omega

theorem blockD_of_occursAt {n : Nat} (length : field.length = n) (at_i : OccursAt field block i) :
    blockD block i n = ⟨field, length⟩ := by
  apply Subtype.ext
  subst length
  rcases at_i with ⟨rest, split⟩
  change (block.drop i ++ List.replicate field.length 0).take field.length = field
  rw [← split, List.append_assoc, List.take_left]

/-- A field that lies in the block is read. -/
theorem rangeAt_of_occursAt (inside : i + field.length ≤ block.length)
    (at_i : OccursAt field block i) : rangeAt block i field.length = .ok field := by
  have forward : ¬ (field.length : Int) < 0 := by omega
  rw [rangeAt, if_neg forward, Int.toNat_natCast, within_of inside, at_i.take_drop]

end Fields

end PacketReplay.Lib
