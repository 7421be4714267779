import Mathlib.Data.List.DropRight
import PacketReplay.Capture.Address
import PacketReplay.Capture.ClientSpec

/-!
# The text of an IPv6 address

Eight groups in hexadecimal with colons between them, the first of the longest runs of
zeros written as `::`. An address is read back from its text (`readGroups_writeGroups`),
which makes `numericInet` canonical. Texts in another form are not read, and no address
is written with an IPv4 address at its end.
-/

namespace PacketReplay

open Lib

/-! ## Groups -/

/-- A number in hexadecimal. -/
def toHex (n : Nat) : Bytes :=
  if n = 0 then [48] else ((Nat.digits 16 n).map hexDigit).reverse

theorem isdigit_of_mem_toHex {n : Nat} {c : UInt8} (mem : c ∈ toHex n) : isdigit 16 c = true := by
  rw [toHex] at mem
  split at mem
  · rw [List.mem_singleton] at mem
    rw [mem]
    rfl
  · rw [List.mem_reverse, List.mem_map] at mem
    rcases mem with ⟨d, inDigits, rfl⟩
    rw [isdigit, digitValue_hexDigit (Nat.digits_lt_base (by omega) inDigits)]
    rfl

theorem toHex_ne_nil (n : Nat) : toHex n ≠ [] := by
  rw [toHex]
  split
  · exact List.cons_ne_nil _ _
  · next nonzero => simpa [Nat.digits_eq_nil_iff_eq_zero] using nonzero

theorem digitsValue_hexDigits {ds : List Nat} (digits : ∀ d ∈ ds, d < 16) :
    digitsValue 16 (ds.map hexDigit).reverse = Nat.ofDigits 16 ds := by
  induction ds with
  | nil => rfl
  | cons d ds ih =>
      have rest := ih fun e mem => digits e (List.mem_cons_of_mem d mem)
      rw [digitsValue] at rest ⊢
      rw [List.map_cons, List.reverse_cons, List.foldl_append, rest, List.foldl_cons,
        List.foldl_nil, digitValue_hexDigit (digits d List.mem_cons_self), Nat.ofDigits_cons,
        Option.getD_some]
      omega

theorem digitsValue_toHex (n : Nat) : digitsValue 16 (toHex n) = n := by
  rw [toHex]
  split
  · next zero =>
      rw [zero]
      rfl
  · rw [digitsValue_hexDigits fun d mem => Nat.digits_lt_base (by omega) mem, Nat.ofDigits_digits]

/-- The groups of an address, two bytes each. -/
def groupsOf : Bytes → List Nat
  | high :: low :: rest => (high.toNat * 256 + low.toNat) :: groupsOf rest
  | _ => []

def bytesOf (groups : List Nat) : Bytes :=
  groups.flatMap fun g => [UInt8.ofNat (g / 256), UInt8.ofNat g]

theorem bytesOf_groupsOf {addr : Bytes} {n : Nat} (size : addr.length = 2 * n) :
    bytesOf (groupsOf addr) = addr := by
  induction n generalizing addr with
  | zero =>
      rw [List.length_eq_zero_iff.mp size]
      rfl
  | succ n ih =>
      match addr with
      | [] => cases size
      | [_] =>
          rw [List.length_singleton] at size
          omega
      | high :: low :: rest =>
          have left : (high.toNat * 256 + low.toNat) / 256 = high.toNat := by
            have bound := low.toNat_lt
            omega
          have right : UInt8.ofNat (high.toNat * 256 + low.toNat) = low := by
            apply UInt8.toNat_inj.mp
            rw [UInt8.toNat_ofNat']
            have bound := low.toNat_lt
            omega
          have shorter : rest.length = 2 * n := by
            rw [List.length_cons, List.length_cons] at size
            omega
          have tail := ih shorter
          rw [bytesOf] at tail
          rw [groupsOf, bytesOf, List.flatMap_cons, left, right, UInt8.ofNat_toNat, tail]
          rfl

theorem length_groupsOf {addr : Bytes} {n : Nat} (size : addr.length = 2 * n) :
    (groupsOf addr).length = n := by
  have same := congrArg List.length (bytesOf_groupsOf size)
  rw [bytesOf, List.length_flatMap, size] at same
  simp only [List.length_cons, List.length_nil, List.map_const', List.sum_replicate,
    smul_eq_mul] at same
  omega

/-! ## Writing and reading -/

/-- The position and the length of the first of the longest runs of zeros. -/
def zeroRun : List Nat → Nat × Nat
  | [] => (0, 0)
  | g :: groups =>
      let here := ((g :: groups).takeWhile (· = 0)).length
      let later := zeroRun groups
      if later.2 ≤ here then (0, here) else (later.1 + 1, later.2)

def joinGroups (groups : List Nat) : Bytes := [58].intercalate (groups.map toHex)

/-- `inet_ntop` of the groups. -/
def writeGroups (groups : List Nat) : Bytes :=
  if (zeroRun groups).2 < 2 then joinGroups groups
  else
    joinGroups (groups.take (zeroRun groups).1) ++
      58 :: 58 :: joinGroups (groups.drop ((zeroRun groups).1 + (zeroRun groups).2))

/-- The groups in front of and behind an empty field, with zeros for it. -/
def fillGroups (fields : List Bytes) : List Nat :=
  let front := (fields.takeWhile (· ≠ [])).map (digitsValue 16)
  let behind := (fields.rtakeWhile (· ≠ [])).map (digitsValue 16)
  if [] ∈ fields then front ++ List.replicate (8 - front.length - behind.length) 0 ++ behind
  else front

/-- `inet_pton` of a text in the form that `inet_ntop` writes. -/
def readGroups (text : Bytes) : Option (List Nat) :=
  let groups := fillGroups (text.splitOn 58)
  if groups.length = 8 ∧ writeGroups groups = text then some groups else none

theorem zeroRun_spec (groups : List Nat) :
    groups.take (zeroRun groups).1 ++ (List.replicate (zeroRun groups).2 0 ++
      groups.drop ((zeroRun groups).1 + (zeroRun groups).2)) = groups := by
  induction groups with
  | nil => rfl
  | cons g groups ih =>
      rw [zeroRun]
      split
      · have zeros : List.replicate ((g :: groups).takeWhile (· = 0)).length 0 =
            (g :: groups).takeWhile (· = 0) := by
          symm
          rw [List.eq_replicate_iff]
          exact ⟨rfl, fun b mem => by simpa using List.mem_takeWhile_imp mem⟩
        have rest : (g :: groups).drop ((g :: groups).takeWhile (· = 0)).length =
            (g :: groups).dropWhile (· = 0) := by
          have whole := List.prefix_append_drop
            (List.takeWhile_prefix (· = 0) : (g :: groups).takeWhile (· = 0) <+: g :: groups)
          rw [← List.append_right_inj ((g :: groups).takeWhile (· = 0)), ← whole,
            List.takeWhile_append_dropWhile]
        rw [List.take_zero, List.nil_append, Nat.zero_add, zeros, rest,
          List.takeWhile_append_dropWhile]
      · rw [List.take_succ_cons, List.cons_append, Nat.add_right_comm, List.drop_succ_cons, ih]

theorem colon_not_mem_toHex (n : Nat) : (58 : UInt8) ∉ toHex n := by
  intro mem
  cases isdigit_of_mem_toHex mem

theorem splitOn_joinGroups {groups : List Nat} (nonempty : groups ≠ []) :
    (joinGroups groups).splitOn 58 = groups.map toHex := by
  apply List.splitOn_intercalate
  · intro field mem
    rcases List.mem_map.mp mem with ⟨g, -, rfl⟩
    exact colon_not_mem_toHex g
  · exact mt List.map_eq_nil_iff.mp nonempty

theorem values_map_toHex (groups : List Nat) :
    (groups.map toHex).map (digitsValue 16) = groups := by
  rw [List.map_map]
  conv_rhs => rw [← List.map_id groups]
  exact List.map_congr_left fun g _ => digitsValue_toHex g

theorem filled_of_mem_toHex {groups : List Nat} {field : Bytes}
    (mem : field ∈ groups.map toHex) : decide (field ≠ []) = true := by
  rcases List.mem_map.mp mem with ⟨g, -, rfl⟩
  exact decide_eq_true (toHex_ne_nil g)

theorem takeWhile_fields (groups : List Nat) (rest : List Bytes) :
    ((joinGroups groups).splitOn 58 ++ [] :: rest).takeWhile (· ≠ []) = groups.map toHex := by
  cases groups with
  | nil => rfl
  | cons g groups =>
      rw [splitOn_joinGroups (List.cons_ne_nil _ _),
        List.takeWhile_append_of_pos fun _ mem => filled_of_mem_toHex mem]
      simp

theorem rtakeWhile_fields (groups : List Nat) (rest : List Bytes) :
    (rest ++ [] :: (joinGroups groups).splitOn 58).rtakeWhile (· ≠ []) = groups.map toHex := by
  cases groups with
  | nil => simp [joinGroups, List.rtakeWhile]
  | cons g groups =>
      have filled : ∀ field ∈ ((g :: groups).map toHex).reverse, decide (field ≠ []) = true :=
        fun _ mem => filled_of_mem_toHex (List.mem_reverse.mp mem)
      rw [splitOn_joinGroups (List.cons_ne_nil _ _), List.rtakeWhile, List.reverse_append,
        List.reverse_cons, List.append_assoc, List.takeWhile_append_of_pos filled]
      simp

theorem fillGroups_joinGroups {groups : List Nat} (nonempty : groups ≠ []) :
    fillGroups ((joinGroups groups).splitOn 58) = groups := by
  have filled : ∀ field ∈ groups.map toHex, decide (field ≠ []) = true :=
    fun _ mem => filled_of_mem_toHex mem
  have no_gap : [] ∉ groups.map toHex := by
    intro mem
    exact absurd rfl (of_decide_eq_true (filled [] mem))
  rw [splitOn_joinGroups nonempty, fillGroups, if_neg no_gap,
    List.takeWhile_eq_self_iff.mpr filled, values_map_toHex]

theorem fillGroups_gap {front behind : List Nat} {zeros : Nat}
    (size : front.length + zeros + behind.length = 8) :
    fillGroups ((joinGroups front ++ 58 :: 58 :: joinGroups behind).splitOn 58) =
      front ++ (List.replicate zeros 0 ++ behind) := by
  have fields : (joinGroups front ++ 58 :: 58 :: joinGroups behind).splitOn 58 =
      (joinGroups front).splitOn 58 ++ [] :: (joinGroups behind).splitOn 58 := by
    rw [List.splitOn_append_cons_self]
    exact congrArg _ (List.splitOn_append_cons_self [] (joinGroups behind))
  have gap : [] ∈ (joinGroups front).splitOn 58 ++ [] :: (joinGroups behind).splitOn 58 :=
    List.mem_append_right _ List.mem_cons_self
  have left : 8 - front.length - behind.length = zeros := by omega
  rw [fields, fillGroups, if_pos gap, takeWhile_fields, rtakeWhile_fields, values_map_toHex,
    values_map_toHex, left, List.append_assoc]

/-- Groups are read back from their text. -/
theorem readGroups_writeGroups {groups : List Nat} (eight : groups.length = 8) :
    readGroups (writeGroups groups) = some groups := by
  have filled : fillGroups ((writeGroups groups).splitOn 58) = groups := by
    rw [writeGroups]
    split
    · apply fillGroups_joinGroups
      intro same
      subst same
      cases eight
    · have parts := zeroRun_spec groups
      have size := congrArg List.length parts
      rw [List.length_append, List.length_append, List.length_replicate, eight,
        ← Nat.add_assoc] at size
      rw [fillGroups_gap size, parts]
  rw [readGroups, filled, if_pos ⟨eight, rfl⟩]

theorem length_of_readGroups {text : Bytes} {groups : List Nat}
    (read : readGroups text = some groups) : groups.length = 8 := by
  rw [readGroups] at read
  split at read
  · next form =>
      cases read
      exact form.1
  · cases read

/-! ## The characters of a text -/

theorem forall_mem_intercalate {P : UInt8 → Prop} {sep : UInt8} {fields : List Bytes}
    (between : P sep) (inside : ∀ field ∈ fields, ∀ c ∈ field, P c) :
    ∀ c ∈ [sep].intercalate fields, P c := by
  induction fields with
  | nil => exact fun c mem => absurd mem List.not_mem_nil
  | cons field fields ih =>
      cases fields with
      | nil =>
          rw [List.intercalate_singleton]
          exact inside field List.mem_cons_self
      | cons next fields =>
          intro c mem
          rw [List.intercalate_cons_cons, List.mem_append, List.mem_append,
            List.mem_singleton] at mem
          rcases mem with (first | rfl) | rest
          · exact inside field List.mem_cons_self c first
          · exact between
          · exact ih (fun f later => inside f (List.mem_cons_of_mem field later)) c rest

theorem ne_zero_of_isdigit_hex {c : UInt8} (digit : isdigit 16 c = true) : c ≠ 0 := by
  intro same
  subst same
  cases digit

theorem forall_mem_writeGroups {P : UInt8 → Prop} (colon : P 58)
    (digit : ∀ c, isdigit 16 c = true → P c) {groups : List Nat} :
    ∀ c ∈ writeGroups groups, P c := by
  have joined : ∀ groups : List Nat, ∀ c ∈ joinGroups groups, P c := by
    intro groups
    apply forall_mem_intercalate colon
    intro field mem c inside
    rcases List.mem_map.mp mem with ⟨g, -, rfl⟩
    exact digit c (isdigit_of_mem_toHex inside)
  intro c mem
  rw [writeGroups] at mem
  split at mem
  · exact joined _ c mem
  · rcases List.mem_append.mp mem with front | gap
    · exact joined _ c front
    · rcases List.mem_cons.mp gap with rfl | gap
      · exact colon
      · rcases List.mem_cons.mp gap with rfl | behind
        · exact colon
        · exact joined _ c behind

theorem ne_zero_of_mem_writeGroups {groups : List Nat} : ∀ c ∈ writeGroups groups, c ≠ 0 :=
  forall_mem_writeGroups (by decide) fun _ => ne_zero_of_isdigit_hex

theorem count_joinGroups (g : Nat) (groups : List Nat) :
    (joinGroups (g :: groups)).count 58 = groups.length := by
  induction groups generalizing g with
  | nil =>
      rw [joinGroups, List.map_singleton, List.intercalate_singleton]
      exact List.count_eq_zero.mpr (colon_not_mem_toHex g)
  | cons h groups ih =>
      have rest := ih h
      rw [joinGroups, List.map_cons] at rest
      rw [joinGroups, List.map_cons, List.map_cons, List.intercalate_cons_cons, List.count_append,
        List.count_append, List.count_eq_zero.mpr (colon_not_mem_toHex g), rest,
        List.count_singleton_self, List.length_cons]
      omega

/-- The text of an IPv6 address has two colons. -/
theorem two_le_count_writeGroups {groups : List Nat} (eight : groups.length = 8) :
    2 ≤ (writeGroups groups).count 58 := by
  rw [writeGroups]
  split
  · rcases List.exists_cons_of_length_pos (by omega : 0 < groups.length) with ⟨g, rest, rfl⟩
    rw [count_joinGroups]
    rw [List.length_cons] at eight
    omega
  · rw [List.count_append, List.count_cons_self, List.count_cons_self]
    omega

theorem ne_of_mem_dotted {addr : Bytes} {c : UInt8} (other : isdigit 10 c = false)
    (no_dot : c ≠ 46) : c ∉ dotted addr := by
  intro mem
  refine forall_mem_intercalate (P := fun d => d ≠ c) no_dot.symm ?_ c mem rfl
  intro octet inside d digit same
  subst same
  rcases List.mem_map.mp inside with ⟨b, -, rfl⟩
  exact not_mem_toDecimal other digit

theorem readDotted_eq_some {text addr : Bytes} (read : readDotted text = some addr) :
    addr.length = 4 ∧ dotted addr = text := by
  rw [readDotted] at read
  split at read
  · next form =>
      cases read
      refine ⟨by rw [List.length_map, form.1], ?_⟩
      have back : (text.splitOn 46).map
          ((fun b : UInt8 => toDecimal b.toNat) ∘
            fun octet => UInt8.ofNat (digitsValue 10 octet)) = text.splitOn 46 := by
        conv_rhs => rw [← List.map_id (text.splitOn 46)]
        apply List.map_congr_left
        intro octet mem
        rcases form.2 octet mem with ⟨small, canonical⟩
        rw [Function.comp_apply, UInt8.toNat_ofNat', Nat.mod_eq_of_lt small, canonical, id_eq]
      rw [dotted, List.map_map, back, List.intercalate_splitOn]
  · cases read

/-! ## Both families -/

/-- The address functions on numeric addresses. -/
def numericInet : Inet where
  ntop
    | .inet, addr => dotted addr
    | .inet6, addr => writeGroups (groupsOf addr)
  pton
    | .inet, text => readDotted text
    | .inet6, text => (readGroups text).map bytesOf
  getaddrinfo text :=
    if (readDotted text).isSome then .ok .inet
    else if (readGroups text).isSome then .ok .inet6
    else .error (ascii "Name or service not known")

theorem numericInet_canonical : numericInet.Canonical where
  length_pton := by
    intro family text addr known
    cases family with
    | inet => exact (readDotted_eq_some known).1
    | inet6 =>
        rcases Option.map_eq_some_iff.mp known with ⟨groups, read, rfl⟩
        have eight := length_of_readGroups read
        simp [bytesOf, eight, AddrFamily.addrSize]
  pton_ntop := by
    intro family addr size
    cases family with
    | inet => exact readDotted_dotted size
    | inet6 =>
        have sixteen : addr.length = 2 * 8 := size
        have read := readGroups_writeGroups (length_groupsOf sixteen)
        exact (congrArg (Option.map bytesOf) read).trans (congrArg some (bytesOf_groupsOf sixteen))
  ntop_pton known := (readDotted_eq_some known).2
  pton_nil family := by
    cases family <;> decide +kernel
  ne_zero := by
    intro family addr size c mem
    cases family with
    | inet =>
        intro same
        subst same
        exact ne_of_mem_dotted (by decide) (by decide) mem
    | inet6 => exact ne_zero_of_mem_writeGroups c mem
  colon_inet _ := ne_of_mem_dotted (by decide) (by decide)
  colons_inet6 size := two_le_count_writeGroups (length_groupsOf size)

/-- The longest run of zeros is left out. -/
example : numericInet.ntop .inet6 [254, 128, 0, 0, 0, 0, 0, 0, 0, 0, 0, 0, 0, 1, 0, 128] =
    ascii "fe80::1:80" := by decide +kernel

end PacketReplay
