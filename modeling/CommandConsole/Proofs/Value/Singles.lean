import CommandConsole.Proofs.Number.Patterns
import CommandConsole.Proofs.Number.Rounding
import CommandConsole.Proofs.Text.Parts
import CommandConsole.Proofs.Value.Typing
/-!
# Singles — a number on its own and a number in a tuple

A number on its own is read in double precision, and refused if it is finite there and beyond the greatest number of single
precision.  A component of a tuple is read in single precision, and there is no such check.  So the two take the same texts
but for the outsized ones (`single_agrees_with_components_iff`), and these become infinite or the greatest number.
-/
namespace CommandConsole

open BinaryFormat

/-! ## The limits of the formats -/

/-- The greatest single-precision number as a double-precision one. -/
theorem normal_maxSingle : binary64.Normal (maxSingle.1 * pow2 29) 75 := ⟨by decide, by decide, by decide, by decide⟩

/-- The greatest double-precision number. -/
theorem normal_maxDouble : binary64.Normal (pow2 53 - 1) 971 := ⟨by decide, by decide, by decide, by decide⟩

/-- The single-precision number before the greatest. -/
theorem normal_beforeMaxSingle : binary32.Normal (maxSingle.1 - 1) 104 := ⟨by decide, by decide, by decide, by decide⟩

/-- A decimal is rounded to a double beyond the greatest single-precision number. -/
theorem maxSingle_lt_roundDecimal_iff (digits : Nat) (e : Int) :
    binary64.normalBits (maxSingle.1 * pow2 29) 75 < binary64.roundDecimal digits e ↔
      ((2 ^ 54 - 2 ^ 30 + 1) * 2 ^ 74 : ℚ) < digits * 10 ^ e := by
  have hsignificand : ((maxSingle.1 * pow2 29 : Nat) : ℚ) = (2 ^ 24 - 1) * 2 ^ 29 := by norm_num [maxSingle, pow2]
  have heven : ¬ maxSingle.1 * pow2 29 % 2 = 1 := by decide
  have hhalf : ((2 ^ 24 - 1) * 2 ^ 29 + 1 / 2 : ℚ) * 2 ^ (75 : Int) = (2 ^ 54 - 2 ^ 30 + 1) * 2 ^ 74 := by norm_num
  rw [normal_maxSingle.lt_roundDecimal_iff (by decide) (by decide), hsignificand, hhalf]
  exact or_iff_left fun h => heven h.2

/-- A decimal is rounded to a finite double. -/
theorem roundDecimal_lt_infinityBits_iff (digits : Nat) (e : Int) :
    binary64.roundDecimal digits e < binary64.infinityBits ↔ (digits * 10 ^ e : ℚ) < (2 ^ 54 - 1) * 2 ^ 970 := by
  have hsignificand : ((pow2 53 - 1 : Nat) : ℚ) = 2 ^ 53 - 1 := by norm_num [pow2]
  have hodd : (pow2 53 - 1) % 2 = 1 := by decide
  have hhalf : (2 ^ 53 - 1 + 1 / 2 : ℚ) * 2 ^ (971 : Int) = (2 ^ 54 - 1) * 2 ^ 970 := by
    have hstep : (2 : ℚ) ^ (971 : Int) = 2 ^ 970 * 2 := (zpow_natCast (2 : ℚ) 971).trans (pow_succ 2 970)
    rw [hstep]
    generalize (2 : ℚ) ^ 970 = p
    ring
  have hlast : binary64.normalBits (pow2 53 - 1) 971 + 1 = binary64.infinityBits := by decide
  have hiff := normal_maxDouble.lt_roundDecimal_iff (by decide) (by decide) digits e
  rw [hsignificand, hhalf, and_iff_left hodd, ← le_iff_lt_or_eq] at hiff
  rw [← not_le, ← not_le, ← hiff]
  omega

/-- A decimal that is rounded beyond the greatest single in double precision is rounded to it or to infinity in single
precision. -/
theorem roundDecimal_single_of_lt {digits : Nat} {e : Int} (h : ((2 ^ 54 - 2 ^ 30 + 1) * 2 ^ 74 : ℚ) < digits * 10 ^ e) :
    binary32.magnitude (binary32.roundDecimal digits e) = .infinite ∨
      binary32.magnitude (binary32.roundDecimal digits e) = .finite maxSingle.1 maxSingle.2 := by
  have hsignificand : ((maxSingle.1 - 1 : Nat) : ℚ) = 2 ^ 24 - 2 := by norm_num [maxSingle, pow2]
  have hhalf : (2 ^ 24 - 2 + 1 / 2 : ℚ) * 2 ^ (104 : Int) < (2 ^ 54 - 2 ^ 30 + 1) * 2 ^ 74 := by norm_num
  have hbeyond : binary32.normalBits (maxSingle.1 - 1) 104 < binary32.roundDecimal digits e := by
    rw [normal_beforeMaxSingle.lt_roundDecimal_iff (by decide) (by decide), hsignificand]
    exact .inl (hhalf.trans h)
  have hlast : binary32.normalBits (maxSingle.1 - 1) 104 + 2 = binary32.infinityBits := by decide
  have hbound := binary32.roundDecimal_le_infinityBits digits e
  have htwo : binary32.roundDecimal digits e = binary32.infinityBits ∨
      binary32.roundDecimal digits e = binary32.infinityBits - 1 := by omega
  rcases htwo with htwo | htwo <;> rw [htwo]
  · exact .inl rfl
  · exact .inr rfl

/-! ## Numerals out of range -/

namespace Numeral

/-- The number is finite in double precision, and there it is beyond the greatest number of single precision.  The bounds are
the halves of the last place, as doubles have it, after that number and after the greatest double. -/
def Outsized (n : Numeral) : Prop := ∃ (digits : Nat) (e : Int), n.value = some (digits, e) ∧
  ((2 ^ 54 - 2 ^ 30 + 1) * 2 ^ 74 : ℚ) < digits * 10 ^ e ∧ (digits * 10 ^ e : ℚ) < (2 ^ 54 - 1) * 2 ^ 970

/-- The pattern nearest to the number without its sign. -/
def pattern (f : BinaryFormat) (n : Numeral) : Nat :=
  match n.value with
  | some (digits, e) => f.roundDecimal digits e
  | none             => if n.infinite then f.infinityBits else f.nanBits

theorem pattern_le_nanBits (f : BinaryFormat) (n : Numeral) : n.pattern f ≤ f.nanBits := by
  have hinfinity : f.infinityBits ≤ f.nanBits := Nat.le_add_right _ _
  unfold pattern
  split
  · exact (f.roundDecimal_le_infinityBits _ _).trans hinfinity
  · split
    · exact hinfinity
    · exact le_rfl

/-- The pattern is the one below the sign. -/
theorem round_mod_signBit (f : BinaryFormat) (h : f.nanBits < f.signBit) (n : Numeral) :
    n.round f % f.signBit = n.pattern f ∧ n.round f < 2 * f.signBit := by
  have hpattern := n.pattern_le_nanBits f
  have hround : n.round f = (if n.negative then f.signBit else 0) + n.pattern f := rfl
  rw [hround]
  split
  · rw [Nat.add_mod_left, Nat.mod_eq_of_lt (by omega)]
    omega
  · rw [Nat.zero_add, Nat.mod_eq_of_lt (by omega)]
    omega

theorem magnitude_double (n : Numeral) : (Float.exact (Float.ofBits (n.round .binary64).toUInt64)).magnitude =
    binary64.magnitude (n.pattern .binary64) := by
  obtain ⟨hpattern, hround⟩ := n.round_mod_signBit binary64 (by decide)
  have hfits : n.round .binary64 < 2 ^ 64 := hround
  rw [Float.magnitude_exact_ofBits, UInt64.toNat_ofNat', Nat.mod_eq_of_lt hfits, hpattern]

theorem magnitude_single (n : Numeral) : (Float32.exact (Float32.ofBits (n.round .binary32).toUInt32)).magnitude =
    binary32.magnitude (n.pattern .binary32) := by
  obtain ⟨hpattern, hround⟩ := n.round_mod_signBit binary32 (by decide)
  have hfits : n.round .binary32 < 2 ^ 32 := hround
  rw [Float32.magnitude_exact_ofBits, UInt32.toNat_ofNat', Nat.mod_eq_of_lt hfits, hpattern]

/-- **The numbers that are refused on their own are the outsized ones.** -/
theorem refused_iff (n : Numeral) : (∃ (m : Nat) (e : Int),
    (Float.exact (Float.ofBits (n.round .binary64).toUInt64)).magnitude = .finite m e ∧
      maxSingle.1 * pow2 (maxSingle.2 - e).toNat < m * pow2 (e - maxSingle.2).toNat) ↔ n.Outsized := by
  rw [n.magnitude_double, pattern, Outsized]
  cases n.value with
  | none =>
    refine iff_of_false ?_ (by simp)
    rintro ⟨m, e, hmagnitude, -⟩
    cases hinfinite : n.infinite <;> rw [hinfinite] at hmagnitude <;> cases hmagnitude
  | some v =>
    obtain ⟨digits, q⟩ := v
    have hvalue : (∃ (d : Nat) (e : Int), some (digits, q) = some (d, e) ∧
        ((2 ^ 54 - 2 ^ 30 + 1) * 2 ^ 74 : ℚ) < d * 10 ^ e ∧ (d * 10 ^ e : ℚ) < (2 ^ 54 - 1) * 2 ^ 970) ↔
        binary64.normalBits (maxSingle.1 * pow2 29) 75 < binary64.roundDecimal digits q ∧
          binary64.roundDecimal digits q < binary64.infinityBits := by
      rw [maxSingle_lt_roundDecimal_iff, roundDecimal_lt_infinityBits_iff]
      constructor
      · rintro ⟨_, _, heq, h⟩
        cases heq
        exact h
      · exact fun h => ⟨digits, q, rfl, h⟩
    rw [hvalue]
    dsimp only
    obtain hfinite | hinfinite := (binary64.roundDecimal_le_infinityBits digits q).lt_or_eq
    · obtain ⟨m, e, hmagnitude, hlt⟩ := normal_maxSingle.lt_magnitude_iff hfinite
      have hscale : ((maxSingle.1 * pow2 29 : Nat) : ℚ) * 2 ^ (75 : Int) = maxSingle.1 * 2 ^ maxSingle.2 := by
        norm_num [maxSingle, pow2]
      rw [hlt, hscale, ← scaled_lt_iff, and_iff_left hfinite, hmagnitude]
      constructor
      · rintro ⟨_, _, heq, htest⟩
        cases heq
        exact htest
      · exact fun htest => ⟨m, e, rfl, htest⟩
    · rw [hinfinite]
      refine iff_of_false ?_ fun h => h.2.false
      rintro ⟨m, e, hmagnitude, -⟩
      cases hmagnitude

end Numeral

namespace Entry

/-- The text stands for a number that is finite in double precision and beyond the greatest number in single precision. -/
def Outsized (t : Text) : Prop := ∃ n, readNumeral? (Text.trim t) = some n ∧ n.Outsized

theorem Outsized.isSome {t : Text} (h : Outsized t) : (readNumeral? (Text.trim t)).isSome := by
  obtain ⟨n, hread, -⟩ := h
  exact Option.isSome_iff_exists.2 ⟨n, hread⟩

/-- As a component an outsized number becomes infinite, or the greatest number there is. -/
theorem Outsized.component {t : Text} (h : Outsized t) : ∃ x, readFloat32? (Text.trim t) = some x ∧
    ((Float32.exact x).magnitude = .infinite ∨ (Float32.exact x).magnitude = .finite maxSingle.1 maxSingle.2) := by
  obtain ⟨n, hread, digits, e, hvalue, hbeyond, -⟩ := h
  refine ⟨_, by rw [readFloat32?, hread, Option.map_some], ?_⟩
  rw [n.magnitude_single, Numeral.pattern, hvalue]
  exact roundDecimal_single_of_lt hbeyond

theorem single?_eq_some_iff {t : Text} {x : Float} : single? t = some x ↔
    ¬ Outsized t ∧ ∃ y, readFloat? (Text.trim t) = some y ∧ x = widen (narrow y) := by
  unfold single? Outsized readFloat?
  cases readNumeral? (Text.trim t) with
  | none   => simp
  | some n =>
    have houtsized : (∃ m, some n = some m ∧ m.Outsized) ↔ n.Outsized := by simp
    rw [houtsized, ← n.refused_iff, Option.map_some, Option.bind_some]
    generalize Float.ofBits (n.round .binary64).toUInt64 = y
    cases (Float.exact y).magnitude with
    | notANumber => simp [eq_comm]
    | infinite   => simp [eq_comm]
    | finite m e =>
      dsimp only
      split
      · rename_i hbeyond
        exact iff_of_false nofun fun h => h.1 ⟨m, e, rfl, hbeyond⟩
      · rename_i hwithin
        constructor
        · intro h
          cases h
          refine ⟨?_, y, rfl, rfl⟩
          rintro ⟨_, _, heq, hbeyond⟩
          cases heq
          exact hwithin hbeyond
        · rintro ⟨-, _, heq, rfl⟩
          cases heq
          rfl

theorem components_eq_ok_iff {s : Shape} : ∀ {parts : List Text} {xs : List Float32},
    components s parts = .ok xs ↔ List.Forall₂ (fun p x => readFloat32? p = some x) parts xs
  | [],      xs => by
    rw [components, Except.ok.injEq, List.forall₂_nil_left_iff, eq_comm]
  | p :: ps, xs => by
    rw [components, List.forall₂_cons_left_iff]
    cases readFloat32? p with
    | none   => simp
    | some x =>
      constructor
      · intro h
        cases hrest : components s ps with
        | error e => cases hrest ▸ h
        | ok ys   =>
          cases hrest ▸ h
          exact ⟨x, ys, rfl, components_eq_ok_iff.1 hrest, rfl⟩
      · rintro ⟨_, ys, heq, hrest, rfl⟩
        cases heq
        rw [components_eq_ok_iff.2 hrest]
        rfl

/-- **A tuple is read component by component.** -/
theorem tuple_join_eq_ok_iff {s : Shape} {parts : List Text} {v : Value} (hlength : parts.length = s.arity)
    (hparts : ∀ p ∈ parts, ',' ∉ p) : tuple s (Text.join [','] parts) = .ok v ↔
      ∃ xs : Vector Float32 s.arity, v = .tuple s xs ∧
        List.Forall₂ (fun p x => readFloat32? (Text.trim p) = some x) parts xs.toList := by
  have hne : parts ≠ [] := by
    rintro rfl
    cases s <;> cases hlength
  have hread (xs : List Float32) : components s (parts.map Text.trim) = .ok xs ↔
      List.Forall₂ (fun p x => readFloat32? (Text.trim p) = some x) parts xs :=
    components_eq_ok_iff.trans List.forall₂_map_left_iff
  rw [tuple, Text.splitOn_join hne hparts, if_pos ((List.length_map Text.trim).trans hlength)]
  constructor
  · intro h
    split at h
    · cases h
    · rename_i xs hxs
      split at h
      · cases h
        exact ⟨_, rfl, (hread xs).1 hxs⟩
      · cases h
  · rintro ⟨xs, rfl, hxs⟩
    rw [(hread xs.toList).2 hxs]
    dsimp only
    rw [dif_pos xs.length_toList]
    rfl

end Entry

/-! ## A number on its own and in a tuple -/

theorem exists_forall₂_iff {α β : Type} {r : α → β → Prop} :
    ∀ {as : List α}, (∃ bs, List.Forall₂ r as bs) ↔ ∀ a ∈ as, ∃ b, r a b
  | []      => iff_of_true ⟨[], .nil⟩ nofun
  | a :: as => by
    rw [List.forall_mem_cons, ← exists_forall₂_iff]
    constructor
    · rintro ⟨_, hbs⟩
      cases hbs with
      | cons hb hrest => exact ⟨⟨_, hb⟩, _, hrest⟩
    · rintro ⟨⟨b, hb⟩, bs, hbs⟩
      exact ⟨b :: bs, .cons hb hbs⟩

variable (find : ObjectLookup)

theorem read_single_eq_ok_iff {t : Text} {v : Value} : TypeTag.single.read find t = .ok v ↔
    ¬ Entry.Outsized t ∧ ∃ x, readFloat? (Text.trim t) = some x ∧ v = .float (widen (narrow x)) := by
  rw [TypeTag.read, orInvalid_eq_ok, Option.map_eq_some_iff]
  constructor
  · rintro ⟨x, hx, rfl⟩
    obtain ⟨hrange, y, hy, rfl⟩ := Entry.single?_eq_some_iff.1 hx
    exact ⟨hrange, y, hy, rfl⟩
  · rintro ⟨hrange, y, hy, rfl⟩
    exact ⟨_, Entry.single?_eq_some_iff.2 ⟨hrange, y, hy, rfl⟩, rfl⟩

theorem exists_read_single_iff {t : Text} : (∃ v, TypeTag.single.read find t = .ok v) ↔
    (readNumeral? (Text.trim t)).isSome ∧ ¬ Entry.Outsized t := by
  have hread : (readNumeral? (Text.trim t)).isSome ↔ ∃ x, readFloat? (Text.trim t) = some x := by
    rw [← Option.isSome_iff_exists, readFloat?, Option.isSome_map]
  rw [hread]
  constructor
  · rintro ⟨v, hv⟩
    obtain ⟨hrange, x, hx, -⟩ := (read_single_eq_ok_iff find).1 hv
    exact ⟨⟨x, hx⟩, hrange⟩
  · rintro ⟨⟨x, hx⟩, hrange⟩
    exact ⟨_, (read_single_eq_ok_iff find).2 ⟨hrange, x, hx, rfl⟩⟩

theorem exists_read_tuple_iff {s : Shape} {parts : List Text} (hlength : parts.length = s.arity)
    (hparts : ∀ p ∈ parts, ',' ∉ p) : (∃ v, (TypeTag.tuple s).read find (Text.join [','] parts) = .ok v) ↔
      ∀ p ∈ parts, (readNumeral? (Text.trim p)).isSome := by
  have hread (p : Text) : (readNumeral? (Text.trim p)).isSome ↔ ∃ x, readFloat32? (Text.trim p) = some x := by
    rw [← Option.isSome_iff_exists, readFloat32?, Option.isSome_map]
  simp only [hread, TypeTag.read, Entry.tuple_join_eq_ok_iff hlength hparts]
  rw [← exists_forall₂_iff]
  constructor
  · rintro ⟨_, xs, -, hxs⟩
    exact ⟨_, hxs⟩
  · rintro ⟨xs, hxs⟩
    have hxs' : xs.length = s.arity := hxs.length_eq.symm.trans hlength
    exact ⟨_, ⟨xs.toArray, hxs'⟩, rfl, hxs⟩

/-- **A number on its own and a number in a tuple are taken alike unless it is outsized.**  On its own it is taken if it is a
number and not outsized.  A tuple is taken if each of its parts would be taken on its own or is outsized, so a text that
fills a tuple is taken there as it is on its own just where it is not outsized.  An outsized one is refused on its own, and as
a component it becomes infinite or the greatest number. -/
theorem single_agrees_with_components_iff :
    (∀ t : Text, (∃ v, TypeTag.single.read find t = .ok v) ↔
      (readNumeral? (Text.trim t)).isSome ∧ ¬ Entry.Outsized t) ∧
    (∀ (s : Shape) (t : Text), ',' ∉ t → (((∃ v, TypeTag.single.read find t = .ok v) ↔
      ∃ v, (TypeTag.tuple s).read find (Text.join [','] (List.replicate s.arity t)) = .ok v) ↔ ¬ Entry.Outsized t)) ∧
    (∀ (s : Shape) (parts : List Text), parts.length = s.arity → (∀ p ∈ parts, ',' ∉ p) →
      ((∃ v, (TypeTag.tuple s).read find (Text.join [','] parts) = .ok v) ↔
        ∀ p ∈ parts, (∃ v, TypeTag.single.read find p = .ok v) ∨ Entry.Outsized p)) ∧
    (∀ t : Text, Entry.Outsized t → TypeTag.single.read find t = .error (.invalid t .single)) ∧
    (∀ (s : Shape) (parts : List Text) (xs : Vector Float32 s.arity), parts.length = s.arity → (∀ p ∈ parts, ',' ∉ p) →
      (TypeTag.tuple s).read find (Text.join [','] parts) = .ok (.tuple s xs) →
        ∀ p x, (p, x) ∈ parts.zip xs.toList → Entry.Outsized p → (Float32.exact x).magnitude = .infinite ∨
          (Float32.exact x).magnitude = .finite maxSingle.1 maxSingle.2) := by
  refine ⟨fun t => exists_read_single_iff find, fun s t ht => ?_, fun s parts hlength hparts => ?_, fun t ht => ?_,
    fun s parts xs hlength hparts hread p x hx hp => ?_⟩
  · have hnumeral := fun h : Entry.Outsized t => h.isSome
    have hparts : ∀ p ∈ List.replicate s.arity t, ',' ∉ p := fun p hp => List.eq_of_mem_replicate hp ▸ ht
    have harity : s.arity ≠ 0 := by cases s <;> decide
    rw [exists_read_single_iff, exists_read_tuple_iff find List.length_replicate hparts, List.forall_mem_replicate,
      or_iff_right harity]
    tauto
  · rw [exists_read_tuple_iff find hlength hparts]
    refine forall₂_congr fun p _ => ?_
    have hnumeral := fun h : Entry.Outsized p => h.isSome
    rw [exists_read_single_iff]
    tauto
  · have hrefused : Entry.single? t = none := by
      rw [Option.eq_none_iff_forall_ne_some]
      exact fun x hx => (Entry.single?_eq_some_iff.1 hx).1 ht
    rw [TypeTag.read, hrefused]
    rfl
  · obtain ⟨_, heq, hxs⟩ := (Entry.tuple_join_eq_ok_iff hlength hparts).1 hread
    cases heq
    have hx := (List.forall₂_iff_zip.1 hxs).2 hx
    obtain ⟨y, hy, hmagnitude⟩ := hp.component
    cases hx.symm.trans hy
    exact hmagnitude

/-- Numbers beyond the range, with blanks and a minus sign, and one within it. -/
theorem single_agrees_with_components_iff_overflow : Entry.Outsized "1e39".toList ∧
    TypeTag.single.read (fun _ => none) "1e39".toList = .error (.invalid "1e39".toList .single) ∧
    (∃ v, (TypeTag.tuple .vector3).read (fun _ => none) "1e39,7, -1e39 ".toList = .ok v) ∧
    (∃ x, (TypeTag.tuple .vector2).read (fun _ => none) "1e39,1e39".toList = .ok (.tuple .vector2 #v[x, x]) ∧
      ((Float32.exact x).magnitude = .infinite ∨ (Float32.exact x).magnitude = .finite maxSingle.1 maxSingle.2)) ∧
    ((∃ v, TypeTag.single.read (fun _ => none) "7".toList = .ok v) ↔
      ∃ v, (TypeTag.tuple .quaternion).read (fun _ => none) "7,7,7,7".toList = .ok v) := by
  obtain ⟨-, hagree, hparts, hrefused, hcomponent⟩ := single_agrees_with_components_iff (fun _ => none)
  have hbeyond := (maxSingle_lt_roundDecimal_iff 1 39).1 (by decide +kernel)
  have hfinite := (roundDecimal_lt_infinityBits_iff 1 39).1 (by decide +kernel)
  have hplus : Entry.Outsized "1e39".toList := ⟨⟨false, some (1, 39), false⟩, by decide, 1, 39, rfl, hbeyond, hfinite⟩
  have hminus : Entry.Outsized " -1e39 ".toList := ⟨⟨true, some (1, 39), false⟩, by decide, 1, 39, rfl, hbeyond, hfinite⟩
  have hseven : TypeTag.single.read (fun _ => none) "7".toList = .ok (.float 7) := by decide +kernel
  have hwithin : ¬ Entry.Outsized "7".toList := ((read_single_eq_ok_iff _).1 hseven).1
  have hpair : (TypeTag.tuple .vector2).read (fun _ => none) "1e39,1e39".toList =
      .ok (.tuple .vector2 #v[Float32.ofBits 0x7f800000, Float32.ofBits 0x7f800000]) := by decide +kernel
  refine ⟨hplus, hrefused _ hplus, ?_, ⟨_, hpair, ?_⟩, (hagree .quaternion "7".toList (by decide)).2 hwithin⟩
  · refine (hparts .vector3 ["1e39".toList, "7".toList, " -1e39 ".toList] rfl (by decide)).2 ?_
    rw [List.forall_mem_cons, List.forall_mem_cons, List.forall_mem_singleton]
    exact ⟨.inr hplus, .inl ⟨_, hseven⟩, .inr hminus⟩
  · exact hcomponent .vector2 ["1e39".toList, "1e39".toList] _ rfl (by decide) hpair _ _ List.mem_cons_self hplus

/-- A number that is refused on its own is taken in a vector, where it is infinite. -/
theorem vector_takes_outsized :
    TypeTag.single.read (fun _ => none) "1e39".toList = .error (.invalid "1e39".toList .single) ∧
    (TypeTag.tuple .vector2).read (fun _ => none) "1e39,1e39".toList =
      .ok (.tuple .vector2 #v[Float32.ofBits 0x7f800000, Float32.ofBits 0x7f800000]) ∧
    (Float32.exact (Float32.ofBits 0x7f800000)).magnitude = .infinite :=
  ⟨by decide +kernel, by decide +kernel, by decide +kernel⟩

end CommandConsole
