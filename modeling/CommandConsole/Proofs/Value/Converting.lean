import CommandConsole.Declaration.Member
import CommandConsole.Proofs.Value.Typing
/-!
# Converting — typed data that is given as a value is taken back

Member code gives its data as values and takes values into its data.  An integer is taken by its number, whichever of the two
carriers brings it, and by nothing else (`fromValue_eq_ok_iff`).  All data but floats of single precision is taken back as it
was given (`fromValue_intoValue_iff`), and a value that has a type is given again as it was taken (`intoValue_of_fromValue`).
Only where nullable types are nested something is lost: a null within a present value is null.
-/
namespace CommandConsole

/-! ## Integers -/

/-- The value carries this number. -/
inductive Value.Carries : Value → Int → Prop
  | int (i : Int64) : Carries (.int i) i.toInt
  | uint (n : UInt64) : Carries (.uint n) n.toNat

theorem Value.Carries.integer? {v : Value} {i : Int} (h : v.Carries i) : TypeTag.integer? v = some i := by
  cases h <;> rfl

namespace TypeTag

/-- The types of integers, each with the numbers that are in its range. -/
inductive Ranges : TypeTag → (Int → Prop) → Prop
  | signed (w : Width) : Ranges (.signed w) w.Signed
  | unsigned (w : Width) : Ranges (.unsigned w) w.Unsigned

/-- The number that typed data is, if its type is one of integers. -/
def number : (t : TypeTag) → t.Carrier → Option Int
  | .signed _,   x => some x.val
  | .unsigned _, x => some x.val
  | _,           _ => none

variable {t u : TypeTag} {range bounds : Int → Prop} {v : Value} {i : Int}

/-- **A number is taken into a type of integers as itself**, and nothing else is taken as that number. -/
theorem fromValue_eq_ok_iff (ht : t.Ranges range) (hv : v.Carries i) (x : t.Carrier) :
    t.fromValue v = .ok x ↔ t.number x = some i := by
  have hi := hv.integer?
  cases ht with
  | signed w =>
    constructor
    · intro h
      simp only [fromValue, hi] at h
      split at h
      · cases h; rfl
      · cases h
    · intro h
      cases Option.some.inj h
      simp only [fromValue, hi]
      exact dif_pos x.property
  | unsigned w =>
    constructor
    · intro h
      simp only [fromValue, hi] at h
      split at h
      · cases h; rfl
      · cases h
    · intro h
      cases Option.some.inj h
      simp only [fromValue, hi]
      exact dif_pos x.property

/-- The data of a type of integers are the numbers in its range. -/
theorem exists_number_iff (ht : t.Ranges range) : (∃ x, t.number x = some i) ↔ range i := by
  cases ht <;>
  exact ⟨fun ⟨x, hx⟩ => Option.some.inj hx ▸ x.property, fun hi => ⟨⟨i, hi⟩, rfl⟩⟩

/-- Typed integers are given in a carrier of their number. -/
theorem exists_carries_intoValue (ht : t.Ranges range) (x : t.Carrier) :
    ∃ i, t.number x = some i ∧ (t.intoValue x).Carries i := by
  cases ht with
  | signed w =>
    have hx : (Int64.ofInt x.val).toInt = x.val := x.property.toInt_ofInt
    refine ⟨x.val, rfl, ?_⟩
    conv => rhs; rw [← hx]
    exact .int (Int64.ofInt x.val)
  | unsigned w =>
    obtain ⟨i, hi⟩ := x
    obtain ⟨n, rfl⟩ := Int.eq_ofNat_of_zero_le hi.1
    have hn : (UInt64.ofNat n).toNat = n := Width.Unsigned.toNat_ofNat hi
    refine ⟨n, rfl, ?_⟩
    conv => rhs; rw [← hn]
    exact .uint (UInt64.ofNat n)

/-- **Integers move between types, and so between the carriers, without changing.** -/
theorem fromValue_intoValue_eq_ok_iff (ht : t.Ranges range) (hu : u.Ranges bounds) (x : t.Carrier) (y : u.Carrier) :
    u.fromValue (t.intoValue x) = .ok y ↔ u.number y = t.number x := by
  obtain ⟨i, hx, hcarries⟩ := exists_carries_intoValue ht x
  rw [fromValue_eq_ok_iff hu hcarries, hx]

/-! ## Round trips -/

/-- The data of types that are not nullable is given as a value that is not null. -/
theorem intoValue_ne_null (ht : ∀ inner, t ≠ .nullable inner) (x : t.Carrier) : t.intoValue x ≠ .null := by
  cases t with
  | nullable inner => exact absurd rfl (ht inner)
  | _              => exact nofun

/-- No present value in the data is given as null.  Of types that are nullable once at most, all data is so. -/
def KeepsNulls : (t : TypeTag) → t.Carrier → Prop
  | .nullable t, some x => t.intoValue x ≠ .null ∧ t.KeepsNulls x
  | _,           _      => True

theorem fromValue_nullable_of_ne_null (h : v ≠ .null) :
    (TypeTag.nullable t).fromValue v = (t.fromValue v).map some := by
  cases v <;> first | rfl | exact absurd rfl h

theorem map_some_eq_ok {α : Type} {e : Except InvocationError α} {a : α} : e.map some = .ok (some a) ↔ e = .ok a := by
  cases e <;> simp [Except.map]

theorem fromValue_intoValue_iff (ht : t.unwrapNullable ≠ .single) (x : t.Carrier) :
    t.fromValue (t.intoValue x) = .ok x ↔ t.KeepsNulls x := by
  induction t with
  | single      => exact absurd rfl ht
  | signed w    => exact ⟨fun _ => trivial, fun _ => (fromValue_intoValue_eq_ok_iff (.signed w) (.signed w) x x).2 rfl⟩
  | unsigned w  => exact ⟨fun _ => trivial, fun _ => (fromValue_intoValue_eq_ok_iff (.unsigned w) (.unsigned w) x x).2 rfl⟩
  | tuple s     => exact ⟨fun _ => trivial, fun _ => dif_pos rfl⟩
  | enum e      =>
    have hmember : member? e (.enum e x.val) = some x := dif_pos ⟨rfl, x.isLt⟩
    refine ⟨fun _ => trivial, fun _ => ?_⟩
    show fromValue (.enum e) (.enum e x.val) = _
    rw [fromValue, hmember]
  | nullable t ih =>
    cases x with
    | none   => exact ⟨fun _ => trivial, fun _ => rfl⟩
    | some x =>
      show fromValue (.nullable t) (t.intoValue x) = .ok (some x) ↔ t.intoValue x ≠ .null ∧ t.KeepsNulls x
      by_cases hnull : t.intoValue x = .null
      · rw [hnull]
        refine iff_of_false (fun htaken => ?_) fun h => h.1 rfl
        cases htaken
      · rw [fromValue_nullable_of_ne_null hnull, ← ih ht x]
        exact map_some_eq_ok.trans (and_iff_right hnull).symm
  | _           => exact ⟨fun _ => trivial, fun _ => rfl⟩

theorem keepsNulls_of_plain (ht : ∀ inner, t ≠ .nullable inner) (x : t.Carrier) : t.KeepsNulls x := by
  cases t with
  | nullable inner => exact absurd rfl (ht inner)
  | _              => trivial

theorem keepsNulls_option (ht : ∀ inner, t ≠ .nullable inner) : ∀ x : Option t.Carrier, (TypeTag.nullable t).KeepsNulls x
  | none   => trivial
  | some x => ⟨intoValue_ne_null ht x, keepsNulls_of_plain ht x⟩

/-- **A value of a type is given again as it was taken.** -/
theorem intoValue_of_fromValue {x : t.Carrier} (h : v.HasType t) (ht : t.unwrapNullable ≠ .single)
    (hx : t.fromValue v = .ok x) : t.intoValue x = v := by
  induction h with
  | unit | bool | char | double | string | object => cases hx; rfl
  | single => exact absurd rfl ht
  | tuple s components =>
    have hsame : fromValue (.tuple s) (.tuple s components) = .ok components := dif_pos rfl
    cases hsame.symm.trans hx
    rfl
  | @signed w i hi =>
    have hnumber : x.val = i.toInt := Option.some.inj ((fromValue_eq_ok_iff (.signed w) (.int i) x).1 hx)
    rw [intoValue, hnumber, Int64.ofInt_toInt]
  | @unsigned w n hn =>
    have hnumber : x.val = n.toNat := Option.some.inj ((fromValue_eq_ok_iff (.unsigned w) (.uint n) x).1 hx)
    rw [intoValue, hnumber, Int.toNat_natCast, UInt64.ofNat_toNat]
  | @enum e i hi =>
    have hmember : member? e (.enum e i) = some ⟨i, hi⟩ := dif_pos ⟨rfl, hi⟩
    rw [fromValue, hmember] at hx
    cases hx
    rfl
  | null => cases hx; rfl
  | @some v t hv ih =>
    by_cases hnull : v = .null
    · subst hnull
      cases hx; rfl
    · rw [fromValue_nullable_of_ne_null hnull] at hx
      cases hy : t.fromValue v with
      | error e => rw [hy] at hx; cases hx
      | ok y    => rw [hy] at hx; cases hx; exact ih ht hy

end TypeTag

/-! ## Declared enumerations

A type that lists its values converts by two tables over the names that it declares: from each value to its place, and back.
-/

namespace EnumInfo

variable {e : EnumInfo} {name : Text}

/-- The value that is given for what the declaration calls by a name. -/
def give (e : EnumInfo) (name : Text) : Option Value := (e.members.idxOf? name).map (Value.enum e)

/-- What a value is taken as, by the name that the declaration gives it. -/
def take (e : EnumInfo) (v : Value) : Except InvocationError Text :=
  ((TypeTag.enum e).fromValue v).map e.members.get

theorem take_of_give (h : name ∈ e.members) : ∃ v, e.give name = some v ∧ e.take v = .ok name := by
  obtain ⟨i, hplace⟩ := Option.isSome_iff_exists.1 (List.isSome_idxOf?.2 h)
  obtain ⟨hi, hname, -⟩ := List.idxOf?_eq_some_iff.1 hplace
  have htaken : (TypeTag.enum e).fromValue (.enum e i) = .ok ⟨i, hi⟩ :=
    (TypeTag.fromValue_intoValue_iff (t := .enum e) nofun ⟨i, hi⟩).2 trivial
  exact ⟨.enum e i, by rw [give, hplace]; rfl, (congrArg (Except.map e.members.get) htaken).trans (congrArg Except.ok hname)⟩

end EnumInfo

/-- The information about a declared enumeration has the names that the declaration lists, in its order. -/
theorem Declaration.DataType.members_of_enumInfo {d : Declaration.DataType} {variants : List Declaration.Variant}
    {e : EnumInfo} (hd : d.shape = .enumeration variants) (he : d.enumInfo = .ok e) :
    e.members = variants.map Declaration.Variant.name := by
  unfold enumInfo at he
  rw [hd] at he
  dsimp only at he
  split at he
  · cases he
  · split at he
    · cases he
    · split at he
      · cases he; rfl
      · cases he

/-! ## The whole -/

/-- **Values are converted without loss.**  A type of integers takes a value in either carrier just if its number is in
the range of the type, and then as that number; so an integer that one type gives is the same integer in any other that
takes it.  What a type gives it takes back unchanged, but for floats of single precision; so does a nullable type of one
that is not nullable itself.  Where nullable types are nested, the data that is lost is a null within what is present.
And each value that a declared enumeration lists is taken back by its own name, whatever the declaration. -/
theorem conversions_lossless :
    (∀ (t : TypeTag) (range : Int → Prop) (v : Value) (i : Int), t.Ranges range → v.Carries i →
      ((∃ x, t.fromValue v = .ok x) ↔ range i) ∧ ∀ x, t.fromValue v = .ok x → t.number x = some i) ∧
    (∀ (t u : TypeTag) (range bounds : Int → Prop), t.Ranges range → u.Ranges bounds →
      ∀ (x : t.Carrier) (y : u.Carrier), u.fromValue (t.intoValue x) = .ok y ↔ u.number y = t.number x) ∧
    (∀ t : TypeTag, t ≠ .single → (∀ inner, t ≠ .nullable inner) →
      (∀ x : t.Carrier, t.fromValue (t.intoValue x) = .ok x) ∧
      ∀ x : Option t.Carrier, (TypeTag.nullable t).fromValue ((TypeTag.nullable t).intoValue x) = .ok x) ∧
    (∀ t : TypeTag, t.unwrapNullable ≠ .single → ∀ x : t.Carrier, t.fromValue (t.intoValue x) = .ok x ↔ t.KeepsNulls x) ∧
    (∀ (d : Declaration.DataType) (variants : List Declaration.Variant) (e : EnumInfo),
      d.shape = .enumeration variants → d.enumInfo = .ok e →
      ∀ variant ∈ variants, ∃ v, e.give variant.name = some v ∧ e.take v = .ok variant.name) := by
  refine ⟨fun t range v i ht hv => ⟨?_, fun x => (TypeTag.fromValue_eq_ok_iff ht hv x).1⟩,
    fun t u range bounds ht hu => TypeTag.fromValue_intoValue_eq_ok_iff ht hu, fun t hsingle hplain => ?_,
    fun _ => TypeTag.fromValue_intoValue_iff, fun d variants e hd he variant hvariant => ?_⟩
  · simp only [TypeTag.fromValue_eq_ok_iff ht hv, TypeTag.exists_number_iff ht]
  · have hcore : t.unwrapNullable ≠ .single := by
      cases t with
      | nullable inner => exact absurd rfl (hplain inner)
      | _              => exact hsingle
    exact ⟨fun x => (TypeTag.fromValue_intoValue_iff hcore x).2 (TypeTag.keepsNulls_of_plain hplain x),
      fun x => (TypeTag.fromValue_intoValue_iff (t := .nullable t) hcore x).2 (TypeTag.keepsNulls_option hplain x)⟩
  · have hlisted : variant.name ∈ e.members :=
      Declaration.DataType.members_of_enumInfo hd he ▸ List.mem_map_of_mem hvariant
    exact EnumInfo.take_of_give hlisted

/-- A level of difficulty whose values differ in case only. -/
def Samples.levels : Declaration.DataType := ⟨"Level", false, .enumeration [⟨"Low", true⟩, ⟨"LOW", true⟩]⟩

/-- Two hundred in the signed carrier, less than none in the unsigned type, a null within what is present, and values that
differ in case only. -/
theorem conversions_lossless_limits :
    (∃ x, (TypeTag.unsigned .bits8).fromValue (.int 200) = .ok x ∧ x.val = 200) ∧
    (¬ ∃ x, (TypeTag.signed .bits8).fromValue (.int 200) = .ok x) ∧
    (¬ ∃ x, (TypeTag.unsigned .bits64).fromValue (.int (-1)) = .ok x) ∧
    (TypeTag.nullable .bool).fromValue ((TypeTag.nullable .bool).intoValue (some true)) = .ok (some true) ∧
    (TypeTag.nullable (.nullable .bool)).fromValue ((TypeTag.nullable (.nullable .bool)).intoValue (some none)) ≠
      .ok (some none) ∧
    (∃ v, EnumInfo.give ⟨"Level", ["Low", "LOW"]⟩ "LOW" = some v ∧
      EnumInfo.take ⟨"Level", ["Low", "LOW"]⟩ v = .ok "LOW") := by
  obtain ⟨htakes, -, hgiven, hnested, hlisted⟩ := conversions_lossless
  obtain ⟨hbyte, hnumber⟩ := htakes _ _ _ _ (.unsigned .bits8) (.int 200)
  refine ⟨?_, fun h => ?_, fun h => ?_, (hgiven .bool nofun nofun).2 (some true), fun h => ?_, ?_⟩
  · obtain ⟨x, hx⟩ := hbyte.2 (by decide)
    exact ⟨x, hx, Option.some.inj (hnumber x hx)⟩
  · exact absurd ((htakes _ _ _ _ (.signed .bits8) (.int 200)).1.1 h) (by decide)
  · exact absurd ((htakes _ _ _ _ (.unsigned .bits64) (.int (-1))).1.1 h) (by decide)
  · exact ((hnested (.nullable (.nullable .bool)) nofun (some none)).1 h).1 rfl
  · exact hlisted Samples.levels _ ⟨"Level", ["Low", "LOW"]⟩ rfl rfl ⟨"LOW", true⟩ (by decide)

end CommandConsole
