import CommandConsole.Value.Carrier
import CommandConsole.Value.Entry
/-!
# Typing — values and the types they are read against

`Value.HasType` says which values a declared type has.  What is read against a type has that type (`hasType_of_read`), and
a value of a type is taken into the data that the type stands for (`fromValue_of_hasType`): reading and converting, which
check their ranges apart, agree on every type.
-/
namespace CommandConsole

/-- The values of a declared type: integers in the range of their width, floats of single precision by the digits they are
shown with, members by their place in that very enumeration, null for a nullable type alone. -/
inductive Value.HasType : Value → TypeTag → Prop
  | unit : HasType .unit .void
  | bool (b : Bool) : HasType (.bool b) .bool
  | char (c : Char) : HasType (.char c) .char
  | signed {w : Width} {i : Int64} (range : w.Signed i.toInt) : HasType (.int i) (.signed w)
  | unsigned {w : Width} {n : UInt64} (range : w.Unsigned n.toNat) : HasType (.uint n) (.unsigned w)
  | single (x : Float32) : HasType (.float (widen x)) .single
  | double (x : Float) : HasType (.float x) .double
  | string (t : Text) : HasType (.string t) .string
  | tuple (s : Shape) (components : Vector Float32 s.arity) : HasType (.tuple s components) (.tuple s)
  | enum {e : EnumInfo} {i : Nat} (place : i < e.members.length) : HasType (.enum e i) (.enum e)
  | object (o : ObjectRef) : HasType (.object o) .object
  | null {t : TypeTag} : HasType .null (.nullable t)
  | some {v : Value} {t : TypeTag} (typed : HasType v t) : HasType v (.nullable t)

/-! ## Widths -/

theorem Width.Signed.toInt_ofInt {w : Width} {i : Int} (h : w.Signed i) : (Int64.ofInt i).toInt = i := by
  unfold Width.Signed at h
  have hw : pow2 (w.bits - 1) ≤ 2 ^ 63 := by cases w <;> decide
  exact Int64.toInt_ofInt_of_le (by omega) (by omega)

theorem Width.Unsigned.toNat_ofNat {w : Width} {n : Nat} (h : w.Unsigned n) : (UInt64.ofNat n).toNat = n := by
  unfold Width.Unsigned at h
  have hw : pow2 w.bits ≤ 2 ^ 64 := by cases w <;> decide
  have hn : n < 2 ^ 64 := by omega
  exact UInt64.toNat_ofNat_of_lt' hn

/-! ## Reading -/

theorem orInvalid_eq_ok {t : TypeTag} {s : Text} {o : Option Value} {v : Value} :
    t.orInvalid s o = .ok v ↔ o = some v := by
  cases o <;> simp [TypeTag.orInvalid]

theorem signed_of_signed? {w : Width} {s : Text} {i : Int64} (h : Entry.signed? w s = some i) : w.Signed i.toInt := by
  unfold Entry.signed? at h
  split at h
  · rename_i negative n _
    dsimp only at h
    generalize (if negative = true then -(n : Int) else n) = i' at h
    split at h
    · rename_i hw
      cases h
      rwa [hw.toInt_ofInt]
    · cases h
  · cases h

theorem unsigned_of_unsigned? {w : Width} {s : Text} {n : UInt64} (h : Entry.unsigned? w s = some n) :
    w.Unsigned n.toNat := by
  unfold Entry.unsigned? at h
  split at h
  · split at h
    · rename_i hw
      cases h
      rwa [hw.toNat_ofNat]
    · cases h
  · cases h

/-- A number read in single precision is one that a single-precision float is carried as. -/
theorem widen_of_single? {s : Text} {x : Float} (h : Entry.single? s = some x) : ∃ y, x = widen y := by
  obtain ⟨z, -, hz⟩ := Option.bind_eq_some_iff.1 h
  refine ⟨narrow z, ?_⟩
  split at hz
  · split at hz
    · cases hz
    · cases hz; rfl
  · cases hz; rfl

theorem hasType_of_tuple {shape : Shape} {s : Text} {v : Value} (h : Entry.tuple shape s = .ok v) :
    v.HasType (.tuple shape) := by
  simp only [Entry.tuple] at h
  split at h
  · split at h
    · cases h
    · split at h
      · cases h; exact .tuple shape _
      · cases h
  · cases h

theorem place_of_find? {e : EnumInfo} {t : Text} {i : Nat} (h : e.find? t = some i) : i < e.members.length :=
  (List.findIdx?_eq_some_iff_findIdx_eq.1 h).1

/-- **What is read against a type has that type.** -/
theorem hasType_of_read {find : ObjectLookup} {t : TypeTag} {s : Text} {v : Value} (h : t.read find s = .ok v) :
    v.HasType t := by
  induction t with
  | void => cases h
  | bool =>
    obtain ⟨b, -, rfl⟩ := Option.map_eq_some_iff.1 (orInvalid_eq_ok.1 h)
    exact .bool b
  | char =>
    obtain ⟨c, -, rfl⟩ := Option.map_eq_some_iff.1 (orInvalid_eq_ok.1 h)
    exact .char c
  | signed w =>
    obtain ⟨i, hi, rfl⟩ := Option.map_eq_some_iff.1 (orInvalid_eq_ok.1 h)
    exact .signed (signed_of_signed? hi)
  | unsigned w =>
    obtain ⟨n, hn, rfl⟩ := Option.map_eq_some_iff.1 (orInvalid_eq_ok.1 h)
    exact .unsigned (unsigned_of_unsigned? hn)
  | single =>
    obtain ⟨x, hx, rfl⟩ := Option.map_eq_some_iff.1 (orInvalid_eq_ok.1 h)
    obtain ⟨y, rfl⟩ := widen_of_single? hx
    exact .single y
  | double =>
    obtain ⟨x, -, rfl⟩ := Option.map_eq_some_iff.1 (orInvalid_eq_ok.1 h)
    exact .double x
  | string => cases h; exact .string s
  | tuple shape => exact hasType_of_tuple h
  | enum e =>
    rw [TypeTag.read] at h
    split at h
    · rename_i i hi
      cases h
      exact .enum (place_of_find? hi)
    · cases h
  | object =>
    rw [TypeTag.read] at h
    split at h
    · rename_i o _
      cases h
      exact .object o
    · cases h
  | nullable t ih =>
    rw [TypeTag.read] at h
    split at h
    · cases h; exact .null
    · exact .some (ih h)

/-! ## Converting -/

theorem fromValue_nullable_of_ok {t : TypeTag} {v : Value} {x : t.Carrier} (h : t.fromValue v = .ok x) :
    ∃ y, (TypeTag.nullable t).fromValue v = .ok y := by
  by_cases hv : v = .null
  · subst hv
    exact ⟨none, rfl⟩
  · refine ⟨some x, ?_⟩
    rw [TypeTag.fromValue, h]
    · rfl
    · exact hv

/-- **A value of a type is taken into the data of that type.** -/
theorem fromValue_of_hasType {t : TypeTag} {v : Value} (h : v.HasType t) : ∃ x, t.fromValue v = .ok x := by
  induction h with
  | unit      => exact ⟨(), rfl⟩
  | bool b    => exact ⟨b, rfl⟩
  | char c    => exact ⟨c, rfl⟩
  | signed hw => exact ⟨⟨_, hw⟩, by simp [TypeTag.fromValue, TypeTag.integer?, hw]⟩
  | unsigned hw => exact ⟨⟨_, hw⟩, by simp [TypeTag.fromValue, TypeTag.integer?, hw]⟩
  | single x  => exact ⟨_, rfl⟩
  | double x  => exact ⟨x, rfl⟩
  | string t  => exact ⟨t, rfl⟩
  | tuple s c => exact ⟨c, by simp [TypeTag.fromValue]⟩
  | enum hi   => exact ⟨⟨_, hi⟩, by simp [TypeTag.fromValue, TypeTag.member?, hi]⟩
  | object o  => exact ⟨o, rfl⟩
  | null      => exact ⟨none, rfl⟩
  | some _ ih =>
    obtain ⟨x, hx⟩ := ih
    exact fromValue_nullable_of_ok hx

end CommandConsole
