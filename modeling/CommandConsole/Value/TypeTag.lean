import CommandConsole.Number.Power
import CommandConsole.Text.Blank
/-!
# Type tags

A type tag says what a parameter, a property or a result holds.  Tags are read from names and their aliases
(`TypeTag.ofAlias?`) and written under one name each (`TypeTag.text`).
-/
namespace CommandConsole

/-- The widths of integers; `size` is the width of a machine address. -/
inductive Width where
  | bits8 | bits16 | bits32 | bits64 | size
deriving DecidableEq, Repr

/-- The small tuples of single-precision floats. -/
inductive Shape where
  | vector2 | vector3 | vector4 | quaternion
deriving DecidableEq, Repr

/-- An enumeration: its name, and the names of its members in the order of declaration. -/
structure EnumInfo where
  name    : Text
  members : List Text
deriving DecidableEq, Repr

inductive TypeTag where
  | void
  | bool
  | char
  | signed (width : Width)
  | unsigned (width : Width)
  | single
  | double
  | string
  | tuple (shape : Shape)
  | enum (info : EnumInfo)
  | object
  | nullable (inner : TypeTag)
deriving DecidableEq, Repr

/-! ## Widths and shapes -/

def Width.bits : Width → Nat
  | .bits8  => 8
  | .bits16 => 16
  | .bits32 => 32
  | .bits64 => 64
  | .size   => 64

def Width.suffix : Width → Text
  | .bits8  => "8"
  | .bits16 => "16"
  | .bits32 => "32"
  | .bits64 => "64"
  | .size   => "size"

/-- Does a signed integer of this width hold `i`? -/
def Width.Signed (w : Width) (i : Int) : Prop := -(pow2 (w.bits - 1) : Int) ≤ i ∧ i < pow2 (w.bits - 1)

/-- Does an unsigned integer of this width hold `i`? -/
def Width.Unsigned (w : Width) (i : Int) : Prop := 0 ≤ i ∧ i < pow2 w.bits

instance (w : Width) (i : Int) : Decidable (w.Signed i) := by unfold Width.Signed; infer_instance

instance (w : Width) (i : Int) : Decidable (w.Unsigned i) := by unfold Width.Unsigned; infer_instance

def Shape.arity : Shape → Nat
  | .vector2    => 2
  | .vector3    => 3
  | .vector4    => 4
  | .quaternion => 4

def Shape.text : Shape → Text
  | .vector2    => "Vector2"
  | .vector3    => "Vector3"
  | .vector4    => "Vector4"
  | .quaternion => "Quaternion"

/-! ## Enumerations -/

/-- The place of the first member called `t`, up to the case of ASCII letters. -/
def EnumInfo.find? (e : EnumInfo) (t : Text) : Option Nat := e.members.findIdx? (Text.sameAscii t)

/-- The name of the member at a place; a place outside the enumeration is shown as `?`. -/
def EnumInfo.memberText (e : EnumInfo) (index : Nat) : Text := e.members.getD index "?"

namespace TypeTag

/-! ## Writing -/

/-- The name of the type; a nullable type is marked with a question mark. -/
def text : TypeTag → Text
  | .void       => "void"
  | .bool       => "bool"
  | .char       => "char"
  | .signed w   => 'i' :: w.suffix
  | .unsigned w => 'u' :: w.suffix
  | .single     => "f32"
  | .double     => "f64"
  | .string     => "string"
  | .tuple s    => s.text
  | .enum e     => e.name
  | .object     => "object"
  | .nullable t => t.text ++ "?"

/-! ## Reading -/

/-- The names of each type that is not built from others, in lowercase. -/
def aliases : List (TypeTag × List String) :=
  [ (.void, ["void", "()", "unit"]),
    (.bool, ["bool", "boolean"]),
    (.char, ["char"]),
    (.signed .bits8, ["i8", "sbyte", "int8"]),
    (.signed .bits16, ["i16", "short", "int16"]),
    (.signed .bits32, ["i32", "int", "int32", "integer"]),
    (.signed .bits64, ["i64", "long", "int64"]),
    (.signed .size, ["isize"]),
    (.unsigned .bits8, ["u8", "byte", "uint8"]),
    (.unsigned .bits16, ["u16", "ushort", "uint16"]),
    (.unsigned .bits32, ["u32", "uint", "uint32"]),
    (.unsigned .bits64, ["u64", "ulong", "uint64"]),
    (.unsigned .size, ["usize"]),
    (.single, ["f32", "float", "single"]),
    (.double, ["f64", "double"]),
    (.string, ["str", "string", "&str"]),
    (.tuple .vector2, ["vector2", "vec2"]),
    (.tuple .vector3, ["vector3", "vec3"]),
    (.tuple .vector4, ["vector4", "vec4"]),
    (.tuple .quaternion, ["quaternion", "quat"]),
    (.object, ["object"]) ]

/-- The type with this name, up to the case of ASCII letters. -/
def ofName? (name : Text) : Option TypeTag :=
  (aliases.find? (fun a => a.2.any (fun s => Text.sameAscii s name))).map Prod.fst

/-- Reads a name from its end: question marks and the blanks around them, then the name itself. -/
def ofReversed? : Text → Option TypeTag
  | []     => none
  | c :: r =>
    if isBlank c then ofReversed? r
    else if c = '?' then (ofReversed? r).map .nullable
    else ofName? (c :: r).reverse

/-- The type called by a name or an alias, each question mark after it making it nullable. -/
def ofAlias? (name : Text) : Option TypeTag := ofReversed? (Text.trimStart name).reverse

/-! ## Parts -/

/-- The type without any mark of nullability. -/
def unwrapNullable : TypeTag → TypeTag
  | .nullable t => t.unwrapNullable
  | t           => t

/-- How many components a value has, for the small tuples. -/
def arity? : TypeTag → Option Nat
  | .tuple s => some s.arity
  | _        => none

def isVoid : TypeTag → Bool
  | .void => true
  | _     => false

/-- The texts of all values, for the types that have few. -/
def literals? (t : TypeTag) : Option (List Text) :=
  match t.unwrapNullable with
  | .bool   => some ["true", "false"]
  | .enum e => some e.members
  | _       => none

end TypeTag
end CommandConsole
