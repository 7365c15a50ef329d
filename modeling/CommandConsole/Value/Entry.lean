import CommandConsole.Number.Numeral
import CommandConsole.Value.Basic
/-!
# Entering values

A value is entered as text against a declared type.  `TypeTag.read` tries, in this order: null for a nullable type; comma
separated components for a tuple; the literals of a bool; the members of an enumeration; an object of the host by its name;
and else a number, a character or a string.  Blank characters around the text are ignored except in characters and strings.
-/
namespace CommandConsole

/-- Why a text is no value of the declared type. -/
inductive EntryError where
  | invalid (token : Text) (type : TypeTag)
  | components (token : Text) (shape : Shape) (got : Nat)
  | unknownMember (token : Text) (info : EnumInfo)
  | noObjectNamed (name : Text)
  | unsupported (type : Text)
deriving DecidableEq

def EntryError.message : EntryError → Text
  | .invalid t ty        => "cannot convert '" ++ t ++ "' to " ++ ty.text
  | .components t s got  =>
    "'" ++ t ++ "' has " ++ Text.ofNat got ++ " components, " ++ s.text ++ " needs " ++ Text.ofNat s.arity
  | .unknownMember t e   =>
    "'" ++ t ++ "' is not a member of " ++ e.name ++ " (expected one of: " ++ Text.join ", " e.members ++ ")"
  | .noObjectNamed n     => "no object named '" ++ n ++ "'"
  | .unsupported ty      => "values of type " ++ ty ++ " cannot be entered"

/-- How the objects of the host are found by name. -/
abbrev ObjectLookup := Text → Option ObjectRef

namespace Entry

def bool? (t : Text) : Option Bool :=
  let s := Text.trim t
  if s = "1" || Text.sameAscii s "true" then some true
  else if s = "0" || Text.sameAscii s "false" then some false
  else none

def signed? (w : Width) (t : Text) : Option Int64 :=
  match readInteger? (Text.trim t) with
  | some (negative, n) =>
    let i : Int := if negative then -(n : Int) else n
    if w.Signed i then some (Int64.ofInt i) else none
  | none => none

/-- An unsigned integer takes no minus sign, not even before zero. -/
def unsigned? (w : Width) (t : Text) : Option UInt64 :=
  match readInteger? (Text.trim t) with
  | some (false, n) => if w.Unsigned n then some (UInt64.ofNat n) else none
  | _               => none

/-- A single-precision float is read in double precision first; a finite number beyond its range is refused. -/
def single? (t : Text) : Option Float :=
  (readFloat? (Text.trim t)).bind (fun x =>
    match (Float.exact x).magnitude with
    | .finite m e =>
      if maxSingle.1 * pow2 (maxSingle.2 - e).toNat < m * pow2 (e - maxSingle.2).toNat then none else some (widen (narrow x))
    | _           => some (widen (narrow x)))

def char? : Text → Option Char
  | [c] => some c
  | _   => none

/-- The components of a tuple, or the first part that is no number. -/
def components (s : Shape) : List Text → Except EntryError (List Float32)
  | []      => .ok []
  | p :: ps =>
    match readFloat32? p with
    | some x => (components s ps).map (x :: ·)
    | none   => .error (.invalid p (.tuple s))

def tuple (s : Shape) (t : Text) : Except EntryError Value :=
  let parts := (Text.splitOn ',' t).map Text.trim
  if parts.length = s.arity then
    match components s parts with
    | .error e => .error e
    | .ok xs   =>
      if h : xs.length = s.arity then .ok (.tuple s ⟨xs.toArray, by simpa using h⟩)
      else .error (.components t s xs.length)
  else .error (.components t s parts.length)

end Entry

/-- The value, or the refusal that names the text and the type. -/
def TypeTag.orInvalid (t : TypeTag) (token : Text) (v : Option Value) : Except EntryError Value :=
  match v with
  | some v => .ok v
  | none   => .error (.invalid token t)

/-- Reads a text as a value of the declared type. -/
def TypeTag.read (find : ObjectLookup) : TypeTag → Text → Except EntryError Value
  | .nullable t, s =>
    let bare := Text.trim s
    if bare = [] || Text.sameAscii bare "null" then .ok .null else t.read find s
  | .tuple shape, s  => Entry.tuple shape s
  | .bool,        s  => TypeTag.bool.orInvalid s ((Entry.bool? s).map .bool)
  | .enum e,      s  =>
    match e.find? (Text.trim s) with
    | some i => .ok (.enum e i)
    | none   => .error (.unknownMember s e)
  | .object,      s  =>
    match find (Text.trim s) with
    | some o => .ok (.object o)
    | none   => .error (.noObjectNamed (Text.trim s))
  | .signed w,    s  => (TypeTag.signed w).orInvalid s ((Entry.signed? w s).map .int)
  | .unsigned w,  s  => (TypeTag.unsigned w).orInvalid s ((Entry.unsigned? w s).map .uint)
  | .single,      s  => TypeTag.single.orInvalid s ((Entry.single? s).map .float)
  | .double,      s  => TypeTag.double.orInvalid s ((readFloat? (Text.trim s)).map .float)
  | .char,        s  => TypeTag.char.orInvalid s ((Entry.char? s).map .char)
  | .string,      s  => .ok (.string s)
  | .void,        _  => .error (.unsupported TypeTag.void.text)

/-- Reads a text against a type given by name. -/
def readNamed (find : ObjectLookup) (typeName s : Text) : Except EntryError Value :=
  match TypeTag.ofAlias? typeName with
  | some t => t.read find s
  | none   => .error (.unsupported typeName)

end CommandConsole
