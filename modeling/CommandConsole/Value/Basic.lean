import CommandConsole.Number.Shortest
import CommandConsole.Value.TypeTag
/-!
# Values

A value is one piece of data on its way into or out of a command.  It carries less than a type tag tells: an integer knows
its sign but not its declared width, a float is always double precision except inside a tuple.
-/
namespace CommandConsole

/-- A host object carried in a value: which one, and the name it is shown by. -/
structure ObjectRef where
  id   : Nat
  name : Text
deriving DecidableEq

inductive Value where
  | null
  | unit
  | bool (b : Bool)
  | char (c : Char)
  | int (i : Int64)
  | uint (n : UInt64)
  | float (x : Float)
  | string (t : Text)
  | tuple (shape : Shape) (components : Vector Float32 shape.arity)
  | enum (info : EnumInfo) (index : Nat)
  | object (ref : ObjectRef)
deriving DecidableEq

namespace Value

/-- What sort of value it is, for messages. -/
def kindName : Value → Text
  | .null     => "null"
  | .unit     => "void"
  | .bool _   => "bool"
  | .char _   => "char"
  | .int _    => "signed integer"
  | .uint _   => "unsigned integer"
  | .float _  => "float"
  | .string _ => "string"
  | .tuple s _ => s.text
  | .enum e _ => e.name
  | .object _ => "object"

def boolText (b : Bool) : Text := if b then "true" else "false"

/-- The value as it is shown. -/
def text : Value → Text
  | .null      => "null"
  | .unit      => "()"
  | .bool b    => boolText b
  | .char c    => [c]
  | .int i     => Text.ofInt i.toInt
  | .uint n    => Text.ofNat n.toNat
  | .float x   => Float.text x
  | .string t  => t
  | .tuple _ c => "(" ++ Text.join ", " (c.toList.map Float32.text) ++ ")"
  | .enum e i  => e.memberText i
  | .object o  => o.name

end Value
end CommandConsole
