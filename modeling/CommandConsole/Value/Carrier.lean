import CommandConsole.Value.Basic
/-!
# Typed data behind the tags

Every tag stands for a type of its own, `TypeTag.Carrier`, in which member code computes.  `TypeTag.fromValue` takes a value
into that type and refuses what does not belong there; `TypeTag.intoValue` gives it back.  An integer moves between the
signed and the unsigned carrier when it lies in the range of the type, and is refused otherwise.
-/
namespace CommandConsole

/-- Why member code could not do its work. -/
inductive InvocationError where
  /-- A member that needs an instance ran without one. -/
  | missingTarget
  /-- The instance's component is not the one the member belongs to. -/
  | wrongOwner (component : Text)
  /-- The component is in use further up. -/
  | busy (component : Text)
  | mismatch (expected found : Text)
  | failed (message : Text)
deriving DecidableEq

def InvocationError.message : InvocationError → Text
  | .missingTarget  => "no target instance was supplied"
  | .wrongOwner c   => "target does not carry a " ++ c ++ " component"
  | .busy c         => c ++ " component is already borrowed"
  | .mismatch e f   => "expected " ++ e ++ ", found " ++ f
  | .failed m       => m

namespace TypeTag

/-- The type of the data that a tag stands for. -/
def Carrier : TypeTag → Type
  | .void       => Unit
  | .bool       => Bool
  | .char       => Char
  | .signed w   => { i : Int // w.Signed i }
  | .unsigned w => { i : Int // w.Unsigned i }
  | .single     => Float32
  | .double     => Float
  | .string     => Text
  | .tuple s    => Vector Float32 s.arity
  | .enum e     => Fin e.members.length
  | .object     => ObjectRef
  | .nullable t => Option t.Carrier

/-- The name under which a tag refuses a value: both float types answer as the wider one. -/
def expectedName : TypeTag → Text
  | .single => TypeTag.double.text
  | t       => t.text

def mismatch (t : TypeTag) (v : Value) : InvocationError := .mismatch t.expectedName v.kindName

def outOfRange (t : TypeTag) (v : Value) : InvocationError := .failed (v.text ++ " is out of range for " ++ t.text)

/-- The number in either integer carrier. -/
def integer? : Value → Option Int
  | .int i  => some i.toInt
  | .uint n => some n.toNat
  | _       => none

/-- The number in any numeric carrier, as a double-precision float. -/
def number? : Value → Option Float
  | .float x => some x
  | .int i   => some (floatOfInt i.toInt)
  | .uint n  => some (floatOfInt n.toNat)
  | _        => none

/-- The member that a value names: by place in an enumeration of the same name, or by the member's name. -/
def member? (e : EnumInfo) : Value → Option (Fin e.members.length)
  | .enum f i  => if h : f.name = e.name ∧ i < e.members.length then some ⟨i, h.2⟩ else none
  | .string t  => (e.find? t).bind (fun i => if h : i < e.members.length then some ⟨i, h⟩ else none)
  | _          => none

/-- Takes a value into the type that the tag stands for. -/
def fromValue : (t : TypeTag) → Value → Except InvocationError t.Carrier
  | .void, v =>
    match v with
    | .unit | .null => .ok ()
    | _             => .error (mismatch .void v)
  | .bool, v =>
    match v with
    | .bool b => .ok b
    | _       => .error (mismatch .bool v)
  | .char, v =>
    match v with
    | .char c => .ok c
    | _       => .error (mismatch .char v)
  | .signed w, v =>
    match integer? v with
    | some i => if h : w.Signed i then .ok ⟨i, h⟩ else .error (outOfRange (.signed w) v)
    | none   => .error (mismatch (.signed w) v)
  | .unsigned w, v =>
    match integer? v with
    | some i => if h : w.Unsigned i then .ok ⟨i, h⟩ else .error (outOfRange (.unsigned w) v)
    | none   => .error (mismatch (.unsigned w) v)
  | .single, v =>
    match number? v with
    | some x => .ok (narrow x)
    | none   => .error (mismatch .single v)
  | .double, v =>
    match number? v with
    | some x => .ok x
    | none   => .error (mismatch .double v)
  | .string, v =>
    match v with
    | .string t => .ok t
    | _         => .error (mismatch .string v)
  | .tuple s, v =>
    match v with
    | .tuple s' c => if h : s' = s then .ok (h ▸ c) else .error (mismatch (.tuple s) v)
    | _           => .error (mismatch (.tuple s) v)
  | .enum e, v =>
    match member? e v with
    | some i => .ok i
    | none   => .error (mismatch (.enum e) v)
  | .object, v =>
    match v with
    | .object o => .ok o
    | _         => .error (mismatch .object v)
  | .nullable t, v =>
    match v with
    | .null => .ok none
    | _     => (t.fromValue v).map some

/-- Gives typed data back as a value.  A single-precision float is widened by its shortest digits. -/
def intoValue : (t : TypeTag) → t.Carrier → Value
  | .void,       _      => .unit
  | .bool,       b      => .bool b
  | .char,       c      => .char c
  | .signed _,   i      => .int (Int64.ofInt i.val)
  | .unsigned _, i      => .uint (UInt64.ofNat i.val.toNat)
  | .single,     x      => .float (widen x)
  | .double,     x      => .float x
  | .string,     t      => .string t
  | .tuple s,    c      => .tuple s c
  | .enum e,     i      => .enum e i.val
  | .object,     o      => .object o
  | .nullable t, some x => t.intoValue x
  | .nullable _, none   => .null

end TypeTag
end CommandConsole
