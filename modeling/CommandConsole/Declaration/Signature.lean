import CommandConsole.Declaration.Marker
import CommandConsole.Declaration.TypeExpr
/-!
# Signatures

What a member takes and gives, as the console sees it.  A value that the member only borrows is converted to the owned type
and lent; a member that may fail gives what it gives when it does not.
-/
namespace CommandConsole
namespace Declaration

/-- A value that a member takes. -/
structure Input where
  name     : Text
  /-- The owned type that is converted from the console's value. -/
  type     : TypeExpr
  borrowed : Bool

/-- What a member gives. -/
structure Output where
  type     : TypeExpr
  fallible : Bool

/-- An input declared with a type.  Borrowed text is owned as text, anything else that is borrowed as what it refers to. -/
def Input.declare (name : Text) (type : TypeExpr) : Except Rejection Input :=
  match type with
  | .reference _ true _       => .error .exclusiveInput
  | .reference _ false target => .ok ⟨name, if target.isStr then .string else target, true⟩
  | .anonymous _              => .error .anonymousInput
  | _                         => .ok ⟨name, type, false⟩

/-- The type of success, for a path that ends in `Result` with a type among its arguments. -/
def TypeExpr.success? : TypeExpr → Option TypeExpr
  | .path _ (.generic name arguments) => if name = "Result".toList then arguments.findSome? id else none
  | _                                 => none

/-- What is given by a member declared to return a type, or nothing. -/
def Output.declare : Option TypeExpr → Except Rejection Output
  | none      => .ok ⟨.unit, false⟩
  | some type =>
    match type with
    | .reference .. => .error .borrowedOutput
    | _             =>
      match type.success? with
      | some success => .ok ⟨success, true⟩
      | none         => .ok ⟨type, false⟩

/-- Nothing is given, not even on success. -/
def Output.isVoid (o : Output) : Bool :=
  match o.type with
  | .unit => true
  | _     => false

/-- The name of an input that the declaration leaves without one. -/
def positional (i : Nat) : Text := "arg".toList ++ Text.ofNat i

/-- Inputs in order, those without a name called by their position, which is counted from `i`. -/
def declareInputs (i : Nat) : List (Option Text × TypeExpr) → Except Rejection (List Input)
  | []                => .ok []
  | (name, type) :: l => do
    let input ← Input.declare (name.getD (positional i)) type
    return input :: (← declareInputs (i + 1) l)

/-! ## Callbacks -/

/-- Names that a path to something called may end in: each owns or shares it. -/
def holders : List Text := ["Box", "Arc", "Rc"]

/-- What is taken and given by a field that is called: a pointer to a function, or something held that can be called any
number of times. -/
def callback (type : TypeExpr) : Except Rejection (List Input × Output) :=
  match type with
  | .function _ inputs output => do return (← declareInputs 0 inputs, ← Output.declare output)
  | .path _ (.generic holder (some (.object _ bounds) :: _)) =>
    if holders.contains holder then
      match bounds.find? fun bound => bound.name == "Fn".toList with
      | some (.call _ inputs output) => do
        return (← declareInputs 0 (inputs.map (none, ·)), ← Output.declare output)
      | _ => .error .callbackType
    else .error .callbackType
  | _ => .error .callbackType

end Declaration
end CommandConsole
