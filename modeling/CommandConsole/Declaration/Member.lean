import CommandConsole.Declaration.Signature
import CommandConsole.Catalog.Descriptor
/-!
# Commands of a declaration

A block of methods becomes one command for each marked method; a type with named fields becomes, for each marked field, a
command that reads it and one that writes it, or one that calls what it holds; a type that lists its values becomes the
information about them.  Commands come in the order of the declaration.
-/
namespace CommandConsole
namespace Declaration

/-- How a command reaches its member. -/
inductive Access where
  /-- Without an instance. -/
  | static
  | shared
  | exclusive
deriving DecidableEq, Repr

/-- A command as its declaration gives it. -/
structure Member where
  verb      : Verb
  name      : Text
  /-- The type that the member belongs to. -/
  owner     : Text
  /-- The values that the member is handed. -/
  inputs    : List Input
  /-- What a callable returns, or what a property holds. -/
  type      : TypeExpr
  /-- Fields say what they are; methods leave it to the verb. -/
  kind      : Option MemberKind
  access    : Access
  fallible  : Bool
  isPrivate : Bool
  forced    : Bool

/-- A command that needs no instance. -/
def Member.isStatic (m : Member) : Bool := m.access = .static

/-! ## Methods -/

/-- The instance that a method is called on. -/
structure Receiver where
  borrowed  : Bool
  exclusive : Bool

inductive Argument where
  | receiver (r : Receiver)
  /-- An input with its name, if its pattern is a name. -/
  | typed (name : Option Text) (type : TypeExpr)
  /-- Any number of further inputs, of which no command knows. -/
  | further

structure Method where
  attributes : List Attribute
  isPublic   : Bool
  name       : Text
  arguments  : List Argument
  output     : Option TypeExpr

/-- The receiver comes first. -/
def Method.receiver (m : Method) : Option Receiver :=
  match m.arguments with
  | .receiver r :: _ => some r
  | _                => none

def Method.access (m : Method) : Except Rejection Access :=
  match m.receiver with
  | none                => .ok .static
  | some ⟨false, _⟩     => .error .selfByValue
  | some ⟨true, true⟩   => .ok .exclusive
  | some ⟨true, false⟩  => .ok .shared

/-- A name is shown without the underscores it starts with. -/
def shownName (name : Text) : Text := name.dropWhile (· = '_')

/-- The inputs besides the receiver. -/
def Method.typed (m : Method) : List (Option Text × TypeExpr) :=
  m.arguments.filterMap fun
    | .typed name type => some (name.map shownName, type)
    | _                => none

/-- The command for a marked method. -/
def Method.member (m : Method) (owner : Text) (marker : Marker) : Except Rejection Member := do
  let access ← m.access
  let inputs ← declareInputs 0 m.typed
  let output ← Output.declare m.output
  let build (verb : Verb) (lead : Option Text) (type : TypeExpr) : Member :=
    { verb, name := marker.commandName m.name lead, owner, inputs, type, kind := none, access
      fallible := output.fallible, isPrivate := !m.isPublic, forced := marker.force }
  if marker.get then
    if !inputs.isEmpty || output.isVoid then .error .getSignature
    else return build .get (some "get_".toList) output.type
  else if marker.set then
    match inputs with
    | [input] => return build .set (some "set_".toList) input.type
    | _       => .error .setSignature
  else return build .call none output.type

/-- Methods of a type, perhaps those that a trait asks for. -/
structure MethodBlock where
  owner    : Text
  forTrait : Bool
  methods  : List Method

/-- The command for a method, if it is marked. -/
def Method.member? (m : Method) (owner : Text) : Except Rejection (Option Member) :=
  match findMarker m.attributes with
  | none   => .ok none
  | some a => do return some (← m.member owner (← a.marker))

/-- The commands of the marked methods, in order. -/
def methodMembers (owner : Text) : List Method → Except Rejection (List Member)
  | []     => .ok []
  | m :: l => do
    let member ← m.member? owner
    return member.toList ++ (← methodMembers owner l)

def MethodBlock.members (b : MethodBlock) : Except Rejection (List Member) :=
  if b.forTrait then .error .traitImpl else methodMembers b.owner b.methods

/-! ## Fields -/

structure Field where
  attributes : List Attribute
  isPublic   : Bool
  name       : Text
  type       : TypeExpr

/-- The commands for a marked field. -/
def Field.members (f : Field) (owner : Text) (marker : Marker) : Except Rejection (List Member) := do
  let build (verb : Verb) (kind : MemberKind) (inputs : List Input) (output : Output) (access : Access) : Member :=
    { verb, name := marker.commandName f.name none, owner, inputs, type := output.type, kind := some kind, access
      fallible := output.fallible, isPrivate := !f.isPublic, forced := marker.force }
  if marker.callback then
    let (inputs, output) ← callback f.type
    return [build .call .callback inputs output .shared]
  else
    let getter := build .get .field [] ⟨f.type, false⟩ .shared
    let setter := build .set .field [] ⟨f.type, false⟩ .exclusive
    return if marker.readonly then [getter] else [getter, setter]

/-- The commands for a field; none if it is not marked. -/
def Field.declared (f : Field) (owner : Text) : Except Rejection (List Member) :=
  match findMarker f.attributes with
  | none   => .ok []
  | some a => do
    let marker ← a.marker
    if marker.get || marker.set then .error .fieldProperty else f.members owner marker

/-- The commands of the marked fields, in order. -/
def fieldMembers (owner : Text) : List Field → Except Rejection (List Member)
  | []     => .ok []
  | f :: l => do
    let members ← f.declared owner
    return members ++ (← fieldMembers owner l)

/-! ## Types -/

/-- A value that an enumeration lists; `isPlain` if it carries no data, not even an empty list of it. -/
structure Variant where
  name    : Text
  isPlain : Bool
deriving DecidableEq, Repr

/-- What a type is made of. -/
inductive Shape where
  | named (fields : List Field)
  | tuple
  | empty
  | enumeration (variants : List Variant)

structure DataType where
  name      : Text
  isGeneric : Bool
  shape     : Shape

/-- The commands of the type's fields. -/
def DataType.members (d : DataType) : Except Rejection (List Member) :=
  match d.shape with
  | .named fields   => fieldMembers d.name fields
  | .enumeration _  => .error .notStruct
  | _               => .error .unnamedFields

/-- What the console knows of a type that lists its values. -/
def DataType.enumInfo (d : DataType) : Except Rejection EnumInfo :=
  match d.shape with
  | .enumeration variants =>
    if variants.isEmpty then .error .noVariants
    else if d.isGeneric then .error .genericEnum
    else if variants.all Variant.isPlain then .ok ⟨d.name, variants.map Variant.name⟩
    else .error .variantData
  | _ => .error .notEnum

end Declaration
end CommandConsole
