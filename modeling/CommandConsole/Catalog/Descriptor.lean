import CommandConsole.Host.Component
import CommandConsole.Command.Line
import CommandConsole.Text.Blank
import CommandConsole.Text.Lowercase
/-!
# Commands as they are declared

A descriptor is the record of one declared command: its name, the kind of component it belongs to, who may see it, and the
member code with its signature.  The verb that reaches a command follows from its code: a getter is reached by `get`, a
setter by `set`, anything else by `call`.
-/
namespace CommandConsole

/-- What a command was declared as. -/
inductive MemberKind where
  | method | property | field | callback
deriving DecidableEq, Repr

def MemberKind.label : MemberKind → Text
  | .method   => "method"
  | .property => "property"
  | .field    => "field"
  | .callback => "callback"

structure Parameter where
  name : Text
  type : TypeTag
deriving DecidableEq

def Parameter.text (p : Parameter) : Text := p.type.text ++ " " ++ p.name

/-- Member code and its signature. -/
inductive Invoker (κ : Type) [ComponentKind κ] where
  | call (params : List Parameter) (returns : TypeTag) (run : List Value → Access κ Value)
  | get (type : TypeTag) (run : Access κ Value)
  | set (type : TypeTag) (run : Value → Access κ Unit)

structure Descriptor (κ : Type) [ComponentKind κ] where
  name      : Text
  member    : MemberKind
  owner     : κ
  isStatic  : Bool
  isPrivate : Bool
  /-- Seen although it is private. -/
  forced    : Bool
  invoker   : Invoker κ
  /-- The commands that take the place of all others once the member has run on these values, with so many commands
  offered and this component at hand; nothing for a member that leaves the console alone. -/
  installs  : List Value → Nat → (k : κ) → Target k → Option (List (Descriptor κ))

variable {κ : Type} [ComponentKind κ]

def Invoker.verb : Invoker κ → Verb
  | .call .. => .call
  | .get ..  => .get
  | .set ..  => .set

/-- The parameters of a callable; none for a property. -/
def Invoker.params : Invoker κ → List Parameter
  | .call ps .. => ps
  | _           => []

/-- What a callable returns, or what a property holds. -/
def Invoker.type : Invoker κ → TypeTag
  | .call _ t _ => t
  | .get t _    => t
  | .set t _    => t

/-- Names are kept trimmed and in lowercase. -/
def canonicalName (name : Text) : Text := Text.lower (Text.trim name)

namespace Descriptor

/-! ## Declaring -/

/-- A public command of an instance, as it is declared unless it says otherwise. -/
def declare (name : Text) (owner : κ) (member : MemberKind) (invoker : Invoker κ) : Descriptor κ where
  name := canonicalName name
  member := member
  owner := owner
  isStatic := false
  isPrivate := false
  forced := false
  invoker := invoker
  installs := fun _ _ _ _ => none

def callable (name : Text) (owner : κ) (params : List Parameter) (returns : TypeTag)
    (run : List Value → Access κ Value) : Descriptor κ :=
  declare name owner .method (.call params returns run)

def getter (name : Text) (owner : κ) (type : TypeTag) (run : Access κ Value) : Descriptor κ :=
  declare name owner .property (.get type run)

def setter (name : Text) (owner : κ) (type : TypeTag) (run : Value → Access κ Unit) : Descriptor κ :=
  declare name owner .property (.set type run)

/-- The same command without an instance. -/
def static (d : Descriptor κ) : Descriptor κ := { d with isStatic := true }

def hidden (d : Descriptor κ) : Descriptor κ := { d with isPrivate := true }

def force (d : Descriptor κ) : Descriptor κ := { d with forced := true }

def as (d : Descriptor κ) (member : MemberKind) : Descriptor κ := { d with member := member }

/-! ## Reading -/

def verb (d : Descriptor κ) : Verb := d.invoker.verb

def ownerName (d : Descriptor κ) : Text := ComponentKind.name d.owner

/-- Is the command offered, where private ones are or are not? -/
def visible (d : Descriptor κ) (includePrivate : Bool) : Bool := !d.isPrivate || includePrivate || d.forced

/-- The signature of a command: what it is, what it takes and what it gives. -/
def signature (d : Descriptor κ) : Text :=
  let qualifier : Text := if d.isStatic then "static " else ""
  let label : Text := "(" ++ qualifier ++ d.member.label ++ ")"
  match d.invoker with
  | .call ps t _ =>
    let result : Text := if t.isVoid then "" else " returns " ++ t.text
    label ++ " (" ++ Text.join ", " (ps.map Parameter.text) ++ ")" ++ result
  | .get t _     => label ++ " " ++ t.text
  | .set t _     => label ++ " " ++ t.text

end Descriptor
end CommandConsole
