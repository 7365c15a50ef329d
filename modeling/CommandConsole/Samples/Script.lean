import CommandConsole.Catalog.Member
import CommandConsole.Samples.Kind
/-!
# Scripted members

A host may describe its commands as data: what a member does is an `Action` on a record.  The actions reach every way in
which member code can end: values, errors and panics, inside and outside of a component, with the component busy or of
another kind, and with the commands of the console taken away.
-/
namespace CommandConsole.Samples

inductive Action where
  | done
  /-- One of the values of the call. -/
  | arg (i : Nat)
  /-- The texts of all values. -/
  | join
  | value (v : Value)
  | fail (message : Text)
  | panic (message : Option Text)
  /-- A panic while the component is written. -/
  | panicWriting (message : Option Text)
  | field (name : Text)
  /-- Stores the first value and answers the old one. -/
  | store (name : Text)
  | count (name : Text)
  /-- Reads a component that is being written. -/
  | readWhileWriting
  /-- Writes a component that is being read. -/
  | writeWhileReading
  | readTwice
  /-- Reads a component that no object has. -/
  | foreign
  /-- Takes the first value into a type and gives it back. -/
  | convert (type : TypeTag)
  /-- Takes all commands away and answers how many there were. -/
  | wipe

/-- A field of a record, null where there is none. -/
def Record.get (r : Record) (name : Text) : Value := (r.find? name).getD .null

/-- What an action does to the record called `owner`, given the values of the call. -/
def Action.run (owner : Text) (values : List Value) : Action → Access Kind Value
  | .done             => pure .unit
  | .arg i            => valueAt values i
  | .join             => pure (.string (Text.join "|" (values.map Value.text)))
  | .value v          => pure v
  | .fail m           => .fail (.failed m)
  | .panic m          => .panic m
  | .panicWriting m   => .withMut (.record owner) (fun _ => .panic m)
  | .field f          => .read (.record owner) (fun r => Record.get r f)
  | .store f          => .withMut (.record owner) (fun r => do
      let v ← valueAt values 0
      Access.write (.record owner) (NameMap.insert f v r)
      return Record.get r f)
  | .count f          => .modify (.record owner) (fun r =>
      let n : Value := match Record.get r f with
        | .int i => .int (i + 1)
        | _      => .int 1
      (n, NameMap.insert f n r))
  | .readWhileWriting => .withMut (.record owner) (fun _ => .read (.record owner) (fun _ => .unit))
  | .writeWhileReading => .withRef (.record owner) (fun _ => .modify (.record owner) (fun r => (.unit, r)))
  | .readTwice        => .withRef (.record owner) (fun _ => .read (.record owner) (fun _ => .unit))
  | .foreign          => .read (.record "Foreign") (fun _ => .unit)
  | .convert t        => do
      let v ← valueAt values 0
      let x ← Access.ofExcept (t.fromValue v)
      return t.intoValue x
  | .wipe             => do
      let n ← Access.commandCount
      return .uint n.toUInt64

/-- The commands that an action puts in place of the current ones. -/
def Action.installs : Action → Option (List (Descriptor Kind))
  | .wipe => some []
  | _     => none

/-- A command of a record whose code is an action. -/
structure ScriptedMember where
  name      : Text
  owner     : Text
  verb      : Verb
  params    : List Parameter
  type      : TypeTag
  member    : Option MemberKind
  isStatic  : Bool
  isPrivate : Bool
  forced    : Bool
  action    : Action

def ScriptedMember.invoker (m : ScriptedMember) : Invoker Kind :=
  match m.verb with
  | .call => .call m.params m.type (fun vs => m.action.run m.owner vs)
  | .get  => .get m.type (m.action.run m.owner [])
  | .set  => .set m.type (fun v => do let _ ← m.action.run m.owner [v])

def ScriptedMember.descriptor (m : ScriptedMember) : Descriptor Kind :=
  { Descriptor.declare m.name (.record m.owner) (if m.verb = .call then .method else .property) m.invoker with
    member := m.member.getD (if m.verb = .call then .method else .property)
    isStatic := m.isStatic
    isPrivate := m.isPrivate
    forced := m.forced
    installs := fun _ _ _ _ => m.action.installs }

end CommandConsole.Samples
