import CommandConsole.Catalog.Descriptor
/-!
# Members with typed code

Member code is written against typed data.  A `Field` is one stored datum of a component; `Field.getter` and `Field.setter`
are the two commands that show and change it.  `argument` takes one of the values of a call into its type.
-/
namespace CommandConsole

variable {κ : Type} [ComponentKind κ]

/-- One of the values of a call; a place beyond them panics. -/
def valueAt (values : List Value) (i : Nat) : Access κ Value :=
  match values[i]? with
  | some v => pure v
  | none   =>
    .panic (some
      ("index out of bounds: the len is " ++ Text.ofNat values.length ++ " but the index is " ++ Text.ofNat i))

/-- One of the values of a call, in the type that the tag stands for. -/
def argument (t : TypeTag) (values : List Value) (i : Nat) : Access κ t.Carrier := do
  let v ← valueAt values i
  Access.ofExcept (t.fromValue v)

/-- One stored datum of the components of kind `k`. -/
structure Field (κ : Type) [ComponentKind κ] (k : κ) where
  name : Text
  type : TypeTag
  get  : State k → type.Carrier
  set  : type.Carrier → State k → State k

namespace Field

variable [DecidableEq κ] {k : κ}

/-- The command that shows the field. -/
def getter (f : Field κ k) : Descriptor κ :=
  (Descriptor.getter f.name k f.type (Access.read k (fun s => f.type.intoValue (f.get s)))).as .field

/-- The command that changes the field. -/
def setter (f : Field κ k) : Descriptor κ :=
  (Descriptor.setter f.name k f.type (fun v => do
    let x ← Access.ofExcept (f.type.fromValue v)
    Access.modify k (fun s => ((), f.set x s)))).as .field

end Field
end CommandConsole
