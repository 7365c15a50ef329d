import CommandConsole.Catalog.Descriptor
import CommandConsole.Catalog.NameMap
/-!
# The catalog of commands

A catalog holds the commands that a console offers, one map for each verb, together with the owner of each name and
whether the name needs an instance.  It is built from a list of descriptors; of several under one name and verb the last
counts.  A console keeps its current catalog in a slot, whose generation tells one catalog from the next.
-/
namespace CommandConsole

structure Catalog (κ : Type) [ComponentKind κ] where
  calls   : NameMap (Descriptor κ)
  gets    : NameMap (Descriptor κ)
  sets    : NameMap (Descriptor κ)
  owners  : NameMap κ
  statics : NameMap Bool

variable {κ : Type} [ComponentKind κ]

namespace Catalog

def empty : Catalog κ := ⟨.empty, .empty, .empty, .empty, .empty⟩

/-! ## Building -/

def insert (c : Catalog κ) (d : Descriptor κ) : Catalog κ :=
  let c := { c with owners := c.owners.insert d.name d.owner, statics := c.statics.insert d.name d.isStatic }
  match d.verb with
  | .call => { c with calls := c.calls.insert d.name d }
  | .get  => { c with gets := c.gets.insert d.name d }
  | .set  => { c with sets := c.sets.insert d.name d }

/-- The catalog of the visible ones among `ds`. -/
def ofDescriptors (includePrivate : Bool) (ds : List (Descriptor κ)) : Catalog κ :=
  (ds.filter (·.visible includePrivate)).foldl insert empty

/-! ## Reading -/

/-- The commands that a verb reaches, by name. -/
def forVerb (c : Catalog κ) : Verb → NameMap (Descriptor κ)
  | .call => c.calls
  | .get  => c.gets
  | .set  => c.sets

/-- The command that a verb reaches under a name, in any case. -/
def lookup (c : Catalog κ) (name : Text) (v : Verb) : Option (Descriptor κ) :=
  match (c.forVerb v).find? name with
  | some d => some d
  | none   => (c.forVerb v).find? (Text.lower name)

/-- How many commands there are. -/
def size (c : Catalog κ) : Nat := c.calls.size + c.gets.size + c.sets.size

def isEmpty (c : Catalog κ) : Bool := c.size == 0

/-- The names of all commands, each once, ascending. -/
def names (c : Catalog κ) : List Text := Text.sortedDistinct (c.calls.names ++ c.gets.names ++ c.sets.names)

def ownerOf? (c : Catalog κ) (name : Text) : Option κ := c.owners.find? name

def isStatic? (c : Catalog κ) (name : Text) : Option Bool := c.statics.find? name

/-- The signature under a name: that of the callable if there is one, else of the getter, else of the setter. -/
def signature? (c : Catalog κ) (name : Text) : Option Text :=
  ([Verb.call, .get, .set].findSome? (c.lookup name)).map Descriptor.signature

end Catalog

/-! ## The slot -/

structure Slot (κ : Type) [ComponentKind κ] where
  catalog    : Catalog κ
  generation : Nat

namespace Slot

def empty : Slot κ := ⟨.empty, 0⟩

/-- Puts a catalog in the place of the current one. -/
def replace (s : Slot κ) (c : Catalog κ) : Slot κ := ⟨c, s.generation + 1⟩

end Slot
end CommandConsole
