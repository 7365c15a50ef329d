import CommandConsole.Host.Component
import CommandConsole.Value.Entry
import CommandConsole.Command.Line
/-!
# The host's objects

A world lists the objects of a host in order.  An object is known by its place in that list, so that two objects may share
a name.  Names and tags match exactly; the selection is a list of places, in the order of selecting.

Selectors are resolved against this list alone (`Selector.resolve`, `World.lookup`): the first object with a name or a tag is
the first of all that have it.  A host that finds its objects by other rules is not described here.
-/
namespace CommandConsole

structure Entity (κ : Type) [ComponentKind κ] where
  name       : Text
  tag        : Text
  components : ComponentSet κ

structure World (κ : Type) [ComponentKind κ] where
  entities   : List (Entity κ)
  selected   : List Nat
  /-- The names that are offered while a selector is typed. -/
  knownNames : List Text
  /-- The tags that are offered while a selector is typed. -/
  knownTags  : List Text

namespace World

variable {κ : Type} [ComponentKind κ]

/-- A host without objects. -/
def empty : World κ := ⟨[], [], [], []⟩

/-- A world that offers every name and tag it has. -/
def ofEntities (es : List (Entity κ)) (selected : List Nat) : World κ :=
  ⟨es, selected, Text.sortedDistinct (es.map Entity.name), Text.sortedDistinct (es.map Entity.tag)⟩

/-- The places of the objects that satisfy `p`. -/
def places (w : World κ) (p : Entity κ → Bool) : List Nat := (w.entities.zipIdx.filter (fun e => p e.1)).map Prod.snd

def named (w : World κ) (name : Text) : List Nat := w.places (fun e => e.name == name)

def tagged (w : World κ) (tag : Text) : List Nat := w.places (fun e => e.tag == tag)

/-- The places of the selected objects; one that does not exist is passed over. -/
def selection (w : World κ) : List Nat := w.selected.filter (fun i => decide (i < w.entities.length))

/-- The name of the object at a place. -/
def nameAt (w : World κ) (i : Nat) : Text := ((w.entities[i]?).map Entity.name).getD []

/-- The first object with a name, as a value carries it. -/
def lookup (w : World κ) : ObjectLookup := fun name => (w.named name).head?.map (fun i => ⟨i, name⟩)

variable [DecidableEq κ]

/-- The component of kind `k` of the object at place `i`. -/
def component? (w : World κ) (i : Nat) (k : κ) : Option (Cell (State k)) :=
  (w.entities[i]?).bind (fun e => e.components.find? k)

/-- Puts a cell back into the object at place `i`. -/
def putComponent (w : World κ) (i : Nat) (k : κ) (cell : Cell (State k)) : World κ :=
  { w with entities := w.entities.modify i (fun e => { e with components := e.components.put k cell }) }

end World

/-! ## Selecting -/

/-- Where commands come from: an interactive host has a selection, a running program has none. -/
inductive Context where
  | interactive | runtime
deriving DecidableEq, Repr

/-- Why a selector reaches no object. -/
inductive TargetError where
  | noObjectNamed (name : Text)
  | noObjectTagged (tag : Text)
  | selectionUnavailable
  | emptySelection
deriving DecidableEq

def TargetError.message : TargetError → Text
  | .noObjectNamed n      => "no object named '" ++ n ++ "'"
  | .noObjectTagged t     => "no object tagged '" ++ t ++ "'"
  | .selectionUnavailable => "'select' is only available in an interactive context"
  | .emptySelection       => "nothing is selected"

/-- A list of places that must not be empty. -/
def orRefuse (places : List Nat) (e : TargetError) : Except TargetError (List Nat) :=
  if places = [] then .error e else .ok places

/-- The places of the objects that a selector reaches, in the order of the host. -/
def Selector.resolve {κ : Type} [ComponentKind κ] (w : World κ) (context : Context) :
    Selector → Except TargetError (List Nat)
  | .marked .name n     => orRefuse ((w.named n).take 1) (.noObjectNamed n)
  | .marked .allNames n => orRefuse (w.named n) (.noObjectNamed n)
  | .marked .tag t      => orRefuse ((w.tagged t).take 1) (.noObjectTagged t)
  | .marked .allTags t  => orRefuse (w.tagged t) (.noObjectTagged t)
  | .selection          =>
    match context with
    | .runtime     => .error .selectionUnavailable
    | .interactive => orRefuse w.selection .emptySelection

end CommandConsole
