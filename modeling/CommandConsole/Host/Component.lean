import CommandConsole.Value.Carrier
/-!
# Components and the code that reaches them

The objects of a host are made of components.  Which kinds there are is the host's choice: an index type `κ` with a state
and a name for each kind.  An object holds at most one component of a kind, in a cell that knows whether it is in use.

Member code is an `Access`: it is handed at most one cell, answers with a value, an error or a panic, and leaves the cell
with some content.  `withRef` and `withMut` are its only ways to the content; both give the cell back as free as they found
it, whatever happens in between.

What a host keeps outside its objects is not described here: code that runs without an instance is handed nothing that it
could leave for a later run.
-/
namespace CommandConsole

/-- The kinds of component that a host's objects are made of. -/
class ComponentKind (κ : Type) where
  /-- What a component of this kind holds. -/
  State : κ → Type
  /-- What it is called in messages. -/
  name  : κ → Text

export ComponentKind (State)

variable {κ : Type} [ComponentKind κ]

/-! ## Cells -/

/-- Who is using a cell: no one, readers, or one writer. -/
inductive Borrow where
  | free | shared | exclusive
deriving DecidableEq, Repr

structure Cell (σ : Type) where
  content : σ
  borrow  : Borrow

/-- A cell that no one uses. -/
def Cell.ofContent {σ : Type} (s : σ) : Cell σ := ⟨s, .free⟩

/-- What member code of kind `k` is handed: a cell, or nothing if it runs without an instance. -/
abbrev Target (k : κ) : Type := Option (Cell (State k))

/-! ## Sets of components -/

/-- The components of one object, in the order in which their kinds came. -/
structure ComponentSet (κ : Type) [ComponentKind κ] where
  slots : List ((k : κ) × Cell (State k))

namespace ComponentSet

def empty : ComponentSet κ := ⟨[]⟩

variable [DecidableEq κ]

def putSlot (k : κ) (cell : Cell (State k)) : List ((k : κ) × Cell (State k)) → List ((k : κ) × Cell (State k))
  | []      => [⟨k, cell⟩]
  | s :: ss => if s.1 = k then ⟨k, cell⟩ :: ss else s :: putSlot k cell ss

def findSlot (k : κ) : List ((k : κ) × Cell (State k)) → Option (Cell (State k))
  | []      => none
  | s :: ss => if h : s.1 = k then some (h ▸ s.2) else findSlot k ss

/-- Puts a cell where the component of its kind is, or last if there is none. -/
def put (k : κ) (cell : Cell (State k)) (c : ComponentSet κ) : ComponentSet κ := ⟨putSlot k cell c.slots⟩

/-- Adds a component; it takes the place of one of its kind. -/
def insert (k : κ) (s : State k) (c : ComponentSet κ) : ComponentSet κ := c.put k (Cell.ofContent s)

def find? (k : κ) (c : ComponentSet κ) : Option (Cell (State k)) := findSlot k c.slots

def contains (k : κ) (c : ComponentSet κ) : Bool := c.slots.any (fun s => s.1 = k)

def size (c : ComponentSet κ) : Nat := c.slots.length

def isEmpty (c : ComponentSet κ) : Bool := c.slots.isEmpty

end ComponentSet

/-! ## Member code -/

/-- How member code ends. -/
inductive Reply (α : Type) where
  | value (a : α)
  | error (e : InvocationError)
  /-- A panic, with its message if that is a text. -/
  | panic (message : Option Text)

/-- Code that runs on at most one component, and may ask how many commands the console offers. -/
def Access (κ : Type) [ComponentKind κ] (α : Type) : Type :=
  (commandCount : Nat) → (k : κ) → Target k → Reply α × Target k

namespace Access

variable {α β : Type}

def pure (a : α) : Access κ α := fun _ _ t => (.value a, t)

def bind (x : Access κ α) (f : α → Access κ β) : Access κ β := fun n k t =>
  match x n k t with
  | (.value a, t) => f a n k t
  | (.error e, t) => (.error e, t)
  | (.panic m, t) => (.panic m, t)

instance : Monad (Access κ) where
  pure := pure
  bind := bind

def fail (e : InvocationError) : Access κ α := fun _ _ t => (.error e, t)

def panic (message : Option Text) : Access κ α := fun _ _ t => (.panic message, t)

/-- A conversion that member code makes on its way. -/
def ofExcept : Except InvocationError α → Access κ α
  | .ok a    => pure a
  | .error e => fail e

/-- How many commands the console offers now. -/
def commandCount : Access κ Nat := fun n _ t => (.value n, t)

variable [DecidableEq κ]

/-- Runs `body` on the content of the component of kind `j`, the cell being used as `use` while it runs; `free` says from
which states of the cell that is allowed. -/
def borrow (use : Borrow) (allowed : Borrow → Bool) (j : κ) (body : State j → Access κ α) : Access κ α := fun n k t =>
  match t with
  | none      => (.error .missingTarget, none)
  | some cell =>
    if h : k = j then
      if allowed cell.borrow then
        let (reply, after) := body (h ▸ cell.content) n k (some { cell with borrow := use })
        (reply, after.map (fun c => { c with borrow := cell.borrow }))
      else (.error (.busy (ComponentKind.name j)), some cell)
    else (.error (.wrongOwner (ComponentKind.name j)), some cell)

/-- Reads a component, beside other readers but not while it is written. -/
def withRef (j : κ) (body : State j → Access κ α) : Access κ α := borrow .shared (· != .exclusive) j body

/-- Writes a component, while no one else uses it. -/
def withMut (j : κ) (body : State j → Access κ α) : Access κ α := borrow .exclusive (· == .free) j body

/-- Replaces the content of the component of kind `j`, inside `withMut`. -/
def write (j : κ) (s : State j) : Access κ Unit := fun _ k t =>
  (.value (), if h : k = j then t.map (fun c => { c with content := h ▸ s }) else t)

/-- A reading that only computes. -/
def read (j : κ) (f : State j → α) : Access κ α := withRef j (fun s => pure (f s))

/-- A writing that only computes: the answer and the new content from the old one. -/
def modify (j : κ) (f : State j → α × State j) : Access κ α := withMut j (fun s => do
  write j (f s).2
  pure (f s).1)

end Access
end CommandConsole
