import CommandConsole.Catalog.Basic
import CommandConsole.Host.World
/-!
# Running a command

A command is run in two steps.  `Command.plan` makes every check that can refuse the command as a whole: it finds the
descriptor, the objects it applies to and the values it is given, and runs no member code.  `Plan.run` then runs the member
code once for each object, in order; an object that fails answers with an error line of its own and does not stop the
others.  The plan is made from one catalog and keeps its descriptor even if member code replaces the catalog.
-/
namespace CommandConsole

/-! ## Refusals and failures -/

/-- Why a command was refused as a whole. -/
inductive CommandError where
  | line (e : LineError)
  | target (e : TargetError)
  | entry (e : EntryError)
  | notFound (verb : Verb) (name : Text)
  | targetRequired (name : Text)
  | arity (name : Text) (expected got : Nat)
  | argument (param : Text) (e : EntryError)
deriving DecidableEq

def CommandError.message : CommandError → Text
  | .line e           => e.message
  | .target e         => e.message
  | .entry e          => e.message
  | .notFound v n     => "no command '" ++ n ++ "' accepts '" ++ v.text ++ "'"
  | .targetRequired n => "'" ++ n ++ "' needs a target (@name, @@name, #tag, ##tag or select)"
  | .arity n x g      =>
    "wrong number of arguments for '" ++ n ++ "': expected " ++ Text.ofNat x ++ ", got " ++ Text.ofNat g
  | .argument p e     => "invalid value for '" ++ p ++ "': " ++ e.message

/-- Why a command failed on one object. -/
inductive Failure where
  | missingComponent (object component : Text)
  | invocation (label : Text) (e : InvocationError)
  | panicked (label : Text) (message : Option Text)
deriving DecidableEq

def Failure.message : Failure → Text
  | .missingComponent o c => o ++ " has no " ++ c ++ " component"
  | .invocation l e       => l ++ ": " ++ e.message
  | .panicked l m         => l ++ " panicked: " ++ m.getD "unknown panic"

/-- The line that tells of an error. -/
def errorLine (message : Text) : Text := "Error: " ++ message

variable {κ : Type} [ComponentKind κ]

/-! ## Prepared code -/

/-- Member code together with the values it is given. -/
inductive Prepared (κ : Type) [ComponentKind κ] where
  | call (values : List Value) (returns : TypeTag) (run : List Value → Access κ Value)
  | get (run : Access κ Value)
  | set (value : Value) (run : Value → Access κ Unit)

def Prepared.values : Prepared κ → List Value
  | .call vs _ _ => vs
  | .get _       => []
  | .set v _     => [v]

/-- Runs the code and says what it did, `label` naming the command. -/
def Prepared.answer (label : Text) : Prepared κ → Access κ Text
  | .get run => do
    let v ← run
    return label ++ " = " ++ v.text
  | .set v run => do
    run v
    return label ++ " set to " ++ v.text
  | .call vs returns run => do
    let v ← run vs
    return if returns.isVoid then "Called " ++ label else label ++ " returned " ++ v.text

/-- Reads the arguments of a callable, one for each parameter. -/
def readArguments (find : ObjectLookup) : List Parameter → List Text → Except CommandError (List Value)
  | p :: ps, t :: ts =>
    match p.type.read find t with
    | .ok v    => (readArguments find ps ts).map (v :: ·)
    | .error e => .error (.argument p.name e)
  | _,       _       => .ok []

/-- Makes member code ready to run on the given texts; `name` names the command in refusals. -/
def Invoker.prepare (find : ObjectLookup) (name : Text) (args : List Text) : Invoker κ → Except CommandError (Prepared κ)
  | .get _ run          => .ok (.get run)
  | .set type run       =>
    match args with
    | []     => .error (.arity name 1 0)
    | t :: _ =>
      match type.read find t with
      | .ok v    => .ok (.set v run)
      | .error e => .error (.entry e)
  | .call ps returns run =>
    if ps.length = args.length then (readArguments find ps args).map (.call · returns run)
    else .error (.arity name ps.length args.length)

/-! ## Plans -/

/-- A command that nothing refuses: what will run, and on which objects; on none for a static command. -/
structure Plan (κ : Type) [ComponentKind κ] where
  descriptor : Descriptor κ
  targets    : Option (List Nat)
  prepared   : Prepared κ

/-- The objects that a command applies to.  A static command ignores its selector. -/
def Descriptor.targets (d : Descriptor κ) (w : World κ) (context : Context) (selector : Option Selector) :
    Except CommandError (Option (List Nat)) :=
  if d.isStatic then .ok none
  else
    match selector with
    | none   => .error (.targetRequired d.name)
    | some s =>
      match s.resolve w context with
      | .ok is   => .ok (some is)
      | .error e => .error (.target e)

/-- Every check on a command, in the order in which they refuse. -/
def Command.plan (catalog : Catalog κ) (w : World κ) (context : Context) (c : Command) : Except CommandError (Plan κ) :=
  match catalog.lookup c.name c.verb with
  | none   => .error (.notFound c.verb c.name)
  | some d =>
    match d.targets w context c.target with
    | .error e => .error e
    | .ok ts   => (d.invoker.prepare w.lookup d.name c.args).map (⟨d, ts, ·⟩)

/-! ## Sessions -/

/-- What commands change: the objects, and the current catalog. -/
structure Session (κ : Type) [ComponentKind κ] where
  world : World κ
  slot  : Slot κ

/-- The line for a reply; `label` names the command. -/
def Reply.line (label : Text) : Reply Text → Text
  | .value t => t
  | .error e => errorLine (Failure.invocation label e).message
  | .panic m => errorLine (Failure.panicked label m).message

namespace Plan

/-- The session's slot after the member has run. -/
def slotAfter (p : Plan κ) (slot : Slot κ) (target : Target p.descriptor.owner) : Slot κ :=
  match p.descriptor.installs p.prepared.values slot.catalog.size p.descriptor.owner target with
  | some ds => slot.replace (.ofDescriptors true ds)
  | none    => slot

/-- Runs the code of a static command. -/
def runStatic (p : Plan κ) (s : Session κ) : Text × Session κ :=
  let label := p.descriptor.name
  let reply := (p.prepared.answer label s.slot.catalog.size p.descriptor.owner none).1
  (reply.line label, { s with slot := p.slotAfter s.slot none })

variable [DecidableEq κ]

/-- Runs the code on the object at place `i`. -/
def runOn (p : Plan κ) (s : Session κ) (i : Nat) : Text × Session κ :=
  let owner := p.descriptor.owner
  let object := s.world.nameAt i
  match s.world.component? i owner with
  | none      => (errorLine (Failure.missingComponent object p.descriptor.ownerName).message, s)
  | some cell =>
    let label := object ++ "." ++ p.descriptor.name
    let (reply, after) := p.prepared.answer label s.slot.catalog.size owner (some cell)
    let world := match after with
      | some c => s.world.putComponent i owner c
      | none   => s.world
    (reply.line label, ⟨world, p.slotAfter s.slot (some cell)⟩)

/-- Runs the code on several objects, one after the other. -/
def runEach (p : Plan κ) : Session κ → List Nat → List Text × Session κ
  | s, []      => ([], s)
  | s, i :: is =>
    let (line, s) := p.runOn s i
    let (lines, s) := p.runEach s is
    (line :: lines, s)

/-- Runs the code: one line for each object, or one for a static command. -/
def run (p : Plan κ) (s : Session κ) : List Text × Session κ :=
  match p.targets with
  | none    => let (line, s) := p.runStatic s; ([line], s)
  | some is => p.runEach s is

end Plan

variable [DecidableEq κ]

/-- Runs a command against the session's current catalog: its lines, or the refusal, which leaves the session alone. -/
def Command.run (context : Context) (c : Command) (s : Session κ) : Except CommandError (List Text) × Session κ :=
  match c.plan s.slot.catalog s.world context with
  | .error e => (.error e, s)
  | .ok p    => let (lines, s) := p.run s; (.ok lines, s)

/-- Reads a line and runs it. -/
def Session.run (context : Context) (line : Text) (s : Session κ) : Except CommandError (List Text) × Session κ :=
  match Command.parse line with
  | .error e => (.error (.line e), s)
  | .ok c    => c.run context s

end CommandConsole
