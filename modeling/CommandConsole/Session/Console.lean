import CommandConsole.Session.Prediction
/-!
# The console

A console is a session and the options it runs under.  It answers command lines with text, offers words while a line is
typed, and has its catalog rebuilt from the commands that a host declares.
-/
namespace CommandConsole

structure Options where
  /-- Are private members commands too? -/
  includePrivate : Bool := false
  context        : Context := .interactive
  /-- How many candidates are offered at once. -/
  maxCandidates  : Nat := 32
deriving DecidableEq

/-- The commands of a host, one list for each source of declarations; later sources take precedence. -/
abbrev Universe (κ : Type) [ComponentKind κ] := List (List (Descriptor κ))

structure Console (κ : Type) [ComponentKind κ] where
  session : Session κ
  options : Options

namespace Console

variable {κ : Type} [ComponentKind κ]

def catalog (c : Console κ) : Catalog κ := c.session.slot.catalog

/-- A console on a world, without commands. -/
def new (w : World κ) (o : Options) : Console κ := ⟨⟨w, .empty⟩, o⟩

/-- Puts another catalog in place. -/
def install (c : Console κ) (catalog : Catalog κ) : Console κ :=
  { c with session := { c.session with slot := c.session.slot.replace catalog } }

/-- Builds the catalog anew from the declared commands. -/
def rebuild (c : Console κ) (u : Universe κ) : Console κ :=
  c.install (.ofDescriptors c.options.includePrivate u.flatten)

def predict (c : Console κ) (line : Text) : List Text :=
  CommandConsole.predict c.catalog c.session.world c.options.maxCandidates line

def hint (c : Console κ) (line : Text) : Option Text := CommandConsole.hint c.catalog line

variable [DecidableEq κ]

/-- The answer to a line: the lines of the command's results, or one line with the refusal. -/
def answer : Except CommandError (List Text) → Text
  | .ok lines => Text.join "\n" lines
  | .error e  => errorLine e.message

/-- Runs one line and answers it. -/
def execute (c : Console κ) (line : Text) : Text × Console κ :=
  let (result, session) := c.session.run c.options.context line
  (answer result, { c with session := session })

end Console
end CommandConsole
