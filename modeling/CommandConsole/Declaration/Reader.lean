import CommandConsole.Declaration.Tree
/-!
# Readers

A reader takes trees from the start of a list and gives what it makes of them; it fails where something else stands.  The
readers here take single trees and give their text.
-/
namespace CommandConsole
namespace Declaration

abbrev Reader := StateT (List Tree) Option

namespace Reader

/-- The trees that are still to be read. -/
def ahead : Reader (List Tree) := get

/-- Goes on with these trees. -/
def goOn (ts : List Tree) : Reader Unit := set ts

/-- Takes the sign. -/
def sign (s : Text) : Reader Text := do
  match ← ahead with
  | .sign t :: ts => if t = s then goOn ts; return s else failure
  | _             => failure

/-- Takes the word. -/
def word (w : Text) : Reader Text := do
  match ← ahead with
  | .word t :: ts => if t = w then goOn ts; return w else failure
  | _             => failure

/-- Takes any word. -/
def anyWord : Reader Text := do
  match ← ahead with
  | .word t :: ts => goOn ts; return t
  | _             => failure

/-- Takes a lifetime. -/
def lifetime : Reader Text := do
  match ← ahead with
  | .lifetime t :: ts => goOn ts; return t
  | _                 => failure

/-- Takes a literal text. -/
def literalText : Reader Text := do
  match ← ahead with
  | .quoted t _ :: ts => goOn ts; return t
  | _                 => failure

/-- What `r` takes, or no text where it fails. -/
def perhaps (r : Reader Text) : Reader Text := r <|> pure []

/-- What `r` makes of the trees in a bracket, all of which it takes. -/
def within {α : Type} (inner : List Tree) (r : Reader α) : Reader α := fun ts =>
  match r inner with
  | some (a, []) => some (a, ts)
  | _            => none

/-- What `r` makes of all the trees, if it takes them all. -/
def all {α : Type} (ts : List Tree) (r : Reader α) : Option α :=
  match r ts with
  | some (a, []) => some a
  | _            => none

/-- The text of the trees taken since `start`. -/
def takenSince (start : List Tree) : Reader Text := do
  return compact (start.take (start.length - (← ahead).length))

end Reader

/-! ## What comes next -/

def startsWithSign (s : Text) : List Tree → Bool
  | .sign t :: _ => t == s
  | _            => false

def startsWithWord (ws : List Text) : List Tree → Bool
  | .word t :: _ => ws.contains t
  | _            => false

end Declaration
end CommandConsole
