import CommandConsole.Text.Basic
/-!
# The words of a declaration

A declaration is written with words, lifetimes, literals and signs, some of them in brackets.  It is read as a list of trees:
a bracket and what it closes is one tree.  Signs are single characters, except for the few that a type or a path needs
whole: `::`, `->`, `..` and `...`.
-/
namespace CommandConsole
namespace Declaration

inductive Bracket where
  | round | square | curly
deriving DecidableEq, Repr

def Bracket.opening : Bracket → Char
  | .round  => '('
  | .square => '['
  | .curly  => '\x7b'

def Bracket.closing : Bracket → Char
  | .round  => ')'
  | .square => ']'
  | .curly  => '\x7d'

inductive Tree where
  | word (text : Text)
  | lifetime (text : Text)
  /-- A literal text: how it is written, and the characters it stands for. -/
  | quoted (text value : Text)
  | number (text : Text)
  /-- A literal of another kind: a character, or bytes. -/
  | literal (text : Text)
  | sign (text : Text)
  | group (bracket : Bracket) (inner : List Tree)

/-! ## Writing -/

mutual

/-- The tree as it is written, with nothing between its parts. -/
def Tree.text : Tree → Text
  | .word t        => t
  | .lifetime t    => t
  | .quoted t _    => t
  | .number t      => t
  | .literal t     => t
  | .sign t        => t
  | .group b inner => b.opening :: (textAll inner ++ [b.closing])

def textAll : List Tree → Text
  | []      => []
  | t :: ts => t.text ++ textAll ts

end

/-- The trees as they are written, without any space: not even those inside a literal. -/
def compact (ts : List Tree) : Text := (textAll ts).filter (· ≠ ' ')

/-- The trees between commas: one more list than there are commas. -/
def splitCommas : List Tree → List (List Tree)
  | []      => [[]]
  | t :: ts =>
    match t with
    | .sign [','] => [] :: splitCommas ts
    | _           =>
      match splitCommas ts with
      | []      => [[t]]
      | p :: ps => (t :: p) :: ps

end Declaration
end CommandConsole
