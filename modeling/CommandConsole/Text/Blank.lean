import CommandConsole.Text.Basic
/-!
# Blank characters

A character is blank if it has the property White_Space: the separators of words in a command line, and what is trimmed
from both ends of a value, a name or a line.
-/
namespace CommandConsole

/-- White_Space: the ASCII controls tab to carriage return, the space, and nineteen characters outside ASCII. -/
def isBlank (c : Char) : Bool :=
  let n := c.toNat
  (decide (9 ≤ n) && decide (n ≤ 13)) || n == 32 || n == 0x85 || n == 0xA0 || n == 0x1680 ||
    (decide (0x2000 ≤ n) && decide (n ≤ 0x200A)) || n == 0x2028 || n == 0x2029 || n == 0x202F || n == 0x205F ||
    n == 0x3000

/-- Every character that is blank in ASCII is blank. -/
theorem isBlank_of_isWhitespace {c : Char} (h : c.isWhitespace = true) : isBlank c = true := by
  simp only [Char.isWhitespace, Bool.or_eq_true, decide_eq_true_eq] at h
  rcases h with ((rfl | rfl) | rfl) | rfl <;> rfl

namespace Text

def trimStart (t : Text) : Text := t.dropWhile isBlank

def trimEnd (t : Text) : Text := (t.reverse.dropWhile isBlank).reverse

/-- The text without blank characters at either end. -/
def trim (t : Text) : Text := trimEnd (trimStart t)

/-- Nothing but blank characters. -/
def isBlankText (t : Text) : Bool := t.all isBlank

/-- Does the text end in a blank character? -/
def endsBlank (t : Text) : Bool :=
  match t.getLast? with
  | some c => isBlank c
  | none   => false

end Text
end CommandConsole
