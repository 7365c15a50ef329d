import CommandConsole.Text.Basic
/-!
# The line being edited

A line and a cursor in it.  The cursor is counted in characters; the length of the line is limited in UTF-8 bytes.
-/
namespace CommandConsole

/-- A line of at most `limit` bytes. -/
structure LineBuffer (limit : Nat) where
  text   : Text
  cursor : Nat
deriving DecidableEq, Repr

namespace LineBuffer

variable {limit : Nat}

def empty : LineBuffer limit := ⟨[], 0⟩

def byteLength (b : LineBuffer limit) : Nat := Text.utf8Length b.text

def beforeCursor (b : LineBuffer limit) : Text := b.text.take b.cursor

def afterCursor (b : LineBuffer limit) : Text := b.text.drop b.cursor

/-! ## Editing -/

/-- Inserts a character at the cursor, unless it would make the line too long. -/
def insert? (b : LineBuffer limit) (c : Char) : Option (LineBuffer limit) :=
  if b.byteLength + c.utf8Size ≤ limit then some ⟨b.beforeCursor ++ c :: b.afterCursor, b.cursor + 1⟩ else none

/-- Deletes the character before the cursor, if there is one. -/
def backspace? (b : LineBuffer limit) : Option (LineBuffer limit) :=
  if b.cursor = 0 then none else some ⟨b.text.eraseIdx (b.cursor - 1), b.cursor - 1⟩

/-- Deletes the character at the cursor, if there is one. -/
def delete? (b : LineBuffer limit) : Option (LineBuffer limit) :=
  if b.cursor < b.text.length then some ⟨b.text.eraseIdx b.cursor, b.cursor⟩ else none

def deleteToStart (b : LineBuffer limit) : LineBuffer limit := ⟨b.afterCursor, 0⟩

def deleteToEnd (b : LineBuffer limit) : LineBuffer limit := ⟨b.beforeCursor, b.cursor⟩

def clear (_ : LineBuffer limit) : LineBuffer limit := empty

/-! ## Moving -/

def left (b : LineBuffer limit) : LineBuffer limit := ⟨b.text, b.cursor - 1⟩

def right (b : LineBuffer limit) : LineBuffer limit := ⟨b.text, if b.cursor < b.text.length then b.cursor + 1 else b.cursor⟩

def home (b : LineBuffer limit) : LineBuffer limit := ⟨b.text, 0⟩

def toEnd (b : LineBuffer limit) : LineBuffer limit := ⟨b.text, b.text.length⟩

/-! ## Replacing -/

/-- Inserts characters one after the other, up to the first that does not fit. -/
def insertAll (b : LineBuffer limit) : Text → LineBuffer limit
  | []     => b
  | c :: t =>
    match b.insert? c with
    | some b => b.insertAll t
    | none   => b

/-- Puts `t` in the place of the line, as much of it as fits, with the cursor at the end. -/
def overwrite (_ : LineBuffer limit) (t : Text) : LineBuffer limit := empty.insertAll t

/-- Puts `t` in the place of the text before the cursor, with the cursor after it.  What no longer fits is cut off at the
end of the line. -/
def replaceBeforeCursor (b : LineBuffer limit) (t : Text) : LineBuffer limit :=
  let line := Text.fitting limit (t ++ b.afterCursor)
  ⟨line, min t.length line.length⟩

end LineBuffer
end CommandConsole
