import CommandConsole.Line.Buffer
import CommandConsole.Line.Completion
import CommandConsole.Line.History
import CommandConsole.Session.Console
import CommandConsole.Terminal.Display
import CommandConsole.Terminal.Key
/-!
# The line editor

The editor holds the line, the history and the completion in progress.  `Editor.apply` is what one key does;
`Editor.readLine` edits a line key by key until it is submitted, and says what is drawn meanwhile.
-/
namespace CommandConsole

structure Editor (lineLimit historyLimit : Nat) where
  buffer     : LineBuffer lineLimit
  history    : History historyLimit lineLimit
  completion : Completion

/-- What a key did to the line. -/
inductive Outcome where
  | edited | refused | submit
deriving DecidableEq, Repr

/-- The control characters, which are never part of a line. -/
def isControl (c : Char) : Bool := decide (c.toNat < 0x20) || (decide (0x7F ≤ c.toNat) && decide (c.toNat < 0xA0))

variable {κ : Type} [ComponentKind κ] {lineLimit historyLimit : Nat}

namespace Editor

def new (h : History historyLimit lineLimit) : Editor lineLimit historyLimit := ⟨.empty, h, none⟩

/-! ## One key -/

/-- The line changed as asked, or the key refused. -/
def edit (e : Editor lineLimit historyLimit) : Option (LineBuffer lineLimit) → Outcome × Editor lineLimit historyLimit
  | some b => (.edited, { e with buffer := b })
  | none   => (.refused, e)

/-- Puts an entry of the history into the line; without one the key is refused. -/
def bringBack (e : Editor lineLimit historyLimit) :
    Option Text × History historyLimit lineLimit → Outcome × Editor lineLimit historyLimit
  | (some entry, h) => (.edited, { e with history := h, buffer := e.buffer.overwrite entry })
  | (none, h)       => (.refused, { e with history := h })

/-- Tab and Shift+Tab. -/
def complete (c : Console κ) (backwards : Bool) (e : Editor lineLimit historyLimit) :
    Outcome × Editor lineLimit historyLimit :=
  let before := e.buffer.beforeCursor
  let (text, completion) := e.completion.press before backwards c.predict
  let e := { e with completion := completion }
  match text with
  | some t => if t = before then (.refused, e) else (.edited, { e with buffer := e.buffer.replaceBeforeCursor t })
  | none   => (.refused, e)

/-- What a key does.  Every key but Tab and Shift+Tab ends the completion in progress. -/
def apply (c : Console κ) (k : Key) (e : Editor lineLimit historyLimit) : Outcome × Editor lineLimit historyLimit :=
  let fresh := { e with completion := none }
  match k with
  | .enter      => (.submit, fresh)
  | .tab        => e.complete c false
  | .shiftTab   => e.complete c true
  | .backspace  => fresh.edit e.buffer.backspace?
  | .delete     => fresh.edit e.buffer.delete?
  | .ctrlU      => fresh.edit (some e.buffer.deleteToStart)
  | .ctrlK      => fresh.edit (some e.buffer.deleteToEnd)
  | .ctrlD      => fresh.edit (some e.buffer.clear)
  | .arrowLeft  => fresh.edit (some e.buffer.left)
  | .arrowRight => fresh.edit (some e.buffer.right)
  | .home       => fresh.edit (some e.buffer.home)
  | .end        => fresh.edit (some e.buffer.toEnd)
  | .arrowUp    => fresh.bringBack e.history.older
  | .pageUp     => fresh.bringBack e.history.first
  | .pageDown   => fresh.bringBack e.history.last
  | .arrowDown  =>
    match e.history.newer with
    | (some entry, h) => (.edited, { fresh with history := h, buffer := e.buffer.overwrite entry })
    | (none, h)       => (.edited, { fresh with history := h, buffer := e.buffer.clear })
  | .char x     => fresh.edit (if isControl x then none else e.buffer.insert? x)
  | .insert     => (.refused, fresh)

/-- What the console expects at the cursor. -/
def hint (c : Console κ) (e : Editor lineLimit historyLimit) : Option Text := c.hint e.buffer.beforeCursor

/-- The line, and the editor ready for the next one. -/
def takeLine (e : Editor lineLimit historyLimit) : Text × Editor lineLimit historyLimit :=
  (e.buffer.text, { e with buffer := .empty, completion := none })

/-! ## One line -/

/-- The line as it is drawn. -/
def draw (c : Console κ) (prompt : Text) (e : Editor lineLimit historyLimit) : Text :=
  Display.line prompt e.buffer.text e.buffer.cursor (e.hint c)

/-- The answer to a refused key: the boundary marker if the line has as many characters as it may have bytes. -/
def refusalMark (e : Editor lineLimit historyLimit) : Text :=
  if lineLimit ≤ e.buffer.text.length then Display.boundary else Display.bell

/-- What one key draws, the editor after it, and the line if the key submitted it. -/
structure Pressed (lineLimit historyLimit : Nat) where
  drawn  : Text
  editor : Editor lineLimit historyLimit
  line?  : Option Text

/-- Presses one key.  A submitted line is drawn once more without its hint, and the editor is ready for the next. -/
def press (c : Console κ) (prompt : Text) (k : Key) (e : Editor lineLimit historyLimit) : Pressed lineLimit historyLimit :=
  match e.apply c k with
  | (.submit, e)  =>
    ⟨Display.line prompt e.buffer.text e.buffer.text.length none ++ "\n", e.takeLine.2, some e.takeLine.1⟩
  | (.edited, e)  => ⟨e.draw c prompt, e, none⟩
  | (.refused, e) => ⟨e.refusalMark, e, none⟩

/-- How the editing of a line ended. -/
structure Reading (lineLimit historyLimit : Nat) where
  /-- What was drawn. -/
  drawn  : Text
  editor : Editor lineLimit historyLimit
  /-- The line and the keys after it; nothing if the keys ran out first. -/
  line?  : Option (Text × List Key)

/-- Presses the keys that follow, up to the one that submits the line. -/
def followKeys (c : Console κ) (prompt : Text) (e : Editor lineLimit historyLimit) :
    List Key → Reading lineLimit historyLimit
  | []      => ⟨[], e, none⟩
  | k :: ks =>
    let p := e.press c prompt k
    match p.line? with
    | some line => ⟨p.drawn, p.editor, some (line, ks)⟩
    | none      => let r := p.editor.followKeys c prompt ks; { r with drawn := p.drawn ++ r.drawn }

/-- Reads one line from a stream of keys. -/
def readLine (c : Console κ) (prompt : Text) (e : Editor lineLimit historyLimit) (ks : List Key) :
    Reading lineLimit historyLimit :=
  let r := e.followKeys c prompt ks
  { r with drawn := e.draw c prompt ++ r.drawn }

/-- A submitted line leaves fewer keys than there were. -/
theorem length_lt_of_followKeys {c : Console κ} {prompt line : Text} {ks rest : List Key}
    {e : Editor lineLimit historyLimit} (h : (e.followKeys c prompt ks).line? = some (line, rest)) :
    rest.length < ks.length := by
  induction ks generalizing e with
  | nil => simp [followKeys] at h
  | cons k ks ih =>
    simp only [followKeys] at h
    split at h
    · simp only [Option.some.injEq, Prod.mk.injEq] at h
      simp [← h.2]
    · exact Nat.lt_succ_of_lt (ih h)

/-- Reads lines until the keys run out: each line with what was drawn for it, then the last reading. -/
def readLines (c : Console κ) (prompt : Text) (e : Editor lineLimit historyLimit) (ks : List Key) :
    List (Text × Text) × Reading lineLimit historyLimit :=
  let r := e.readLine c prompt ks
  match _h : r.line? with
  | none              => ([], r)
  | some (line, rest) =>
    let (lines, last) := r.editor.readLines c prompt rest
    ((line, r.drawn) :: lines, last)
termination_by ks.length
decreasing_by exact length_lt_of_followKeys _h

end Editor
end CommandConsole
