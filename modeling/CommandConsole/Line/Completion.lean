import CommandConsole.Command.Line
/-!
# Completing a word

Tab completes the last word before the cursor, apart from the sigils it starts with.  A single candidate replaces the word;
several let it grow to what they have in common, and further presses go round them.  A complete `select` only gets the
space that leads on to the verb.
-/
namespace CommandConsole

/-- The candidates of a completion and how far round them it has come. -/
structure Cycle where
  /-- The text before the word. -/
  head       : Text
  candidates : List Text
  /-- The place of the candidate in the line; nothing while the line shows what all have in common. -/
  index      : Option Nat
  /-- The text before the cursor that the completion left. -/
  shown      : Text
deriving DecidableEq, Repr

/-- The completion in progress, if any. -/
abbrev Completion := Option Cycle

/-! ## The word -/

def isSigilChar (c : Char) : Bool := c == '@' || c == '#'

/-- The last word of a text: what follows its last blank. -/
def lastWord (before : Text) : Text := (before.reverse.takeWhile (fun c => !isBlank c)).reverse

/-- The part of the last word that candidates replace. -/
def completedWord (before : Text) : Text := (lastWord before).dropWhile isSigilChar

/-- The text before that part. -/
def completedHead (before : Text) : Text := before.take (before.length - (completedWord before).length)

/-! ## What candidates have in common -/

/-- The start of `s` in which `t` agrees with it, up to the case of ASCII letters. -/
def agreeing : Text → Text → Text
  | a :: s, b :: t => if a.toLower = b.toLower then a :: agreeing s t else []
  | _,      _      => []

/-- The longest start of the first text that all agree in. -/
def commonPrefix : List Text → Text
  | []      => []
  | t :: ts => ts.foldl agreeing t

/-! ## Pressing Tab -/

/-- The text before the cursor with the candidate at a place, and a space after it. -/
def Cycle.showing (c : Cycle) (i : Nat) : Text := c.head ++ c.candidates.getD i [] ++ " "

/-- The place of the next candidate, or of the one before it. -/
def Cycle.next (c : Cycle) (backwards : Bool) : Nat :=
  let n := c.candidates.length
  match c.index, backwards with
  | none,   false => 0
  | none,   true  => n - 1
  | some i, false => (i + 1) % n
  | some i, true  => (i + n - 1) % n

/-- Puts the candidate at a place into the line. -/
def Cycle.select (c : Cycle) (i : Nat) : Cycle := { c with index := some i, shown := c.showing i }

/-- The cycle that several candidates begin: grown to what they have in common, or with the first of them selected, the
last if `backwards`, where there is nothing to grow by. -/
def Cycle.start (head word : Text) (candidates : List Text) (backwards : Bool) : Cycle :=
  let common := commonPrefix candidates
  let c : Cycle := ⟨head, candidates, none, head ++ common⟩
  if Text.utf8Length word < Text.utf8Length common then c
  else c.select (if backwards then candidates.length - 1 else 0)

/-- The cycle that goes on when Tab is pressed after `before`. -/
def Completion.going? (c : Completion) (before : Text) : Option Cycle := c.filter (fun c => c.shown = before)

/-- Is the text before the cursor a complete `select`? -/
def isSelectWord (before : Text) : Bool := Text.sameAscii (Text.trimStart before) selectWord

/-- Are candidates looked for when Tab is pressed after `before`? -/
def Completion.asks (c : Completion) (before : Text) : Bool := (c.going? before).isNone && !isSelectWord before

/-- Tab, or Shift+Tab if `backwards`: the text that takes the place of `before`, and the completion in progress after
it. -/
def Completion.press (c : Completion) (before : Text) (backwards : Bool) (predict : Text → List Text) :
    Option Text × Completion :=
  match c.going? before with
  | some cycle =>
    let cycle := cycle.select (cycle.next backwards)
    (some cycle.shown, some cycle)
  | none =>
    if isSelectWord before then (some (before ++ " "), none)
    else
      match predict before with
      | []         => (none, none)
      | [only]     => (some (completedHead before ++ only ++ " "), none)
      | candidates =>
        let cycle := Cycle.start (completedHead before) (completedWord before) candidates backwards
        (some cycle.shown, some cycle)

/-- The candidates of the completion in progress. -/
def Completion.candidates : Completion → List Text
  | some c => c.candidates
  | none   => []

end CommandConsole
