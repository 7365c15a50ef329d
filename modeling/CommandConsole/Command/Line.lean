import CommandConsole.Command.Token
import CommandConsole.Text.Lowercase
/-!
# Command lines

A command line is an optional selector, a verb, the name of a command and its arguments:

    command  := [selector] verb name argument*
    selector := "@" ident | "@@" ident | "#" ident | "##" ident | "select"
    verb     := "get" | "set" | "call"

Verbs and `select` are read without regard to the case of ASCII letters, names are lowercased, arguments stay as typed.
What follows the name of a `set` command is one value, its words joined by single spaces.  `Command.parse` reads a line and
`Command.render` writes one.
-/
namespace CommandConsole

/-! ## Verbs -/

inductive Verb where
  | get | set | call
deriving DecidableEq, Repr

def Verb.text : Verb → Text
  | .get  => "get"
  | .set  => "set"
  | .call => "call"

def Verb.all : List Verb := [.get, .set, .call]

def Verb.ofText? (word : Text) : Option Verb := Verb.all.find? (fun v => Text.sameAscii v.text word)

/-! ## Selectors -/

/-- The marks that start a selector: one object or all of them, by name or by tag. -/
inductive Sigil where
  | name | allNames | tag | allTags
deriving DecidableEq, Repr

def Sigil.text : Sigil → Text
  | .name     => "@"
  | .allNames => "@@"
  | .tag      => "#"
  | .allTags  => "##"

/-- Which objects a command is meant for. -/
inductive Selector where
  | marked (sigil : Sigil) (ident : Text)
  | selection
deriving DecidableEq, Repr

def selectWord : Text := "select"

def Selector.text : Selector → Text
  | .marked s ident => s.text ++ ident
  | .selection      => selectWord

/-- The sigil at the start of a word and what follows it; a doubled mark is one sigil. -/
def Sigil.split? : Text → Option (Sigil × Text)
  | '@' :: '@' :: t => some (.allNames, t)
  | '#' :: '#' :: t => some (.allTags, t)
  | '@' :: t        => some (.name, t)
  | '#' :: t        => some (.tag, t)
  | _               => none

/-- Reads a selector.  A sigil alone is one; its identifier is empty and names nothing. -/
def Selector.ofText? (word : Text) : Option Selector :=
  if Text.sameAscii word selectWord then some .selection
  else (Sigil.split? word).map (fun p => .marked p.1 p.2)

/-! ## Commands -/

structure Command where
  target : Option Selector
  verb   : Verb
  name   : Text
  args   : List Text
deriving DecidableEq, Repr

/-- Why a line is no command. -/
inductive LineError where
  | empty
  | missingVerb
  | unknownVerb (word : Text)
  | missingName
deriving DecidableEq, Repr

def LineError.message : LineError → Text
  | .empty         => "empty command"
  | .missingVerb   => "missing verb after target"
  | .unknownVerb w => "unknown verb '" ++ w ++ "' (expected get, set or call)"
  | .missingName   => "missing command name"

/-- The arguments that the words after a name stand for. -/
def Verb.argsOf (v : Verb) (rest : List Text) : List Text :=
  match v, rest with
  | .set, []   => []
  | .set, rest => [Text.join " " rest]
  | _,    rest => rest

/-- Reads the verb, the name and the arguments of a command for `target`. -/
def Command.ofVerb (target : Option Selector) : List Text → Except LineError Command
  | []        => .error .missingVerb
  | w :: rest =>
    match Verb.ofText? w with
    | none   => .error (.unknownVerb w)
    | some v =>
      match rest with
      | []        => .error .missingName
      | n :: rest => .ok ⟨target, v, Text.lower n, v.argsOf rest⟩

/-- Reads a command from the words of a line. -/
def Command.ofWords : List Text → Except LineError Command
  | []        => .error .empty
  | w :: rest =>
    match Selector.ofText? w with
    | some s => Command.ofVerb (some s) rest
    | none   => Command.ofVerb none (w :: rest)

/-- Reads a command line. -/
def Command.parse (line : Text) : Except LineError Command := Command.ofWords (words line)

/-- The words of a command as it is written. -/
def Command.words (c : Command) : List Text :=
  (c.target.map Selector.text).toList ++ c.verb.text :: c.name :: c.args

/-- Writes a command as a line, single spaces between its words. -/
def Command.render (c : Command) : Text := Text.join " " c.words

end CommandConsole
