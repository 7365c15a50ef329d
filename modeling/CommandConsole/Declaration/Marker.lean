import CommandConsole.Declaration.Attribute
import CommandConsole.Text.Lowercase
/-!
# Markers

A member becomes a command by the attribute `command`, its marker, which may list options: another name for the command,
whether the member reads or writes a property, whether it is there although private members are left out, and, for a field,
whether it can only be read or holds something to call.

A declaration that cannot become commands is rejected as a whole, for the first reason found.
-/
namespace CommandConsole
namespace Declaration

/-! ## Rejections -/

/-- Why a declaration is rejected. -/
inductive Rejection where
  /-- Something else was expected here; `atEnd` if the text ends instead. -/
  | expected (what : Text) (atEnd : Bool)
  | expectedSign (sign : Text)
  | optionLiteral
  | optionToken
  | markerValue
  | emptyName
  | unknownOption
  | getAndSet
  | traitImpl
  | selfByValue
  | exclusiveInput
  | anonymousInput
  | borrowedOutput
  | getSignature
  | setSignature
  | callbackType
  | notStruct
  | unnamedFields
  | fieldProperty
  | notEnum
  | noVariants
  | genericEnum
  | variantData
deriving DecidableEq, Repr

def Rejection.message : Rejection → Text
  | .expected what atEnd => (if atEnd then "unexpected end of input, expected " else "expected ").toList ++ what
  | .expectedSign s      => "expected `".toList ++ s ++ "`".toList
  | .optionLiteral       => "unexpected literal in nested attribute, expected ident"
  | .optionToken         => "unexpected token in nested attribute, expected ident"
  | .markerValue         => "expected parentheses: #[command(...)]"
  | .emptyName           => "command name cannot be empty"
  | .unknownOption       => "unsupported command option (expected name, force, get, set, readonly or callback)"
  | .getAndSet           => "a command is either `get` or `set`, not both"
  | .traitImpl           => "#[console_commands] goes on an inherent impl block"
  | .selfByValue         => "commands take `&self` or `&mut self`, not `self`"
  | .exclusiveInput      => "`&mut` parameters cannot be filled from the console"
  | .anonymousInput      => "`impl Trait` parameters are not supported"
  | .borrowedOutput      => "borrowed return values cannot leave the component; return an owned value"
  | .getSignature        => "a `get` command takes no parameters and returns a value"
  | .setSignature        => "a `set` command takes exactly one parameter"
  | .callbackType        => "callback fields must be `fn(..) -> R` or `Box<dyn Fn(..) -> R>`"
  | .notStruct           => "#[derive(Commands)] needs a struct"
  | .unnamedFields       => "#[derive(Commands)] needs named fields"
  | .fieldProperty       => "`get`/`set` apply to methods; fields are readable and writable by default"
  | .notEnum             => "#[derive(ConsoleEnum)] needs an enum"
  | .noVariants          => "#[derive(ConsoleEnum)] needs at least one variant"
  | .genericEnum         => "#[derive(ConsoleEnum)] does not support generics"
  | .variantData         => "console enums cannot carry data"

/-! ## Options -/

/-- What a marker says. -/
structure Marker where
  name     : Option Text
  force    : Bool
  get      : Bool
  set      : Bool
  readonly : Bool
  callback : Bool
deriving DecidableEq, Repr

/-- A marker without options. -/
def Marker.plain : Marker := ⟨none, false, false, false, false, false⟩

def Attribute.isMarker (a : Attribute) : Bool := a.path == "command".toList

/-- Has an option's path segments after the first?  And what follows the path. -/
def optionPath (last : Bool) : List Tree → Except Rejection (Bool × List Tree)
  | .sign [':', ':'] :: .word _ :: ts => (optionPath last ts).map fun (_, rest) => (true, rest)
  | [.sign [':', ':']]                => .error (.expected "ident" last)
  | .sign [':', ':'] :: _             => .error (.expected "ident" false)
  | ts                                => .ok (false, ts)

/-- The name of an option, none if it is a longer path, and what follows.  `last` tells that no option comes after it. -/
def optionName (last : Bool) (ts : List Tree) : Except Rejection (Option Text × List Tree) :=
  let (outermost, ts) : Bool × List Tree := match ts with
    | .sign [':', ':'] :: ts => (true, ts)
    | _                      => (false, ts)
  match ts with
  | .word w :: ts => do
    let (long, rest) ← optionPath last ts
    return (if outermost || long then none else some w, rest)
  | []                              => .error (if last then .expected "nested attribute" true else .optionToken)
  | .quoted .. :: _                 => .error .optionLiteral
  | .number _ :: _                  => .error .optionLiteral
  | .literal _ :: _                 => .error .optionLiteral
  | .sign ['-'] :: .number _ :: _   => .error .optionLiteral
  | _                               => .error .optionToken

/-- The text that an option is given, and what follows it. -/
def optionText (last : Bool) : List Tree → Except Rejection (Text × List Tree)
  | .sign ['='] :: .quoted _ value :: ts => .ok (value, ts)
  | [.sign ['=']]                        => .error (.expected "string literal" last)
  | .sign ['='] :: _                     => .error (.expected "string literal" false)
  | _                                    => .error (.expectedSign "=".toList)

/-- The marker with an option that is only a word, if there is one. -/
def Marker.withWord? (m : Marker) (w : Text) : Option Marker :=
  if w = "force".toList then some { m with force := true }
  else if w = "get".toList then some { m with get := true }
  else if w = "set".toList then some { m with set := true }
  else if w = "readonly".toList then some { m with readonly := true }
  else if w = "callback".toList then some { m with callback := true }
  else none

/-- The marker with the option of this name, given what follows the name, and what follows the option. -/
def Marker.withOption (m : Marker) (last : Bool) (w : Text) (rest : List Tree) : Except Rejection (Marker × List Tree) :=
  if w = "name".toList then do
    let (value, rest) ← optionText last rest
    if Text.isBlankText value then .error .emptyName else return ({ m with name := some value }, rest)
  else
    match m.withWord? w with
    | some m => .ok (m, rest)
    | none   => .error .unknownOption

/-- The marker with one more option. -/
def Marker.option (m : Marker) (last : Bool) (ts : List Tree) : Except Rejection Marker := do
  match ← optionName last ts with
  | (none, _)      => .error .unknownOption
  | (some w, rest) =>
    let (m, rest) ← m.withOption last w rest
    if rest.isEmpty then return m else .error (.expectedSign ",".toList)

/-- The marker with more options, one per list of trees; the last list is empty after a closing comma. -/
def Marker.options (m : Marker) : List (List Tree) → Except Rejection Marker
  | []          => .ok m
  | [[]]        => .ok m
  | [ts]        => m.option true ts
  | ts :: u :: l => do (← m.option false ts).options (u :: l)

/-- What the marker says, if it can be read. -/
def Attribute.marker (a : Attribute) : Except Rejection Marker :=
  match a.body with
  | .bare    => .ok .plain
  | .value   => .error .markerValue
  | .list ts => do
    let m ← Marker.plain.options (splitCommas ts)
    if m.get && m.set then .error .getAndSet else return m

/-- The first marker among attributes, if there is one. -/
def findMarker (attributes : List Attribute) : Option Attribute := attributes.find? Attribute.isMarker

/-! ## Names -/

/-- What is left of a member's name without `lead`, if something is left; else the whole name. -/
def withoutLead (lead : Option Text) (member : Text) : Text :=
  match lead.bind (Text.afterPrefix? · member) with
  | some (c :: rest) => c :: rest
  | _                => member

/-- The name of the command for a member: the one the marker gives, or else the member's own without `lead`. -/
def Marker.commandName (m : Marker) (member : Text) (lead : Option Text) : Text :=
  match m.name with
  | some name => Text.lower (Text.trim name)
  | none      => Text.lower (withoutLead lead member)

end Declaration
end CommandConsole
