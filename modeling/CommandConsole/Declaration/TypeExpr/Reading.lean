import CommandConsole.Declaration.Attribute
import CommandConsole.Declaration.Reader
import CommandConsole.Declaration.TypeExpr
/-!
# Reading types

The readers of types and of what types are made of: paths, arguments, traits and lifetimes joined by `+`, inputs and outputs
of functions.  Most give a text along with what they read.  They are written for texts that declare something; a text that
declares nothing may be read as well.

Each reader spends one unit of fuel, and between two that take a tree there are fewer than ten.
-/
namespace CommandConsole
namespace Declaration

open Reader

def inRound (t : Text) : Text := '(' :: (t ++ [')'])

/-- Words that a function type starts with. -/
def functionWords : List Text := ["fn", "unsafe", "extern"]

/-- Words after which an expression goes on with a value. -/
def valueWords : List Text := ["return", "break", "in", "if", "while", "match", "else"]

/-- After this tree an expression goes on with a value, and not with an operator. -/
def leadsToValue : Tree → Bool
  | .word w => valueWords.contains w
  | .sign s => s != ['?']
  | _       => false

/-- May a trait or a lifetime start here? -/
def startsBound : List Tree → Bool
  | .word _ :: _          => true
  | .lifetime _ :: _      => true
  | .group .round _ :: _  => true
  | .group .square _ :: _ => true
  | .sign s :: _          => s == ['?'] || s == ['~'] || s == [':', ':']
  | _                     => false

/-- The attributes that come next, as they are written. -/
def attributesText : Reader Text := do
  let start ← ahead
  goOn (skipAttributes start)
  takenSince start

/-- Everything left, as it is written. -/
def asWritten : Reader Text := do
  let ts ← ahead
  goOn []
  return compact ts

/-- A constant among arguments that needs no curly brackets. -/
def plainConstant : Reader Text := do
  let start ← ahead
  match start with
  | .quoted .. :: ts               => goOn ts
  | .number _ :: ts                => goOn ts
  | .literal _ :: ts               => goOn ts
  | .sign ['-'] :: .number _ :: ts => goOn ts
  | .word w :: ts                  => if w = "true".toList ∨ w = "false".toList then goOn ts else failure
  | _                              => failure
  takenSince start

mutual

/-- A type.  `plus` tells whether traits joined by `+` belong to it. -/
def readType : Nat → Bool → Reader TypeExpr
  | 0,        _    => failure
  | fuel + 1, plus => do
    let ts ← ahead
    match ts with
    | .group .round inner :: rest  => goOn rest; readRound fuel (plus && startsWithSign ['+'] rest) ts inner
    | .group .square inner :: rest =>
      goOn rest
      let text ← within inner (readSquare fuel)
      return .other ('[' :: (text ++ [']']))
    | .lifetime _ :: _             => readObject fuel true
    | .sign ['&'] :: rest          =>
      goOn rest
      let lifetime ← perhaps lifetime
      let exclusive ← perhaps (word "mut")
      let target ← readType fuel false
      return .reference ('&' :: (lifetime ++ exclusive ++ target.text)) (!exclusive.isEmpty) target
    | .sign ['*'] :: rest          =>
      goOn rest
      let access ← anyWord
      let target ← readType fuel false
      return .other ('*' :: (access ++ target.text))
    | .sign ['!'] :: rest          => goOn rest; return .other ['!']
    | .word ['_'] :: rest          => goOn rest; return .other ['_']
    | .word ['d', 'y', 'n'] :: rest =>
      goOn rest
      let star ← perhaps (sign ['*'])
      let (text, bounds) ← readBounds fuel plus
      if star.isEmpty then return .object ('d' :: 'y' :: 'n' :: text) bounds else return .other (← takenSince ts)
    | .word ['i', 'm', 'p', 'l'] :: rest =>
      goOn rest
      let (text, _) ← readBounds fuel plus
      return .anonymous ('i' :: 'm' :: 'p' :: 'l' :: text)
    | _                            =>
      let binder ← readBinder fuel
      if startsWithWord functionWords (← ahead) then readFunction fuel binder
      else if binder.isEmpty then readPathType fuel plus
      else goOn ts; readObject fuel plus

/-- A type in round brackets, a tuple, or, if more traits follow the bracket at the start of `ts`, the first of them. -/
def readRound : Nat → Bool → List Tree → List Tree → Reader TypeExpr
  | 0,        _,    _,  _     => failure
  | fuel + 1, more, ts, inner => do
    match inner with
    | []               => return .unit
    | .lifetime _ :: _ =>
      let (text, _) ← within inner (readBounds fuel true)
      return .other (inRound text)
    | _                =>
      if more || startsWithSign ['?'] inner then goOn ts; readObject fuel true
      else
        let (text, _) ← within inner (readTypes fuel)
        return .other (inRound text)

/-- What a slice or an array is made of, and how many there are of it. -/
def readSquare : Nat → Reader Text
  | 0        => failure
  | fuel + 1 => do
    let item ← readType fuel true
    match ← ahead with
    | .sign [';'] :: rest =>
      goOn rest
      return item.text ++ ';' :: (← readExpression fuel true)
    | _                   => return item.text

/-- Traits that make a type. -/
def readObject : Nat → Bool → Reader TypeExpr
  | 0,        _    => failure
  | fuel + 1, plus => do
    let (text, bounds) ← readBounds fuel plus
    return .object text bounds

/-- A path as a type; a macro call is one too, and a trait among others makes an object. -/
def readPathType : Nat → Bool → Reader TypeExpr
  | 0,        _    => failure
  | fuel + 1, plus => do
    let ts ← ahead
    let (text, last) ← readPath fuel
    match ← ahead with
    | .sign ['!'] :: .group b inner :: rest =>
      goOn rest
      return .other (text ++ '!' :: compact [.group b inner])
    | rest => if plus && startsWithSign ['+'] rest then goOn ts; readObject fuel true else return .path text last

/-- A pointer to a function, after the lifetimes that it introduces. -/
def readFunction : Nat → Text → Reader TypeExpr
  | 0,        _      => failure
  | fuel + 1, binder => do
    let unchecked ← perhaps (word "unsafe")
    let convention ← perhaps (word "extern")
    let name ← if convention.isEmpty then pure [] else perhaps literalText
    let fn ← word "fn"
    match ← ahead with
    | .group .round inner :: rest =>
      goOn rest
      let (text, inputs) ← within inner (readInputs fuel true)
      let (outputText, output) ← readOutput fuel
      let lead := binder ++ unchecked ++ convention ++ name.filter (· ≠ ' ') ++ fn
      return .function (lead ++ inRound text ++ outputText) inputs output
    | _ => failure

/-- Types between commas, up to the end. -/
def readTypes : Nat → Reader (Text × List TypeExpr)
  | 0        => failure
  | fuel + 1 => do
    match ← ahead with
    | [] => return ([], [])
    | _  =>
      let type ← readType fuel true
      match ← ahead with
      | []                  => return (type.text, [type])
      | .sign [','] :: rest =>
        goOn rest
        let (text, types) ← readTypes fuel
        return (type.text ++ ',' :: text, type :: types)
      | _                   => failure

/-- The type after an arrow, if there is an arrow. -/
def readOutput : Nat → Reader (Text × Option TypeExpr)
  | 0        => failure
  | fuel + 1 => do
    match ← ahead with
    | .sign ['-', '>'] :: rest =>
      goOn rest
      let type ← readType fuel false
      return ('-' :: '>' :: type.text, some type)
    | _                        => return ([], none)

/-- A path, with its last segment.  A path may start from the outermost scope, or from a type in angle brackets. -/
def readPath : Nat → Reader (Text × Segment)
  | 0        => failure
  | fuel + 1 => do
    match ← ahead with
    | .sign ['<'] :: rest      =>
      goOn rest
      let base ← readType fuel true
      let trait ← perhaps (do
        let as ← word "as"
        let (text, _) ← readPath fuel
        return as ++ text)
      let close ← sign ['>']
      let colons ← sign [':', ':']
      let (text, last) ← readSegments fuel
      return ('<' :: (base.text ++ trait ++ close ++ colons ++ text), last)
    | .sign [':', ':'] :: rest =>
      goOn rest
      let (text, last) ← readSegments fuel
      return (':' :: ':' :: text, last)
    | _                        => readSegments fuel

/-- The segments of a path from here on. -/
def readSegments : Nat → Reader (Text × Segment)
  | 0        => failure
  | fuel + 1 => do
    let (text, segment) ← readSegment fuel
    match ← ahead with
    | .sign [':', ':'] :: .word w :: rest =>
      goOn (.word w :: rest)
      let (more, last) ← readSegments fuel
      return (text ++ ':' :: ':' :: more, last)
    | _ => return (text, segment)

/-- A segment: a name, alone or with arguments in angle brackets or types in round ones. -/
def readSegment : Nat → Reader (Text × Segment)
  | 0        => failure
  | fuel + 1 => do
    let name ← anyWord
    let colons ← match ← ahead with
      | .sign [':', ':'] :: .sign ['<'] :: _ => sign [':', ':']
      | _                                    => pure []
    let (text, arguments) ← match ← ahead with
      | .sign ['<'] :: rest =>
        goOn rest
        let l ← readArguments fuel
        pure (colons ++ '<' :: (argumentsText l ++ ['>']), some l)
      | _                   => pure ([], none)
    match arguments, ← ahead with
    | some (a :: l), _                                          =>
      return (name ++ text, .generic name ((a :: l).map fun (a, _) => a.type))
    | _, .group .round inner :: rest                            => goOn rest; readCall fuel name inner
    | _, .sign [':', ':'] :: .group .round inner :: rest        => goOn rest; readCall fuel name inner
    | some [], _                                                => return (name ++ text, .generic name [])
    | none, _                                                   => return (name, .plain name)

/-- The segment of a name with these types in round brackets, and with what is returned. -/
def readCall : Nat → Text → List Tree → Reader (Text × Segment)
  | 0,        _,    _     => failure
  | fuel + 1, name, inner => do
    let (text, inputs) ← within inner (readTypes fuel)
    let (outputText, output) ← readOutput fuel
    return (name ++ inRound text ++ outputText, .call name inputs output)

/-- Arguments up to the closing angle bracket, with whether a comma follows. -/
def readArguments : Nat → Reader (List (TypeArgument × Bool))
  | 0        => failure
  | fuel + 1 => do
    match ← ahead with
    | .sign ['>'] :: rest => goOn rest; return []
    | _ =>
      let argument ← readArgument fuel
      match ← ahead with
      | .sign ['>'] :: rest => goOn rest; return [(argument, false)]
      | .sign [','] :: rest => goOn rest; return (argument, true) :: (← readArguments fuel)
      | _                   => failure

/-- An argument: a lifetime, a constant, a type, or a name that is given a value or bounds. -/
def readArgument : Nat → Reader TypeArgument
  | 0        => failure
  | fuel + 1 => do
    match ← ahead with
    | .lifetime l :: rest =>
      if startsWithSign ['+'] rest then
        let type ← readObject fuel true
        return ⟨type.text, false, some type⟩
      else goOn rest; return ⟨l, true, none⟩
    | _ =>
      (do return ⟨← readConstant fuel, false, none⟩) <|> (do
        let type ← readType fuel true
        match ← ahead with
        | .sign ['='] :: rest =>
          goOn rest
          let value ← readConstant fuel <|> (do return (← readType fuel true).text)
          return ⟨type.text ++ '=' :: value, false, none⟩
        | .sign [':'] :: rest =>
          goOn rest
          if startsBound rest then
            let (bounds, _) ← readBounds fuel true
            return ⟨type.text ++ ':' :: bounds, false, none⟩
          else return ⟨type.text ++ [':'], false, none⟩
        | _                   => return ⟨type.text, false, some type⟩)

/-- A constant among arguments. -/
def readConstant : Nat → Reader Text
  | 0        => failure
  | fuel + 1 => do
    match ← ahead with
    | .group .curly inner :: rest =>
      goOn rest
      let text ← within inner (readExpression fuel true)
      return '\x7b' :: (text ++ ['\x7d'])
    | _                           => plainConstant

/-- An expression up to the end, as it is written but for the types in it.  `value` tells that a value comes next, and no
operator. -/
def readExpression : Nat → Bool → Reader Text
  | 0,        _     => failure
  | fuel + 1, value => do
    match ← ahead with
    | []        => return []
    | t :: rest =>
      let (text, value) ← readOperand fuel value <|> (do goOn rest; return (compact [t], leadsToValue t))
      return text ++ (← readExpression fuel value)

/-- The part of an expression that comes next, if it is a type, holds one, or belongs to a macro or an attribute; and whether
a value comes after it. -/
def readOperand : Nat → Bool → Reader (Text × Bool)
  | 0,        _     => failure
  | fuel + 1, value => do
    match ← ahead with
    | .sign [':', ':'] :: .sign ['<'] :: rest          =>
      goOn rest
      let arguments ← readArguments fuel
      return ("::<".toList ++ argumentsText arguments ++ ['>'], false)
    | .sign ['<'] :: _                                 =>
      if value then
        let (path, _) ← readPath fuel
        return (path, false)
      else failure
    | .sign [':'] :: rest                              =>
      goOn rest
      let type ← readType fuel true
      return (':' :: type.text, false)
    | .sign ['-', '>'] :: rest                         =>
      goOn rest
      let type ← readType fuel false
      return ('-' :: '>' :: type.text, false)
    | .word ['a', 's'] :: rest                         =>
      goOn rest
      let type ← readType fuel false
      return ('a' :: 's' :: type.text, false)
    | .word w :: .sign ['!'] :: .group b inner :: rest =>
      goOn rest
      return (w ++ '!' :: compact [.group b inner], false)
    | .sign ['#'] :: .group b inner :: rest            =>
      goOn rest
      return ('#' :: compact [.group b inner], true)
    | .group b inner :: rest                           =>
      goOn rest
      let text ← within inner (readExpression fuel true)
      return (b.opening :: (text ++ [b.closing]), false)
    | _                                                => failure

/-- Traits and lifetimes joined by `+`, with the last segments of the traits; only the first where `plus` is not allowed. -/
def readBounds : Nat → Bool → Reader (Text × List Segment)
  | 0,        _    => failure
  | fuel + 1, plus => do
    let (text, bound) ← readBound fuel
    match ← ahead with
    | .sign ['+'] :: rest =>
      if !plus then return (text, bound.toList)
      else
        goOn rest
        if startsBound rest then
          let (more, bounds) ← readBounds fuel plus
          return (text ++ '+' :: more, bound.toList ++ bounds)
        else return (text ++ ['+'], bound.toList)
    | _ => return (text, bound.toList)

/-- One lifetime or trait, which may stand in brackets, or the names that a type may depend on. -/
def readBound : Nat → Reader (Text × Option Segment)
  | 0        => failure
  | fuel + 1 => do
    match ← ahead with
    | .lifetime l :: rest                          => goOn rest; return (l, none)
    | .word ['u', 's', 'e'] :: .sign ['<'] :: rest =>
      goOn rest
      let l ← readArguments fuel
      return ("use<".toList ++ argumentsText l ++ ['>'], none)
    | .group .round inner :: rest                  =>
      goOn rest
      let (text, bound) ← within inner (readTrait fuel)
      return (inRound text, bound)
    | _                                            => readTrait fuel

/-- One trait, which may be optional and hold for every lifetime.  One that is asked for in constants only is known by its
text alone. -/
def readTrait : Nat → Reader (Text × Option Segment)
  | 0        => failure
  | fuel + 1 => do
    let start ← ahead
    let binder ← readBinder fuel
    let constant ← match ← ahead with
      | .group .square _ :: rest                => goOn rest; pure true
      | .sign ['~'] :: rest                     => goOn rest; (do let _ ← word "const"; pure true)
      | .word ['c', 'o', 'n', 's', 't'] :: rest => goOn rest; pure true
      | _                                       => pure false
    let optional ← perhaps (sign ['?'])
    let inner ← readBinder fuel
    let (path, last) ← readPath fuel
    if constant then return (← takenSince start, none) else return (optional ++ binder ++ inner ++ path, some last)

/-- The names that a `for` introduces, if there is one. -/
def readBinder : Nat → Reader Text
  | 0        => failure
  | fuel + 1 => do
    match ← ahead with
    | .word ['f', 'o', 'r'] :: .sign ['<'] :: rest =>
      goOn rest
      return "for<".toList ++ (← readNames fuel) ++ ['>']
    | _                                            => return []

/-- The names between angle brackets after `for`. -/
def readNames : Nat → Reader Text
  | 0        => failure
  | fuel + 1 => do
    match ← ahead with
    | .sign ['>'] :: rest => goOn rest; return []
    | _ =>
      let name ← readName fuel
      match ← ahead with
      | .sign ['>'] :: rest => goOn rest; return name
      | .sign [','] :: rest => goOn rest; return name ++ ',' :: (← readNames fuel)
      | _                   => failure

/-- A name that `for` introduces: a lifetime, a type or a constant, with its bounds and what it is if nothing is said. -/
def readName : Nat → Reader Text
  | 0        => failure
  | fuel + 1 => do
    let attributes ← attributesText
    let lead ← perhaps (word "const")
    let name ← lifetime <|> anyWord
    let colon ← perhaps (sign [':'])
    let bounds ←
      if colon.isEmpty || !lead.isEmpty then pure []
      else if startsBound (← ahead) then (do let (text, _) ← readBounds fuel true; pure text)
      else pure []
    let type ← if lead.isEmpty then pure [] else (do pure (← readType fuel true).text)
    let equals ← perhaps (sign ['='])
    let value ←
      if equals.isEmpty then pure []
      else readConstant fuel <|> (do return (← readType fuel true).text)
    let bounded := if (bounds ++ type).isEmpty then name else name ++ colon ++ bounds ++ type
    return attributes ++ lead ++ bounded ++ equals ++ value

/-- The inputs of a function, each with its name if it has one; `isFirst` tells that none came before. -/
def readInputs : Nat → Bool → Reader (Text × List (Option Text × TypeExpr))
  | 0,        _       => failure
  | fuel + 1, isFirst => do
    let attributes ← attributesText
    match ← ahead with
    | [] => return (attributes, [])
    | .sign ['.', '.', '.'] :: _ => return (attributes ++ (← asWritten), [])
    | .word _ :: .sign [':'] :: .sign ['.', '.', '.'] :: _ => return (attributes ++ (← asWritten), [])
    | _ =>
      let (text, input) ← readInput fuel isFirst
      match ← ahead with
      | []                  => return (attributes ++ text, [input])
      | .sign [','] :: rest =>
        goOn rest
        let (more, inputs) ← readInputs fuel false
        return (attributes ++ text ++ ',' :: more, input :: inputs)
      | _                   => failure

/-- An input.  The first may be written as the instance itself, and is then known by its text alone. -/
def readInput : Nat → Bool → Reader (Text × Option Text × TypeExpr)
  | 0,        _       => failure
  | fuel + 1, isFirst => do
    let start ← ahead
    match start with
    | .word ['m', 'u', 't'] :: .word ['s', 'e', 'l', 'f'] :: rest =>
      if isFirst then
        goOn rest
        let colon ← perhaps (sign [':'])
        if !colon.isEmpty then let _ ← readType fuel true
        let text ← takenSince start
        return (text, none, .other text)
      else failure
    | .word name :: .sign [':'] :: rest =>
      goOn rest
      let type ← readType fuel true
      return (name ++ ':' :: type.text, some name, type)
    | _ =>
      let type ← readType fuel true
      return (type.text, none, type)

end

/-- The type that the text writes. -/
def TypeExpr.ofText (t : Text) : Option TypeExpr := do
  let ts ← trees t
  Reader.all ts (readType (20 * (textAll ts).length + 20) true)

end Declaration
end CommandConsole
