import CommandConsole.Declaration.Member
import CommandConsole.Declaration.TypeExpr.Reading
/-!
# Reading the parts of a declaration

The text of attributes, visibilities, receivers, patterns and variants.
-/
namespace CommandConsole
namespace Declaration

open Reader

/-- A text of attributes and nothing else. -/
def attributesOf (t : Text) : Option (List Attribute) := do
  match readAttributes (← trees t) with
  | (attributes, []) => return attributes
  | _                => none

/-- Visible everywhere?  A visibility that names a place, or no visibility, is private. -/
def publicOf (t : Text) : Option Bool := do
  match ← trees t with
  | .word _ :: .group .round _ :: _ => return false
  | .word w :: _                    => return w = "pub".toList
  | _                               => return false

/-- The receiver that the trees write.  One that is given a type is not borrowed, whatever the type is. -/
def readReceiver : Reader Receiver := do
  let reference ← perhaps (sign ['&'])
  if !reference.isEmpty then let _ ← perhaps lifetime
  let exclusive ← perhaps (word "mut")
  let _ ← word "self"
  let rest ← ahead
  if rest.isEmpty || startsWithSign [':'] rest then return ⟨!reference.isEmpty, !exclusive.isEmpty⟩ else failure

/-- The receiver written before the trees that are left. -/
def receiver? (ts : List Tree) : Option Receiver := (readReceiver.run ts).map Prod.fst

def receiverOf (t : Text) : Option Receiver := do receiver? (skipAttributes (← trees t))

/-- Words that are no names. -/
def keywords : List Text :=
  ["_", "abstract", "as", "async", "await", "become", "box", "break", "const", "continue", "crate", "do", "dyn", "else",
    "enum", "extern", "false", "final", "fn", "for", "if", "impl", "in", "let", "loop", "macro", "match", "mod", "move",
    "mut", "override", "priv", "pub", "ref", "return", "Self", "self", "static", "struct", "super", "trait", "true", "try",
    "type", "typeof", "unsafe", "unsized", "use", "virtual", "where", "while", "yield"].map String.toList

/-- After a name that is the start of something longer: a path, a macro call, or the parts of a value. -/
def continuesName : List Tree → Bool
  | .group .round _ :: _ => true
  | .group .curly _ :: _ => true
  | .sign s :: _         => [[':', ':'], ['!'], ['.', '.'], ['.', '.', '.']].contains s
  | _                    => false

/-- The name that a pattern gives to the whole value, if that is all it does before it takes the value apart. -/
def patternName (ts : List Tree) : Option Text := (readName.run ts).bind Prod.fst
where
  readName : Reader (Option Text) := do
    let reference ← perhaps (word "ref")
    let _ ← perhaps (word "mut")
    let name ← anyWord
    let isName := !keywords.contains name || (!reference.isEmpty && name = "self".toList)
    return if isName && !continuesName (← ahead) then some name else none

/-- The argument written by a pattern and a type.  The type `...` stands for any number of further arguments, which no command
fills. -/
def argumentOf (pattern type : Text) : Option Argument := do
  let ts := skipAttributes (← trees pattern)
  match receiver? ts with
  | some r => return .receiver r
  | none   =>
    if startsWithSign ['.', '.', '.'] (← trees type) then return .further
    else return .typed (patternName ts) (← TypeExpr.ofText type)

/-- A variant, after its attributes and a visibility, which has no meaning; data stands in brackets right after the name. -/
def variantOf (t : Text) : Option Variant := do
  let ts := skipAttributes (← trees t)
  let ts := match ts with
    | .word ['p', 'u', 'b'] :: .group .round _ :: ts => ts
    | .word ['p', 'u', 'b'] :: ts                    => ts
    | _                                              => ts
  match ts with
  | .word name :: .group .. :: _ => return ⟨name, false⟩
  | .word name :: _              => return ⟨name, true⟩
  | _                            => none

/-- Does the text list parameters of a type? -/
def genericOf (t : Text) : Option Bool := do
  match ← trees t with
  | .sign ['<'] :: ts => return !startsWithSign ['>'] ts
  | _                 => return false

/-- The name in the text. -/
def nameOf (t : Text) : Option Text := do
  match ← trees t with
  | .word name :: _ => return name
  | _               => none

end Declaration
end CommandConsole
