import CommandConsole.Declaration.Tree
import CommandConsole.Text.Blank
/-!
# Words and literals

How a word, a lifetime, a number, a character or a text is written in a declaration.  Each reader here is given what follows
the characters by which the kind is recognised, and returns the tree with the text after it, or nothing if the literal does
not end as it should.  A literal may end in a suffix, a word that is a part of it.
-/
namespace CommandConsole
namespace Declaration

/-! ## Characters -/

/-- Blanks and the two marks of direction, which stand between words as a blank does. -/
def isGap (c : Char) : Bool := isBlank c || c == '\u200e' || c == '\u200f'

def isWordStart (c : Char) : Bool := c.isAlpha || c == '_' || (decide (128 ≤ c.toNat) && !isGap c)

def isWordPart (c : Char) : Bool := isWordStart c || c.isDigit

def wordPart (t : Text) : Text × Text := (t.takeWhile isWordPart, t.dropWhile isWordPart)

/-- The word right after a literal, if there is one. -/
def suffixPart (t : Text) : Text × Text :=
  match t with
  | c :: _ => if isWordStart c then wordPart t else ([], t)
  | []     => ([], [])

/-! ## Numbers

A number is digits, with underscores between them, and may have a fraction and an exponent.  A point before a name or another
point belongs to them and not to the number. -/

def isDigitPart (c : Char) : Bool := c.isDigit || c == '_'

def digitPart (t : Text) : Text × Text := (t.takeWhile isDigitPart, t.dropWhile isDigitPart)

/-- The exponent that the text starts with; it has a digit. -/
def exponent? : Text → Option (Text × Text)
  | []     => none
  | e :: t =>
    let (lead, t) := (t.takeWhile (· = '_'), t.dropWhile (· = '_'))
    let (sign, t) : Text × Text := match t with
      | '+' :: t => (['+'], t)
      | '-' :: t => (['-'], t)
      | _        => ([], t)
    let (digits, t) := digitPart t
    if (e = 'e' ∨ e = 'E') ∧ digits.any Char.isDigit then some (e :: (lead ++ sign ++ digits), t) else none

/-- The fraction that the text starts with: a point, and the digits after it. -/
def fraction? : Text → Option (Text × Text)
  | '.' :: t =>
    if t.head?.any (fun c => c == '.' || isWordStart c) then none
    else let (digits, t) := digitPart t; some ('.' :: digits, t)
  | _        => none

/-- The number that the text starts with, its suffix included. -/
def number (t : Text) : Text × Text :=
  let (whole, rest) := digitPart t
  let (fraction, afterFraction) := (fraction? rest).getD ([], rest)
  let (exponent, afterExponent) := (exponent? afterFraction).getD ([], afterFraction)
  let (suffix, rest) := suffixPart afterExponent
  (whole ++ fraction ++ exponent ++ suffix, rest)

/-! ## Literals in quotes -/

/-- What stands before the next `quote`, and what follows it; a backslash keeps the character after it from ending the
literal. -/
def untilQuote (quote : Char) : Text → Option (Text × Text)
  | []             => none
  | '\\' :: c :: t => (untilQuote quote t).map fun (s, r) => ('\\' :: c :: s, r)
  | c :: t         => if c = quote then some ([], t) else (untilQuote quote t).map fun (s, r) => (c :: s, r)

/-- What stands before the next quote with `hashes` signs `#` after it, and what follows them. -/
def untilRawQuote (hashes : Nat) : Text → Option (Text × Text)
  | []     => none
  | c :: t =>
    if c = '"' ∧ t.take hashes = List.replicate hashes '#' then some ([], t.drop hashes)
    else (untilRawQuote hashes t).map fun (s, r) => (c :: s, r)

def hexDigit? (c : Char) : Option Nat :=
  if c.isDigit then some (c.toNat - 48)
  else if 'a' ≤ c ∧ c ≤ 'f' then some (c.toNat - 87)
  else if 'A' ≤ c ∧ c ≤ 'F' then some (c.toNat - 55)
  else none

/-- The character with this code point in hexadecimal; underscores only separate digits. -/
def hexChar? (digits : Text) : Option Char := do
  let value ← (digits.filter (· ≠ '_')).foldlM (fun n c => (hexDigit? c).map (16 * n + ·)) 0
  if value.isValidChar then some (Char.ofNat value) else none

def simpleEscape? : Char → Option Char
  | 'n'  => some '\n'
  | 'r'  => some '\r'
  | 't'  => some '\t'
  | '0'  => some '\x00'
  | '\\' => some '\\'
  | '\'' => some '\''
  | '"'  => some '"'
  | _    => none

/-- The characters that the body of a literal text stands for.  A backslash at the end of a line hides the blanks that
follow, and a line ends in `\n` however it is written. -/
def unescape : Nat → Text → Option Text
  | 0,     _  => none
  | _ + 1, [] => some []
  | n + 1, '\\' :: 'x' :: a :: b :: t => do return (← hexChar? [a, b]) :: (← unescape n t)
  | n + 1, '\\' :: 'u' :: '\x7b' :: t => do
    return (← hexChar? (t.takeWhile (· ≠ '\x7d'))) :: (← unescape n ((t.dropWhile (· ≠ '\x7d')).drop 1))
  | n + 1, '\\' :: '\n' :: t => unescape n (t.dropWhile isBlank)
  | n + 1, '\\' :: '\r' :: t => unescape n (t.dropWhile isBlank)
  | n + 1, '\\' :: c :: t => do return (← simpleEscape? c) :: (← unescape n t)
  | n + 1, '\r' :: '\n' :: t => do return '\n' :: (← unescape n t)
  | n + 1, c :: t => do return c :: (← unescape n t)

/-- The literal text whose opening quote has been read after `lead`. -/
def quoted? (lead t : Text) : Option (Tree × Text) := do
  let (body, rest) ← untilQuote '"' t
  let (suffix, rest) := suffixPart rest
  return (.quoted (lead ++ '"' :: body ++ '"' :: suffix) (← unescape (body.length + 1) body), rest)

/-- The literal text without escapes whose letter `r` has been read, if that is what follows. -/
def rawQuoted? (lead t : Text) : Option (Tree × Text) :=
  let hashes := t.takeWhile (· = '#')
  match t.dropWhile (· = '#') with
  | '"' :: t => do
    let (body, rest) ← untilRawQuote hashes.length t
    let (suffix, rest) := suffixPart rest
    return (.quoted (lead ++ hashes ++ '"' :: body ++ '"' :: hashes ++ suffix) body, rest)
  | _ => none

/-- A literal with this lead that is no text, once its body has been read. -/
def plainLiteral (lead : Text) (quote : Char) (t : Text) : Option (Tree × Text) := do
  let (body, rest) ← untilQuote quote t
  let (suffix, rest) := suffixPart rest
  return (.literal (lead ++ quote :: body ++ quote :: suffix), rest)

/-- A literal of bytes without escapes, once its letters have been read. -/
def rawBytes? (lead t : Text) : Option (Tree × Text) :=
  (rawQuoted? lead t).map fun (tree, rest) => (.literal tree.text, rest)

/-- A character in quotes, or a lifetime: the quote that comes before has been read. -/
def afterApostrophe (t : Text) : Option (Tree × Text) :=
  match t with
  | '\\' :: _       => plainLiteral [] '\'' t
  | c :: '\'' :: t  => let (suffix, rest) := suffixPart t; some (.literal ('\'' :: c :: '\'' :: suffix), rest)
  | 'r' :: '#' :: t => let (name, rest) := wordPart t; some (.lifetime ('\'' :: 'r' :: '#' :: name), rest)
  | _               =>
    let (name, rest) := wordPart t
    if name.isEmpty then none else some (.lifetime ('\'' :: name), rest)

/-- A word, or a literal that starts with a letter. -/
def wordOrLiteral (t : Text) : Option (Tree × Text) :=
  match t with
  | 'b' :: '"' :: r         => plainLiteral ['b'] '"' r
  | 'b' :: '\'' :: r        => plainLiteral ['b'] '\'' r
  | 'c' :: '"' :: r         => plainLiteral ['c'] '"' r
  | 'b' :: 'r' :: '"' :: r  => rawBytes? ['b', 'r'] ('"' :: r)
  | 'b' :: 'r' :: '#' :: r  => rawBytes? ['b', 'r'] ('#' :: r)
  | 'c' :: 'r' :: '"' :: r  => rawBytes? ['c', 'r'] ('"' :: r)
  | 'c' :: 'r' :: '#' :: r  => rawBytes? ['c', 'r'] ('#' :: r)
  | 'r' :: '"' :: r         => rawQuoted? ['r'] ('"' :: r)
  | 'r' :: '#' :: r         =>
    match rawQuoted? ['r'] ('#' :: r) with
    | some found => some found
    | none       => let (name, rest) := wordPart r; some (.word ('r' :: '#' :: name), rest)
  | _                       => let (name, rest) := wordPart t; some (.word name, rest)

end Declaration
end CommandConsole
