import CommandConsole.Declaration.Literal
/-!
# From text to trees

The text of a declaration is cut into pieces, and the brackets among them make trees of what they enclose.  Blanks and
comments leave no tree, except for a comment that documents: `/// text` and `/** text */` are other ways to write the
attribute `#[doc = "text"]`, and with `!` in the place of the third sign, `#![doc = "text"]`.
-/
namespace CommandConsole
namespace Declaration

/-! ## Comments -/

/-- The line, and what follows it; it ends before `\n`, or before the `\r` of `\r\n`. -/
def takeLine : Text → Text × Text
  | []                => ([], [])
  | '\n' :: t         => ([], '\n' :: t)
  | '\r' :: '\n' :: t => ([], '\n' :: t)
  | c :: t            => let (line, rest) := takeLine t; (c :: line, rest)

/-- What a comment that starts with `/*` holds, and what follows its `*/`; such comments nest. -/
def takeComment : Nat → Text → Option (Text × Text)
  | _,     []              => none
  | n,     '/' :: '*' :: t => (takeComment (n + 1) t).map fun (body, rest) => ('/' :: '*' :: body, rest)
  | 0,     '*' :: '/' :: t => some ([], t)
  | n + 1, '*' :: '/' :: t => (takeComment n t).map fun (body, rest) => ('*' :: '/' :: body, rest)
  | n,     c :: t          => (takeComment n t).map fun (body, rest) => (c :: body, rest)

/-- Blocks of characters that are not seen by themselves: controls, marks that join the character before them, formats and
blanks other than the space. -/
def unseenRanges : List (Nat × Nat) :=
  [(0x00, 0x1f), (0x7f, 0xa0), (0xad, 0xad), (0x300, 0x36f), (0x483, 0x489), (0x591, 0x5bd), (0x600, 0x605),
    (0x610, 0x61a), (0x61c, 0x61c), (0x64b, 0x65f), (0x1680, 0x1680), (0x180b, 0x180e), (0x1ab0, 0x1ace),
    (0x1dc0, 0x1dff), (0x2000, 0x200f), (0x2028, 0x202f), (0x205f, 0x206f), (0x20d0, 0x20f0), (0x3000, 0x3000),
    (0x302a, 0x302f), (0x3099, 0x309a), (0xe000, 0xf8ff), (0xfe00, 0xfe0f), (0xfe20, 0xfe2f), (0xfeff, 0xfeff),
    (0xfff0, 0xfffb), (0xe0000, 0x10ffff)]

def isUnseen (c : Char) : Bool := unseenRanges.any fun (first, last) => first ≤ c.toNat && c.toNat ≤ last

/-- The body of a literal that stands for the text. -/
def escaped : Text → Text
  | []          => []
  | '\x00' :: t =>
    (if t.head?.any (fun c => '0' ≤ c && c ≤ '7') then "\\x00" else "\\0").toList ++ escaped t
  | '\t' :: t   => '\\' :: 't' :: escaped t
  | '\r' :: t   => '\\' :: 'r' :: escaped t
  | '\n' :: t   => '\\' :: 'n' :: escaped t
  | '"' :: t    => '\\' :: '"' :: escaped t
  | '\\' :: t   => '\\' :: '\\' :: escaped t
  | c :: t      =>
    if isUnseen c then '\\' :: 'u' :: '\x7b' :: (Nat.toDigits 16 c.toNat ++ '\x7d' :: escaped t) else c :: escaped t

/-- The attribute that a comment is: of what follows if it is `outer`, else of what it stands in. -/
def documentation (outer : Bool) (body : Text) : List Tree :=
  let value : Tree := .quoted ('"' :: (escaped body ++ ['"'])) body
  let inBrackets : Tree := .group .square [.word "doc", .sign ['='], value]
  if outer then [.sign ['#'], inBrackets] else [.sign ['#'], .sign ['!'], inBrackets]

/-- The trees of a comment up to the end of the line, its two signs having been read. -/
def lineComment (t : Text) : List Tree × Text :=
  let (line, rest) := takeLine t
  match line with
  | '!' :: body      => (documentation false body, rest)
  | '/' :: '/' :: _  => ([], rest)
  | '/' :: body      => (documentation true body, rest)
  | _                => ([], rest)

/-- The trees of a comment between `/*` and `*/`, the first of them having been read. -/
def blockComment (t : Text) : Option (List Tree × Text) :=
  (takeComment 0 t).map fun (comment, rest) =>
    match comment with
    | '!' :: body     => (documentation false body, rest)
    | '*' :: '*' :: _ => ([], rest)
    | ['*']           => ([], rest)
    | '*' :: body     => (documentation true body, rest)
    | _               => ([], rest)

/-! ## Pieces -/

/-- A piece of the text: whole trees, perhaps none, or one side of a bracket. -/
inductive Piece where
  | whole (ts : List Tree)
  | opens (b : Bracket)
  | closes (b : Bracket)

/-- A piece that is one tree. -/
def piece : Tree × Text → Piece × Text
  | (tree, rest) => (.whole [tree], rest)

/-- The first piece of a text that is not empty. -/
def firstPiece : Text → Option (Piece × Text)
  | []                     => none
  | '/' :: '/' :: t        => let (ts, rest) := lineComment t; some (.whole ts, rest)
  | '/' :: '*' :: t        => (blockComment t).map fun (ts, rest) => (.whole ts, rest)
  | ':' :: ':' :: t        => some (piece (.sign [':', ':'], t))
  | '-' :: '>' :: t        => some (piece (.sign ['-', '>'], t))
  | '.' :: '.' :: '.' :: t => some (piece (.sign ['.', '.', '.'], t))
  | '.' :: '.' :: t        => some (piece (.sign ['.', '.'], t))
  | '"' :: t               => (quoted? [] t).map piece
  | '\'' :: t              => (afterApostrophe t).map piece
  | '(' :: t               => some (.opens .round, t)
  | ')' :: t               => some (.closes .round, t)
  | '[' :: t               => some (.opens .square, t)
  | ']' :: t               => some (.closes .square, t)
  | '\x7b' :: t            => some (.opens .curly, t)
  | '\x7d' :: t            => some (.closes .curly, t)
  | c :: t                 =>
    if isGap c then some (.whole [], t)
    else if isWordStart c then (wordOrLiteral (c :: t)).map piece
    else if c.isDigit then let (name, rest) := number (c :: t); some (piece (.number name, rest))
    else some (piece (.sign [c], t))

/-- The pieces of a text; `fuel` above its length is enough, as every piece takes a character. -/
def pieces : Nat → Text → Option (List Piece)
  | 0,        _  => none
  | _ + 1,    [] => some []
  | fuel + 1, t  => do
    let (p, rest) ← firstPiece t
    return p :: (← pieces fuel rest)

/-! ## Trees -/

/-- The trees of the pieces: `outer` are the brackets still open with what stands before them, `done` is what has been read
since the innermost of them, both latest first. -/
def grow (outer : List (Bracket × List Tree)) (done : List Tree) : List Piece → Option (List Tree)
  | []             => if outer.isEmpty then some done.reverse else none
  | .whole ts :: l => grow outer (ts.reverse ++ done) l
  | .opens b :: l  => grow ((b, done) :: outer) [] l
  | .closes b :: l =>
    match outer with
    | []                    => none
    | (b', before) :: outer => if b = b' then grow outer (.group b done.reverse :: before) l else none

/-- The trees of a text, if its literals end and its brackets match. -/
def trees (t : Text) : Option (List Tree) := (pieces (t.length + 1) t).bind (grow [] [])

end Declaration
end CommandConsole
