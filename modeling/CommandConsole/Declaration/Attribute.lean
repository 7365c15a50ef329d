import CommandConsole.Declaration.Piece
/-!
# Attributes

An attribute is a path in square brackets after `#`, with arguments in brackets of its own, with a value, or alone.
Attributes stand before what they say something about.
-/
namespace CommandConsole
namespace Declaration

/-- What follows the path of an attribute. -/
inductive AttributeBody where
  | bare
  | list (inner : List Tree)
  | value

structure Attribute where
  path : Text
  body : AttributeBody

def isPathPart : Tree → Bool
  | .word _ => true
  | .sign s => s == [':', ':']
  | _       => false

def Attribute.ofTrees (inner : List Tree) : Attribute where
  path := textAll (inner.takeWhile isPathPart)
  body := match inner.dropWhile isPathPart with
    | []                => .bare
    | .group _ ts :: _  => .list ts
    | _                 => .value

/-- The attributes at the start of the trees, and what follows them. -/
def readAttributes : List Tree → List Attribute × List Tree
  | .sign ['#'] :: .group .square inner :: ts =>
    let (attributes, rest) := readAttributes ts
    (.ofTrees inner :: attributes, rest)
  | ts => ([], ts)

/-- What follows the attributes that the trees start with. -/
def skipAttributes (ts : List Tree) : List Tree := (readAttributes ts).2

end Declaration
end CommandConsole
