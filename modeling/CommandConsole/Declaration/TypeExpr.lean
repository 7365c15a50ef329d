import CommandConsole.Text.Basic
/-!
# Types as they are written

A declaration names types that the console has to know before it can convert a value to them.  What it needs of a type is
its outermost form: is it a reference, and to what; which name does its path end in, and with which arguments; does it stand
for something that is called.  Every form also keeps its text, without spaces; all that a form does not single out (arrays,
slices, tuples, pointers, ...) is only that text.

The text of a form is as it was written, but for four things that may be written in more than one way: between angle brackets
lifetimes come first (`argumentsText`), a path goes without `::` before round brackets, a name that `for` introduces without
bounds goes without the colon, and a comment that documents is an attribute.
-/
namespace CommandConsole
namespace Declaration

mutual

inductive TypeExpr where
  /-- The empty tuple. -/
  | unit
  | reference (text : Text) (exclusive : Bool) (target : TypeExpr)
  /-- A path, with its last segment. -/
  | path (text : Text) (last : Segment)
  /-- A pointer to a function: the names and types it takes, and what it returns. -/
  | function (text : Text) (inputs : List (Option Text × TypeExpr)) (output : Option TypeExpr)
  /-- A value known by its traits alone. -/
  | object (text : Text) (bounds : List Segment)
  /-- A type that the caller chooses among those with some traits. -/
  | anonymous (text : Text)
  | other (text : Text)

/-- The last segment of a path: a name, and what stands in angle or in round brackets after it.  Of the arguments in angle
brackets those that are no types are only counted. -/
inductive Segment where
  | plain (name : Text)
  | generic (name : Text) (arguments : List (Option TypeExpr))
  | call (name : Text) (inputs : List TypeExpr) (output : Option TypeExpr)

end

def TypeExpr.text : TypeExpr → Text
  | .unit          => "()"
  | .reference t .. => t
  | .path t _      => t
  | .function t .. => t
  | .object t _    => t
  | .anonymous t   => t
  | .other t       => t

def Segment.name : Segment → Text
  | .plain n     => n
  | .generic n _ => n
  | .call n ..   => n

/-- The type of owned text. -/
def TypeExpr.string : TypeExpr := .path "::std::string::String" (.plain "String")

/-- Is this the type of text that is only borrowed? -/
def TypeExpr.isStr : TypeExpr → Bool
  | .path t _ => t == "str".toList
  | _         => false

/-! ## Lists between angle brackets -/

/-- An argument in angle brackets, with what is known of it. -/
structure TypeArgument where
  text       : Text
  isLifetime : Bool
  /-- The argument itself, if it is a type. -/
  type       : Option TypeExpr

/-- Arguments, each with a comma after it; after the last one only if it is followed by one. -/
def listed : List (TypeArgument × Bool) → Text
  | []                     => []
  | [(a, hasComma)]        => if hasComma then a.text ++ [','] else a.text
  | (a, _) :: b :: l       => a.text ++ ',' :: listed (b :: l)

/-- The text of arguments.  Lifetimes come first, wherever they were written; an argument takes along the comma after it. -/
def argumentsText (l : List (TypeArgument × Bool)) : Text :=
  listed (l.filter (·.1.isLifetime) ++ l.filter (!·.1.isLifetime))

end Declaration
end CommandConsole
