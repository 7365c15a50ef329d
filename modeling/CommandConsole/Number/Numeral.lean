import CommandConsole.Number.BinaryFormat
import CommandConsole.Text.Basic
/-!
# Numerals

The texts that stand for numbers.  A decimal numeral is an optional sign, digits with at most one point among them and at
least one digit, and an optional exponent; `inf`, `infinity` and `nan` stand for the values that have no digits.  An
integer numeral is an optional sign, an optional radix prefix `0x`, `0o` or `0b`, and one or more digits of that radix.
-/
namespace CommandConsole

/-! ## Decimal numerals -/

/-- What a decimal numeral denotes. -/
structure Numeral where
  negative : Bool
  /-- Nothing for a text that denotes no finite number. -/
  value    : Option (Nat × Int)
  infinite : Bool
deriving DecidableEq

/-- The value of a run of decimal digits, after the digits that made `n`. -/
def natOfDigits (n : Nat) (digits : Text) : Nat := digits.foldl (fun a c => a * 10 + (c.toNat - '0'.toNat)) n

/-- The digits at the start of `t` and what follows them. -/
def takeDigits (t : Text) : Text × Text := (t.takeWhile Char.isDigit, t.dropWhile Char.isDigit)

/-- Strips a sign: is it a minus, and what follows. -/
def takeSign : Text → Bool × Text
  | '-' :: t => (true, t)
  | '+' :: t => (false, t)
  | t        => (false, t)

/-- The exponent part of a numeral, all of it: nothing, or `e` and a signed number. -/
def readExponent? : Text → Option Int
  | []     => some 0
  | c :: t =>
    if c = 'e' ∨ c = 'E' then
      let (negative, ds) := takeSign t
      if ds ≠ [] ∧ ds.all Char.isDigit then
        some (if negative then -(natOfDigits 0 ds : Int) else natOfDigits 0 ds)
      else none
    else none

/-- The number that an unsigned decimal numeral denotes, as digits and a power of ten. -/
def readDecimal? (t : Text) : Option (Nat × Int) :=
  let (whole, rest) := takeDigits t
  let (fraction, rest) :=
    match rest with
    | '.' :: r => takeDigits r
    | r        => ([], r)
  if whole = [] ∧ fraction = [] then none
  else (readExponent? rest).map (fun e => (natOfDigits 0 (whole ++ fraction), e - fraction.length))

/-- Reads a decimal numeral. -/
def readNumeral? (t : Text) : Option Numeral :=
  let (negative, body) := takeSign t
  match readDecimal? body with
  | some v => some ⟨negative, some v, false⟩
  | none   =>
    if Text.sameAscii body "inf" || Text.sameAscii body "infinity" then some ⟨negative, none, true⟩
    else if Text.sameAscii body "nan" then some ⟨false, none, false⟩
    else none

/-- The pattern nearest to what the numeral denotes. -/
def Numeral.round (f : BinaryFormat) (n : Numeral) : Nat :=
  (if n.negative then f.signBit else 0) +
    match n.value with
    | some (digits, e) => f.roundDecimal digits e
    | none             => if n.infinite then f.infinityBits else f.nanBits

def readFloat? (t : Text) : Option Float := (readNumeral? t).map (fun n => Float.ofBits (n.round .binary64).toUInt64)

def readFloat32? (t : Text) : Option Float32 :=
  (readNumeral? t).map (fun n => Float32.ofBits (n.round .binary32).toUInt32)

/-! ## Integer numerals -/

/-- The value of a digit in a radix up to sixteen, letters in either case. -/
def digitValue? (radix : Nat) (c : Char) : Option Nat :=
  let v : Option Nat :=
    if c.isDigit then some (c.toNat - '0'.toNat)
    else if 'a' ≤ c ∧ c ≤ 'f' then some (c.toNat - 'a'.toNat + 10)
    else if 'A' ≤ c ∧ c ≤ 'F' then some (c.toNat - 'A'.toNat + 10)
    else none
  v.filter (decide <| · < radix)

/-- The value of a run of digits, after the digits that made `n`. -/
def natOfRadix? (radix : Nat) : Nat → Text → Option Nat
  | n, []     => some n
  | n, c :: t => (digitValue? radix c).bind (fun d => natOfRadix? radix (n * radix + d) t)

/-- Strips a radix prefix: the radix, and the digits after it. -/
def takeRadix : Text → Nat × Text
  | '0' :: 'x' :: t => (16, t)
  | '0' :: 'o' :: t => (8, t)
  | '0' :: 'b' :: t => (2, t)
  | t               => (10, t)

/-- Reads an integer numeral: was there a minus sign, and the number after it. -/
def readInteger? (t : Text) : Option (Bool × Nat) :=
  let (negative, body) := takeSign t
  let (radix, digits) := takeRadix body
  if digits = [] then none else (natOfRadix? radix 0 digits).map (negative, ·)

end CommandConsole
