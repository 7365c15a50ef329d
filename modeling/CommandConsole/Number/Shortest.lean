import CommandConsole.Number.BinaryFormat
import CommandConsole.Text.Basic
/-!
# Shortest digits

A float is shown with the fewest digits that read back as the same float; of the numbers with so few digits the nearest to
it is taken, and of two equally near the larger.  The digits are written out in full, without an exponent.

The numbers that read back as a float fill an interval around it, up to halfway to each neighbour; the ends belong to it
when the significand is even.  `shortest` tries grids of ever finer powers of ten and stops at the first on which one of
the float's two neighbours lies inside the interval.
-/
namespace CommandConsole

/-- A decimal, worth `digits · 10 ^ exponent`. -/
structure Decimal where
  digits   : Nat
  exponent : Int
deriving DecidableEq

/-- The interval of the numbers that round to `4 · value`, in quarters of the last place: from `low` to `high`, both ends
included if `closed`. -/
structure Basin where
  low    : Nat
  value  : Nat
  high   : Nat
  closed : Bool

/-- The interval around a positive number; below a power of two the neighbours lie twice as close. -/
def BinaryFormat.basin (f : BinaryFormat) (significand : Nat) (exponent : Int) : Basin where
  low := if significand = pow2 f.fractionBits ∧ f.minExponent < exponent then 4 * significand - 1 else 4 * significand - 2
  value := 4 * significand
  high := 4 * significand + 2
  closed := significand % 2 == 0

/-- Is `x ≤ y`, or `x < y` where the end does not count? -/
def Basin.within (b : Basin) (x y : Nat) : Bool := if b.closed then decide (x ≤ y) else decide (x < y)

/-- The point of the grid of multiples of `unit / scale` that stands for the basin's value, if one of the two next to it
lies in the basin. -/
def Basin.gridPoint? (b : Basin) (scale unit : Nat) : Option Nat :=
  let below := b.value * scale / unit
  let down := b.within (b.low * scale) (below * unit)
  let up := b.within ((below + 1) * unit) (b.high * scale)
  if down && up then
    some (if unit ≤ 2 * (b.value * scale - below * unit) then below + 1 else below)
  else if down then some below
  else if up then some (below + 1)
  else none

/-- Tries the grid of `10 ^ g` and, while `steps` remain, the finer ones after it.  The basin counts in `2 ^ exponent`. -/
def Basin.search (b : Basin) (exponent : Int) : Nat → Int → Decimal
  | 0,         g => ⟨0, g⟩
  | steps + 1, g =>
    match b.gridPoint? (pow2 exponent.toNat * pow10 (-g).toNat) (pow2 (-exponent).toNat * pow10 g.toNat) with
    | some n => ⟨n, g⟩
    | none   => b.search exponent steps (g - 1)

/-- The fewest digits that stand for the positive number `significand · 2 ^ exponent`.  The search starts at a power of ten
above the number and takes fewer steps than the significand has bits. -/
def BinaryFormat.shortest (f : BinaryFormat) (significand : Nat) (exponent : Int) : Decimal :=
  let top := (((significand.log2 : Int) + exponent + 2) * 30103).fdiv 100000 + 1
  (f.basin significand exponent).search (exponent - 2) (f.fractionBits + 3) top

/-- The number written out: digits, zeros up to the point, and a fraction where there is one. -/
def Decimal.text (d : Decimal) : Text :=
  let ds := Text.ofNat d.digits
  let places := (-d.exponent).toNat
  if places = 0 then ds ++ List.replicate d.exponent.toNat '0'
  else if places < ds.length then ds.take (ds.length - places) ++ '.' :: ds.drop (ds.length - places)
  else "0." ++ List.replicate (places - ds.length) '0' ++ ds

/-- A number as the console writes it. -/
def SignedMagnitude.text (f : BinaryFormat) (x : SignedMagnitude) : Text :=
  let sign : Text := if x.negative then "-" else ""
  match x.magnitude with
  | .notANumber     => "NaN"
  | .infinite       => sign ++ "inf"
  | .finite 0 _     => sign ++ "0"
  | .finite m e     => sign ++ (f.shortest m e).text

def Float.text (x : Float) : Text := (Float.exact x).text .binary64

def Float32.text (x : Float32) : Text := (Float32.exact x).text .binary32

/-- The double-precision float with the same shortest digits, so that 0.1 stays 0.1. -/
def widen (x : Float32) : Float :=
  let e := Float32.exact x
  match e.magnitude with
  | .finite 0 _ => e.toFloat
  | .finite m q =>
    let d := BinaryFormat.binary32.shortest m q
    Float.ofBits
      ((if e.negative then BinaryFormat.binary64.signBit else 0) +
        BinaryFormat.binary64.roundDecimal d.digits d.exponent).toUInt64
  | _           => e.toFloat

end CommandConsole
