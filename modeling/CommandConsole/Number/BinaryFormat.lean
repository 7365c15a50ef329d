import CommandConsole.Number.Power
/-!
# Binary floating-point formats

A format is given by the widths of its two fields.  `BinaryFormat.magnitude` reads a bit pattern as an exact number
`significand · 2 ^ exponent`, and `BinaryFormat.round` is the way back: the pattern of the number nearest to a given ratio,
ties to the even significand, too large a ratio to infinity.  Every number the console reads from text or converts from one
format to the other goes through this one rounding.
-/
namespace CommandConsole

structure BinaryFormat where
  fractionBits : Nat
  exponentBits : Nat

namespace BinaryFormat

def binary32 : BinaryFormat := ⟨23, 8⟩

def binary64 : BinaryFormat := ⟨52, 11⟩

/-- The exponent of the least positive number, a power of two. -/
def minExponent (f : BinaryFormat) : Int := 2 - pow2 (f.exponentBits - 1) - f.fractionBits

/-- The pattern of infinity, which is also the least that is no finite number. -/
def infinityBits (f : BinaryFormat) : Nat := (pow2 f.exponentBits - 1) * pow2 f.fractionBits

/-- The place of the sign above the magnitude. -/
def signBit (f : BinaryFormat) : Nat := pow2 (f.fractionBits + f.exponentBits)

/-- A pattern that stands for no number. -/
def nanBits (f : BinaryFormat) : Nat := f.infinityBits + pow2 (f.fractionBits - 1)

end BinaryFormat

/-! ## Reading a bit pattern -/

/-- What a bit pattern stands for, its sign apart. -/
inductive Magnitude where
  | notANumber
  | infinite
  | finite (significand : Nat) (exponent : Int)
deriving DecidableEq

/-- The magnitude of a pattern without its sign. -/
def BinaryFormat.magnitude (f : BinaryFormat) (bits : Nat) : Magnitude :=
  let field := bits / pow2 f.fractionBits
  let fraction := bits % pow2 f.fractionBits
  if f.infinityBits < bits then .notANumber
  else if bits = f.infinityBits then .infinite
  else if field = 0 then .finite fraction f.minExponent
  else .finite (pow2 f.fractionBits + fraction) (f.minExponent + (field - 1 : Nat))

/-! ## Rounding a ratio -/

/-- The whole number nearest to `n / d`; halfway between two, the even one. -/
def roundHalfEven (n d : Nat) : Nat :=
  let q := n / d
  let r := n % d
  if 2 * r < d then q else if d < 2 * r then q + 1 else q + q % 2

/-- The value `n / d / 2 ^ e` as a ratio of whole numbers. -/
def scaleDown (n d : Nat) (e : Int) : Nat × Nat := (n * pow2 (-e).toNat, d * pow2 e.toNat)

/-- The greatest `k` with `2 ^ k ≤ n / d`, for positive `n` and `d`. -/
def floorLog2 (n d : Nat) : Int :=
  let k : Int := (n.log2 : Int) - (d.log2 : Int)
  let s := scaleDown n d k
  if s.1 < s.2 then k - 1 else k

/-- The pattern nearest to `n / d`.  The exponent is the least for which the significand fits; a significand rounded up
to the next power of two carries into the exponent field by itself. -/
def BinaryFormat.round (f : BinaryFormat) (n d : Nat) : Nat :=
  if n = 0 then 0
  else
    let e := max f.minExponent (floorLog2 n d - f.fractionBits)
    let s := scaleDown n d e
    min ((e - f.minExponent).toNat * pow2 f.fractionBits + roundHalfEven s.1 s.2) f.infinityBits

/-- The pattern nearest to `significand · 2 ^ exponent`. -/
def BinaryFormat.roundBinary (f : BinaryFormat) (significand : Nat) (exponent : Int) : Nat :=
  f.round (significand * pow2 exponent.toNat) (pow2 (-exponent).toNat)

/-- The pattern nearest to `digits · 10 ^ exponent`.  Beyond the four hundredth place on either side every format has only
zero and infinity left, and no power of ten is computed. -/
def BinaryFormat.roundDecimal (f : BinaryFormat) (digits : Nat) (exponent : Int) : Nat :=
  let places := ((Nat.toDigits 10 digits).length : Int) + exponent
  if digits = 0 ∨ places < -400 then 0
  else if 400 < places then f.infinityBits
  else f.round (digits * pow10 exponent.toNat) (pow10 (-exponent).toNat)

/-- The pattern of a magnitude, rounded to the format. -/
def BinaryFormat.ofMagnitude (f : BinaryFormat) : Magnitude → Nat
  | .notANumber                  => f.nanBits
  | .infinite                    => f.infinityBits
  | .finite significand exponent => f.roundBinary significand exponent

/-! ## The two formats of the machine -/

/-- A number with a sign: what a bit pattern is read as and written from. -/
structure SignedMagnitude where
  negative  : Bool
  magnitude : Magnitude
deriving DecidableEq

namespace BinaryFormat

def decode (f : BinaryFormat) (bits : Nat) : SignedMagnitude :=
  ⟨decide (f.signBit ≤ bits), f.magnitude (bits % f.signBit)⟩

def encode (f : BinaryFormat) (x : SignedMagnitude) : Nat :=
  (if x.negative then f.signBit else 0) + f.ofMagnitude x.magnitude

end BinaryFormat

/-- The exact number that a double-precision float is. -/
def Float.exact (x : Float) : SignedMagnitude := BinaryFormat.binary64.decode x.toBits.toNat

/-- The exact number that a single-precision float is. -/
def Float32.exact (x : Float32) : SignedMagnitude := BinaryFormat.binary32.decode x.toBits.toNat

def SignedMagnitude.toFloat (x : SignedMagnitude) : Float := Float.ofBits (BinaryFormat.binary64.encode x).toUInt64

def SignedMagnitude.toFloat32 (x : SignedMagnitude) : Float32 := Float32.ofBits (BinaryFormat.binary32.encode x).toUInt32

/-- The nearest single-precision float. -/
def narrow (x : Float) : Float32 := (Float.exact x).toFloat32

/-- The nearest double-precision float to an integer. -/
def floatOfInt (i : Int) : Float := SignedMagnitude.toFloat ⟨decide (i < 0), .finite i.natAbs 0⟩

/-- The greatest finite single-precision number. -/
def maxSingle : Nat × Int := (pow2 24 - 1, 104)

end CommandConsole
