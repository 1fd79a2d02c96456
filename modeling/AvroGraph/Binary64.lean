/-!
# Binary floating point of 64 bits

Finite IEEE 754 doubles as exact numbers `± significand · 2 ^ exponent`, with rounding to
nearest, ties to even, done in natural-number arithmetic. Every operation here is one rounding
of an exact quotient (`Magnitude.ofRatio`).
-/

namespace AvroGraph

/-- A power of two. -/
def powerOfTwo (exponent : Nat) : Nat :=
  Nat.pow 2 exponent

/-- A power of ten. -/
def powerOfTen (exponent : Nat) : Nat :=
  Nat.pow 10 exponent

/-- A finite non-negative double, of value `significand · 2 ^ exponent`. A canonical magnitude
has a significand below `2 ^ 53` and an exponent of at least `-1074`, and it is either normal
(the significand reaches `2 ^ 52`) or has the least exponent. -/
structure Magnitude where
  significand : Nat
  exponent : Int
  deriving DecidableEq

namespace Magnitude

/-- The least exponent; magnitudes that need a smaller one lose digits. -/
def leastExponent : Int := -1074

/-- The exponent of the largest finite magnitudes. -/
def greatestExponent : Int := 971

/-- The magnitude of value zero. -/
def zero : Magnitude := ⟨0, leastExponent⟩

/-- Whether the value is zero. -/
def isZero (magnitude : Magnitude) : Bool :=
  magnitude.significand == 0

/-- The value as a fraction of natural numbers. -/
def toRatio (magnitude : Magnitude) : Nat × Nat :=
  if 0 ≤ magnitude.exponent then (magnitude.significand * powerOfTwo magnitude.exponent.toNat, 1)
  else (magnitude.significand, powerOfTwo (-magnitude.exponent).toNat)

/-- The fraction `numerator / denominator` in units of `2 ^ exponent`. -/
def inUnits (numerator denominator : Nat) (exponent : Int) : Nat × Nat :=
  if 0 ≤ exponent then (numerator, denominator * powerOfTwo exponent.toNat)
  else (numerator * powerOfTwo (-exponent).toNat, denominator)

/-- The natural number nearest to a fraction; of two equally near ones the even one. -/
def roundHalfEven (numerator denominator : Nat) : Nat :=
  let quotient := numerator / denominator
  let twice := 2 * (numerator % denominator)
  if twice < denominator then quotient
  else if denominator < twice then quotient + 1
  else quotient + quotient % 2

/-- The exponent at which a positive fraction has a significand of 53 bits, or the least one. -/
def exponentOf (numerator denominator : Nat) : Int :=
  let guess : Int := max (Int.ofNat numerator.log2 - Int.ofNat denominator.log2 - 53) leastExponent
  let (scaled, unit) := inUnits numerator denominator guess
  if scaled / unit < powerOfTwo 53 then guess else guess + 1

/-- The magnitude nearest to a fraction, ties to even; `none` when it lies beyond all finite
ones. -/
def ofRatio (numerator denominator : Nat) : Option Magnitude :=
  if numerator = 0 then some zero
  else
    let exponent := exponentOf numerator denominator
    let (scaled, unit) := inUnits numerator denominator exponent
    let rounded := roundHalfEven scaled unit
    let result : Magnitude :=
      if rounded = powerOfTwo 53 then ⟨powerOfTwo 52, exponent + 1⟩ else ⟨rounded, exponent⟩
    if result.exponent ≤ greatestExponent then some result else none

/-- The magnitude nearest to a natural number. -/
def ofNat (value : Nat) : Option Magnitude :=
  ofRatio value 1

/-- The rounded product. -/
def mul (left right : Magnitude) : Option Magnitude :=
  let (leftUpper, leftLower) := left.toRatio
  let (rightUpper, rightLower) := right.toRatio
  ofRatio (leftUpper * rightUpper) (leftLower * rightLower)

/-- The rounded quotient by a positive magnitude. -/
def div (left right : Magnitude) : Option Magnitude :=
  let (leftUpper, leftLower) := left.toRatio
  let (rightUpper, rightLower) := right.toRatio
  ofRatio (leftUpper * rightLower) (leftLower * rightUpper)

end Magnitude

/-- A finite double: a magnitude with a sign, which zero has too. -/
structure Binary64 where
  negative : Bool
  magnitude : Magnitude
  deriving DecidableEq

/-- Equality of values: the two zeros are one value. -/
def Binary64.same (left right : Binary64) : Bool :=
  left = right || (left.magnitude.isZero && right.magnitude.isZero)

end AvroGraph
