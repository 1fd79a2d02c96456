import AvroGraph.Binary64

/-!
# Shortest decimal text of a double

The fewest significant digits that read back as the same double, and of those the nearest to
its value. Small and moderate numbers are written plainly, all others with an exponent.
-/

namespace AvroGraph

/-- A positive decimal `digits · 10 ^ scale`. -/
structure Decimal where
  digits : Nat
  scale : Int
  deriving DecidableEq

namespace Decimal

/-- The number of decimal digits of a positive natural number. -/
def width (value : Nat) : Nat :=
  (Nat.toDigits 10 value).length

/-- The exponent of ten of the first digit of a positive fraction. -/
def leadingExponent (numerator denominator : Nat) : Int :=
  if denominator ≤ numerator then Int.ofNat (width (numerator / denominator)) - 1
  else -Int.ofNat (width ((denominator + numerator - 1) / numerator - 1))

end Decimal

namespace Magnitude

/-- The reals that round to a magnitude: fractions over one denominator, with the value itself
between the two ends. The ends belong to them when the significand is even. -/
structure Neighbourhood where
  low : Nat
  value : Nat
  high : Nat
  denominator : Nat
  closed : Bool

/-- The neighbourhood of a positive magnitude. Below a power of two the gap to the next
magnitude is half as wide. -/
def neighbourhood (magnitude : Magnitude) : Neighbourhood :=
  let quarters := 4 * magnitude.significand
  let below :=
    if magnitude.significand = powerOfTwo 52 ∧ leastExponent < magnitude.exponent then 1 else 2
  let exponent := magnitude.exponent - 2
  let factor := powerOfTwo exponent.toNat
  { low := (quarters - below) * factor
    value := quarters * factor
    high := (quarters + 2) * factor
    denominator := powerOfTwo (-exponent).toNat
    closed := magnitude.significand % 2 == 0 }

/-- Whether a decimal reads back as the magnitude of the neighbourhood. -/
def Neighbourhood.holds (range : Neighbourhood) (decimal : Decimal) : Bool :=
  let point := decimal.digits * powerOfTen decimal.scale.toNat * range.denominator
  let unit := powerOfTen (-decimal.scale).toNat
  if range.closed then range.low * unit ≤ point && point ≤ range.high * unit
  else range.low * unit < point && point < range.high * unit

/-- The two decimals around the value on the grid of multiples of `10 ^ scale`, the nearer one
first; at equal distance the even one. -/
def Neighbourhood.candidates (range : Neighbourhood) (scale : Int) : List Decimal :=
  let numerator := range.value * powerOfTen (-scale).toNat
  let denominator := range.denominator * powerOfTen scale.toNat
  let lower := numerator / denominator
  if roundHalfEven numerator denominator = lower then [⟨lower, scale⟩, ⟨lower + 1, scale⟩]
  else [⟨lower + 1, scale⟩, ⟨lower, scale⟩]

/-- The shortest decimal that reads back as a positive magnitude. Seventeen digits always do. -/
def shortest (magnitude : Magnitude) : Decimal :=
  let range := magnitude.neighbourhood
  let leading := Decimal.leadingExponent range.value range.denominator
  let grids := (List.range 17).map fun further => leading - Int.ofNat further
  (grids.findSome? fun scale => (range.candidates scale).find? range.holds).getD
    ⟨range.value / range.denominator, 0⟩

end Magnitude

namespace Decimal

/-- Where plain notation ends: the least and the greatest exponent of the first digit that are
written plainly. -/
structure Layout where
  plainFrom : Int
  plainTo : Int

/-- Decimals from `0.00001` up to below `10 ^ 16` are written plainly. -/
def layout : Layout := ⟨-5, 15⟩

/-- The digits of a decimal without the zeros at its end. -/
def significantDigits (decimal : Decimal) : List Char :=
  ((Nat.toDigits 10 decimal.digits).reverse.dropWhile (· == '0')).reverse

/-- Plain notation has at least one digit on each side of the point. -/
def plain (digits : List Char) (leading : Int) : List Char :=
  if leading < 0 then '0' :: '.' :: List.replicate (-leading - 1).toNat '0' ++ digits
  else
    let before := leading.toNat + 1
    let after := digits.drop before
    digits.take before ++ List.replicate (before - digits.length) '0' ++
      '.' :: (if after.isEmpty then ['0'] else after)

/-- Notation with an exponent has one digit before the point, and a point only before more. -/
def scientific (digits : List Char) (leading : Int) : List Char :=
  let after := digits.drop 1
  digits.take 1 ++ (if after.isEmpty then [] else '.' :: after) ++
    'e' :: (if leading < 0 then '-' else '+') :: Nat.toDigits 10 leading.natAbs

/-- The text of a decimal. -/
def text (decimal : Decimal) : List Char :=
  let digits := decimal.significantDigits
  let leading := Int.ofNat (width decimal.digits) - 1 + decimal.scale
  if layout.plainFrom ≤ leading ∧ leading ≤ layout.plainTo then plain digits leading
  else scientific digits leading

end Decimal

/-- The text of a double; a zero keeps its sign. -/
def Binary64.text (double : Binary64) : String :=
  let digits := if double.magnitude.isZero then ['0', '.', '0'] else double.magnitude.shortest.text
  String.ofList (if double.negative then '-' :: digits else digits)

end AvroGraph
