import AvroGraph.Json

/-!
# Numbers from their digits

How the digits of a numeral become a number. The digits are gathered in a significand of 64
bits; those that no longer fit are dropped and only scale the result. A double is then one
rounded product or quotient of the rounded significand and a rounded power of ten, so it need
not be the double nearest to the numeral.
-/

namespace AvroGraph.Numeral

/-- The largest significand: 64 bits, all set. -/
def significandLimit : Nat := 0xFFFFFFFFFFFFFFFF

/-- The largest exponent that digits may spell: 31 bits, all set. -/
def exponentLimit : Nat := 0x7FFFFFFF

/-- The value of a decimal digit. -/
def digitValue (character : Char) : Nat :=
  character.toNat - '0'.toNat

/-- Gather digits behind a significand. From the first digit that does not fit, all are dropped;
their number is the second component. -/
def gather (significand : Nat) : List Char → Nat × Nat
  | [] => (significand, 0)
  | digit :: rest =>
    let extended := 10 * significand + digitValue digit
    if extended ≤ significandLimit then gather extended rest
    else (significand, rest.length + 1)

/-- The significand of a number in writing and its exponent of ten. -/
structure Parts where
  significand : Nat
  exponent : Int

/-- The parts of a numeral's digits before and after the point. A dropped digit before the
point raises the exponent, a gathered one after it lowers the exponent. -/
def Parts.ofDigits (whole fraction : List Char) : Parts :=
  let (significand, droppedWhole) := gather 0 whole
  let (significand, droppedFraction) := gather significand fraction
  ⟨significand, Int.ofNat droppedWhole - Int.ofNat (fraction.length - droppedFraction)⟩

/-- The greatest power of ten that is a double. -/
def greatestPower : Nat := 308

/-- The double nearest to a power of ten. -/
def power (exponent : Nat) : Magnitude :=
  (Magnitude.ofNat (powerOfTen exponent)).getD .zero

/-- A magnitude divided by the greatest power of ten so many times; zero stays zero. -/
def lowered : Nat → Magnitude → Option Magnitude
  | 0, magnitude => some magnitude
  | times + 1, magnitude =>
    if magnitude.isZero then some magnitude
    else (magnitude.div (power greatestPower)).bind (lowered times)

/-- A magnitude times `10 ^ exponent`, one rounded operation per 308 places; `none` when it
lies beyond all finite ones. -/
def scaled (magnitude : Magnitude) (exponent : Int) : Option Magnitude :=
  if magnitude.isZero then some magnitude
  else if 0 ≤ exponent then
    if exponent ≤ greatestPower then magnitude.mul (power exponent.toNat) else none
  else
    let times := (exponent.natAbs - 1) / greatestPower
    (lowered times magnitude).bind fun smaller =>
      smaller.div (power (exponent.natAbs - greatestPower * times))

/-- The magnitude that a significand and an exponent stand for. -/
def Parts.magnitude (parts : Parts) : Option Magnitude := do
  scaled (← Magnitude.ofNat parts.significand) parts.exponent

/-- The number that whole digits without point and exponent stand for: an integer if one of 64
bits has that value and it is no negative zero, else a double; `none` when it is too large. -/
def ofWhole (negative : Bool) (whole : List Char) : Option Number :=
  let (significand, dropped) := gather 0 whole
  if dropped = 0 ∧ negative = false then some (.integer significand)
  else if dropped = 0 ∧ 0 < significand ∧ significand ≤ 0x8000000000000000 then
    some (.integer (-Int.ofNat significand))
  else (Parts.ofDigits whole []).magnitude.map fun magnitude => .double ⟨negative, magnitude⟩

end AvroGraph.Numeral
