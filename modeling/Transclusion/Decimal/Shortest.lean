import Transclusion.Decimal.Binary64

/-!
# Shortest decimal text

A number is written with the fewest digits that read back as the same number
and, among those, with the digits nearest to it. The notation is positional:
zeros fill the places up to the point, and no exponent is written.

The decimals that read back as a number form an interval around it that
reaches half way to each neighbour. For one digit, two digits and so on the two
points next to the number on the decimal grid of that many digits are tried;
the first grid with a point in the interval gives the text.
-/

set_option autoImplicit false

namespace Transclusion.Binary64

/-- A magnitude together with the interval that rounds to it, all three over
one denominator. The ends belong to the interval if `closed` holds. -/
structure Surroundings where
  low : Nat
  middle : Nat
  high : Nat
  closed : Bool

/-- The denominator of surroundings: four parts to a unit. -/
def Surroundings.denominator : Nat := 4 * unitsPerOne

/-- The surroundings of `significand * 2 ^ shift` units. Below a power of two
the neighbours stand half as far apart. -/
def surroundings (significand shift : Nat) : Surroundings :=
  let gap := Nat.pow 2 shift
  { low := 4 * significand * gap -
      (if significand = Nat.pow 2 52 ∧ 0 < shift then gap else 2 * gap)
    middle := 4 * significand * gap
    high := 4 * significand * gap + 2 * gap
    closed := significand % 2 = 0 }

/-- The exponent of the leading digit of a positive quotient. -/
def leadingExponent (numerator denominator : Nat) : Int :=
  if denominator ≤ numerator then digitCount (numerator / denominator) - 1
  else -(digitCount ((denominator - 1) / numerator) : Int)

/-- The point `digits * 10 ^ exponent` of a decimal grid. -/
structure DecimalPoint where
  digits : Nat
  exponent : Int
deriving DecidableEq, Repr

/-- The point of a grid that lies in the interval and is nearest to its middle,
the upper one if two are equally near. -/
def Surroundings.hit? (around : Surroundings) (exponent : Int) : Option DecimalPoint :=
  let step := Nat.pow 10 exponent.toNat * Surroundings.denominator
  let magnify := Nat.pow 10 (-exponent).toNat
  let low := around.low * magnify
  let middle := around.middle * magnify
  let high := around.high * magnify
  let inside (point : Nat) : Bool :=
    if around.closed then low ≤ point * step && point * step ≤ high
    else low < point * step && point * step < high
  let below := middle / step
  let above := below + 1
  if inside below && (!inside above || middle - below * step < above * step - middle) then
    some ⟨below, exponent⟩
  else if inside above then some ⟨above, exponent⟩
  else none

/-- The shortest decimal that reads back as a positive magnitude. -/
def shortest (significand shift : Nat) : DecimalPoint :=
  let around := surroundings significand shift
  let leading := leadingExponent around.middle Surroundings.denominator
  let grids := (List.range 17).map fun (further : Nat) => leading - further
  (grids.findSome? around.hit?).getD ⟨0, 0⟩

/-- The digits of a decimal without zeros at the end. -/
def DecimalPoint.trimmed (point : DecimalPoint) : DecimalPoint :=
  let digits := Nat.toDigits 10 point.digits
  let zeros := (digits.reverse.takeWhile (· = '0')).length
  if point.digits = 0 then point else ⟨point.digits / Nat.pow 10 zeros, point.exponent + zeros⟩

/-- A decimal in positional notation. -/
def DecimalPoint.text (point : DecimalPoint) : String :=
  let digits := Nat.toDigits 10 point.digits
  match point.exponent with
  | .ofNat zeros => String.ofList (digits ++ List.replicate zeros '0')
  | .negSucc places =>
      let padded := List.replicate (places + 2 - digits.length) '0' ++ digits
      let integral := padded.length - (places + 1)
      String.ofList (padded.take integral ++ '.' :: padded.drop integral)

/-- The positional text of a number, with a minus sign for a set sign bit. -/
def text (number : Binary64) : String :=
  let sign (negative : Bool) : String := if negative then "-" else ""
  match number.value with
  | .undefined => "NaN"
  | .infinite negative => sign negative ++ "inf"
  | .finite negative 0 _ => sign negative ++ "0"
  | .finite negative significand shift =>
      sign negative ++ (shortest significand shift).trimmed.text

end Transclusion.Binary64
