/-!
# Binary numbers of sixty-four bits

A number is kept as its bit pattern: a sign bit, eleven exponent bits and a
fraction of fifty-two bits. Every finite magnitude is a whole multiple of the
least positive one, so a pattern is read as a number of those units and all
arithmetic on it is exact arithmetic on natural numbers.

A quotient of natural numbers is rounded to the nearest pattern, a half going
to the even neighbour (`ofRatio`); decimal numbers are read that way
(`ofDecimal`).
-/

set_option autoImplicit false

namespace Transclusion

/-- A number in the binary interchange format of sixty-four bits. -/
structure Binary64 where
  bits : UInt64
deriving DecidableEq, Repr, Inhabited

namespace Binary64

/-- The number of units in one: the least positive number is the reciprocal. -/
def unitsPerOne : Nat := Nat.pow 2 1074

/-- The pattern of infinity as a natural number. -/
def infinityBits : Nat := 0x7FF0000000000000

/-- What a pattern stands for. A finite number is a sign and a magnitude
`significand * 2 ^ shift` in units. -/
inductive Value where
  | finite (negative : Bool) (significand shift : Nat)
  | infinite (negative : Bool)
  | undefined
deriving DecidableEq, Repr

/-- Reads a pattern. -/
def value (number : Binary64) : Value :=
  let pattern := number.bits.toNat
  let negative := Nat.pow 2 63 ≤ pattern
  let exponent := pattern / Nat.pow 2 52 % Nat.pow 2 11
  let fraction := pattern % Nat.pow 2 52
  if exponent = 0 then .finite negative fraction 0
  else if exponent < 2047 then .finite negative (Nat.pow 2 52 + fraction) (exponent - 1)
  else if fraction = 0 then .infinite negative
  else .undefined

/-- Infinity. -/
def infinity : Binary64 := ⟨UInt64.ofNat infinityBits⟩

/-- A number that is none. -/
def undefined : Binary64 := ⟨0x7FF8000000000000⟩

/-- Whether a number is neither infinite nor undefined. -/
def isFinite (number : Binary64) : Bool :=
  number.bits.toNat % Nat.pow 2 63 < infinityBits

/-- The number with a sign put before it. -/
def withSign (negative : Bool) (number : Binary64) : Binary64 :=
  if negative then ⟨number.bits ^^^ 0x8000000000000000⟩ else number

/-- The pattern nearest to a quotient of natural numbers, a half going to the
even neighbour and too large a quotient to infinity. -/
def ofRatio (numerator denominator : Nat) : Binary64 :=
  let units := numerator * unitsPerOne
  let shift := (units / denominator).log2 - 52
  let divisor := denominator * Nat.pow 2 shift
  let floor := units / divisor
  let remainder := units % divisor
  let significand :=
    if 2 * remainder < divisor then floor
    else if 2 * remainder = divisor then floor + floor % 2
    else floor + 1
  ⟨UInt64.ofNat (min (shift * Nat.pow 2 52 + significand) infinityBits)⟩

/-- The number of digits a natural number is written with. -/
def digitCount (number : Nat) : Nat :=
  (Nat.toDigits 10 number).length

/-- The pattern nearest to `digits * 10 ^ exponent`. Outside the range in which
powers of ten matter the answer is zero or infinity. -/
def ofDecimal (digits : Nat) (exponent : Int) : Binary64 :=
  let magnitude := exponent + digitCount digits
  if digits = 0 ∨ magnitude < -330 then ⟨0⟩
  else if 310 < magnitude then infinity
  else ofRatio (digits * Nat.pow 10 exponent.toNat) (Nat.pow 10 (-exponent).toNat)

/-- The whole number a number equals, if it equals one: its sign and size. -/
def whole? (number : Binary64) : Option (Bool × Nat) :=
  match number.value with
  | .finite negative significand shift =>
      let units := significand * Nat.pow 2 shift
      if units % unitsPerOne = 0 then some (negative, units / unitsPerOne) else none
  | .infinite _ => none
  | .undefined => none

end Binary64

end Transclusion
