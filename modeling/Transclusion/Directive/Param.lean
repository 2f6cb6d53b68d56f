import Transclusion.Decimal.Shortest

/-!
# Parameters of a call

A call carries strings and numbers. Where a parameter is used as text, a string
stands for itself; a whole number of fewer than sixteen digits is written
without a sign on zero, and any other number with its shortest digits.
-/

set_option autoImplicit false

namespace Transclusion

/-- A literal in the parameter list of a call. -/
inductive Param where
  | text (value : String)
  | number (value : Binary64)
deriving DecidableEq, Repr

namespace Param

/-- Whole numbers below this bound are written as integers. -/
def integerBound : Nat := Nat.pow 10 15

/-- The text of a parameter. -/
def display : Param → String
  | .text value => value
  | .number value =>
      match value.whole? with
      | some (negative, size) =>
          if size < integerBound then (if negative ∧ size ≠ 0 then "-" else "") ++ toString size
          else value.text
      | none => value.text

/-- The largest count of bytes a parameter can ask for. -/
def countLimit : Nat := Nat.pow 2 64 - 1

/-- The count a parameter denotes: a whole number that is not negative. A count
beyond every text is cut down to the limit. -/
def count? : Param → Option Nat
  | .text _ => none
  | .number value =>
      match value.whole? with
      | some (negative, size) => if negative ∧ size ≠ 0 then none else some (min size countLimit)
      | none => none

end Param

end Transclusion
