import Transclusion.Pipe

/-!
# Templates

The expansion of a shortcut is a template. A dollar sign with a number behind
it stands for the argument of that position, counted from one, and for nothing
if there is none. A dollar sign with an ampersand stands for all arguments,
each written as a pipe argument, with commas between them. Any other dollar
sign stands for itself. What an argument contributes is not read again.
-/

set_option autoImplicit false

namespace Transclusion.Template

/-- All arguments as the argument list of a pipe segment. -/
def allArgs (args : List String) : List Char :=
  (String.intercalate "," (args.map Pipe.escapeValue)).toList

/-- The argument of a position counted from one. -/
def argAt (args : List String) (position : Nat) : List Char :=
  match position with
  | 0 => []
  | index + 1 => (args[index]?.getD "").toList

/-- Numbers from here on are too large for a position. -/
def positionLimit : Nat := Nat.pow 2 64

/-- The position written with some decimal digits. A number that is too large is taken for
zero, which is no position. -/
def positionOf (digits : List Char) : Nat :=
  let number := Nat.ofDigitChars 10 digits 0
  if number < positionLimit then number else 0

/-- Expands a template. -/
def expandChars (args : List String) (template : List Char) : List Char :=
  match template with
  | [] => []
  | '$' :: '&' :: rest => allArgs args ++ expandChars args rest
  | '$' :: rest =>
      let digits := rest.takeWhile Char.isDigit
      if digits = [] then '$' :: expandChars args rest
      else argAt args (positionOf digits) ++ expandChars args (rest.dropWhile Char.isDigit)
  | char :: rest => char :: expandChars args rest
termination_by template.length
decreasing_by
  · simp only [List.length_cons]; omega
  · simp
  · have := (List.dropWhile_suffix (l := rest) Char.isDigit).length_le
    simp only [List.length_cons]
    omega
  · simp

/-- The template with its positions filled from the arguments. -/
def expand (template : String) (args : List String) : String :=
  String.ofList (expandChars args template.toList)

end Transclusion.Template
