import Transclusion.Toml.Value

/-!
# Numbers and truth values of TOML

Whole numbers have to fit into sixty-four bits with a sign, and a number with a
fraction must not be too large to be told from infinity.
-/

set_option autoImplicit false

namespace Transclusion.Toml

/-- What is left behind a sign, if one stands here, and else everything. -/
def skipSign : List Char → List Char
  | '+' :: rest => rest
  | '-' :: rest => rest
  | input => input

/-! ## Whole numbers -/

/-- Reads further digits, each of which may follow one underscore. -/
def moreDigits (isDigit : Char → Bool) : List Char → List Char × List Char
  | '_' :: digit :: rest =>
      if isDigit digit then
        let (digits, behind) := moreDigits isDigit rest
        (digit :: digits, behind)
      else ([], '_' :: digit :: rest)
  | digit :: rest =>
      if isDigit digit then
        let (digits, behind) := moreDigits isDigit rest
        (digit :: digits, behind)
      else ([], digit :: rest)
  | [] => ([], [])

/-- Reads digits, single underscores between them. -/
def digits? (isDigit : Char → Bool) : List Char → Option (List Char × List Char)
  | first :: rest =>
      if isDigit first then
        let (digits, behind) := moreDigits isDigit rest
        some (first :: digits, behind)
      else none
  | [] => none

/-- Reads the digits of a whole number: it starts with zero only if it is
zero. -/
def whole? (input : List Char) : Option (List Char × List Char) :=
  match skipSign input with
  | '0' :: rest => some (['0'], rest)
  | rest => digits? Char.isDigit rest

/-- The value of digits, if it fits into sixty-four bits with a sign. -/
def bounded (negative : Bool) (base : Nat) (digits : List Char) : Option Int :=
  let size := Literal.natOfDigits base digits
  let number : Int := if negative then -size else size
  if -Int.pow 2 63 ≤ number ∧ number < Int.pow 2 63 then some number else none

/-- A whole number in a base that is named in front of it. -/
def integerIn (base : Nat) (isDigit : Char → Bool) (input : List Char) :
    Option (Value × List Char) := do
  let (digits, rest) ← digits? isDigit input
  return (.integer (← bounded false base digits), rest)

/-- Reads a whole number. -/
def integer (input : List Char) : Option (Value × List Char) :=
  match input with
  | '0' :: 'x' :: rest => integerIn 16 Literal.isHexDigit rest
  | '0' :: 'o' :: rest => integerIn 8 (fun char => '0' ≤ char && char ≤ '7') rest
  | '0' :: 'b' :: rest => integerIn 2 (fun char => char == '0' || char == '1') rest
  | _ => do
      let (digits, rest) ← whole? input
      return (.integer (← bounded (input.head? == some '-') 10 digits), rest)

/-! ## Numbers with a fraction -/

/-- Reads an exponent: its value and what is left. -/
def exponent? : List Char → Option (Int × List Char)
  | [] => none
  | mark :: signed =>
      if mark = 'e' ∨ mark = 'E' then do
        let (digits, rest) ← digits? Char.isDigit (skipSign signed)
        let size := Literal.natOfDigits 10 digits
        return (if signed.head? = some '-' then -size else size, rest)
      else none

/-- Reads a fraction: its digits and what is left. -/
def fraction? : List Char → Option (List Char × List Char)
  | '.' :: rest => digits? Char.isDigit rest
  | _ => none

/-- Reads a number with a fraction, an exponent or both. A number below zero may
be as large as it likes. -/
def decimal? (input : List Char) : Option (Binary64 × List Char) := do
  let (digits, behindWhole) ← whole? input
  let (fraction, behindFraction) := (fraction? behindWhole).getD ([], behindWhole)
  let (exponent, rest) ← match exponent? behindFraction with
    | some read => some read
    | none => if fraction = [] then none else some (0, behindFraction)
  let size := Binary64.ofDecimal (Literal.natOfDigits 10 (digits ++ fraction))
    (exponent - fraction.length)
  let negative := input.head? == some '-'
  if negative ∨ size.isFinite then some (size.withSign negative, rest) else none

/-- Reads infinity or a number that is none, behind its sign. -/
def special? : List Char → Option (Binary64 × List Char)
  | 'i' :: 'n' :: 'f' :: rest => some (.infinity, rest)
  | 'n' :: 'a' :: 'n' :: rest => some (.undefined, rest)
  | _ => none

/-- Reads a number with a fraction in any form. -/
def float? (input : List Char) : Option (Binary64 × List Char) :=
  (decimal? input).or <| (special? (skipSign input)).map fun (number, rest) =>
    (number.withSign (input.head? == some '-'), rest)

/-! ## All values without parts -/

/-- Reads a truth value. -/
def boolean : List Char → Option (Value × List Char)
  | 't' :: 'r' :: 'u' :: 'e' :: rest => some (.boolean true, rest)
  | 'f' :: 'a' :: 'l' :: 's' :: 'e' :: rest => some (.boolean false, rest)
  | _ => none

/-- Reads a value that has no parts. -/
def atom (input : List Char) : Option (Value × List Char) :=
  ((string input).map fun (text, rest) => (.string text, rest))
    |>.or (boolean input)
    |>.or ((moment? input).map fun (moment, rest) => (.moment moment, rest))
    |>.or ((float? input).map fun (number, rest) => (.float number, rest))
    |>.or (integer input)

end Transclusion.Toml
