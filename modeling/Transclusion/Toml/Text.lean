import Transclusion.Directive.Literal
import Transclusion.Text.Newline

/-!
# Keys, strings and comments of TOML

The readers of this module take what is left of a document and return a value
with what is left behind it, or nothing if the document is not well formed.
-/

set_option autoImplicit false

namespace Transclusion.Toml

/-- What a reader returns: a value and what is left behind it. -/
abbrev Read (α : Type) := Option (α × List Char)

/-- What is left behind a given character. -/
def after? (char : Char) : List Char → Option (List Char)
  | first :: rest => if first = char then some rest else none
  | [] => none

/-! ## Blanks, newlines and comments -/

/-- A space or a tab. -/
def isSpace (char : Char) : Bool :=
  char == ' ' || char == '\t'

/-- Drops spaces and tabs. -/
def skipSpace (input : List Char) : List Char :=
  input.dropWhile isSpace

/-- Nothing is added by dropping blanks. -/
theorem skipSpace_length (input : List Char) : (skipSpace input).length ≤ input.length :=
  (List.dropWhile_suffix _).length_le

/-- A character that may stand in a comment: a tab or any character that is
not a control character of ASCII. -/
def isPrintable (char : Char) : Bool :=
  char == '\t' || (0x20 ≤ char.toNat && char.toNat != 0x7F)

/-- Drops a comment, if one stands here. -/
def skipComment : List Char → List Char
  | '#' :: rest => rest.dropWhile isPrintable
  | input => input

/-- What is left behind the end of a line, before which only spaces and a
comment may stand. -/
def lineEnd? (input : List Char) : Option (List Char) :=
  match skipComment (skipSpace input) with
  | [] => some []
  | rest => Text.newline? rest

/-- Drops spaces and newlines. -/
def skipSpaceAndNewlines : List Char → List Char
  | [] => []
  | '\r' :: '\n' :: rest => skipSpaceAndNewlines rest
  | char :: rest =>
      if isSpace char || char == '\n' then skipSpaceAndNewlines rest else char :: rest

/-- Nothing is added by dropping blanks and newlines. -/
theorem skipSpaceAndNewlines_length (input : List Char) :
    (skipSpaceAndNewlines input).length ≤ input.length := by
  fun_induction skipSpaceAndNewlines input with
  | case1 => exact Nat.le_refl _
  | case2 rest shorter => simp only [List.length_cons]; omega
  | case3 char rest _ _ shorter => simp only [List.length_cons]; omega
  | case4 => exact Nat.le_refl _

/-- Where a reader stands in what may come between the values of an array. -/
inductive Gap where
  | outside
  | comment

/-- Drops spaces, newlines and comments that end in a newline. -/
def Gap.skip : Gap → List Char → List Char
  | _, [] => []
  | .outside, '\r' :: '\n' :: rest => Gap.skip .outside rest
  | .outside, char :: rest =>
      if isSpace char || char == '\n' then Gap.skip .outside rest
      else if char == '#' then Gap.skip .comment rest
      else char :: rest
  | .comment, '\r' :: '\n' :: rest => Gap.skip .outside rest
  | .comment, char :: rest =>
      if char == '\n' then Gap.skip .outside rest
      else if isPrintable char then Gap.skip .comment rest
      else char :: rest

/-! ## Strings -/

/-- Reads a character given by its code in a number of digits. -/
def hexEscape (width : Nat) (input : List Char) : Read Char :=
  let digits := input.take width
  if digits.length = width ∧ digits.all Literal.isHexDigit then
    (Literal.charOfHex? digits).map fun char => (char, input.drop width)
  else none

/-- Reads what follows a backslash. -/
def escape : List Char → Read Char
  | 'b' :: rest => some ('\x08', rest)
  | 't' :: rest => some ('\t', rest)
  | 'n' :: rest => some ('\n', rest)
  | 'f' :: rest => some ('\x0c', rest)
  | 'r' :: rest => some ('\r', rest)
  | '"' :: rest => some ('"', rest)
  | '\\' :: rest => some ('\\', rest)
  | 'u' :: rest => hexEscape 4 rest
  | 'U' :: rest => hexEscape 8 rest
  | _ => none

/-- An escape is not longer than what it is read from. -/
theorem escape_length {input : List Char} {char : Char} {rest : List Char}
    (read : escape input = some (char, rest)) : rest.length ≤ input.length := by
  have wide {width : Nat} {code : List Char} (read : hexEscape width code = some (char, rest)) :
      rest.length ≤ code.length := by
    simp only [hexEscape] at read
    split at read
    · obtain ⟨_, _, pair⟩ := Option.map_eq_some_iff.1 read
      cases pair
      simp
    · cases read
  unfold escape at read
  split at read
  case h_8 | h_9 => exact Nat.le_succ_of_le (wide read)
  all_goals cases read
  all_goals exact Nat.le_succ _

/-- Puts characters before the string that was read. -/
def before (front : List Char) (tail : Read (List Char)) : Read (List Char) :=
  tail.map fun (value, rest) => (front ++ value, rest)

/-- Reads a string up to its closing quotation mark. -/
def basicTail (input : List Char) : Read (List Char) :=
  match input with
  | [] => none
  | '"' :: rest => some ([], rest)
  | '\\' :: code =>
      match _ : escape code with
      | some (char, rest) => before [char] (basicTail rest)
      | none => none
  | char :: rest => if isPrintable char then before [char] (basicTail rest) else none
termination_by input.length
decreasing_by
  · exact Nat.lt_succ_of_le (escape_length ‹_›)
  · exact Nat.lt_succ_self _

/-- Reads a string up to its closing apostrophe. -/
def literalTail (input : List Char) : Read (List Char) :=
  let value := input.takeWhile fun char => isPrintable char && char != '\x27'
  match input.drop value.length with
  | '\x27' :: rest => some (value, rest)
  | _ => none

/-- What follows three quotes that close a string over several lines: up to two
more quotes, which belong to the string, and what is left behind it. -/
def closing (quote : Char) (input : List Char) : List Char × List Char :=
  let kept := (input.take 2).takeWhile (· = quote)
  (kept, input.drop kept.length)

/-- Reads a string over several lines up to its closing quotation marks. A
backslash at the end of a line drops the newline and all blanks behind it. -/
def longBasicTail (input : List Char) : Read (List Char) :=
  match input with
  | [] => none
  | '"' :: '"' :: '"' :: rest => some (closing '"' rest)
  | '\\' :: code =>
      match _ : Text.newline? (skipSpace code) with
      | some rest => longBasicTail (skipSpaceAndNewlines rest)
      | none =>
          match _ : escape code with
          | some (char, rest) => before [char] (longBasicTail rest)
          | none => none
  | '\n' :: rest => before ['\n'] (longBasicTail rest)
  | '\r' :: '\n' :: rest => before ['\n'] (longBasicTail rest)
  | char :: rest => if isPrintable char then before [char] (longBasicTail rest) else none
termination_by input.length
decreasing_by
  · have behind := Text.newline?_length ‹_›
    have blank := skipSpace_length code
    have further := skipSpaceAndNewlines_length rest
    simp only [List.length_cons]; omega
  · exact Nat.lt_succ_of_le (escape_length ‹_›)
  all_goals simp only [List.length_cons]; omega

/-- Reads a string over several lines up to its closing apostrophes. -/
def longLiteralTail (input : List Char) : Read (List Char) :=
  match input with
  | [] => none
  | '\x27' :: '\x27' :: '\x27' :: rest => some (closing '\x27' rest)
  | '\n' :: rest => before ['\n'] (longLiteralTail rest)
  | '\r' :: '\n' :: rest => before ['\n'] (longLiteralTail rest)
  | char :: rest => if isPrintable char then before [char] (longLiteralTail rest) else none
termination_by input.length

/-- Reads a string of any of the four forms. -/
def string : List Char → Read String
  | '"' :: '"' :: '"' :: rest => (longBasicTail (Text.skipNewline rest)).map text
  | '"' :: rest => (basicTail rest).map text
  | '\x27' :: '\x27' :: '\x27' :: rest => (longLiteralTail (Text.skipNewline rest)).map text
  | '\x27' :: rest => (literalTail rest).map text
  | _ => none
where
  /-- The characters as a string. -/
  text : List Char × List Char → String × List Char
    | (value, rest) => (String.ofList value, rest)

/-! ## Keys -/

/-- A character of a key without quotes. -/
def isBareKeyChar (char : Char) : Bool :=
  char.isAlphanum || char == '-' || char == '_'

/-- Reads one part of a key. -/
def simpleKey (input : List Char) : Read String :=
  match input with
  | '"' :: rest => (basicTail rest).map string.text
  | '\x27' :: rest => (literalTail rest).map string.text
  | _ =>
      let key := input.takeWhile isBareKeyChar
      if key = [] then none else some (String.ofList key, input.dropWhile isBareKeyChar)

/-- Reads a key of parts between points, at most so many of them; blanks may
stand around each part. -/
def dottedKey : Nat → List Char → Read (List String)
  | 0, _ => none
  | more + 1, input =>
      match simpleKey (skipSpace input) with
      | none => none
      | some (first, behind) =>
          match skipSpace behind with
          | '.' :: rest =>
              (dottedKey more rest).map fun (others, behind) => (first :: others, behind)
          | rest => some ([first], rest)

/-- The most parts in a key. -/
def keyLimit : Nat := 79

/-- Reads a key: the path to the table it belongs to, and its last part. -/
def key (input : List Char) : Read (List String × String) :=
  match dottedKey keyLimit input with
  | none => none
  | some (parts, rest) => parts.getLast?.map fun last => ((parts.dropLast, last), rest)

end Transclusion.Toml
