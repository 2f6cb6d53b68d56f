/-!
# Newlines

A newline is a line feed, or a carriage return with a line feed behind it.
-/

set_option autoImplicit false

namespace Transclusion.Text

/-- What is left behind a newline, if one stands here. -/
def newline? : List Char → Option (List Char)
  | '\n' :: rest => some rest
  | '\r' :: '\n' :: rest => some rest
  | _ => none

/-- A newline is not empty. -/
theorem newline?_length {input rest : List Char} (read : newline? input = some rest) :
    rest.length < input.length := by
  unfold newline? at read
  split at read
  all_goals cases read
  all_goals simp only [List.length_cons]; omega

/-- What is left behind a newline, if one stands here, and else everything. -/
def skipNewline (input : List Char) : List Char :=
  (newline? input).getD input

/-- The lines of a text, each without its newline. The end of the text ends a
line only if something stands on it. -/
def lines : List Char → List (List Char)
  | [] => []
  | '\n' :: rest => [] :: lines rest
  | '\r' :: '\n' :: rest => [] :: lines rest
  | char :: rest =>
      match lines rest with
      | first :: others => (char :: first) :: others
      | [] => [[char]]

end Transclusion.Text
