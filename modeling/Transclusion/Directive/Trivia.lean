import Transclusion.Text.Blank

/-!
# Trivia between values

Blanks and comments may stand between the values of a call. A comment that
opens with two slashes runs up to the next newline; one that opens with a slash
and a star runs past the next star and slash, or to the end of the text if
there is none.
-/

set_option autoImplicit false

namespace Transclusion

/-- Where in the trivia a reader stands. -/
inductive Trivia where
  | outside
  | lineComment
  /-- Before the star that opens a comment. -/
  | opening
  | blockComment
  /-- Before the slash that closes a comment. -/
  | closing
deriving DecidableEq, Repr

namespace Trivia

/-- Where a reader stands behind a character, given what is left there; nothing
if the character does not belong to the trivia. -/
def next (state : Trivia) (char : Char) (rest : List Char) : Option Trivia :=
  match state with
  | .outside =>
      if Text.isBlank char then some .outside
      else if char = '/' ∧ rest.head? = some '/' then some .lineComment
      else if char = '/' ∧ rest.head? = some '*' then some .opening
      else none
  | .lineComment => some (if char = '\n' then .outside else .lineComment)
  | .opening => some .blockComment
  | .blockComment => some (if char = '*' ∧ rest.head? = some '/' then .closing else .blockComment)
  | .closing => some .outside

/-- The trivia in front of a text. -/
def front : Trivia → List Char → List Char
  | _, [] => []
  | state, char :: rest =>
      match state.next char rest with
      | some following => char :: front following rest
      | none => []

/-- What is left of a text once the trivia in front are dropped. -/
def skip : Trivia → List Char → List Char
  | _, [] => []
  | state, char :: rest =>
      match state.next char rest with
      | some following => skip following rest
      | none => char :: rest

/-- The trivia and what is left behind them make up the text. -/
theorem front_append_skip (state : Trivia) (input : List Char) :
    front state input ++ skip state input = input := by
  induction input generalizing state with
  | nil => rfl
  | cons char rest ih =>
      rw [front, skip]
      cases state.next char rest with
      | none => rfl
      | some following => simp only [List.cons_append, ih]

/-- Dropping trivia makes no text longer. -/
theorem length_skip_le (state : Trivia) (input : List Char) :
    (skip state input).length ≤ input.length := by
  have := congrArg List.length (front_append_skip state input)
  rw [List.length_append] at this
  omega

end Trivia

end Transclusion
