import Transclusion.Directive.Param
import Transclusion.Text.Offset

/-!
# Syntax errors

Everything that can be wrong with the directives of a text, as a cause and the
span of bytes it was found at. The wording of each cause, and the hint that
goes with it, stand here and nowhere else.
-/

set_option autoImplicit false

namespace Transclusion

/-- What is wrong with a directive. -/
inductive SyntaxCause where
  | methodExpected (found : Option Char)
  | parenthesisMissing
  | valueMissing
  | commaMissing
  | notAValue
  | stringUnclosed
  | escapeInvalid
  | numberInvalid
  | methodUnknown (method : String)
  | countInvalid (param : Param)
  | countPastEnd (count : Nat)
  | blockEmpty
  | regionOverlaps
  | directiveOverlaps
  | spanOffBoundary
  | endMissing
  | closeMissing
  | skipEndMissing
  | targetMissing
  | targetEmpty
deriving DecidableEq, Repr

namespace SyntaxCause

/-- The wording of a cause. -/
def message : SyntaxCause → String
  | .methodExpected found =>
      "Expecting $inline method but got \"" ++ (found.elim "" String.singleton) ++ "\""
  | .parenthesisMissing => "Missing right parenthesis"
  | .valueMissing => "Missing value"
  | .commaMissing => "Missing comma between values"
  | .notAValue => "Value must be number or string"
  | .stringUnclosed => "Unclosed string"
  | .escapeInvalid => "Invalid unicode escape"
  | .numberInvalid => "Invalid number"
  | .methodUnknown method => "$inline." ++ method ++ " is not a valid $inline statement"
  | .countInvalid param => "skip count must be a non-negative integer, got " ++ param.display
  | .countPastEnd count => "skip count " ++ toString count ++ " runs past the end of the text"
  | .blockEmpty => "There must be at least one line between $inline.start and $inline.end"
  | .regionOverlaps => "$inline.close overlaps the skipped text of $inline.open"
  | .directiveOverlaps => "$inline directive overlaps the previous directive"
  | .spanOffBoundary => "$inline directive span does not fall on character boundaries"
  | .endMissing => "Missing $inline.end"
  | .closeMissing => "Missing $inline.close"
  | .skipEndMissing => "Missing $inline.skipEnd"
  | .targetMissing => "$inline directive needs a target"
  | .targetEmpty => "$inline directive has an empty target"

/-- The hints that go with a cause. -/
def notes : SyntaxCause → List String
  | .methodUnknown _ =>
      ["expected one of: line, start, end, open, close, skipStart, skipEnd, shortcut"]
  | _ => []

end SyntaxCause

/-- A cause and the bytes it was found at. -/
structure SyntaxError where
  cause : SyntaxCause
  span : Span
deriving DecidableEq, Repr

namespace SyntaxError

/-- The wording of the error. -/
def message (error : SyntaxError) : String := error.cause.message

/-- The hints that go with the error. -/
def notes (error : SyntaxError) : List String := error.cause.notes

/-- The wording of the error and the offset it was found at. -/
def display (error : SyntaxError) : String :=
  error.message ++ " (at byte " ++ toString error.span.start ++ ")"

end SyntaxError

end Transclusion
