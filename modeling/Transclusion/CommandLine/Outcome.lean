import Transclusion.ResolveError
import Transclusion.Text.Offset

/-!
# What a call leaves behind

A call ends with an exit code and with what it wrote to standard output and to
standard error.
-/

set_option autoImplicit false

namespace Transclusion.CommandLine

/-- The end of a call. -/
structure Outcome where
  code : Nat := 0
  stdout : ByteArray := .empty
  stderr : String := ""

/-- The lines of a text, each ended by a newline. -/
def written (lines : List String) : String :=
  String.join (lines.map (· ++ "\n"))

namespace Outcome

/-- The end of a call that went wrong, with lines that say why. -/
def failed (lines : List String) : Outcome :=
  { code := 1, stderr := written lines }

/-- The end of a call that went wrong for a reason. -/
def error (message : String) : Outcome :=
  failed ["error: " ++ message]

/-- The end of a call whose input could not be resolved. A text that is not
well formed is reported with the place of the fault in it. -/
def unresolved : ResolveError → Outcome
  | .malformed target text inner =>
      let characters := text.toList
      let name := target.firstArg?.getD target.display
      let line := Text.lineNumber characters inner.span.start
      let column := Text.columnNumber characters inner.span.start
      failed ["error: " ++ inner.message,
        "┌─ " ++ name ++ ":" ++ toString line ++ ":" ++ toString column]
  | other => error other.message

end Outcome

end Transclusion.CommandLine
