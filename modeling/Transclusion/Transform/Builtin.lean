import Transclusion.Text.Blank
import Transclusion.Text.Quoted
import Transclusion.Transform.Pipeline

/-!
# The transforms at hand

`trim` drops blanks at both ends, `indent` indents every line but the first,
`string` writes a quoted string, and two more put text before and behind the
content. All of them work on text only.
-/

set_option autoImplicit false

namespace Transclusion

namespace Indent

/-- The blanks in front of the line around an offset: its spaces and tabs up to
the first other character. -/
def ofLine (source : List Char) (offset : Nat) : List Char :=
  (Text.lineOnward source source offset).takeWhile fun char => char = ' ' ∨ char = '\t'

/-- Puts an indent in front of every line that follows a newline and is not
empty. -/
def apply (indent : List Char) : List Char → List Char
  | [] => []
  | char :: rest =>
      if char = '\n' ∧ rest ≠ [] ∧ rest.head? ≠ some '\n' then
        char :: (indent ++ apply indent rest)
      else char :: apply indent rest

end Indent

namespace Transform

variable {m : Type → Type} [Monad m]

/-- A transform that works on text only. -/
def onText (name : String) (change : TransformContext → String → List String → String) :
    Transform m where
  name := name
  apply context content args :=
    match content with
    | .text body => pure (.ok (.text (change context body args)))
    | .binary _ => pure (.error (.transformFailed name "cannot transform binary content"))

/-- Drops the blanks at both ends. -/
def trim : Transform m :=
  onText "trim" fun _ body _ => String.ofList (Text.trim body.toList)

/-- Indents every line but the first, by the first argument or else by the
blanks in front of the directive's line. -/
def indent : Transform m :=
  onText "indent" fun context body args =>
    let blanks := match args with
      | first :: _ => first.toList
      | [] => Indent.ofLine context.sourceText context.directive.span.start
    String.ofList (Indent.apply blanks body.toList)

/-- Writes the text as a quoted string. -/
def quote : Transform m :=
  onText "string" fun _ body _ => String.ofList (Text.Quoted.encode body.toList)

/-- Puts the arguments before the text. -/
def lead : Transform m :=
  onText "prefix" fun _ body args => String.intercalate "," args ++ body

/-- Puts the arguments behind the text. -/
def trail : Transform m :=
  onText "suffix" fun _ body args => body ++ String.intercalate "," args

/-- All of them. -/
def builtin : List (Transform m) :=
  [trim, indent, quote, lead, trail]

end Transform

end Transclusion
