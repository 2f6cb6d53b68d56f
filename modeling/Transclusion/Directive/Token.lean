import Transclusion.Directive.Call

/-!
# Directives and tokens

A text is cut into tokens: runs of plain text and directives. A directive
replaces the bytes of its span. Its kind says how the span follows from the
call; a shortcut declaration replaces nothing, and its own text stays in the
run of plain text around it.
-/

set_option autoImplicit false

namespace Transclusion

/-- The form in which a directive is written. -/
inductive DirectiveKind where
  /-- The call itself is replaced. -/
  | plain
  /-- The whole line of the call is replaced. -/
  | line
  /-- The lines between an opening and a closing call are replaced. -/
  | block
  /-- The text between an opening and a closing call is replaced, less the
  bytes that each of them skips. -/
  | region
  /-- A shortcut is declared. -/
  | shortcut
deriving DecidableEq, Repr

namespace DirectiveKind

/-- The method that opens a directive of this kind. -/
def method : DirectiveKind → Option String
  | .plain => none
  | .line => some "line"
  | .block => some "start"
  | .region => some "open"
  | .shortcut => some "shortcut"

end DirectiveKind

/-- A directive: how it is written, its parameters and the bytes it replaces. -/
structure Directive where
  kind : DirectiveKind
  params : List Param
  span : Span
deriving DecidableEq, Repr

namespace Directive

/-- Whether the directive declares a shortcut. -/
def isShortcut (directive : Directive) : Bool :=
  directive.kind == .shortcut

end Directive

/-- A piece of a text. -/
inductive Token where
  | text (value : String)
  | directive (value : Directive)
deriving DecidableEq, Repr

end Transclusion
