import Transclusion.Directive.SyntaxError
import Transclusion.Target

/-!
# Errors of a resolution

What can stop a resolution, and the wording of each cause. Resources and
transforms report their own failures with a message.
-/

set_option autoImplicit false

namespace Transclusion

/-- What is wrong with the declaration of a shortcut. -/
inductive ShortcutFault where
  | incomplete
  | nameNotText (found : Binary64)
  | expansionNotText (found : Binary64)
deriving DecidableEq, Repr

namespace ShortcutFault

/-- The wording of the fault. -/
def message : ShortcutFault → String
  | .incomplete => "expected a name and an expansion"
  | .nameNotText found => "name must be a string, got " ++ found.text
  | .expansionNotText found => "expansion must be a string, got " ++ found.text

end ShortcutFault

/-- What stopped a resolution. -/
inductive ResolveError where
  /-- A directive of the text read for a target is wrong. -/
  | malformed (target : Target) (source : String) (error : SyntaxError)
  | unknownResource (name : String)
  | unknownTransform (name : String)
  | depthExceeded (limit : Nat)
  | invalidShortcut (fault : ShortcutFault)
  | resourceFailed (name message : String)
  | transformFailed (name message : String)
deriving DecidableEq, Repr

namespace ResolveError

/-- The wording of the error. -/
def message : ResolveError → String
  | .malformed target _ error => "parse error in " ++ target.display ++ ": " ++ error.display
  | .unknownResource name => "unknown resource: " ++ name
  | .unknownTransform name => "unknown transform: " ++ name
  | .depthExceeded limit => "Max recursion depth " ++ toString limit ++ " exceeded"
  | .invalidShortcut fault => "invalid shortcut: " ++ fault.message
  | .resourceFailed name message => "resource " ++ name ++ " failed: " ++ message
  | .transformFailed name message => "transform " ++ name ++ " failed: " ++ message

end ResolveError

end Transclusion
