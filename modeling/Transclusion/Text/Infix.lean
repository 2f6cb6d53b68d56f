/-!
# Texts inside texts
-/

set_option autoImplicit false

namespace Transclusion.Text

/-- Whether a text stands somewhere inside another one. -/
def isInfixOf (part : List Char) : List Char → Bool
  | [] => part.isEmpty
  | char :: rest => part.isPrefixOf (char :: rest) || isInfixOf part rest

end Transclusion.Text
