import Transclusion.Text.Utf8

/-!
# Content

What a resource serves and a resolution produces: text, or bytes that are not
text. Joined in order, contents give text if every part is text; otherwise the
bytes of all the parts.
-/

set_option autoImplicit false

namespace Transclusion

-- bytes are compared in one way, whichever instances are in scope
local instance decidableEqBytes : DecidableEq ByteArray := ByteArray.instDecidableEq

/-- Text or bytes. -/
inductive Content where
  | text (value : String)
  | binary (value : ByteArray)
deriving DecidableEq

namespace Content

/-- Text if the bytes are UTF-8, the bytes themselves otherwise. -/
def ofBytes (bytes : ByteArray) : Content :=
  match String.fromUTF8? bytes with
  | some value => .text value
  | none => .binary bytes

/-- The bytes of a content, those of a text in UTF-8. -/
def bytes : Content → ByteArray
  | .text value => value.toUTF8
  | .binary value => value

/-- Whether a content is not text. -/
def isBinary : Content → Bool
  | .text _ => false
  | .binary _ => true

/-- The number of bytes. -/
def size (content : Content) : Nat :=
  content.bytes.size

/-- The content as text, unreadable bytes replaced. -/
def display : Content → String
  | .text value => value
  | .binary value => String.ofList (Text.Utf8.decode value.toList)

/-- The text of a content that is text, and nothing otherwise. -/
def textOrEmpty : Content → String
  | .text value => value
  | .binary _ => ""

/-- The bytes of some contents, one after the other. -/
def concatBytes (parts : List Content) : ByteArray :=
  parts.foldl (fun joined part => joined ++ part.bytes) ByteArray.empty

/-- The contents one after the other. -/
def join (parts : List Content) : Content :=
  if parts.any isBinary then .binary (concatBytes parts)
  else .text (String.join (parts.map textOrEmpty))

end Content

end Transclusion
