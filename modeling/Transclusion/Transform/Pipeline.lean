import Transclusion.Content
import Transclusion.Directive.Token
import Transclusion.Registry
import Transclusion.ResolveError

/-!
# Transforms

A transform turns one content into another, knowing the directive it works for.
A chain of transforms runs from left to right and stops at the first that fails
or is not known.
-/

set_option autoImplicit false

namespace Transclusion

/-- What a transform knows of the directive it works for. -/
structure TransformContext where
  directive : Directive
  /-- The characters of the text the directive stands in. -/
  sourceText : List Char
  /-- The included target. -/
  target : Target
  /-- The target whose text the directive stands in. -/
  source : Target

/-- A named transform of contents, with arguments. -/
structure Transform (m : Type → Type) where
  name : String
  apply : TransformContext → Content → List String → m (Except ResolveError Content)

/-- The transforms under their names. -/
abbrev Transforms (m : Type → Type) := Registry (Transform m)

namespace Transforms

variable {m : Type → Type}

/-- Registers a transform under its name. -/
def add (transforms : Transforms m) (transform : Transform m) : Transforms m :=
  transforms.insert transform.name transform

/-- Runs a chain of transforms on a content. -/
def run [Monad m] (transforms : Transforms m) (context : TransformContext) :
    List Segment → Content → m (Except ResolveError Content)
  | [], content => pure (.ok content)
  | segment :: rest, content =>
      match transforms.find? segment.name with
      | none => pure (.error (.unknownTransform segment.name))
      | some transform => do
          match ← transform.apply context content segment.args with
          | .error error => return .error error
          | .ok result => transforms.run context rest result

end Transforms

end Transclusion
