import Transclusion.Pipe

/-!
# Targets

A target names what is included: the resource that serves it and the arguments
passed to that resource. The head of a pipe expression denotes a target; a head
without arguments is the argument of the default resource.
-/

set_option autoImplicit false

namespace Transclusion

/-- The name of a resource and the arguments passed to it. -/
structure Target where
  name : String
  args : List String
deriving DecidableEq, Repr, Inhabited

namespace Target

/-- The target that the head of a chain denotes. -/
def ofSegment (head : Segment) (defaultResource : String) : Target :=
  if head.args = [] then ⟨defaultResource, [head.name]⟩ else ⟨head.name, head.args⟩

/-- The first argument. -/
def firstArg? (target : Target) : Option String :=
  target.args.head?

/-- The target as the text of one segment. -/
def display (target : Target) : String :=
  Pipe.renderSegment ⟨target.name, target.args⟩

end Target

end Transclusion
