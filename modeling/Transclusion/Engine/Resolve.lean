import Transclusion.Engine.Plan
import Transclusion.Node
import Transclusion.Resource.Loader
import Transclusion.Transform.Pipeline

/-!
# Resolution

An engine resolves a target: it reads the target, plans its text, resolves what
the text includes, and puts the transformed contents in the places of the
directives. Every included text is planned anew from the engine's own shortcuts.
Inclusions may nest up to a limit, so every resolution ends.

Depths are counted without a bound. What a resolution comes to stands at most one
level below the limit, unless the request itself does (`Engine.Visits.depth_le`),
so 64 bits are enough for every depth, except where the limit is the largest number
of 64 bits and an inclusion stands at it.

How a target is read, a transform is run and the inclusions of a text are gathered
is left to `Services` (`Engine.resolveThrough`). In turn, the inclusions of a text
are resolved one after the other, and the reads go through a cache that is handed
along, also after an error (`Engine.resolve`).
-/

set_option autoImplicit false

namespace Transclusion

/-- The limits and defaults of an engine. -/
structure Options where
  /-- The deepest inclusion; the entry stands at depth zero. -/
  maxDepth : Nat := 10
  /-- The resource of a head without arguments. -/
  defaultResource : String := "file"
deriving DecidableEq, Repr, Inhabited

/-- Everything a resolution depends on, the cache apart. -/
structure Engine (m : Type → Type) where
  options : Options := {}
  handlers : Handlers m := .empty
  transforms : Transforms m := .empty
  shortcuts : Scope := .empty

/-- A computation of a resolution: it hands the cache along and may fail. -/
abbrev Resolution (m : Type → Type) := ExceptT ResolveError (StateT Cache m)

/-- An outcome as a computation that leaves the cache alone. -/
def Resolution.ofExcept {m : Type → Type} [Monad m] {α : Type}
    (outcome : Except ResolveError α) : Resolution m α :=
  ExceptT.mk (pure outcome)

/-- What is to be resolved. -/
structure Request where
  /-- The including target; absent for the entry. -/
  source : Option Target := none
  target : Target
  /-- The number of inclusions that lead here. -/
  depth : Nat := 0
  /-- Content to take instead of reading the target. -/
  content : Option Content := none

/-- A part of a text after resolution. -/
inductive Part where
  | text (value : String)
  | node (value : Node)

namespace Part

/-- The content a part contributes. -/
def content : Part → Content
  | .text value => .text value
  | .node value => value.content

/-- The node of a part, if it is one. -/
def node? : Part → Option Node
  | .text _ => none
  | .node value => some value

/-- The node of a target whose text has some parts. -/
def assemble (target : Target) (parts : List Part) : Node :=
  .mk target (Content.join (parts.map content)) (parts.filterMap node?)

end Part

/-- The ways in which a resolution comes by what it needs. -/
structure Services (n : Type → Type) where
  /-- An outcome that is there already. -/
  outcome : {α : Type} → Except ResolveError α → n α
  /-- Reads a target for an including target. -/
  read : Option Target → Target → n Content
  /-- Runs a chain of transforms on a content. -/
  transform : TransformContext → List Segment → Content → n Content
  /-- Resolves the parts of a text, given how an inclusion is resolved. -/
  gather : (Inclusion → n Node) → List Piece → n (List Part)

namespace Services

variable {n : Type → Type} [Monad n]

/-- The content to resolve: the one supplied, or else what is read. -/
def contentOf (services : Services n) (source : Option Target) (target : Target) :
    Option Content → n Content
  | some content => pure content
  | none => services.read source target

/-- Runs the transforms of an inclusion on the content of its node. -/
def transformNode (services : Services n) (source : Target) (text : List Char)
    (planned : Inclusion) (node : Node) : n Node := do
  let context : TransformContext :=
    { directive := planned.directive, sourceText := text, target := node.target, source := source }
  let content ← services.transform context planned.transforms node.content
  return node.withContent content

end Services

namespace Engine

variable {m n : Type → Type}

/-- Resolves a target with a number of levels left below and including its own. -/
def resolveThrough [Monad n] (engine : Engine m) (services : Services n) :
    Nat → Option Target → Target → Option Content → n Node
  | 0, _, _, _ => services.outcome (.error (.depthExceeded engine.options.maxDepth))
  | levels + 1, source, requested, supplied => do
      let target ← services.outcome (engine.handlers.locate source requested)
      match ← services.contentOf source target supplied with
      | .binary bytes => return .leaf target (.binary bytes)
      | .text text => do
          let planned ← services.outcome (Plan.ofText engine.options.defaultResource
            engine.shortcuts.child target text)
          let characters := text.toList
          let parts ← services.gather (fun inclusion => do
            let node ← resolveThrough engine services levels (some target) inclusion.target none
            services.transformNode target characters inclusion node) planned
          return Part.assemble target parts

/-- Resolves the parts of a text one after the other. -/
def resolvePieces [Monad n] (resolveInclusion : Inclusion → n Node) : List Piece → n (List Part)
  | [] => pure []
  | .text value :: rest => do
      let others ← resolvePieces resolveInclusion rest
      return .text value :: others
  | .inclusion planned :: rest => do
      let node ← resolveInclusion planned
      let others ← resolvePieces resolveInclusion rest
      return .node node :: others

variable [Monad m]

/-- One inclusion after the other, with a cache that is handed along. -/
def inTurn (engine : Engine m) : Services (Resolution m) where
  outcome := Resolution.ofExcept
  read source target := ExceptT.mk (engine.handlers.read source target)
  transform context segments content :=
    ExceptT.mk (StateT.lift (engine.transforms.run context segments content))
  gather := resolvePieces

/-- Resolves a target in turn, with a number of levels left. -/
def resolveWithin (engine : Engine m) :
    Nat → Option Target → Target → Option Content → Resolution m Node :=
  engine.resolveThrough engine.inTurn

/-- Resolves a request in turn. -/
def resolve (engine : Engine m) (request : Request) : Resolution m Node :=
  engine.resolveWithin (engine.options.maxDepth + 1 - request.depth) request.source
    request.target request.content

end Engine

end Transclusion
