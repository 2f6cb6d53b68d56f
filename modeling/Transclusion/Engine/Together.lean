import Transclusion.Engine.Job
import Transclusion.Engine.Resolve

/-!
# Inclusions side by side

Where reads may have to wait, the inclusions of a text are resolved side by side. The
whole resolution is one job then. Its steps are written down as strands, each of which
makes a job of what comes behind it; the inclusions of a text become the parts of a
fork.

A resolution ends with an error as soon as one of its reads or transforms fails,
whichever comes first. What is still under way is dropped (`Engine.resolveTogether`).
-/

set_option autoImplicit false

namespace Transclusion

/-- A computation as a part of a job: given what comes behind it, a job. -/
def Strand (m : Type → Type) (ρ χ α : Type) : Type :=
  (Except ResolveError α → Job m ρ χ) → Job m ρ χ

namespace Strand

variable {m : Type → Type} {ρ χ α β : Type}

/-- An outcome that is there already. -/
def ofExcept (outcome : Except ResolveError α) : Strand m ρ χ α := fun next =>
  next outcome

/-- One computation behind another; an error ends both. -/
def bind (first : Strand m ρ χ α) (rest : α → Strand m ρ χ β) : Strand m ρ χ β := fun next =>
  first fun outcome =>
    match outcome with
    | .ok value => rest value next
    | .error error => next (.error error)

instance : Monad (Strand m ρ χ) where
  pure value := ofExcept (.ok value)
  bind := bind

/-- A read or a transform that nobody else may share. -/
def work (course : Stepwise m ρ Reply) : Strand m ρ χ Content := fun next =>
  .work none course next

/-- A read under a key. -/
def claim (key : String) (read : Stepwise m ρ Reply) : Strand m ρ χ Content := fun next =>
  .claim key read next

/-- The job of a computation with nothing behind it. -/
def close (strand : Strand m ρ χ χ) : Job m ρ χ :=
  strand .done

end Strand

/-- The inclusions among the parts of a text. -/
def Piece.inclusions : List Piece → List Inclusion
  | [] => []
  | .text _ :: rest => inclusions rest
  | .inclusion planned :: rest => planned :: inclusions rest

/-- The parts of a text, given a node for each of its inclusions. -/
def Part.weave : List Piece → List Node → List Part
  | [], _ => []
  | .text value :: rest, nodes => .text value :: weave rest nodes
  | .inclusion _ :: rest, first :: nodes => .node first :: weave rest nodes
  | .inclusion _ :: _, [] => []

variable {m : Type → Type} {ρ : Type}

/-- Reads a target by way of the cells. -/
def Handlers.share {χ : Type} (handlers : Handlers (Stepwise m ρ)) (source : Option Target)
    (target : Target) : Strand m ρ χ Content :=
  match handlers.handlerOf target with
  | .error error => .ofExcept (.error error)
  | .ok handler =>
      match handler.key source target with
      | none => .work (handler.read source target)
      | some key => .claim (Cache.key target.name key) (handler.read source target)

/-- Reads a target on its own. -/
def Handlers.readTogether [Monad m] (handlers : Handlers (Stepwise m ρ)) (source : Option Target)
    (target : Target) (cells : Cells) : m (Reply × Ledger) :=
  (handlers.share source target).close.run { cells := cells }

namespace Engine

/-- Resolves the inclusions of a text side by side. -/
def gatherTogether (resolveInclusion : Inclusion → Strand m ρ Node Node) (pieces : List Piece) :
    Strand m ρ Node (List Part) := fun next =>
  .fork ((Piece.inclusions pieces).map fun planned => .inr (resolveInclusion planned).close)
    fun joined => next (joined.map (Part.weave pieces))

/-- The inclusions of a text side by side, with cells that all of them share. -/
def sideBySide (engine : Engine (Stepwise m ρ)) : Services (Strand m ρ Node) where
  outcome := Strand.ofExcept
  read := engine.handlers.share
  transform context segments content := .work (engine.transforms.run context segments content)
  gather := gatherTogether

/-- The job of a request. -/
def job (engine : Engine (Stepwise m ρ)) (request : Request) : Job m ρ Node :=
  (engine.resolveThrough engine.sideBySide (engine.options.maxDepth + 1 - request.depth)
    request.source request.target request.content).close

/-- Resolves a request, the inclusions of each text side by side. -/
def resolveTogether [Monad m] (engine : Engine (Stepwise m ρ)) (request : Request)
    (cells : Cells) : m (Except ResolveError Node × Ledger) :=
  (engine.job request).run { cells := cells }

end Engine

end Transclusion
