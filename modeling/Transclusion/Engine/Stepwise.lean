/-!
# Computations that may be suspended

A handler may have to wait for what it reads. Its computation is then carried out
stepwise: it performs effects of the monad below and goes on with what they
respond, and it pauses where it waits. A poll carries such a computation on to its
value or to its next pause. What is left after a pause is always a later state of
the computation (`Stepwise.Later`), and no computation has states without end
(`Stepwise.acc_step`).
-/

set_option autoImplicit false

namespace Transclusion

/-- A computation of effects that respond with values of one type, with pauses. -/
inductive Stepwise (m : Type → Type) (ρ α : Type) where
  | done (value : α)
  /-- Performs an effect and goes on with its response. -/
  | perform (effect : m ρ) (next : ρ → Stepwise m ρ α)
  /-- Waits, and goes on when it is polled again. -/
  | pause (next : Stepwise m ρ α)

namespace Stepwise

variable {m : Type → Type} {ρ α β : Type}

/-- One computation behind another. -/
def bind (first : Stepwise m ρ α) (next : α → Stepwise m ρ β) : Stepwise m ρ β :=
  match first with
  | .done value => next value
  | .perform effect rest => .perform effect fun response => (rest response).bind next
  | .pause rest => .pause (rest.bind next)

instance : Monad (Stepwise m ρ) where
  pure := .done
  bind := bind

/-- An effect during which one waits. -/
def await (effect : m ρ) : Stepwise m ρ ρ :=
  .perform effect fun response => .pause (.done response)

/-! ## Later states -/

/-- What a computation becomes in one step. -/
inductive Step : Stepwise m ρ α → Stepwise m ρ α → Prop
  | performed (effect : m ρ) (next : ρ → Stepwise m ρ α) (response : ρ) :
      Step (next response) (.perform effect next)
  | resumed (next : Stepwise m ρ α) : Step next (.pause next)

/-- What a computation becomes in some steps. -/
abbrev Later : Stepwise m ρ α → Stepwise m ρ α → Prop :=
  Relation.TransGen Step

/-- Every computation comes to its end. -/
theorem acc_step (course : Stepwise m ρ α) : Acc Step course := by
  induction course with
  | done value => exact ⟨_, nofun⟩
  | perform effect next ih =>
      refine ⟨_, ?_⟩
      rintro _ ⟨⟩
      exact ih _
  | pause next ih =>
      refine ⟨_, ?_⟩
      rintro _ ⟨⟩
      exact ih

/-! ## Polling -/

/-- What a poll makes of a computation: its value, or a later state in which it
waits. -/
inductive Polled (course : Stepwise m ρ α) where
  | ready (value : α)
  | pending (next : Stepwise m ρ α) (later : Later next course)

/-- What a poll of a later state makes of a computation. -/
def Polled.behind {course next : Stepwise m ρ α} (step : Step next course) :
    Polled next → Polled course
  | .ready value => .ready value
  | .pending rest later => .pending rest (.tail later step)

/-- Carries a computation on to its value or to its next pause. -/
def poll [Monad m] : (course : Stepwise m ρ α) → m (Polled course)
  | .done value => pure (.ready value)
  | .perform effect next => do
      let response ← effect
      let polled ← (next response).poll
      return polled.behind (.performed effect next response)
  | .pause next => pure (.pending next (.single (.resumed next)))

end Stepwise

end Transclusion
