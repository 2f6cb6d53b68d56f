import Transclusion.Engine.Stepwise
import Transclusion.Proofs.Engine.Execution

/-!
# Stepwise computations

A stepwise computation can be run from its beginning to its end, and its pauses do not show
then. So an engine whose handlers may wait can resolve in turn, too, and all that is known
of resolutions in turn holds of it.

Between two steps of a computation the world may change. What the computation may come to,
whatever happens meanwhile, is said by `Stepwise.Gives`; a pure computation comes to one
value only (`Stepwise.Yields`). A prompt computation never waits, and one poll is all of its
run (`Stepwise.Prompt.run_poll`).
-/

set_option autoImplicit false

namespace Transclusion

variable {m : Type → Type} {ρ α β : Type}

/-! ## Computations that never wait -/

namespace Stepwise

/-- A computation that never waits. -/
def Prompt : Stepwise m ρ α → Prop
  | .done _ => True
  | .perform _ next => ∀ response, (next response).Prompt
  | .pause _ => False

theorem Prompt.bind {first : Stepwise m ρ α} {next : α → Stepwise m ρ β} (prompt : first.Prompt)
    (rest : ∀ value, (next value).Prompt) : (first >>= next).Prompt := by
  induction first with
  | done value => exact rest value
  | perform effect others ih => exact fun response => ih response (prompt response)
  | pause others => exact prompt.elim

end Stepwise

/-- An engine whose reads and transforms never wait. -/
structure Engine.Prompt (engine : Engine (Stepwise m ρ)) : Prop where
  reads : ∀ ⦃name : String⦄ ⦃handler : Handler (Stepwise m ρ)⦄,
    engine.handlers.find? name = some handler →
    ∀ source target, (handler.read source target).Prompt
  transforms : ∀ ⦃name : String⦄ ⦃transform : Transform (Stepwise m ρ)⦄,
    engine.transforms.find? name = some transform →
    ∀ context content args, (transform.apply context content args).Prompt

/-- A chain of transforms that never wait never waits. -/
theorem Engine.Prompt.run_transforms {engine : Engine (Stepwise m ρ)} (prompt : engine.Prompt)
    (context : TransformContext) (segments : List Segment) (content : Content) :
    (engine.transforms.run context segments content).Prompt := by
  induction segments generalizing content with
  | nil => exact trivial
  | cons segment rest ih =>
      rw [Transforms.run]
      split
      · exact trivial
      · next transform known =>
          refine (prompt.transforms known context content segment.args).bind fun reply => ?_
          cases reply with
          | error error => exact trivial
          | ok value => exact ih value

variable [Monad m] {World : Type} [Runs m World]

/-! ## Stepwise computations from beginning to end -/

namespace Stepwise

/-- Runs a computation from its beginning to its end. -/
def runThrough : Stepwise m ρ α → World → α × World
  | .done value, world => (value, world)
  | .perform effect next, world =>
      (next (Runs.run effect world).1).runThrough (Runs.run effect world).2
  | .pause next, world => next.runThrough world

theorem runThrough_bind (first : Stepwise m ρ α) (next : α → Stepwise m ρ β) (world : World) :
    (first >>= next).runThrough world =
      (next (first.runThrough world).1).runThrough (first.runThrough world).2 := by
  induction first generalizing world with
  | done value => rfl
  | perform effect rest ih => exact ih _ _
  | pause rest ih => exact ih world

/-- Stepwise computations run on the worlds of their effects. -/
instance : Runs (Stepwise m ρ) World where
  run := runThrough
  run_pure _ _ := rfl
  run_bind := runThrough_bind

/-- One poll of a computation that never waits is all of its run. -/
theorem Prompt.run_poll {course : Stepwise m ρ α} (prompt : course.Prompt) (world : World) :
    Runs.run course.poll world = (.ready (Runs.run course world).1, (Runs.run course world).2) := by
  induction course generalizing world with
  | done value => exact Runs.run_pure _ world
  | perform effect next ih =>
      rw [poll, Runs.run_bind, Runs.run_bind, Runs.run_pure, ih _ (prompt _)]
      rfl
  | pause next => exact prompt.elim

end Stepwise

/-! ## What a stepwise computation may come to -/

namespace Stepwise

/-- A value that a computation may come to, in worlds that may change at any time. -/
inductive Gives : Stepwise m ρ α → α → Prop
  | done (value : α) : Gives (.done value) value
  | performed {effect : m ρ} {next : ρ → Stepwise m ρ α} {value : α} (world : World)
      (gives : Gives (next (Runs.run effect world).1) value) : Gives (.perform effect next) value
  | resumed {next : Stepwise m ρ α} {value : α} (gives : Gives next value) :
      Gives (.pause next) value

/-- A poll finds a value that a computation may come to, or leaves nothing that it could
not come to before. -/
def Polled.Sound {course : Stepwise m ρ α} : course.Polled → Prop
  | .ready value => course.Gives value
  | .pending next _ => ∀ value, next.Gives value → course.Gives value

theorem poll_sound (course : Stepwise m ρ α) (world : World) :
    (Runs.run course.poll world).1.Sound := by
  induction course generalizing world with
  | done value =>
      rw [poll, Runs.run_pure]
      exact .done value
  | pause next =>
      rw [poll, Runs.run_pure]
      exact fun value gives => .resumed gives
  | perform effect next ih =>
      rw [poll, Runs.run_bind, Runs.run_bind, Runs.run_pure]
      have sound := ih (Runs.run effect world).1 (Runs.run effect world).2
      cases polled : (Runs.run (next (Runs.run effect world).1).poll
          (Runs.run effect world).2).1 with
      | ready value =>
          rw [polled] at sound
          exact .performed world sound
      | pending rest later =>
          rw [polled] at sound
          exact fun value gives => .performed world (sound value gives)

/-- A computation that comes to a value, whatever the worlds are, and leaves each of them as
it is. -/
def Yields : Stepwise m ρ α → α → Prop
  | .done found, value => found = value
  | .perform effect next, value => ∀ world : World,
      (Runs.run effect world).2 = world ∧ (next (Runs.run effect world).1).Yields value
  | .pause next, value => next.Yields value

namespace Yields

variable {course : Stepwise m ρ α} {value : α}

theorem eq_of_gives (yields : course.Yields value) {other : α} (gives : course.Gives other) :
    other = value := by
  induction gives with
  | done found => exact yields
  | performed world _ ih => exact ih (yields world).2
  | resumed _ ih => exact ih yields

theorem run_eq (yields : course.Yields value) (world : World) :
    Runs.run course world = (value, world) := by
  induction course with
  | done found =>
      obtain rfl : found = value := yields
      rfl
  | perform effect next ih =>
      obtain ⟨same, onward⟩ := yields world
      change Runs.run (next (Runs.run effect world).1) (Runs.run effect world).2 = _
      rw [same]
      exact ih _ onward
  | pause next ih => exact ih yields

theorem bind {first : Stepwise m ρ α} {next : α → Stepwise m ρ β} {result : β}
    (yields : first.Yields value) (rest : (next value).Yields result) :
    (first >>= next).Yields result := by
  induction first with
  | done found =>
      obtain rfl : found = value := yields
      exact rest
  | perform effect others ih =>
      exact fun world => ⟨(yields world).1, ih _ (yields world).2⟩
  | pause others ih => exact ih yields

end Yields

end Stepwise

/-- Every transform comes to one content or error for what it is given, and does nothing
else. -/
def Transforms.Yield (transforms : Transforms (Stepwise m ρ)) : Prop :=
  ∀ ⦃name : String⦄ ⦃transform : Transform (Stepwise m ρ)⦄,
    transforms.find? name = some transform →
    ∀ context content args, ∃ outcome, (transform.apply context content args).Yields outcome

/-- So does every chain of such transforms. -/
theorem Transforms.Yield.exists_run {transforms : Transforms (Stepwise m ρ)}
    (yield : transforms.Yield) (context : TransformContext) (segments : List Segment)
    (content : Content) :
    ∃ outcome, (transforms.run context segments content).Yields outcome := by
  induction segments generalizing content with
  | nil => exact ⟨.ok content, rfl⟩
  | cons segment rest ih =>
      rw [Transforms.run]
      split
      · exact ⟨_, rfl⟩
      · next transform known =>
          obtain ⟨reply, applies⟩ := yield known context content segment.args
          cases reply with
          | error error => exact ⟨.error error, applies.bind rfl⟩
          | ok value =>
              obtain ⟨outcome, onward⟩ := ih value
              exact ⟨outcome, applies.bind onward⟩

end Transclusion
