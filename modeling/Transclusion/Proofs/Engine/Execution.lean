import Transclusion.Engine.Resolve
import Transclusion.Resource.Builtin

/-!
# Running a resolution

Handlers and transforms are computations of some monad. What a resolution does
can be said as soon as such a computation can be run on a world (`Runs`): pure
functions run on no world at all, and a world of any type, with whatever a
handler may find in it, is the state of a state monad.

`Resolution.exec` runs a resolution from a cache and a world. Each way to build
a resolution has its equation (`exec_pure`, `exec_bind`), and a resolution that
succeeds is taken apart once, in `exec_resolveWithin_eq_ok`; what holds of every
tree that an engine returns is derived from there.
-/

set_option autoImplicit false

namespace Transclusion

/-! ## Worlds -/

/-- A monad whose computations run on a world: from a world, a computation
yields a value and leaves a world. -/
class Runs (m : Type → Type) [Monad m] (World : outParam Type) where
  run : {α : Type} → m α → World → α × World
  run_pure : ∀ {α : Type} (value : α) (world : World), run (pure value) world = (value, world)
  run_bind : ∀ {α β : Type} (first : m α) (next : α → m β) (world : World),
    run (first >>= next) world = run (next (run first world).1) (run first world).2

/-- Pure functions run on no world. -/
instance : Runs Id Unit where
  run value world := (value, world)
  run_pure _ _ := rfl
  run_bind _ _ _ := rfl

/-- A state monad runs on its states. -/
instance {World : Type} : Runs (StateM World) World where
  run computation world := computation world
  run_pure _ _ := rfl
  run_bind _ _ _ := rfl

/-! ## Running a computation of a resolution -/

namespace Resolution

variable {m : Type → Type} [Monad m] {World : Type} [Runs m World] {α β : Type}

/-- Runs a computation of a resolution from a cache and a world. -/
def exec (computation : Resolution m α) (state : Cache × World) :
    Except ResolveError α × (Cache × World) :=
  let after := Runs.run (computation.run state.1) state.2
  (after.1.1, after.1.2, after.2)

@[simp] theorem exec_pure (value : α) (state : Cache × World) :
    exec (pure value : Resolution m α) state = (.ok value, state) := by
  have plain : (pure value : Resolution m α).run state.1 = pure (.ok value, state.1) := rfl
  rw [exec, plain, Runs.run_pure]

@[simp] theorem exec_throw (error : ResolveError) (state : Cache × World) :
    exec (throw error : Resolution m α) state = (.error error, state) := by
  have plain : (throw error : Resolution m α).run state.1 = pure (.error error, state.1) := rfl
  rw [exec, plain, Runs.run_pure]

@[simp] theorem exec_ofExcept (outcome : Except ResolveError α) (state : Cache × World) :
    exec (ofExcept outcome : Resolution m α) state = (outcome, state) := by
  have plain : (ofExcept outcome : Resolution m α).run state.1 = pure (outcome, state.1) := rfl
  rw [exec, plain, Runs.run_pure]

/-- A computation of the monad below knows nothing of the cache. -/
theorem exec_lift (computation : m (Except ResolveError α)) (state : Cache × World) :
    exec (ExceptT.mk (StateT.lift computation)) state =
      ((Runs.run computation state.2).1, state.1, (Runs.run computation state.2).2) := by
  have sequence : (ExceptT.mk (StateT.lift computation) : Resolution m α).run state.1 =
      computation >>= fun outcome => pure (outcome, state.1) := rfl
  rw [exec, sequence, Runs.run_bind, Runs.run_pure]

/-- A computation that fails ends what comes behind it; the state it leaves stays. -/
theorem exec_bind (first : Resolution m α) (next : α → Resolution m β) (state : Cache × World) :
    exec (first >>= next) state =
      match exec first state with
      | (.ok value, after) => exec (next value) after
      | (.error error, after) => (.error error, after) := by
  have sequence : (first >>= next).run state.1 =
      first.run state.1 >>= fun reached => ExceptT.bindCont next reached.1 reached.2 := rfl
  rw [exec, sequence, Runs.run_bind]
  simp only [exec]
  cases outcome : (Runs.run (first.run state.1) state.2).1.1 with
  | ok value => rfl
  | error error =>
      have failed (cache : Cache) : ExceptT.bindCont next (.error error) cache =
          pure (f := m) (.error error, cache) := rfl
      rw [failed, Runs.run_pure]

/-- A change of the value leaves everything else as it is. -/
theorem exec_bind_pure (first : Resolution m α) (change : α → β) (state : Cache × World) :
    exec (first >>= fun value => pure (change value)) state =
      ((exec first state).1.map change, (exec first state).2) := by
  rw [exec_bind]
  cases course : exec first state with
  | mk outcome after =>
      cases outcome with
      | ok value => exact exec_pure _ _
      | error error => rfl

/-- A computation that succeeds hands its value and its state on. -/
theorem exec_bind_of_ok {first : Resolution m α} {next : α → Resolution m β}
    {state after : Cache × World} {value : α} (success : exec first state = (.ok value, after)) :
    exec (first >>= next) state = exec (next value) after := by
  rw [exec_bind, success]

/-- Two computations in a row succeed only if both do. -/
theorem exec_bind_eq_ok {first : Resolution m α} {next : α → Resolution m β}
    {state after : Cache × World} {result : β}
    (success : exec (first >>= next) state = (.ok result, after)) :
    ∃ value between, exec first state = (.ok value, between) ∧
      exec (next value) between = (.ok result, after) := by
  rw [exec_bind] at success
  split at success
  · next value between done => exact ⟨value, between, done, success⟩
  · cases success

/-- Two computations in a row fail if the first does, or the second behind it. -/
theorem exec_bind_eq_error {first : Resolution m α} {next : α → Resolution m β}
    {state after : Cache × World} {error : ResolveError}
    (failure : exec (first >>= next) state = (.error error, after)) :
    exec first state = (.error error, after) ∨
      ∃ value between, exec first state = (.ok value, between) ∧
        exec (next value) between = (.error error, after) := by
  rw [exec_bind] at failure
  split at failure
  · next value between done => exact .inr ⟨value, between, done, failure⟩
  · next stopped =>
      cases failure
      exact .inl stopped

end Resolution

/-! ## Taking a resolution apart -/

namespace Engine

variable {m : Type → Type} [Monad m]

/-- The content to resolve, in turn: the one supplied, or else what is read. -/
def contentOf (engine : Engine m) : Option Target → Target → Option Content → Resolution m Content :=
  engine.inTurn.contentOf

/-- Runs the transforms of an inclusion, in turn, on the content of its node. -/
def transformNode (engine : Engine m) :
    Target → List Char → Inclusion → Node → Resolution m Node :=
  engine.inTurn.transformNode

theorem contentOf_some (engine : Engine m) (source : Option Target) (target : Target)
    (content : Content) : engine.contentOf source target (some content) = pure content :=
  rfl

/-- Resolves what a directive in the text of a target includes, and transforms
it. -/
def resolveInclusion (engine : Engine m) (levels : Nat) (target : Target) (text : String)
    (planned : Inclusion) : Resolution m Node := do
  let node ← engine.resolveWithin levels (some target) planned.target none
  engine.transformNode target text.toList planned node

/-- Resolves a target whose content is there, with a number of levels left below
its own. -/
def resolveContent (engine : Engine m) (levels : Nat) (target : Target) :
    Content → Resolution m Node
  | .binary bytes => return .leaf target (.binary bytes)
  | .text text => do
      let planned ← Resolution.ofExcept (Plan.ofText engine.options.defaultResource
        engine.shortcuts.child target text)
      let parts ← resolvePieces (engine.resolveInclusion levels target text) planned
      return Part.assemble target parts

theorem resolveWithin_zero (engine : Engine m) (source : Option Target) (requested : Target)
    (supplied : Option Content) : engine.resolveWithin 0 source requested supplied =
      throw (.depthExceeded engine.options.maxDepth) :=
  rfl

/-- A target is located, its content is obtained, and the content is resolved. -/
theorem resolveWithin_succ (engine : Engine m) (levels : Nat) (source : Option Target)
    (requested : Target) (supplied : Option Content) :
    engine.resolveWithin (levels + 1) source requested supplied = (do
      let target ← Resolution.ofExcept (engine.handlers.locate source requested)
      let content ← engine.contentOf source target supplied
      engine.resolveContent levels target content) :=
  rfl

variable {World : Type} [Runs m World]

/-- Transforms know nothing of the cache. -/
theorem exec_inTurn_transform (engine : Engine m) (context : TransformContext)
    (segments : List Segment) (content : Content) (state : Cache × World) :
    (engine.inTurn.transform context segments content).exec state =
      ((Runs.run (engine.transforms.run context segments content) state.2).1, state.1,
        (Runs.run (engine.transforms.run context segments content) state.2).2) :=
  Resolution.exec_lift _ state

/-- What a request is about in a state: the target it is located at, and the
content that is supplied or read for it. -/
structure Obtains (engine : Engine m) (request : Request) (state : Cache × World)
    (target : Target) (content : Content) : Prop where
  located : engine.handlers.locate request.source request.target = .ok target
  obtained : ((engine.contentOf request.source target request.content).exec state).1 = .ok content

/-- A resolution that succeeds located its target, obtained its content and
resolved it, one level further down. -/
theorem exec_resolveWithin_eq_ok {engine : Engine m} {levels : Nat} {source : Option Target}
    {requested : Target} {supplied : Option Content} {state after : Cache × World} {node : Node}
    (success :
      (engine.resolveWithin levels source requested supplied).exec state = (.ok node, after)) :
    ∃ below target content between, levels = below + 1 ∧
      engine.handlers.locate source requested = .ok target ∧
      (engine.contentOf source target supplied).exec state = (.ok content, between) ∧
      (engine.resolveContent below target content).exec between = (.ok node, after) := by
  cases levels with
  | zero =>
      rw [resolveWithin_zero, Resolution.exec_throw] at success
      cases success
  | succ below =>
      rw [resolveWithin_succ] at success
      obtain ⟨target, _, located, rest⟩ := Resolution.exec_bind_eq_ok success
      rw [Resolution.exec_ofExcept, Prod.mk.injEq] at located
      obtain ⟨located, rfl⟩ := located
      obtain ⟨content, between, obtained, resolved⟩ := Resolution.exec_bind_eq_ok rest
      exact ⟨below, target, content, between, rfl, located, obtained, resolved⟩

/-- A text that is resolved without error was planned, and its parts make up the
node. -/
theorem exec_resolveContent_text_eq_ok {engine : Engine m} {levels : Nat} {target : Target}
    {text : String} {state after : Cache × World} {node : Node}
    (success : (engine.resolveContent levels target (.text text)).exec state = (.ok node, after)) :
    ∃ planned parts,
      Plan.ofText engine.options.defaultResource engine.shortcuts.child target text =
        .ok planned ∧
      (resolvePieces (engine.resolveInclusion levels target text) planned).exec state =
        (.ok parts, after) ∧
      node = Part.assemble target parts := by
  rw [resolveContent] at success
  obtain ⟨planned, _, plan, rest⟩ := Resolution.exec_bind_eq_ok success
  obtain ⟨parts, between, resolved, last⟩ := Resolution.exec_bind_eq_ok rest
  rw [Resolution.exec_ofExcept, Prod.mk.injEq] at plan
  obtain ⟨plan, rfl⟩ := plan
  rw [Resolution.exec_pure] at last
  cases last
  exact ⟨planned, parts, plan, resolved, rfl⟩

end Engine

/-! ## Engines over entries in memory -/

/-- An outcome whose value is known in part is a success. -/
theorem exists_ok_of_toOption_map {ε α β : Type} {outcome : Except ε α} {view : α → β} {seen : β}
    (known : outcome.toOption.map view = some seen) :
    ∃ value, outcome = .ok value ∧ view value = seen := by
  cases outcome with
  | error error => cases known
  | ok value => exact ⟨value, rfl, Option.some.inj known⟩

/-- An engine that serves some entries from memory. -/
def Engine.ofEntries (entries : List (String × Content)) : Engine Id :=
  { handlers := Handlers.add .empty (.table "file" ⟨entries⟩) }

end Transclusion
