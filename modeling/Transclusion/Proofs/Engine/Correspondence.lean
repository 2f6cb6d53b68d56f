import Transclusion.Proofs.Resource.Caching

/-!
# Engines that correspond

Most of what is said about a resolution compares it with another one: with that of
an engine without a cache, with that of the same engine under observation, or with
itself in another state. The two go through the same steps, and what holds of every
step holds of the whole.

A relation between computations is a correspondence if it holds between equal
outcomes and is kept by sequences (`Correspondence`). Two engines correspond under it
if they plan alike and their reads and transforms are related
(`Engine.Corresponds`); their resolutions are related then, at every number of levels
(`Engine.Corresponds.resolveWithin`).

What holds of one computation is a relation, too, that does not look at the other. The
first instance is that a computation is constant (`Resolution.Constant`), as pure reads
without keys and pure transforms are.
-/

set_option autoImplicit false

namespace Transclusion

/-! ## Resolutions through related services -/

/-- A relation between the computations of two monads holds between what two services
give, and is kept by sequences and by gathering parts. -/
structure Services.Related {m n : Type → Type} [Monad m] [Monad n]
    (related : (α : Type) → m α → n α → Prop) (services : Services m) (others : Services n) :
    Prop where
  outcome : ∀ {α : Type} (outcome : Except ResolveError α),
    related α (services.outcome outcome) (others.outcome outcome)
  pure : ∀ {α : Type} (value : α), related α (Pure.pure value) (Pure.pure value)
  bind : ∀ {α β : Type} {first : m α} {second : n α} {next : α → m β} {other : α → n β},
    related α first second → (∀ value, related β (next value) (other value)) →
    related β (first >>= next) (second >>= other)
  read : ∀ source target, related Content (services.read source target)
    (others.read source target)
  transform : ∀ context segments content, related Content
    (services.transform context segments content) (others.transform context segments content)
  gather : ∀ {first : Inclusion → m Node} {second : Inclusion → n Node},
    (∀ planned, related Node (first planned) (second planned)) → ∀ pieces,
    related (List Part) (services.gather first pieces) (others.gather second pieces)

/-- Two engines plan alike. -/
structure Engine.PlansLike {m n : Type → Type} (engine : Engine m) (other : Engine n) : Prop where
  options : engine.options = other.options
  shortcuts : engine.shortcuts = other.shortcuts
  locate : engine.handlers.locate = other.handlers.locate

/-- **Engines that plan alike come to related nodes through related services**, at every
number of levels. -/
theorem Services.Related.resolveThrough {m n : Type → Type} [Monad m] [Monad n]
    {related : (α : Type) → m α → n α → Prop} {services : Services m} {others : Services n}
    (relation : Services.Related related services others) {k l : Type → Type} {engine : Engine k}
    {other : Engine l} (alike : engine.PlansLike other) (levels : Nat) (source : Option Target)
    (requested : Target) (supplied : Option Content) :
    related Node (engine.resolveThrough services levels source requested supplied)
      (other.resolveThrough others levels source requested supplied) := by
  induction levels generalizing source requested supplied with
  | zero =>
      rw [Engine.resolveThrough, Engine.resolveThrough, alike.options]
      exact relation.outcome _
  | succ levels ih =>
      rw [Engine.resolveThrough, Engine.resolveThrough, alike.locate, alike.options,
        alike.shortcuts]
      refine relation.bind (relation.outcome _) fun target => ?_
      have obtained : related Content (services.contentOf source target supplied)
          (others.contentOf source target supplied) := by
        cases supplied with
        | none => exact relation.read source target
        | some content => exact relation.pure content
      refine relation.bind obtained fun content => ?_
      cases content with
      | binary bytes => exact relation.pure _
      | text text =>
          refine relation.bind (relation.outcome _) fun planned => ?_
          refine relation.bind (relation.gather (fun inclusion => ?_) planned)
            fun parts => relation.pure _
          refine relation.bind (ih (some target) inclusion.target none) fun node => ?_
          exact relation.bind (relation.transform _ _ _) fun _ => relation.pure _

/-! ## Resolutions in turn -/

variable {m n : Type → Type} [Monad m] [Monad n]

/-- A relation between the computations of two monads that holds between equal
outcomes and is kept by sequences. -/
structure Correspondence (related : (α : Type) → Resolution m α → Resolution n α → Prop) :
    Prop where
  ofExcept : ∀ {α : Type} (outcome : Except ResolveError α),
    related α (Resolution.ofExcept outcome) (Resolution.ofExcept outcome)
  bind : ∀ {α β : Type} {first : Resolution m α} {second : Resolution n α}
    {next : α → Resolution m β} {other : α → Resolution n β}, related α first second →
    (∀ value, related β (next value) (other value)) →
    related β (first >>= next) (second >>= other)

namespace Correspondence

variable {related : (α : Type) → Resolution m α → Resolution n α → Prop}

theorem pure (corresponds : Correspondence related) {α : Type} (value : α) :
    related α (Pure.pure value) (Pure.pure value) :=
  corresponds.ofExcept (.ok value)

/-- Parts are resolved by related computations if every inclusion is. -/
theorem resolvePieces (corresponds : Correspondence related)
    {first : Inclusion → Resolution m Node} {second : Inclusion → Resolution n Node}
    (inclusion : ∀ planned, related Node (first planned) (second planned)) :
    ∀ pieces : List Piece, related (List Part) (Engine.resolvePieces first pieces)
      (Engine.resolvePieces second pieces)
  | [] => corresponds.pure []
  | .text _ :: rest =>
      corresponds.bind (corresponds.resolvePieces inclusion rest) fun _ => corresponds.pure _
  | .inclusion planned :: rest =>
      corresponds.bind (inclusion planned) fun _ =>
        corresponds.bind (corresponds.resolvePieces inclusion rest) fun _ => corresponds.pure _

end Correspondence

namespace Engine

/-- Two engines plan alike, and their reads and transforms are related. -/
structure Corresponds (related : (α : Type) → Resolution m α → Resolution n α → Prop)
    (engine : Engine m) (other : Engine n) : Prop extends engine.PlansLike other where
  reads : ∀ source target, related Content (engine.handlers.readThrough source target)
    (other.handlers.readThrough source target)
  transforms : ∀ context segments content, related Content
    (engine.inTurn.transform context segments content)
    (other.inTurn.transform context segments content)

namespace Corresponds

variable {related : (α : Type) → Resolution m α → Resolution n α → Prop} {engine : Engine m}
  {other : Engine n}

theorem contentOf (engines : engine.Corresponds related other)
    (corresponds : Correspondence related) (source : Option Target) (target : Target)
    (supplied : Option Content) :
    related Content (engine.contentOf source target supplied)
      (other.contentOf source target supplied) := by
  cases supplied with
  | none => exact engines.reads source target
  | some content => exact corresponds.pure content

/-- **The resolutions of engines that correspond are related.** -/
theorem resolveWithin (engines : engine.Corresponds related other)
    (corresponds : Correspondence related) (levels : Nat) (source : Option Target)
    (requested : Target) (supplied : Option Content) :
    related Node (engine.resolveWithin levels source requested supplied)
      (other.resolveWithin levels source requested supplied) := by
  have relation : Services.Related related engine.inTurn other.inTurn :=
    { outcome := corresponds.ofExcept
      pure := corresponds.pure
      bind := corresponds.bind
      read := engines.reads
      transform := engines.transforms
      gather := corresponds.resolvePieces }
  exact relation.resolveThrough engines.toPlansLike levels source requested supplied

end Corresponds

end Engine

/-! ## Constant computations -/

section Constant

variable {World : Type} [Runs m World]

/-- A computation that has one outcome, whatever the cache and the world are, and
changes neither. -/
def Resolution.Constant {α : Type} (computation : Resolution m α) : Prop :=
  ∃ outcome, ∀ state : Cache × World, computation.exec state = (outcome, state)

/-- What is constant may be put in a row. -/
theorem Resolution.Constant.correspondence :
    Correspondence fun _ (computation _ : Resolution m _) => computation.Constant where
  ofExcept outcome := ⟨outcome, Resolution.exec_ofExcept outcome⟩
  bind := by
    rintro α β first _ next _ ⟨outcome, constant⟩ rest
    cases outcome with
    | error error =>
        refine ⟨.error error, fun state => ?_⟩
        rw [Resolution.exec_bind, constant]
    | ok value =>
        obtain ⟨result, final⟩ := rest value
        refine ⟨result, fun state => ?_⟩
        rw [Resolution.exec_bind, constant]
        exact final state

namespace Handlers

variable {handlers : Handlers m} {target : Target}

theorem readThrough_constant_of_unknown {error : ResolveError}
    (unknown : handlers.handlerOf target = .error error) (source : Option Target) :
    (handlers.readThrough source target).Constant :=
  ⟨.error error, fun _ => exec_readThrough_unknown unknown⟩

/-- A pure read without a key is constant. -/
theorem readThrough_constant_of_keyless {handler : Handler m} {source : Option Target}
    {outcome : Except ResolveError Content} (served : handlers.handlerOf target = .ok handler)
    (keyless : handler.key source target = none) (reads : handler.Reads source target outcome) :
    (handlers.readThrough source target).Constant := by
  refine ⟨outcome, fun state => ?_⟩
  rw [exec_readThrough_keyless served keyless, reads]

end Handlers

/-- Every transform has an outcome of its own for what it is given, whatever the world
is, and leaves the world as it is. -/
def Transforms.Pure (transforms : Transforms m) : Prop :=
  ∀ ⦃name : String⦄ ⦃transform : Transform m⦄, transforms.find? name = some transform →
    ∀ context content args, ∃ outcome, ∀ world : World,
      Runs.run (transform.apply context content args) world = (outcome, world)

theorem Transforms.pure_empty : Transforms.Pure (.empty : Transforms m) := by
  intro name transform known
  cases known

/-- A chain of pure transforms has an outcome of its own. -/
theorem Transforms.Pure.exists_run {transforms : Transforms m} (pure : transforms.Pure)
    (context : TransformContext) (segments : List Segment) (content : Content) :
    ∃ outcome, ∀ world : World,
      Runs.run (transforms.run context segments content) world = (outcome, world) := by
  induction segments generalizing content with
  | nil => exact ⟨.ok content, fun world => Runs.run_pure _ world⟩
  | cons segment rest ih =>
      cases known : transforms.find? segment.name with
      | none =>
          simp only [Transforms.run, known]
          exact ⟨_, fun world => Runs.run_pure _ world⟩
      | some transform =>
          obtain ⟨result, applies⟩ := pure known context content segment.args
          simp only [Transforms.run, known, Runs.run_bind, applies]
          cases result with
          | error error => exact ⟨.error error, fun world => Runs.run_pure _ world⟩
          | ok value => exact ih value

theorem Engine.transform_constant {engine : Engine m} (pure : engine.transforms.Pure)
    (context : TransformContext) (segments : List Segment) (content : Content) :
    (engine.inTurn.transform context segments content).Constant := by
  obtain ⟨outcome, runs⟩ := pure.exists_run context segments content
  refine ⟨outcome, fun state => ?_⟩
  rw [exec_inTurn_transform, runs]

end Constant

end Transclusion
