import Transclusion.Proofs.Engine.Correspondence
import Transclusion.Proofs.Engine.Polling

/-!
# What a resolution side by side may come to

A text with several inclusions that fail has several errors. In turn the first of them
is reported; side by side it may be any, and which one it is depends on what has to wait
and on what is kept in the cells. A verdict says what does not depend on that: the node,
or else the errors of all inclusions (`Verdict`). It is found without cells, keys or
pauses (`Engine.verdict`).

For handlers that can be depended on, reads under one key are the same read, so that the
outcomes in the cells are what the handlers would give (`Cells.Consistent`). All parts of
a job keep to this, whatever transforms do. And if transforms are pure, a resolution comes
to an outcome that its verdict allows (`Engine.resolveTogether_allowed`). So does one in
turn; the two come to the same node, or both fail (`Engine.resolveTogether_toOption`).
-/

set_option autoImplicit false

namespace Transclusion

/-! ## Verdicts -/

/-- A value, or else all the errors that there are. -/
abbrev Verdict : Type → Type :=
  Except (List ResolveError)

namespace Verdict

variable {α β : Type} {verdict : Verdict α}

/-- An outcome is the value of a verdict, or one of its errors. -/
def Allows : Verdict α → Except ResolveError α → Prop
  | .ok value, outcome => outcome = .ok value
  | .error errors, outcome => ∃ error ∈ errors, outcome = .error error

/-- The verdict with one outcome only. -/
def only : Except ResolveError α → Verdict α
  | .ok value => .ok value
  | .error error => .error [error]

theorem allows_only_iff {outcome other : Except ResolveError α} :
    (only outcome).Allows other ↔ other = outcome := by
  cases outcome with
  | ok value => exact Iff.rfl
  | error error => simp [only, Allows]

theorem allows_ok_iff {value : α} : verdict.Allows (.ok value) ↔ verdict = .ok value := by
  cases verdict with
  | ok other => simp [Allows, eq_comm]
  | error errors => simp [Allows]

theorem allows_error_iff {error : ResolveError} :
    verdict.Allows (.error error) ↔ ∃ errors, verdict = .error errors ∧ error ∈ errors := by
  cases verdict with
  | ok value => simp [Allows]
  | error errors => simp [Allows]

theorem Allows.toOption_eq {outcome : Except ResolveError α} (allowed : verdict.Allows outcome) :
    outcome.toOption = verdict.toOption := by
  cases verdict with
  | ok value => rw [allowed]; rfl
  | error errors =>
      obtain ⟨error, -, rfl⟩ := allowed
      rfl

theorem Allows.map {outcome : Except ResolveError α} (allowed : verdict.Allows outcome)
    (change : α → β) : Allows (verdict.map change) (outcome.map change) := by
  cases verdict with
  | ok value =>
      obtain rfl : outcome = .ok value := allowed
      rfl
  | error errors =>
      obtain ⟨error, member, rfl⟩ := allowed
      exact ⟨error, member, rfl⟩

/-- The parts of a text, or the errors of all its inclusions. -/
def gather (resolveInclusion : Inclusion → Verdict Node) : List Piece → Verdict (List Part)
  | [] => .ok []
  | .text value :: rest => (gather resolveInclusion rest).map (.text value :: ·)
  | .inclusion planned :: rest =>
      match resolveInclusion planned, gather resolveInclusion rest with
      | .ok node, .ok parts => .ok (.node node :: parts)
      | .ok _, .error errors => .error errors
      | .error errors, .ok _ => .error errors
      | .error errors, .error others => .error (errors ++ others)

variable {resolveInclusion : Inclusion → Verdict Node}

/-- Nodes for all inclusions make up the parts of the text. -/
theorem gather_eq_ok {pieces : List Piece} {nodes : List Node}
    (resolved : List.Forall₂ (fun planned node => resolveInclusion planned = .ok node)
      (Piece.inclusions pieces) nodes) :
    gather resolveInclusion pieces = .ok (Part.weave pieces nodes) := by
  induction pieces generalizing nodes with
  | nil => rfl
  | cons piece rest ih =>
      cases piece with
      | text value =>
          rw [gather, ih resolved]
          rfl
      | inclusion planned =>
          cases resolved with
          | cons first others => rw [gather, first, ih others, Part.weave]

/-- An error of any inclusion is an error of the text. -/
theorem gather_allows_error {pieces : List Piece} {planned : Inclusion} {error : ResolveError}
    (among : planned ∈ Piece.inclusions pieces)
    (fails : (resolveInclusion planned).Allows (.error error)) :
    (gather resolveInclusion pieces).Allows (.error error) := by
  induction pieces with
  | nil => cases among
  | cons piece rest ih =>
      cases piece with
      | text value => exact (ih among).map _
      | inclusion first =>
          rw [allows_error_iff]
          rcases List.mem_cons.1 among with rfl | later
          · obtain ⟨errors, failed, member⟩ := allows_error_iff.1 fails
            rw [gather, failed]
            cases gather resolveInclusion rest with
            | ok parts => exact ⟨errors, rfl, member⟩
            | error others => exact ⟨_, rfl, List.mem_append_left _ member⟩
          · obtain ⟨others, failed, member⟩ := allows_error_iff.1 (ih later)
            rw [gather, failed]
            cases resolveInclusion first with
            | ok node => exact ⟨others, rfl, member⟩
            | error errors => exact ⟨_, rfl, List.mem_append_right _ member⟩

end Verdict

variable {m : Type → Type} [Monad m] {World : Type} [Runs m World] {ρ χ α β : Type}

namespace Engine

/-- Reads and transforms as they are in a world, and the errors of all inclusions. -/
def verdicts (engine : Engine (Stepwise m ρ)) (world : World) : Services Verdict where
  outcome := Verdict.only
  read source target :=
    match engine.handlers.handlerOf target with
    | .error error => .error [error]
    | .ok handler => .only (Runs.run (handler.read source target) world).1
  transform context segments content :=
    .only (Runs.run (engine.transforms.run context segments content) world).1
  gather := Verdict.gather

/-- The node of a request, or all the errors that it has. -/
def verdict (engine : Engine (Stepwise m ρ)) (world : World) (request : Request) : Verdict Node :=
  engine.resolveThrough (engine.verdicts world) (engine.options.maxDepth + 1 - request.depth)
    request.source request.target request.content

end Engine

/-! ## Cells that are consistent -/

/-- A handler whose reads are pure, and have the same outcome where they have the same
key. -/
def Handler.Dependable (handler : Handler (Stepwise m ρ)) : Prop :=
  ∃ outcome : Option Target → Target → Reply,
    (∀ source target, (handler.read source target).Yields (outcome source target)) ∧
      ∀ {source other : Option Target} {target another : Target} {key : String},
        handler.key source target = some key → handler.key other another = some key →
        outcome source target = outcome other another

/-- Handlers that can be depended on, under names that hold no NUL. -/
structure Handlers.Dependable (handlers : Handlers (Stepwise m ρ)) : Prop where
  solid : ∀ {name : String} {handler : Handler (Stepwise m ρ)},
    handlers.find? name = some handler → '\x00' ∉ name.toList
  dependable : ∀ {name : String} {handler : Handler (Stepwise m ρ)},
    handlers.find? name = some handler → handler.Dependable

/-- What is in the cells is what the handlers would give. -/
def Cells.Consistent (handlers : Handlers (Stepwise m ρ)) (cells : Cells) : Prop :=
  ∀ ⦃name key : String⦄ ⦃handler : Handler (Stepwise m ρ)⦄ ⦃source : Option Target⦄
    ⦃target : Target⦄ ⦃outcome : Reply⦄, handlers.find? name = some handler →
    handler.key source target = some key → cells.kept? (Cache.key name key) = some outcome →
    (handler.read source target).Yields outcome

namespace Cells.Consistent

variable {handlers : Handlers (Stepwise m ρ)} {ledger : Ledger}

theorem empty (handlers : Handlers (Stepwise m ρ)) : Cells.Consistent handlers .empty := by
  intro name key handler source target outcome _ _ kept
  cases kept

theorem note (consistent : ledger.cells.Consistent handlers) {key : String}
    (absent : ledger.cells.kept? key = none) : (ledger.note key).cells.Consistent handlers := by
  intro name own handler source target outcome served keyed kept
  rw [Ledger.kept?_note absent] at kept
  exact consistent served keyed kept

/-- The outcome of a read that is done is what its handler gives. -/
theorem outcome {name key : String} {handler : Handler (Stepwise m ρ)} {source : Option Target}
    {target : Target} {reply : Reply} (consistent : ledger.cells.Consistent handlers)
    (served : handlers.find? name = some handler) (keyed : handler.key source target = some key)
    (yields : (handler.read source target).Yields reply) :
    (handler.read source target).Yields (ledger.outcome (some (Cache.key name key)) reply) := by
  cases kept : ledger.cells.kept? (Cache.key name key) with
  | none =>
      rw [Ledger.outcome_of_absent kept]
      exact yields
  | some earlier =>
      rw [Ledger.outcome, Option.bind_some, kept]
      exact consistent served keyed kept

/-- A read that is done leaves cells consistent. -/
theorem fill {name key : String} {handler : Handler (Stepwise m ρ)} {source : Option Target}
    {target : Target} {reply : Reply} (consistent : ledger.cells.Consistent handlers)
    (dependable : handlers.Dependable) (served : handlers.find? name = some handler)
    (keyed : handler.key source target = some key)
    (gives : (handler.read source target).Gives reply) :
    (ledger.fill (some (Cache.key name key)) reply).cells.Consistent handlers := by
  intro otherName otherKey other otherSource otherTarget kept otherServed otherKeyed found
  rw [Ledger.kept?_fill] at found
  split at found
  · next same =>
      -- a key belongs to one handler only, since no name holds a NUL
      obtain ⟨rfl, rfl⟩ :=
        Cache.key_injective (dependable.solid otherServed) (dependable.solid served) same
      obtain rfl : other = handler := Option.some.inj (otherServed.symm.trans served)
      obtain ⟨value, reads, alike⟩ := dependable.dependable served
      obtain rfl := (reads source target).eq_of_gives gives
      rw [← Option.some.inj found, alike keyed otherKeyed]
      exact consistent.outcome served otherKeyed (reads otherSource otherTarget)
  · exact consistent otherServed otherKeyed found

end Cells.Consistent

/-- All parts of a job keep the cells consistent. -/
def Rules.consistent (handlers : Handlers (Stepwise m ρ)) : Rules where
  rely before after := before.cells.Consistent handlers → after.cells.Consistent handlers
  own before after := before.cells.Consistent handlers → after.cells.Consistent handlers
  rely_refl _ := id
  rely_trans first second := second ∘ first
  own_refl _ := id
  own_trans first second := second ∘ first
  rely_of_own := id

/-! ## Strands that follow a verdict -/

/-- From consistent cells on, a strand keeps cells consistent; and if transforms are sure, it
comes to an outcome that a verdict allows. -/
def Follows (handlers : Handlers (Stepwise m ρ)) (sure : Prop) (verdict : Verdict α)
    (strand : Strand m ρ χ α) : Prop :=
  ∀ ledger : Ledger, ledger.cells.Consistent handlers →
    strand.Ensures (.consistent handlers) ledger fun _ outcome => sure → verdict.Allows outcome

namespace Follows

variable {handlers : Handlers (Stepwise m ρ)} {sure : Prop}

theorem ofExcept (outcome : Except ResolveError α) :
    Follows handlers sure (.only outcome) (.ofExcept outcome : Strand m ρ χ α) :=
  fun _ _ => Strand.ensures_ofExcept fun _ => Verdict.allows_only_iff.2 rfl

theorem bind {verdict : Verdict α} {strand : Strand m ρ χ α} {next : α → Verdict β}
    {rest : α → Strand m ρ χ β} (first : Follows handlers sure verdict strand)
    (others : ∀ value, Follows handlers sure (next value) (rest value)) :
    Follows handlers sure (verdict >>= next) (strand >>= rest) := by
  intro ledger consistent
  refine (first ledger consistent).bind (fun later value relies allowed => ?_)
    fun later error relies allowed certain => ?_
  · refine (others value later (relies consistent)).imp fun last outcome _ reached certain => ?_
    rw [Verdict.allows_ok_iff.1 (allowed certain)]
    exact reached certain
  · obtain ⟨errors, failed, member⟩ := Verdict.allows_error_iff.1 (allowed certain)
    rw [failed]
    exact ⟨error, member, rfl⟩

/-- Work that is pure, if one is sure of it. -/
theorem work {course : Stepwise m ρ Reply} (pure : sure → ∃ reply, course.Yields reply)
    (world : World) :
    Follows handlers sure (.only (Runs.run course world).1)
      (.work course : Strand m ρ χ Content) := by
  refine fun _ _ => Strand.ensures_work fun _ found _ gives certain => ?_
  obtain ⟨reply, yields⟩ := pure certain
  rw [Verdict.allows_only_iff, yields.run_eq world]
  exact yields.eq_of_gives gives

/-- A read comes to what its handler gives, whether it is made, waited for or found. -/
theorem share {engine : Engine (Stepwise m ρ)} (dependable : engine.handlers.Dependable)
    (world : World) (source : Option Target) (target : Target) :
    Follows engine.handlers sure ((engine.verdicts world).read source target)
      (engine.handlers.share source target : Strand m ρ χ Content) := by
  simp only [Engine.verdicts, Handlers.share]
  cases served : engine.handlers.handlerOf target with
  | error error => exact ofExcept (.error error)
  | ok handler =>
      have registered := Handlers.handlerOf_eq_ok_iff.1 served
      obtain ⟨value, reads, -⟩ := dependable.dependable registered
      have yields := reads source target
      dsimp only
      cases keyed : handler.key source target with
      | none => exact work (fun _ => ⟨_, yields⟩) world
      | some key =>
          intro ledger consistent
          -- what is found and what is given come to the same in one and the same world
          have allowed {found : Reply} (gives : (handler.read source target).Yields found) :
              (Verdict.only (Runs.run (handler.read source target) world).1).Allows found := by
            rw [Verdict.allows_only_iff, gives.run_eq world]
          refine Strand.ensures_claim (fun later found relies kept _ => ?_)
            fun later relies absent => ⟨fun steady => steady.note absent, ?_⟩
          · exact allowed (relies consistent registered keyed kept)
          · intro last found further gives
            have steady := further ((relies consistent).note absent)
            obtain rfl := yields.eq_of_gives gives
            exact ⟨fun before => before.fill dependable registered keyed gives,
              fun _ => allowed (steady.outcome registered keyed yields)⟩

theorem gather {first : Inclusion → Verdict Node} {second : Inclusion → Strand m ρ Node Node}
    (each : ∀ planned, Follows handlers sure (first planned) (second planned))
    (pieces : List Piece) :
    Follows handlers sure (Verdict.gather first pieces) (Engine.gatherTogether second pieces) := by
  intro ledger consistent
  refine Engine.ensures_gatherTogether_each (fun planned _ _ _ _ allowed => allowed)
    (fun planned => each planned ledger consistent) (fun later nodes _ all certain => ?_)
    fun later planned error _ among fails certain => ?_
  · refine Verdict.allows_ok_iff.2 (Verdict.gather_eq_ok (all.imp ?_))
    intro planned node allowed
    exact Verdict.allows_ok_iff.1 (allowed certain)
  · exact Verdict.gather_allows_error among (fails certain)

end Follows

namespace Engine

variable {engine : Engine (Stepwise m ρ)}

/-- At every number of levels, a resolution side by side follows its verdict. -/
theorem follows_verdict (dependable : engine.handlers.Dependable) (world : World) (levels : Nat)
    (source : Option Target) (requested : Target) (supplied : Option Content) :
    Follows engine.handlers engine.transforms.Yield
      (engine.resolveThrough (engine.verdicts world) levels source requested supplied)
      (engine.resolveThrough engine.sideBySide levels source requested supplied) := by
  have relation : Services.Related
      (fun _ verdict strand => Follows engine.handlers engine.transforms.Yield verdict strand)
      (engine.verdicts world) engine.sideBySide :=
    { outcome := Follows.ofExcept
      pure := fun value => Follows.ofExcept (.ok value)
      bind := Follows.bind
      read := Follows.share dependable world
      transform := fun context segments content =>
        Follows.work (fun yield => yield.exists_run context segments content) world
      gather := Follows.gather }
  exact relation.resolveThrough ⟨rfl, rfl, rfl⟩ levels source requested supplied

/-- **A resolution side by side comes to what its verdict allows**, if handlers can be
depended on and transforms are pure: whatever waits for how long, and whatever consistent
outcomes are in the cells. The cells stay consistent for all transforms. -/
theorem resolveTogether_allowed (dependable : engine.handlers.Dependable) (request : Request)
    {cells : Cells} (consistent : cells.Consistent engine.handlers) (world now : World) :
    let resolved := (Runs.run (engine.resolveTogether request cells) now).1
    resolved.2.cells.Consistent engine.handlers ∧
      (engine.transforms.Yield → (engine.verdict world request).Allows resolved.1) := by
  have follows := follows_verdict dependable world (engine.options.maxDepth + 1 - request.depth)
    request.source request.target request.content
  obtain ⟨keeps, allowed⟩ := (follows { cells := cells } consistent).run now
  exact ⟨keeps consistent, allowed⟩

end Engine

/-! ## Resolutions in turn -/

/-- What can be depended on side by side is faithful in turn. -/
theorem Handlers.Dependable.faithful {handlers : Handlers (Stepwise m ρ)}
    (dependable : handlers.Dependable) : handlers.Faithful := by
  refine ⟨dependable.solid, fun {name handler} served => ?_⟩
  obtain ⟨value, reads, alike⟩ := dependable.dependable served
  constructor
  · intro source target
    exact ⟨value source target, (reads source target).run_eq⟩
  · intro source other target another key outcome keyed otherKeyed read world
    rw [(reads other another).run_eq world, ← alike keyed otherKeyed, ← read world,
      (reads source target).run_eq world]

/-- In turn, from a consistent cache, a computation comes to an outcome that a verdict allows,
and leaves the cache consistent. -/
def FollowsInTurn (handlers : Handlers (Stepwise m ρ)) (verdict : Verdict α)
    (course : Resolution (Stepwise m ρ) α) : Prop :=
  ∀ (cache : Cache) (now : World), cache.Consistent handlers →
    (course.exec (cache, now)).2.1.Consistent handlers ∧
      verdict.Allows (course.exec (cache, now)).1

namespace FollowsInTurn

variable {handlers : Handlers (Stepwise m ρ)}

theorem ofExcept (outcome : Except ResolveError α) :
    FollowsInTurn handlers (.only outcome)
      (Resolution.ofExcept outcome : Resolution (Stepwise m ρ) α) := by
  intro cache now consistent
  rw [Resolution.exec_ofExcept]
  exact ⟨consistent, Verdict.allows_only_iff.2 rfl⟩

theorem bind {verdict : Verdict α} {course : Resolution (Stepwise m ρ) α} {next : α → Verdict β}
    {rest : α → Resolution (Stepwise m ρ) β} (first : FollowsInTurn handlers verdict course)
    (others : ∀ value, FollowsInTurn handlers (next value) (rest value)) :
    FollowsInTurn handlers (verdict >>= next) (course >>= rest) := by
  intro cache now consistent
  obtain ⟨kept, allowed⟩ := first cache now consistent
  rw [Resolution.exec_bind]
  cases reached : course.exec (cache, now) with
  | mk outcome after =>
      rw [reached] at kept allowed
      cases outcome with
      | ok value =>
          rw [Verdict.allows_ok_iff.1 allowed]
          exact others value after.1 after.2 kept
      | error error =>
          obtain ⟨errors, failed, member⟩ := Verdict.allows_error_iff.1 allowed
          rw [failed]
          exact ⟨kept, error, member, rfl⟩

theorem read {engine : Engine (Stepwise m ρ)} (dependable : engine.handlers.Dependable)
    (world : World) (source : Option Target) (target : Target) :
    FollowsInTurn engine.handlers ((engine.verdicts world).read source target)
      (engine.handlers.readThrough source target) := by
  intro cache now consistent
  obtain ⟨kept, same⟩ :=
    Handlers.readThrough_mirrors dependable.faithful source target cache .empty now consistent
  refine ⟨kept, ?_⟩
  rw [Handlers.exec_readThrough, Handlers.read_uncached, Prod.mk.injEq] at same
  rw [← same.1]
  simp only [Engine.verdicts]
  cases served : engine.handlers.handlerOf target with
  | error error =>
      simp only [Runs.run_pure]
      exact ⟨error, .head _, rfl⟩
  | ok handler =>
      obtain ⟨value, reads, -⟩ := dependable.dependable (Handlers.handlerOf_eq_ok_iff.1 served)
      simp only [Runs.run_bind, Runs.run_pure]
      rw [Verdict.allows_only_iff, (reads source target).run_eq, (reads source target).run_eq]

theorem gather {first : Inclusion → Verdict Node}
    {second : Inclusion → Resolution (Stepwise m ρ) Node}
    (each : ∀ planned, FollowsInTurn handlers (first planned) (second planned))
    (pieces : List Piece) :
    FollowsInTurn handlers (Verdict.gather first pieces) (Engine.resolvePieces second pieces) := by
  induction pieces with
  | nil => exact ofExcept (.ok [])
  | cons piece rest ih =>
      cases piece with
      | text value =>
          intro cache now consistent
          obtain ⟨kept, allowed⟩ := ih cache now consistent
          rw [Engine.resolvePieces, Resolution.exec_bind_pure]
          exact ⟨kept, allowed.map _⟩
      | inclusion planned =>
          intro cache now consistent
          obtain ⟨kept, allowed⟩ := each planned cache now consistent
          rw [Engine.resolvePieces, Resolution.exec_bind]
          cases reached : (second planned).exec (cache, now) with
          | mk outcome after =>
              rw [reached] at kept allowed
              cases outcome with
              | error error => exact ⟨kept, Verdict.gather_allows_error (.head _) allowed⟩
              | ok node =>
                  obtain ⟨last, others⟩ := ih after.1 after.2 kept
                  have joined : Verdict.gather first (.inclusion planned :: rest) =
                      (Verdict.gather first rest).map (.node node :: ·) := by
                    rw [Verdict.gather, Verdict.allows_ok_iff.1 allowed]
                    cases Verdict.gather first rest <;> rfl
                  rw [joined]
                  simp only [Resolution.exec_bind_pure]
                  exact ⟨last, others.map _⟩

end FollowsInTurn

namespace Engine

variable {engine : Engine (Stepwise m ρ)}

/-- In turn, too, a resolution comes to what its verdict allows. -/
theorem resolve_allowed (dependable : engine.handlers.Dependable) (yield : engine.transforms.Yield)
    (request : Request) (world : World) :
    FollowsInTurn engine.handlers (engine.verdict world request) (engine.resolve request) := by
  have relation : Services.Related
      (fun _ verdict course => FollowsInTurn engine.handlers verdict course)
      (engine.verdicts world) engine.inTurn :=
    { outcome := FollowsInTurn.ofExcept
      pure := fun value => FollowsInTurn.ofExcept (.ok value)
      bind := FollowsInTurn.bind
      read := FollowsInTurn.read dependable world
      transform := by
        intro context segments content cache now consistent
        obtain ⟨outcome, yields⟩ := yield.exists_run context segments content
        rw [exec_inTurn_transform]
        refine ⟨consistent, Verdict.allows_only_iff.2 ?_⟩
        rw [yields.run_eq, yields.run_eq]
      gather := FollowsInTurn.gather }
  exact relation.resolveThrough ⟨rfl, rfl, rfl⟩ _ request.source request.target request.content

/-- **Side by side, a resolution comes to the node that it comes to in turn**, or both fail. -/
theorem resolveTogether_toOption (dependable : engine.handlers.Dependable)
    (yield : engine.transforms.Yield) (request : Request) {cells : Cells}
    (consistent : cells.Consistent engine.handlers) {cache : Cache}
    (kept : cache.Consistent engine.handlers) (world now : World) :
    (Runs.run (engine.resolveTogether request cells) world).1.1.toOption =
      ((engine.resolve request).exec (cache, now)).1.toOption := by
  have together := (resolveTogether_allowed dependable request consistent world world).2 yield
  have inTurn := (resolve_allowed dependable yield request world cache now kept).2
  rw [together.toOption_eq, inTurn.toOption_eq]

end Engine

end Transclusion
