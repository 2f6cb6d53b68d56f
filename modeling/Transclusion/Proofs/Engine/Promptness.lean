import Transclusion.Engine.Together
import Transclusion.Proofs.Engine.Correspondence
import Transclusion.Proofs.Engine.Stepwise
import Transclusion.Proofs.Resource.Observation

/-!
# Where nothing waits

Where nothing waits, the inclusions of a text that are resolved side by side are in fact
resolved in turn: the first poll of a part ends it. The two resolutions have the same
outcome, error or node, do the same to the world, and keep the same outcomes
(`Engine.resolveTogether_of_prompt`). The cells follow the cache step by step
(`Ledger.Tracks`), and the job settles in its first poll (`Job.Settles`).
-/

set_option autoImplicit false

namespace Transclusion

variable {m : Type → Type} [Monad m] {World : Type} [Runs m World] {ρ χ α β : Type}

/-! ## Jobs that settle at once -/

namespace Job

/-- The first poll of a job ends it, with an outcome and no key held. -/
def Settles (job : Job m ρ χ) (ledger : Ledger) (world : World) (outcome : Except ResolveError χ)
    (after : Ledger) (last : World) : Prop :=
  Runs.run (job.poll { ledger with held := [] }) world =
    (.ready outcome { after with held := [] }, last)

/-- A poll of parts ends all of them. -/
def PolledAll.Joins {slots : List (χ ⊕ Job m ρ χ)} {desk : Desk} (joined : Except ResolveError (List χ))
    (after : Desk) : PolledAll slots desk → Prop
  | .failed error last => joined = .error error ∧ last = after
  | .moved rest _ last => ∃ values, values? rest = some values ∧ joined = .ok values ∧ last = after
  | .still _ _ => ∃ values, values? slots = some values ∧ joined = .ok values ∧ desk = after

/-- The first poll of the parts of a job ends all of them. -/
def SettleAll (slots : List (χ ⊕ Job m ρ χ)) (ledger : Ledger) (world : World)
    (joined : Except ResolveError (List χ)) (after : Ledger) (last : World) : Prop :=
  ∃ polled : PolledAll slots { ledger with held := [] },
    Runs.run (pollAll slots { ledger with held := [] }) world = (polled, last) ∧
      polled.Joins joined { after with held := [] }

variable {ledger after final : Ledger} {world last ending : World}

theorem settles_done (outcome : Except ResolveError χ) :
    (done outcome : Job m ρ χ).Settles ledger world outcome ledger world := by
  rw [Settles, poll, Runs.run_pure]

theorem settles_work {course : Stepwise m ρ Reply} (prompt : course.Prompt)
    {next : Reply → Job m ρ χ} {outcome : Except ResolveError χ}
    (behind : (next (Runs.run course world).1).Settles ledger (Runs.run course world).2 outcome after
      last) : (work none course next).Settles ledger world outcome after last := by
  have onward : (next (ledger.outcome none (Runs.run course world).1)).Settles ledger
      (Runs.run course world).2 outcome after last := behind
  rw [Settles] at onward ⊢
  rw [poll, pollWork, Runs.run_bind, prompt.run_poll]
  simp only [Runs.run_bind, Runs.run_pure]
  have same : Desk.finish { ledger with held := [] } none (Runs.run course world).1 =
      { ledger with held := [] } := rfl
  rw [same, onward]
  rfl

theorem settles_answered {key : String} {read : Stepwise m ρ Reply} {next : Reply → Job m ρ χ}
    {reply : Reply} {outcome : Except ResolveError χ} (kept : ledger.cells.kept? key = some reply)
    (behind : (next reply).Settles ledger world outcome after last) :
    (claim key read next).Settles ledger world outcome after last := by
  rw [Settles] at behind ⊢
  simp only [poll, kept, Runs.run_bind, Runs.run_pure, behind]
  rfl

theorem settles_claimed {key : String} {read : Stepwise m ρ Reply} (prompt : read.Prompt)
    {next : Reply → Job m ρ χ} {outcome : Except ResolveError χ}
    (absent : ledger.cells.kept? key = none)
    (behind : (next (Runs.run read world).1).Settles
      ((ledger.note key).fill (some key) (Runs.run read world).1) (Runs.run read world).2 outcome
      after last) : (claim key read next).Settles ledger world outcome after last := by
  have reply : (ledger.note key).outcome (some key) (Runs.run read world).1 =
      (Runs.run read world).1 :=
    Ledger.outcome_of_absent ((Ledger.kept?_note absent key).trans absent) _
  have onward : (next ((ledger.note key).outcome (some key) (Runs.run read world).1)).Settles
      ((ledger.note key).fill (some key) (Runs.run read world).1) (Runs.run read world).2 outcome
      after last := by
    rw [reply]
    exact behind
  rw [Settles] at onward ⊢
  have free : key ∉ ([] : List String) := nofun
  simp only [poll, absent, free, ↓reduceDIte, pollWork, Runs.run_bind, prompt.run_poll,
    Runs.run_pure]
  have same : Desk.finish (Desk.claim { ledger with held := [] } key) (some key)
      (Runs.run read world).1 =
      { (ledger.note key).fill (some key) (Runs.run read world).1 with held := [] } := by
    simp [Desk.finish, Desk.claim]
  rw [same, Desk.claim, onward]
  rfl

theorem settles_fork {slots : List (χ ⊕ Job m ρ χ)}
    {next : Except ResolveError (List χ) → Job m ρ χ} {joined : Except ResolveError (List χ)}
    {outcome : Except ResolveError χ} (parts : SettleAll slots ledger world joined after last)
    (behind : (next joined).Settles after last outcome final ending) :
    (fork slots next).Settles ledger world outcome final ending := by
  obtain ⟨polled, run, joins⟩ := parts
  rw [Settles] at behind ⊢
  rw [poll, Runs.run_bind, run]
  cases polled with
  | failed error stop =>
      obtain ⟨rfl, rfl⟩ := joins
      simp only [Runs.run_bind, Runs.run_pure, behind]
      rfl
  | moved rest later stop =>
      obtain ⟨values, settled, rfl, rfl⟩ := joins
      simp only [settled, Runs.run_bind, Runs.run_pure, behind]
      rfl
  | still idle busy =>
      obtain ⟨values, settled, rfl, same⟩ := joins
      obtain rfl : ledger = after := congrArg Desk.toLedger same
      dsimp only
      split
      · next found waiting =>
          obtain rfl : values = found := Option.some.inj (settled.symm.trans waiting)
          rw [Runs.run_bind, Runs.run_pure, behind]
          rfl
      · next waiting => cases settled.symm.trans waiting

theorem settleAll_nil : SettleAll ([] : List (χ ⊕ Job m ρ χ)) ledger world (.ok []) ledger world :=
  ⟨.still rfl nofun, Runs.run_pure _ world, [], rfl, rfl, rfl⟩

theorem settleAll_cons_error {job : Job m ρ χ} {slots : List (χ ⊕ Job m ρ χ)} {error : ResolveError}
    (fails : job.Settles ledger world (.error error) after last) :
    SettleAll (.inr job :: slots) ledger world (.error error) after last := by
  refine ⟨.failed error { after with held := [] }, ?_, rfl, rfl⟩
  rw [Settles] at fails
  rw [pollAll, Runs.run_bind, fails]
  exact Runs.run_pure _ last

theorem settleAll_cons_ok {job : Job m ρ χ} {slots : List (χ ⊕ Job m ρ χ)} {value : χ}
    {joined : Except ResolveError (List χ)}
    (first : job.Settles ledger world (.ok value) after last)
    (others : SettleAll slots after last joined final ending) :
    SettleAll (.inr job :: slots) ledger world (joined.map (value :: ·)) final ending := by
  obtain ⟨polled, run, joins⟩ := others
  rw [Settles] at first
  refine ⟨polled.behindMoved fun others => .single (.settled job value others), ?_, ?_⟩
  · rw [pollAll, Runs.run_bind, first]
    simp only [Runs.run_bind, run, Runs.run_pure]
  · cases polled with
    | failed error stop =>
        obtain ⟨rfl, rfl⟩ := joins
        exact ⟨rfl, rfl⟩
    | moved rest later stop =>
        obtain ⟨values, settled, rfl, rfl⟩ := joins
        exact ⟨value :: values, by rw [values?, settled]; rfl, rfl, rfl⟩
    | still idle busy =>
        obtain ⟨values, settled, rfl, same⟩ := joins
        exact ⟨value :: values, by rw [values?, settled]; rfl, rfl, same⟩

/-- A job that settles at once and holds no key before is run in one poll. -/
theorem Settles.run_run {job : Job m ρ χ} {outcome : Except ResolveError χ}
    (settles : job.Settles ledger world outcome after last) (fresh : job.holds = []) :
    Runs.run (job.run ledger) world = ((outcome, after), last) := by
  have polled (desk : Desk) (same : desk = { ledger with held := [] }) :
      Runs.run (job.poll desk) world = (.ready outcome { after with held := [] }, last) := by
    subst same
    exact settles
  rw [run, Runs.run_bind, polled _ (by rw [fresh]), Runs.run_pure]

end Job

/-! ## Cells that follow a cache -/

/-- The outcomes in some cells are those in a cache. -/
def Cells.Agree (cells : Cells) (cache : Cache) : Prop :=
  ∀ key, cells.kept? key = cache.find? key

/-- What a resolution side by side did to a ledger is what one in turn did to a cache: the
cells agree with the cache it left, and nothing was done if no outcome was added. -/
structure Ledger.Tracks (before after : Ledger) (cache later : Cache) : Prop where
  agree : after.cells.Agree later
  kept : later.Extends cache
  quiet : (∀ key, later.find? key = cache.find? key) → after = before

namespace Ledger.Tracks

theorem refl {ledger : Ledger} {cache : Cache} (agree : ledger.cells.Agree cache) :
    ledger.Tracks ledger cache cache :=
  ⟨agree, .refl cache, fun _ => rfl⟩

theorem trans {before between after : Ledger} {cache middle later : Cache}
    (first : before.Tracks between cache middle) (second : between.Tracks after middle later) :
    before.Tracks after cache later := by
  refine ⟨second.agree, second.kept.trans first.kept, fun same => ?_⟩
  -- what lies between the two caches agrees with both
  have unchanged (key : String) : middle.find? key = cache.find? key := by
    cases found : middle.find? key with
    | some outcome => rw [← same key, second.kept found]
    | none =>
        cases older : cache.find? key with
        | none => rfl
        | some outcome => rw [first.kept older] at found; cases found
  have still (key : String) : later.find? key = middle.find? key :=
    (same key).trans (unchanged key).symm
  rw [second.quiet still, first.quiet unchanged]

/-- A read that was made under a key. -/
theorem filled {ledger : Ledger} {cache : Cache} {key : String} (agree : ledger.cells.Agree cache)
    (absent : cache.find? key = none) (reply : Reply) :
    ledger.Tracks ((ledger.note key).fill (some key) reply) cache (cache.insert key reply) := by
  refine ⟨fun other => ?_, .insert absent reply, fun same => ?_⟩
  · have empty := (agree key).trans absent
    rw [kept?_fill, outcome_of_absent ((kept?_note empty key).trans empty), kept?_note empty,
      Registry.find?_insert, agree other]
  · have added := same key
    rw [Registry.find?_insert, if_pos rfl, absent] at added
    cases added

end Ledger.Tracks

/-! ## Side by side as in turn -/

/-- A computation that holds no key before it is polled. -/
def Strand.Fresh (strand : Strand m ρ χ α) : Prop :=
  ∀ next, (∀ outcome, (next outcome).holds = []) → (strand next).holds = []

/-- As a part of a job, a computation does at once what it does in turn. -/
structure Prompted (course : Resolution (Stepwise m ρ) α) (strand : Strand m ρ χ α) : Prop where
  fresh : strand.Fresh
  settles : ∀ (cache : Cache) (ledger : Ledger) (world : World), ledger.cells.Agree cache →
    ∃ after, ledger.Tracks after cache (course.exec (cache, world)).2.1 ∧
      ∀ next outcome final ending,
        (next (course.exec (cache, world)).1).Settles after (course.exec (cache, world)).2.2 outcome
          final ending → (strand next).Settles ledger world outcome final ending

namespace Prompted

theorem ofExcept (outcome : Except ResolveError α) :
    Prompted (Resolution.ofExcept outcome : Resolution (Stepwise m ρ) α)
      (.ofExcept outcome : Strand m ρ χ α) := by
  refine ⟨fun next none => none outcome, fun cache ledger world agree => ?_⟩
  rw [Resolution.exec_ofExcept]
  exact ⟨ledger, .refl agree, fun next result final ending behind => behind⟩

theorem bind {first : Resolution (Stepwise m ρ) α} {strand : Strand m ρ χ α}
    {next : α → Resolution (Stepwise m ρ) β} {rest : α → Strand m ρ χ β}
    (prompted : Prompted first strand) (others : ∀ value, Prompted (next value) (rest value)) :
    Prompted (first >>= next) (strand >>= rest) := by
  refine ⟨fun behind none => prompted.fresh _ fun outcome => ?_, fun cache ledger world agree => ?_⟩
  · cases outcome with
    | error error => exact none _
    | ok value => exact (others value).fresh behind none
  · obtain ⟨between, tracks, settles⟩ := prompted.settles cache ledger world agree
    rw [Resolution.exec_bind]
    cases course : first.exec (cache, world) with
    | mk outcome state =>
        rw [course] at tracks settles
        cases outcome with
        | error error =>
            exact ⟨between, tracks, fun behind result final ending reached =>
              settles _ result final ending reached⟩
        | ok value =>
            obtain ⟨after, further, onward⟩ :=
              (others value).settles state.1 between state.2 tracks.agree
            refine ⟨after, tracks.trans further, fun behind result final ending reached => ?_⟩
            exact settles _ result final ending (onward behind result final ending reached)

theorem transform {engine : Engine (Stepwise m ρ)} (prompt : engine.Prompt)
    (context : TransformContext) (segments : List Segment) (content : Content) :
    Prompted (engine.inTurn.transform context segments content)
      (.work (engine.transforms.run context segments content) : Strand m ρ χ Content) := by
  refine ⟨fun _ _ => rfl, fun cache ledger world agree => ?_⟩
  rw [Engine.exec_inTurn_transform]
  exact ⟨ledger, .refl agree, fun next outcome final ending =>
    Job.settles_work (prompt.run_transforms context segments content)⟩

/-- A read that nobody waits for is the same in a cell and in a cache. -/
theorem read {engine : Engine (Stepwise m ρ)} (prompt : engine.Prompt) (source : Option Target)
    (target : Target) :
    Prompted (engine.handlers.readThrough source target)
      (engine.handlers.share source target : Strand m ρ χ Content) := by
  unfold Handlers.share
  cases served : engine.handlers.handlerOf target with
  | error error =>
      refine ⟨fun next none => none _, fun cache ledger world agree => ?_⟩
      rw [Handlers.exec_readThrough_unknown served]
      exact ⟨ledger, .refl agree, fun next outcome final ending behind => behind⟩
  | ok handler =>
      have atOnce := prompt.reads (Handlers.handlerOf_eq_ok_iff.1 served) source target
      dsimp only
      cases keyed : handler.key source target with
      | none =>
          refine ⟨fun _ _ => rfl, fun cache ledger world agree => ?_⟩
          rw [Handlers.exec_readThrough_keyless served keyed]
          exact ⟨ledger, .refl agree, fun next outcome final ending => Job.settles_work atOnce⟩
      | some key =>
          refine ⟨fun _ _ => rfl, fun cache ledger world agree => ?_⟩
          have same := agree (Cache.key target.name key)
          cases found : cache.find? (Cache.key target.name key) with
          | some reply =>
              rw [Handlers.exec_readThrough_hit served keyed found]
              exact ⟨ledger, .refl agree, fun next outcome final ending =>
                Job.settles_answered (same.trans found)⟩
          | none =>
              rw [Handlers.exec_readThrough_miss served keyed found]
              exact ⟨_, .filled agree found _, fun next outcome final ending =>
                Job.settles_claimed atOnce (same.trans found)⟩

section Gathering

variable {first : Inclusion → Resolution (Stepwise m ρ) Node}
  {second : Inclusion → Strand m ρ Node Node}

/-- Inclusions that settle at once settle one after the other. -/
theorem settleAll (each : ∀ planned, Prompted (first planned) (second planned))
    (pieces : List Piece) {cache : Cache} {ledger : Ledger} (agree : ledger.cells.Agree cache)
    (world : World) :
    ∃ after joined,
      ledger.Tracks after cache ((Engine.resolvePieces first pieces).exec (cache, world)).2.1 ∧
      Job.SettleAll ((Piece.inclusions pieces).map fun planned => .inr (second planned).close) ledger
        world joined after ((Engine.resolvePieces first pieces).exec (cache, world)).2.2 ∧
      ((Engine.resolvePieces first pieces).exec (cache, world)).1 =
        joined.map (Part.weave pieces) := by
  induction pieces generalizing cache ledger world with
  | nil =>
      rw [Engine.resolvePieces, Resolution.exec_pure]
      exact ⟨ledger, .ok [], .refl agree, Job.settleAll_nil, rfl⟩
  | cons piece rest ih =>
      cases piece with
      | text value =>
          obtain ⟨after, joined, tracks, settles, same⟩ := ih agree world
          rw [Engine.resolvePieces, Resolution.exec_bind_pure]
          refine ⟨after, joined, tracks, settles, ?_⟩
          rw [same]
          cases joined <;> rfl
      | inclusion planned =>
          obtain ⟨between, reaches, settles⟩ := (each planned).settles cache ledger world agree
          rw [Engine.resolvePieces, Resolution.exec_bind]
          cases course : (first planned).exec (cache, world) with
          | mk outcome state =>
              rw [course] at reaches settles
              have head := settles .done outcome between state.2 (Job.settles_done outcome)
              cases outcome with
              | error error =>
                  exact ⟨between, .error error, reaches, Job.settleAll_cons_error head, rfl⟩
              | ok node =>
                  obtain ⟨after, joined, tracks, others, same⟩ := ih reaches.agree state.2
                  simp only [Resolution.exec_bind_pure]
                  refine ⟨after, joined.map (node :: ·), reaches.trans tracks,
                    Job.settleAll_cons_ok head others, ?_⟩
                  rw [same]
                  cases joined <;> rfl

/-- **Inclusions that settle at once are resolved in turn.** -/
theorem gather (each : ∀ planned, Prompted (first planned) (second planned))
    (pieces : List Piece) :
    Prompted (Engine.resolvePieces first pieces) (Engine.gatherTogether second pieces) := by
  have fresh (planned : List Inclusion) :
      Job.heldBy (planned.map fun inclusion => .inr (second inclusion).close) = [] := by
    induction planned with
    | nil => rfl
    | cons inclusion others ih =>
        rw [List.map_cons, Job.heldBy, ih, List.append_nil]
        exact (each inclusion).fresh _ fun _ => rfl
  refine ⟨fun _ _ => fresh _, fun cache ledger world agree => ?_⟩
  obtain ⟨after, joined, tracks, settles, same⟩ := settleAll each pieces agree world
  refine ⟨after, tracks, fun next outcome final ending behind => ?_⟩
  rw [same] at behind
  exact Job.settles_fork settles behind

end Gathering

/-- What does at once what it does in turn is run in one poll. -/
theorem run {course : Resolution (Stepwise m ρ) χ} {strand : Strand m ρ χ χ}
    (prompted : Prompted course strand) {cells : Cells} {cache : Cache} (agree : cells.Agree cache)
    (world : World) :
    ∃ after,
      Runs.run (strand.close.run { cells := cells }) world =
        (((course.exec (cache, world)).1, after), (course.exec (cache, world)).2.2) ∧
      Ledger.Tracks { cells := cells } after cache (course.exec (cache, world)).2.1 := by
  obtain ⟨after, tracks, settles⟩ := prompted.settles cache { cells := cells } world agree
  have ended := settles .done _ _ _ (Job.settles_done _)
  exact ⟨after, ended.run_run (prompted.fresh _ fun _ => rfl), tracks⟩

end Prompted

/-- The resolutions of an engine that never waits settle at once. -/
theorem Engine.Prompt.prompted {engine : Engine (Stepwise m ρ)} (prompt : engine.Prompt)
    (levels : Nat) (source : Option Target) (requested : Target) (supplied : Option Content) :
    Prompted (engine.resolveWithin levels source requested supplied)
      (engine.resolveThrough engine.sideBySide levels source requested supplied) := by
  have relation : Services.Related (fun _ course strand => Prompted course strand) engine.inTurn
      engine.sideBySide :=
    { outcome := Prompted.ofExcept
      pure := fun value => Prompted.ofExcept (.ok value)
      bind := Prompted.bind
      read := Prompted.read prompt
      transform := Prompted.transform prompt
      gather := Prompted.gather }
  exact relation.resolveThrough ⟨rfl, rfl, rfl⟩ levels source requested supplied

/-- **Where nothing waits, side by side is in turn.** Let the outcomes in the cells be those
of a cache. A resolution side by side by an engine whose reads and transforms never wait then
has the outcome that the resolution in turn has, error or node, and does the same to the
world; and it leaves cells with the outcomes of the cache that the other leaves. -/
theorem Engine.resolveTogether_of_prompt {engine : Engine (Stepwise m ρ)} (prompt : engine.Prompt)
    (request : Request) {cells : Cells} {cache : Cache} (agree : cells.Agree cache)
    (world : World) :
    ∃ after,
      Runs.run (engine.resolveTogether request cells) world =
        ((((engine.resolve request).exec (cache, world)).1, after),
          ((engine.resolve request).exec (cache, world)).2.2) ∧
      Ledger.Tracks { cells := cells } after cache
        ((engine.resolve request).exec (cache, world)).2.1 :=
  (prompt.prompted _ request.source request.target request.content).run agree world

/-- So is a read on its own. -/
theorem Engine.readTogether_of_prompt {engine : Engine (Stepwise m ρ)} (prompt : engine.Prompt)
    (source : Option Target) (target : Target) {cells : Cells} {cache : Cache}
    (agree : cells.Agree cache) (world : World) :
    ∃ after,
      Runs.run (engine.handlers.readTogether source target cells) world =
        ((((engine.handlers.readThrough source target).exec (cache, world)).1, after),
          ((engine.handlers.readThrough source target).exec (cache, world)).2.2) ∧
      Ledger.Tracks { cells := cells } after cache
        ((engine.handlers.readThrough source target).exec (cache, world)).2.1 :=
  (Prompted.read prompt source target).run agree world

end Transclusion
