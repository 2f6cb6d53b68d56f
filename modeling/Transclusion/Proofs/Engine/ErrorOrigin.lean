import Mathlib.Control.Monad.Basic
import Transclusion.Proofs.Engine.Transparency

/-!
# Where syntax errors come from

A syntax error is reported with a target and a text, and it may come from far below
the entry. Whoever reports it points into that text, so the three have to belong
together. If neither reads nor transforms make syntax errors of their own, they do
(`Engine.resolve_syntax_error`): the target was located for the entry or for something
that the resolution came to through inclusions, the text is the content that was
obtained for it when the resolution came there, and the error is one of that text
(`SyntaxError.Of`).

The way down is a chain of inclusions (`Engine.Visits`). Each of them names the state in
which the inner target is asked for: everything in front of the inclusion has been
resolved then, and no more. A failed resolution is taken apart along this way, the
failing inclusion of each text first (`exec_resolvePieces_eq_error`). That reads make no
syntax errors is true of the cache as well, since it holds outcomes of reads only
(`Cache.SyntaxFree`).
-/

set_option autoImplicit false

namespace Transclusion

/-- Whether an error says that the directives of a text are wrong. -/
def ResolveError.isSyntax : ResolveError → Bool
  | .malformed _ _ _ => true
  | _ => false

/-! ## The errors of a text -/

/-- The error of a directive that has nothing to include: it has no parameter, or the
first one comes to no target. -/
inductive Directive.TargetError (directive : Directive) : SyntaxError → Prop
  | missing (bare : directive.params = []) : TargetError directive ⟨.targetMissing, directive.span⟩
  | empty (given : directive.params ≠ []) : TargetError directive ⟨.targetEmpty, directive.span⟩

/-- An error of a text: it cannot be cut into tokens, or one of its directives that
replace a span has nothing to include. -/
inductive SyntaxError.Of (text : String) (error : SyntaxError) : Prop
  | uncut (failed : Token.ofText text = .error error)
  | withoutTarget {tokens : List Token} {directive : Directive}
      (cut : Token.ofText text = .ok tokens) (member : .directive directive ∈ tokens)
      (includes : directive.isShortcut = false) (fault : directive.TargetError error)

namespace Plan

variable {defaultResource : String} {target located : Target} {text source : String}
  {error : SyntaxError}

theorem inclusion_eq_malformed {scope : Scope} {directive : Directive}
    (failed : inclusion defaultResource target text scope directive =
      .error (.malformed located source error)) :
    located = target ∧ source = text ∧ directive.TargetError error := by
  unfold inclusion at failed
  split at failed
  · next bare =>
      cases failed
      exact ⟨rfl, rfl, .missing bare⟩
  · next given =>
      split at failed
      · cases failed
        exact ⟨rfl, rfl, .empty (by simp [given])⟩
      · cases failed

/-- A syntax error of planned tokens is about a directive among them. -/
theorem pieces_eq_malformed {scope : Scope} {tokens : List Token}
    (failed : pieces defaultResource target text scope tokens =
      .error (.malformed located source error)) :
    located = target ∧ source = text ∧ ∃ directive, .directive directive ∈ tokens ∧
      directive.isShortcut = false ∧ directive.TargetError error := by
  induction tokens generalizing scope with
  | nil => cases failed
  | cons token rest ih =>
      have later {inner : Scope} (behind : pieces defaultResource target text inner rest =
          .error (.malformed located source error)) :
          located = target ∧ source = text ∧ ∃ directive, .directive directive ∈ token :: rest ∧
            directive.isShortcut = false ∧ directive.TargetError error := by
        obtain ⟨place, whole, directive, member, about⟩ := ih behind
        exact ⟨place, whole, directive, List.mem_cons_of_mem token member, about⟩
      cases token with
      | text value => exact later (Reading.eq_error_of_map failed)
      | directive directive =>
          rw [pieces] at failed
          split at failed
          · split at failed
            · cases failed
            · exact later failed
          · next shortcut =>
              split at failed
              · next refused =>
                  cases failed
                  obtain ⟨place, whole, fault⟩ := inclusion_eq_malformed refused
                  exact ⟨place, whole, directive, List.mem_cons_self, by simpa using shortcut,
                    fault⟩
              · exact later (Reading.eq_error_of_map failed)

/-- **A text that cannot be planned is named by the error, with the target it was read
for.** -/
theorem ofText_eq_malformed {scope : Scope}
    (failed : ofText defaultResource scope target text =
      .error (.malformed located source error)) :
    located = target ∧ source = text ∧ error.Of text := by
  unfold ofText at failed
  split at failed
  · next uncut =>
      cases failed
      exact ⟨rfl, rfl, .uncut uncut⟩
  · next cut =>
      obtain ⟨rfl, rfl, directive, member, includes, fault⟩ := pieces_eq_malformed failed
      exact ⟨rfl, rfl, .withoutTarget cut member includes fault⟩

end Plan

/-! ## Inclusions -/

variable {m : Type → Type} [Monad m] {World : Type} [Runs m World]

namespace Engine

/-- Parts that cannot be resolved fail at an inclusion, with all parts in front of it
resolved. -/
theorem exec_resolvePieces_eq_error {resolveInclusion : Inclusion → Resolution m Node}
    {pieces : List Piece} {state after : Cache × World} {error : ResolveError}
    (failed : (resolvePieces resolveInclusion pieces).exec state = (.error error, after)) :
    ∃ before planned behind parts between, pieces = before ++ .inclusion planned :: behind ∧
      (resolvePieces resolveInclusion before).exec state = (.ok parts, between) ∧
      (resolveInclusion planned).exec between = (.error error, after) := by
  induction pieces generalizing state with
  | nil =>
      rw [resolvePieces, Resolution.exec_pure] at failed
      cases failed
  | cons piece rest ih =>
      cases piece with
      | text value =>
          rw [resolvePieces] at failed
          rcases Resolution.exec_bind_eq_error failed with later | ⟨others, _, _, last⟩
          · obtain ⟨before, planned, behind, parts, between, rfl, front, here⟩ := ih later
            refine ⟨.text value :: before, planned, behind, .text value :: parts, between, rfl, ?_,
              here⟩
            rw [resolvePieces, Resolution.exec_bind_of_ok front, Resolution.exec_pure]
          · rw [Resolution.exec_pure] at last
            cases last
      | inclusion included =>
          rw [resolvePieces] at failed
          rcases Resolution.exec_bind_eq_error failed with first | ⟨node, reached, head, next⟩
          · exact ⟨[], included, rest, [], state, rfl, Resolution.exec_pure _ _, first⟩
          · rcases Resolution.exec_bind_eq_error next with later | ⟨others, _, _, last⟩
            · obtain ⟨before, planned, behind, parts, between, rfl, front, here⟩ := ih later
              refine ⟨.inclusion included :: before, planned, behind, .node node :: parts, between,
                rfl, ?_, here⟩
              rw [resolvePieces, Resolution.exec_bind_of_ok head, Resolution.exec_bind_of_ok front,
                Resolution.exec_pure]
            · rw [Resolution.exec_pure] at last
              cases last

/-- A request, in a state, leads to the request for something that it includes: its
content is a text, the text is planned, and the parts in front of the inclusion are
resolved. -/
inductive Includes (engine : Engine m) (outer : Request) (state : Cache × World) :
    Request → Cache × World → Prop
  | intro {target : Target} {text : String} {before behind : List Piece} {planned : Inclusion}
      {parts : List Part} {between reached : Cache × World}
      (within : outer.depth ≤ engine.options.maxDepth)
      (located : engine.handlers.locate outer.source outer.target = .ok target)
      (obtained : (engine.contentOf outer.source target outer.content).exec state =
        (.ok (.text text), between))
      (plan : Plan.ofText engine.options.defaultResource engine.shortcuts.child target text =
        .ok (before ++ .inclusion planned :: behind))
      (front : (resolvePieces (engine.resolveInclusion (engine.options.maxDepth - outer.depth)
        target text) before).exec between = (.ok parts, reached)) :
      Includes engine outer state
        { source := some target, target := planned.target, depth := outer.depth + 1 } reached

/-- The requests that a resolution comes to, each in the state in which it does: the
request itself, and those that it leads to through inclusions. -/
inductive Visits (engine : Engine m) :
    Request → Cache × World → Request → Cache × World → Prop
  | here {request : Request} {state : Cache × World} : Visits engine request state request state
  | included {outer inner visited : Request} {state reached now : Cache × World}
      (includes : engine.Includes outer state inner reached)
      (visits : Visits engine inner reached visited now) : Visits engine outer state visited now

/-- **No depth is larger than the limit by more than one,** unless that of the request is. -/
theorem Visits.depth_le {engine : Engine m} {request visited : Request} {state now : Cache × World}
    (visits : engine.Visits request state visited now) :
    visited.depth ≤ max request.depth (engine.options.maxDepth + 1) := by
  induction visits with
  | here => exact Nat.le_max_left _ _
  | included includes _ ih =>
      cases includes with
      | intro within =>
          refine Nat.le_trans ih (Nat.max_le.2 ⟨?_, Nat.le_max_right _ _⟩)
          exact Nat.le_trans (Nat.succ_le_succ within) (Nat.le_max_right _ _)

end Engine

/-! ## Reads and transforms without syntax errors -/

/-- Neither reads nor transforms ever end with a syntax error of their own. -/
structure Engine.SyntaxFree (engine : Engine m) : Prop where
  reads : ∀ ⦃name : String⦄ ⦃handler : Handler m⦄, engine.handlers.find? name = some handler →
    ∀ source target (world : World) error,
      (Runs.run (handler.read source target) world).1 = .error error → error.isSyntax = false
  transforms : ∀ ⦃name : String⦄ ⦃transform : Transform m⦄,
    engine.transforms.find? name = some transform →
    ∀ context content args (world : World) error,
      (Runs.run (transform.apply context content args) world).1 = .error error →
        error.isSyntax = false

/-- No outcome in a cache is a syntax error. -/
def Cache.SyntaxFree (cache : Cache) : Prop :=
  ∀ ⦃key : String⦄ ⦃error : ResolveError⦄, cache.find? key = some (.error error) →
    error.isSyntax = false

/-- A computation puts no syntax error into a cache. -/
def KeepsSyntaxFree {α : Type} (computation : Resolution m α) : Prop :=
  ∀ (cache : Cache) (world : World), cache.SyntaxFree →
    (computation.exec (cache, world)).2.1.SyntaxFree

namespace KeepsSyntaxFree

theorem ofExcept {α : Type} (outcome : Except ResolveError α) :
    KeepsSyntaxFree (Resolution.ofExcept outcome : Resolution m α) := by
  intro cache world free
  rw [Resolution.exec_ofExcept]
  exact free

theorem bind {α β : Type} {first : Resolution m α} {next : α → Resolution m β}
    (keeps : KeepsSyntaxFree first) (rest : ∀ value, KeepsSyntaxFree (next value)) :
    KeepsSyntaxFree (first >>= next) := by
  intro cache world free
  have between := keeps cache world free
  rw [Resolution.exec_bind]
  cases course : first.exec (cache, world) with
  | mk outcome after =>
      rw [course] at between
      cases outcome with
      | ok value => exact rest value after.1 after.2 between
      | error error => exact between

theorem pure {α : Type} (value : α) : KeepsSyntaxFree (Pure.pure value : Resolution m α) :=
  ofExcept (.ok value)

theorem correspondence :
    Correspondence fun _ (computation _ : Resolution m _) => KeepsSyntaxFree computation :=
  ⟨ofExcept, bind⟩

theorem resolvePieces {resolveInclusion : Inclusion → Resolution m Node}
    (inclusion : ∀ planned, KeepsSyntaxFree (resolveInclusion planned)) (pieces : List Piece) :
    KeepsSyntaxFree (Engine.resolvePieces resolveInclusion pieces) :=
  @Correspondence.resolvePieces m m _ _ _ correspondence resolveInclusion resolveInclusion
    inclusion pieces

end KeepsSyntaxFree

namespace Engine.SyntaxFree

variable {engine : Engine m}

/-- A read through a cache without syntax errors has no syntax error for its outcome, and
leaves none in the cache. -/
theorem readThrough (free : engine.SyntaxFree) (source : Option Target) (target : Target)
    {cache : Cache} (kept : cache.SyntaxFree) (world : World) :
    ((engine.handlers.readThrough source target).exec (cache, world)).2.1.SyntaxFree ∧
      ∀ error, ((engine.handlers.readThrough source target).exec (cache, world)).1 =
        .error error → error.isSyntax = false := by
  cases served : engine.handlers.handlerOf target with
  | error unknown =>
      rw [Handlers.exec_readThrough_unknown served]
      refine ⟨kept, ?_⟩
      rintro error ⟨⟩
      unfold Handlers.handlerOf at served
      split at served
      · cases served
      · cases served
        rfl
  | ok handler =>
      have reads := free.reads (Handlers.handlerOf_eq_ok_iff.1 served) source target world
      cases keyed : handler.key source target with
      | none =>
          rw [Handlers.exec_readThrough_keyless served keyed]
          exact ⟨kept, reads⟩
      | some key =>
          cases found : cache.find? (Cache.key target.name key) with
          | some outcome =>
              rw [Handlers.exec_readThrough_hit served keyed found]
              refine ⟨kept, ?_⟩
              rintro error rfl
              exact kept found
          | none =>
              rw [Handlers.exec_readThrough_miss served keyed found]
              refine ⟨?_, reads⟩
              intro other error lookup
              rcases Registry.eq_or_find?_of_insert lookup with ⟨-, same⟩ | older
              · exact reads error same.symm
              · exact kept older

/-- A chain of transforms does not end with a syntax error. -/
theorem run_transforms (free : engine.SyntaxFree) (context : TransformContext)
    (segments : List Segment) (content : Content) (world : World) {error : ResolveError}
    (failed : (Runs.run (engine.transforms.run context segments content) world).1 =
      .error error) : error.isSyntax = false := by
  induction segments generalizing content world with
  | nil =>
      simp only [Transforms.run, Runs.run_pure] at failed
      cases failed
  | cons segment rest ih =>
      cases known : engine.transforms.find? segment.name with
      | none =>
          simp only [Transforms.run, known, Runs.run_pure] at failed
          cases failed
          rfl
      | some transform =>
          simp only [Transforms.run, known, Runs.run_bind] at failed
          cases applied : (Runs.run (transform.apply context content segment.args) world).1 with
          | error other =>
              simp only [applied, Runs.run_pure] at failed
              cases failed
              exact free.transforms known context content segment.args world _ applied
          | ok value =>
              simp only [applied] at failed
              exact ih value _ failed

/-- No step of a resolution puts a syntax error into the cache. -/
theorem corresponds (free : engine.SyntaxFree) :
    engine.Corresponds (fun _ (computation _ : Resolution m _) => KeepsSyntaxFree computation)
      engine where
  options := rfl
  shortcuts := rfl
  locate := rfl
  reads source target cache world kept := (free.readThrough source target kept world).1
  transforms context segments content cache world kept := by
    rw [exec_inTurn_transform]
    exact kept

theorem resolveWithin_keeps (free : engine.SyntaxFree) (levels : Nat) (source : Option Target)
    (requested : Target) (supplied : Option Content) :
    KeepsSyntaxFree (engine.resolveWithin levels source requested supplied) :=
  free.corresponds.resolveWithin KeepsSyntaxFree.correspondence levels source requested supplied

theorem resolveInclusion_keeps (free : engine.SyntaxFree) (levels : Nat) (target : Target)
    (text : String) (planned : Inclusion) :
    KeepsSyntaxFree (engine.resolveInclusion levels target text planned) := by
  refine .bind (free.resolveWithin_keeps levels _ _ _) fun node => ?_
  refine .bind (free.corresponds.transforms _ _ _) fun content => ?_
  exact .pure (node.withContent content)

/-- Operations leave a cache without syntax errors. -/
theorem session_keeps (free : engine.SyntaxFree) (operations : List Operation) {cache : Cache}
    (kept : cache.SyntaxFree) (world : World) :
    (engine.session operations (cache, world)).2.1.SyntaxFree := by
  induction operations generalizing cache world with
  | nil => exact kept
  | cons operation rest ih =>
      have performed : KeepsSyntaxFree (engine.perform operation) := by
        cases operation with
        | resolve request =>
            exact .bind (free.resolveWithin_keeps _ _ _ _) fun node => .pure (Answer.node node)
        | read source target =>
            exact .bind (free.corresponds.reads source target) fun content =>
              .pure (Answer.content content)
      exact ih (performed cache world kept) _

end Engine.SyntaxFree

/-- On the way down to what is included, no syntax error gets into the cache. -/
theorem Engine.Includes.syntaxFree {engine : Engine m} {outer inner : Request}
    {state reached : Cache × World} (includes : engine.Includes outer state inner reached)
    (free : engine.SyntaxFree) (kept : state.1.SyntaxFree) : reached.1.SyntaxFree := by
  obtain @⟨target, text, before, _, _, _, between, _, _, _, obtained, _, front⟩ := includes
  have read := free.corresponds.contentOf KeepsSyntaxFree.correspondence outer.source target
    outer.content state.1 state.2 kept
  have resolved := KeepsSyntaxFree.resolvePieces (free.resolveInclusion_keeps
    (engine.options.maxDepth - outer.depth) target text) before between.1 between.2
  rw [obtained] at read
  rw [front] at resolved
  exact resolved read

/-! ## The origin of a syntax error -/

namespace Engine

/-- The errors of locating a target are no syntax errors. -/
theorem locate_ne_malformed {m : Type → Type} {handlers : Handlers m} {source : Option Target}
    {requested target : Target} {text : String} {error : SyntaxError} :
    handlers.locate source requested ≠ .error (.malformed target text error) := by
  intro failed
  unfold Handlers.locate Handlers.handlerOf at failed
  split at failed
  · next unknown =>
      split at unknown
      · cases unknown
      · cases unknown
        cases failed
  · split at failed <;> cases failed

variable {engine : Engine m}

/-- A target whose content is obtained fails with a syntax error of that content, or at
something that the content includes. -/
theorem resolveContent_eq_malformed (free : engine.SyntaxFree) {levels : Nat}
    {located target : Target} {content : Content} {text : String} {error : SyntaxError}
    {state after : Cache × World}
    (failed : (engine.resolveContent levels located content).exec state =
      (.error (.malformed target text error), after)) :
    (target = located ∧ content = .text text ∧ error.Of text) ∨
      ∃ source before planned behind parts between last, content = .text source ∧
        Plan.ofText engine.options.defaultResource engine.shortcuts.child located source =
          .ok (before ++ .inclusion planned :: behind) ∧
        (resolvePieces (engine.resolveInclusion levels located source) before).exec state =
          (.ok parts, between) ∧
        (engine.resolveWithin levels (some located) planned.target none).exec between =
          (.error (.malformed target text error), last) := by
  cases content with
  | binary bytes =>
      rw [resolveContent, Resolution.exec_pure] at failed
      cases failed
  | text source =>
      rw [resolveContent] at failed
      rcases Resolution.exec_bind_eq_error failed with unplanned | ⟨pieces, between, plan, rest⟩
      · rw [Resolution.exec_ofExcept, Prod.mk.injEq] at unplanned
        obtain ⟨rfl, rfl, about⟩ := Plan.ofText_eq_malformed unplanned.1
        exact .inl ⟨rfl, rfl, about⟩
      · rw [Resolution.exec_ofExcept, Prod.mk.injEq] at plan
        obtain ⟨plan, rfl⟩ := plan
        rcases Resolution.exec_bind_eq_error rest with unresolved | ⟨parts, _, _, last⟩
        · obtain ⟨before, planned, behind, parts, reached, rfl, front, inclusion⟩ :=
            exec_resolvePieces_eq_error unresolved
          rcases Resolution.exec_bind_eq_error inclusion with below | ⟨node, again, _, transformed⟩
          · exact .inr ⟨source, before, planned, behind, parts, reached, after, rfl, plan, front,
              below⟩
          · -- transforms make no syntax errors
            rcases Resolution.exec_bind_eq_error transformed with refused | ⟨output, _, _, last⟩
            · rw [exec_inTurn_transform, Prod.mk.injEq] at refused
              cases free.run_transforms _ _ _ _ refused.1
            · rw [Resolution.exec_pure] at last
              cases last
        · rw [Resolution.exec_pure] at last
          cases last

/-- A resolution that fails with a syntax error has come to the target that the error
names. -/
theorem exists_visits_of_malformed (free : engine.SyntaxFree) {levels : Nat} (request : Request)
    {target : Target} {text : String} {error : SyntaxError} {state after : Cache × World}
    (enough : engine.options.maxDepth + 1 - request.depth = levels)
    (kept : state.1.SyntaxFree)
    (failed : (engine.resolveWithin levels request.source request.target request.content).exec
      state = (.error (.malformed target text error), after)) :
    ∃ visited now, engine.Visits request state visited now ∧
      visited.depth ≤ engine.options.maxDepth ∧ engine.Obtains visited now target (.text text) ∧
      error.Of text := by
  induction levels generalizing request state after with
  | zero =>
      rw [resolveWithin_zero, Resolution.exec_throw] at failed
      cases failed
  | succ levels ih =>
      rw [resolveWithin_succ] at failed
      rcases Resolution.exec_bind_eq_error failed with unknown | ⟨located, _, place, rest⟩
      · rw [Resolution.exec_ofExcept, Prod.mk.injEq] at unknown
        cases locate_ne_malformed unknown.1
      · rw [Resolution.exec_ofExcept, Prod.mk.injEq] at place
        obtain ⟨place, rfl⟩ := place
        rcases Resolution.exec_bind_eq_error rest with unread | ⟨content, between, obtained, inner⟩
        · -- neither a supplied content nor a read is a syntax error
          cases supplied : request.content with
          | some content =>
              rw [supplied, contentOf_some, Resolution.exec_pure] at unread
              cases unread
          | none =>
              rw [supplied] at unread
              have outcome := (free.readThrough request.source located kept state.2).2
              cases outcome _ (congrArg Prod.fst unread)
        · have within : request.depth ≤ engine.options.maxDepth := by omega
          rcases resolveContent_eq_malformed free inner with ⟨rfl, rfl, about⟩ | below
          · exact ⟨request, state, .here, within, ⟨place, congrArg Prod.fst obtained⟩, about⟩
          · obtain ⟨source, before, planned, behind, parts, reached, last, rfl, plan, front,
              included⟩ := below
            have levelsBelow : levels = engine.options.maxDepth - request.depth := by omega
            subst levelsBelow
            let inner : Request :=
              { source := some located, target := planned.target, depth := request.depth + 1 }
            have includes : engine.Includes request state inner reached :=
              .intro within place obtained plan front
            obtain ⟨visited, now, visits, rest⟩ :=
              ih inner (Nat.add_sub_add_right _ 1 _) (includes.syntaxFree free kept) included
            exact ⟨visited, now, .included includes visits, rest⟩

/-- **A syntax error names the text it was found in, and the target the text was obtained
for.** If neither reads nor transforms make syntax errors of their own, let a request fail
with a syntax error after any session from an empty cache. The target that the error names
was located for the request or for one that the resolution came to through inclusions, and
the text it names is the content that was supplied or read for that target when the
resolution came there. The error itself is the one with which the text cannot be cut into
tokens, or the text can be cut and the error lies at the span of a directive that is no
declaration and has nothing to include. -/
theorem resolve_syntax_error (free : engine.SyntaxFree) (operations : List Operation)
    (world : World) {request : Request} {target : Target} {text : String} {error : SyntaxError}
    (failed : ((engine.resolve request).exec
      (engine.session operations (Registry.empty, world)).2).1 =
        .error (.malformed target text error)) :
    ∃ visited now,
      engine.Visits request (engine.session operations (Registry.empty, world)).2 visited now ∧
      visited.depth ≤ engine.options.maxDepth ∧
      engine.Obtains visited now target (.text text) ∧ error.Of text := by
  have kept : (engine.session operations (Registry.empty, world)).2.1.SyntaxFree := by
    refine free.session_keeps operations ?_ world
    intro key error found
    cases found
  exact exists_visits_of_malformed free request rfl kept (Prod.ext failed rfl)

/-- The second of two texts that a file includes has, behind a character of two bytes and
behind a declaration, a directive with an empty target. -/
theorem resolve_syntax_error_nested :
    let engine := Engine.ofEntries
      [("a", .text "<$inline('b')>"), ("b", .text "$inline('c'), $inline('d')"),
        ("c", .text "C"), ("d", .text "é$inline.shortcut('s','')$inline('s')")]
    let request : Request := { target := ⟨"file", ["a"]⟩ }
    let earlier : List Operation := [.read none ⟨"file", ["d"]⟩]
    let state := (engine.session earlier (Registry.empty, ())).2
    engine.SyntaxFree ∧
      ((engine.resolve request).exec state).1 = .error (.malformed ⟨"file", ["d"]⟩
        "é$inline.shortcut('s','')$inline('s')" ⟨.targetEmpty, ⟨26, 38⟩⟩) ∧
      ∃ visited now, engine.Visits request state visited now ∧
        visited.depth ≤ engine.options.maxDepth ∧
        engine.Obtains visited now ⟨"file", ["d"]⟩
          (.text "é$inline.shortcut('s','')$inline('s')") ∧
        SyntaxError.Of "é$inline.shortcut('s','')$inline('s')" ⟨.targetEmpty, ⟨26, 38⟩⟩ := by
  intro engine request earlier state
  have free : engine.SyntaxFree := by
    constructor
    · intro name handler served source target world error failed
      rcases Registry.eq_or_find?_of_insert served with ⟨-, rfl⟩ | none
      · simp only [Handler.table] at failed
        split at failed
        · cases failed
        · cases failed
          rfl
      · cases none
    · intro name transform known
      cases known
  have failed : ((engine.resolve request).exec state).1.map (fun _ => ()) =
      .error (.malformed ⟨"file", ["d"]⟩ "é$inline.shortcut('s','')$inline('s')"
        ⟨.targetEmpty, ⟨26, 38⟩⟩) := by decide +kernel
  have failure := Reading.eq_error_of_map failed
  exact ⟨free, failure, resolve_syntax_error free earlier () failure⟩

end Engine

end Transclusion
