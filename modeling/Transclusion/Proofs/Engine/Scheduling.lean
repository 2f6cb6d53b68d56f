import Mathlib.Data.List.Sort
import Mathlib.Data.Set.Basic
import Transclusion.Proofs.Engine.Transparency

/-!
# The order of siblings does not show

The parts of a text do not depend on one another, but they share the cache: of two
inclusions that ask for one target, the one that comes first makes the read. For
faithful handlers and pure transforms nothing of this is left in the result. The parts
of every text may be resolved in any order, another one for each text of the tree; the
resolution succeeds in one order exactly if it does in any other, and then it has the
same node and leaves outcomes under the same keys (`Engine.resolve_rearranged`).

A `Schedule` chooses the orders. `Engine.resolveScheduled` resolves by a schedule: each
part is kept with its position, and the parts are put back in the order of the text at
the end. From left to right this is the resolution itself
(`Engine.resolveScheduled_leftToRight_alike`).

What a computation comes to is said without the cache it starts from: it fails (`Fails`),
or it has a value and adds some keys (`Yields`). Keys add up to a set, and a set has no
order. Computations that come to the same (`Agree`) may be put in a row, and so all
schedules agree at every number of levels (`resolveScheduled_agree`).
-/

set_option autoImplicit false

namespace Transclusion

/-! ## Schedules -/

/-- For every text of a tree, the order in which its parts are resolved. A text is told
by the positions of the parts on the way to it, the innermost in front. -/
structure Schedule where
  /-- The parts of a text, each with its position, in another order. -/
  order : List Nat → List (Piece × Nat) → List (Piece × Nat)
  perm : ∀ path pieces, (order path pieces).Perm pieces

namespace Schedule

/-- Every text from left to right. -/
def leftToRight : Schedule :=
  ⟨fun _ pieces => pieces, fun _ pieces => .refl pieces⟩

/-- Every text from right to left. -/
def rightToLeft : Schedule :=
  ⟨fun _ pieces => pieces.reverse, fun _ pieces => pieces.reverse_perm⟩

end Schedule

namespace Part

/-- Whether a part does not stand behind another. -/
def notBehind (earlier later : Part × Nat) : Bool :=
  earlier.2 ≤ later.2

theorem notBehind_iff {earlier later : Part × Nat} :
    notBehind earlier later = true ↔ earlier.2 ≤ later.2 :=
  decide_eq_true_iff

/-- Parts in the order of their positions. -/
def inOrder (placed : List (Part × Nat)) : List Part :=
  (placed.mergeSort notBehind).map Prod.fst

theorem pairwise_mergeSort_notBehind (placed : List (Part × Nat)) :
    (placed.mergeSort notBehind).Pairwise fun earlier later => notBehind earlier later = true := by
  apply List.pairwise_mergeSort
  · intro first second third before after
    rw [notBehind_iff] at before after ⊢
    exact Nat.le_trans before after
  · intro first second
    rw [Bool.or_eq_true, notBehind_iff, notBehind_iff]
    exact Nat.le_total _ _

/-- Parts that are in order stay as they are. -/
theorem inOrder_zipIdx (parts : List Part) : inOrder parts.zipIdx = parts := by
  have ordered : parts.zipIdx.Pairwise fun earlier later => notBehind earlier later = true := by
    have positions := List.pairwise_lt_range' (s := 0) (n := parts.length) 1
    rw [← List.zipIdx_map_snd 0 parts, List.pairwise_map] at positions
    exact positions.imp fun less => notBehind_iff.2 (Nat.le_of_lt less)
  rw [inOrder, List.mergeSort_of_pairwise ordered, List.zipIdx_map_fst]

/-- It does not matter in which order parts were, if they have different positions. -/
theorem inOrder_eq_of_perm {one other : List (Part × Nat)} (perm : one.Perm other)
    (distinct : (one.map Prod.snd).Nodup) : inOrder one = inOrder other := by
  have rearranged : (one.mergeSort notBehind).Perm (other.mergeSort notBehind) :=
    (List.mergeSort_perm _ _).trans (perm.trans (List.mergeSort_perm _ _).symm)
  have same : one.mergeSort notBehind = other.mergeSort notBehind := by
    refine List.Perm.eq_of_pairwise ?_ (pairwise_mergeSort_notBehind one)
      (pairwise_mergeSort_notBehind other) rearranged
    intro first second inOne inOther before after
    rw [notBehind_iff] at before after
    have here := (List.mergeSort_perm one _).mem_iff.1 inOne
    have there := perm.mem_iff.2 ((List.mergeSort_perm other _).mem_iff.1 inOther)
    exact List.inj_on_of_nodup_map distinct here there (Nat.le_antisymm before after)
  rw [inOrder, same, inOrder]

end Part

/-! ## Resolution by a schedule -/

namespace Engine

section Resolving

variable {m : Type → Type} [Monad m]

/-- Resolves one part of a text. -/
def resolvePart (resolveInclusion : Inclusion → Resolution m Node) : Piece → Resolution m Part
  | .text value => pure (.text value)
  | .inclusion planned => do
      let node ← resolveInclusion planned
      return .node node

/-- Resolves parts, one after the other, and keeps each with its position. -/
def resolvePlaced (resolve : Piece × Nat → Resolution m Part) :
    List (Piece × Nat) → Resolution m (List (Part × Nat))
  | [] => pure []
  | placed :: rest => do
      let part ← resolve placed
      let others ← resolvePlaced resolve rest
      return (part, placed.2) :: others

/-- Resolves what a directive in the text of a target includes, given how the target it
asks for is resolved, and transforms it. -/
def includeInto (engine : Engine m) (target : Target) (text : String)
    (resolve : Target → Resolution m Node) (planned : Inclusion) : Resolution m Node := do
  let node ← resolve planned.target
  engine.transformNode target text.toList planned node

/-- Resolves a target whose content is there, given how what its text asks for at a
position is resolved, the parts of the text in the order that a schedule says for the way
to it. -/
def contentScheduled (engine : Engine m) (schedule : Schedule) (path : List Nat)
    (target : Target) (resolve : Nat → Target → Resolution m Node) : Content → Resolution m Node
  | .binary bytes => return .leaf target (.binary bytes)
  | .text text => do
      let planned ← Resolution.ofExcept (Plan.ofText engine.options.defaultResource
        engine.shortcuts.child target text)
      let parts ← resolvePlaced (fun placed =>
        resolvePart (engine.includeInto target text (resolve placed.2)) placed.1)
        (schedule.order path planned.zipIdx)
      return Part.assemble target (Part.inOrder parts)

/-- Resolves a target with a number of levels left, by a schedule. -/
def resolveScheduled (engine : Engine m) (schedule : Schedule) :
    Nat → List Nat → Option Target → Target → Option Content → Resolution m Node
  | 0, _, _, _, _ => throw (.depthExceeded engine.options.maxDepth)
  | levels + 1, path, source, requested, supplied => do
      let target ← Resolution.ofExcept (engine.handlers.locate source requested)
      let content ← engine.contentOf source target supplied
      engine.contentScheduled schedule path target (fun position included =>
        engine.resolveScheduled schedule levels (position :: path) (some target) included none)
        content

/-- Resolves a request by a schedule. -/
def resolveBy (engine : Engine m) (schedule : Schedule) (request : Request) :
    Resolution m Node :=
  engine.resolveScheduled schedule (engine.options.maxDepth + 1 - request.depth) []
    request.source request.target request.content

/-- Carries an operation out by a schedule. -/
def performBy (engine : Engine m) (schedule : Schedule) : Operation → Resolution m Answer
  | .resolve request => do
      let node ← engine.resolveBy schedule request
      return .node node
  | .read source target => do
      let content ← engine.handlers.readThrough source target
      return .content content

variable {World : Type} [Runs m World]

/-- The state that operations leave, one after the other, each by a schedule of its own. -/
def historyState (engine : Engine m) :
    List (Schedule × Operation) → Cache × World → Cache × World
  | [], state => state
  | (schedule, operation) :: rest, state =>
      engine.historyState rest ((engine.performBy schedule operation).exec state).2

/-! ## From left to right -/

/-- Two computations run alike from every state. -/
def RunAlike {α : Type} (first second : Resolution m α) : Prop :=
  ∀ state : Cache × World, first.exec state = second.exec state

theorem RunAlike.bind {α β : Type} {first second : Resolution m α}
    {next other : α → Resolution m β} (alike : RunAlike first second)
    (rest : ∀ value, RunAlike (next value) (other value)) :
    RunAlike (first >>= next) (second >>= other) := by
  intro state
  rw [Resolution.exec_bind, Resolution.exec_bind, alike]
  cases second.exec state with
  | mk outcome after =>
      cases outcome with
      | error error => rfl
      | ok value => exact rest value after

/-- Parts that are resolved from left to right are resolved as ever. -/
theorem resolvePlaced_zipIdx_alike {placedInclusion : Nat → Inclusion → Resolution m Node}
    {inclusion : Inclusion → Resolution m Node}
    (same : ∀ position planned, RunAlike (placedInclusion position planned) (inclusion planned))
    (pieces : List Piece) (start : Nat) :
    RunAlike
      (resolvePlaced (fun placed => resolvePart (placedInclusion placed.2) placed.1)
        (pieces.zipIdx start))
      (resolvePieces inclusion pieces >>= fun parts => pure (parts.zipIdx start)) := by
  induction pieces generalizing start with
  | nil =>
      intro state
      rw [resolvePieces, Resolution.exec_bind_of_ok (Resolution.exec_pure _ state)]
      rfl
  | cons piece rest ih =>
      intro state
      rw [List.zipIdx_cons, resolvePlaced]
      cases piece with
      | text value =>
          rw [resolvePart, Resolution.exec_bind_of_ok (Resolution.exec_pure _ state), resolvePieces]
          simp only [Resolution.exec_bind, ih (start + 1) _]
          cases (resolvePieces inclusion rest).exec state with
          | mk outcome after => cases outcome <;> simp
      | inclusion planned =>
          rw [resolvePart, resolvePieces]
          simp only [Resolution.exec_bind, ih (start + 1) _, same start planned _]
          cases (inclusion planned).exec state with
          | mk outcome between =>
              cases outcome with
              | error error => rfl
              | ok node =>
                  simp only [Resolution.exec_pure]
                  cases (resolvePieces inclusion rest).exec between with
                  | mk outcome after => cases outcome <;> simp

/-- Parts that were resolved from left to right are in order. -/
theorem resolvePlaced_inOrder_alike {placedInclusion : Nat → Inclusion → Resolution m Node}
    {inclusion : Inclusion → Resolution m Node}
    (same : ∀ position planned, RunAlike (placedInclusion position planned) (inclusion planned))
    (pieces : List Piece) (finish : List Part → Node) :
    RunAlike
      (resolvePlaced (fun placed => resolvePart (placedInclusion placed.2) placed.1)
        pieces.zipIdx >>= fun parts => pure (finish (Part.inOrder parts)))
      (resolvePieces inclusion pieces >>= fun parts => pure (finish parts)) := by
  intro state
  rw [Resolution.exec_bind, resolvePlaced_zipIdx_alike same pieces 0 state, Resolution.exec_bind,
    Resolution.exec_bind]
  cases (resolvePieces inclusion pieces).exec state with
  | mk outcome after =>
      cases outcome with
      | error error => rfl
      | ok parts => simp only [Resolution.exec_pure, Part.inOrder_zipIdx]

/-- **To resolve from left to right by a schedule is to resolve.** -/
theorem resolveScheduled_leftToRight_alike (engine : Engine m) (levels : Nat) (path : List Nat)
    (source : Option Target) (requested : Target) (supplied : Option Content) :
    RunAlike (engine.resolveScheduled .leftToRight levels path source requested supplied)
      (engine.resolveWithin levels source requested supplied) := by
  induction levels generalizing path source requested supplied with
  | zero => exact fun _ => rfl
  | succ levels ih =>
      rw [resolveWithin_succ, resolveScheduled]
      refine RunAlike.bind (fun _ => rfl) fun target => ?_
      refine RunAlike.bind (fun _ => rfl) fun content => ?_
      cases content with
      | binary bytes => exact fun _ => rfl
      | text text =>
          rw [contentScheduled, resolveContent]
          refine RunAlike.bind (fun _ => rfl) fun planned => ?_
          have same (position : Nat) (inclusion : Inclusion) : RunAlike
              (engine.includeInto target text (fun included => engine.resolveScheduled
                .leftToRight levels (position :: path) (some target) included none) inclusion)
              (engine.resolveInclusion levels target text inclusion) :=
            RunAlike.bind (ih (position :: path) (some target) inclusion.target none)
              fun _ _ => rfl
          exact resolvePlaced_inOrder_alike same planned (Part.assemble target)

/-! ## What a computation comes to -/

section Agreement

variable {handlers : Handlers m} {α β ι : Type}

/-- From every consistent cache a computation has a value, keeps the world, and leaves a
consistent cache that has outcomes under some more keys. -/
def Yields (handlers : Handlers m) (computation : Resolution m α) (value : α)
    (keys : Set String) : Prop :=
  ∀ (cache : Cache) (world : World), cache.Consistent handlers →
    ∃ later : Cache, computation.exec (cache, world) = (.ok value, later, world) ∧
      later.Consistent handlers ∧
      ∀ key, later.contains key = true ↔ cache.contains key = true ∨ key ∈ keys

/-- From every consistent cache a computation fails, keeps the world, and leaves a
consistent cache. -/
def Fails (handlers : Handlers m) (computation : Resolution m α) : Prop :=
  ∀ (cache : Cache) (world : World), cache.Consistent handlers →
    ∃ (error : ResolveError) (later : Cache),
      computation.exec (cache, world) = (.error error, later, world) ∧ later.Consistent handlers

theorem Yields.bind {first : Resolution m α} {next : α → Resolution m β} {value : α} {result : β}
    {keys more : Set String} (yields : Yields handlers first value keys)
    (rest : Yields handlers (next value) result more) :
    Yields handlers (first >>= next) result (keys ∪ more) := by
  intro cache world consistent
  obtain ⟨between, course, kept, names⟩ := yields cache world consistent
  obtain ⟨later, onward, still, others⟩ := rest between world kept
  refine ⟨later, by rw [Resolution.exec_bind_of_ok course, onward], still, fun key => ?_⟩
  rw [others, names, or_assoc, Set.mem_union]

theorem Fails.bind {first : Resolution m α} (fails : Fails handlers first)
    (next : α → Resolution m β) : Fails handlers (first >>= next) := by
  intro cache world consistent
  obtain ⟨error, later, course, kept⟩ := fails cache world consistent
  exact ⟨error, later, by rw [Resolution.exec_bind, course], kept⟩

theorem Yields.bind_fails {first : Resolution m α} {next : α → Resolution m β} {value : α}
    {keys : Set String} (yields : Yields handlers first value keys)
    (rest : Fails handlers (next value)) : Fails handlers (first >>= next) := by
  intro cache world consistent
  obtain ⟨between, course, kept, -⟩ := yields cache world consistent
  obtain ⟨error, later, onward, still⟩ := rest between world kept
  exact ⟨error, later, by rw [Resolution.exec_bind_of_ok course, onward], still⟩

theorem yields_of_exec {computation : Resolution m α} {value : α}
    (runs : ∀ state : Cache × World, computation.exec state = (.ok value, state)) :
    Yields handlers computation value ∅ :=
  fun cache world consistent => ⟨cache, runs (cache, world), consistent, by simp⟩

theorem fails_of_exec {computation : Resolution m α} {error : ResolveError}
    (runs : ∀ state : Cache × World, computation.exec state = (.error error, state)) :
    Fails handlers computation :=
  fun cache world consistent => ⟨error, cache, runs (cache, world), consistent⟩

/-- All computations of a family come to the same. -/
def Agree (handlers : Handlers m) (family : ι → Resolution m α) : Prop :=
  (∀ index, Fails handlers (family index)) ∨
    ∃ value keys, ∀ index, Yields handlers (family index) value keys

theorem Agree.bind {first : ι → Resolution m α} {next : ι → α → Resolution m β}
    (agree : Agree handlers first) (rest : ∀ value, Agree handlers fun index => next index value) :
    Agree handlers fun index => first index >>= next index := by
  rcases agree with fails | ⟨value, keys, yields⟩
  · exact .inl fun index => (fails index).bind _
  · rcases rest value with fails | ⟨result, more, onward⟩
    · exact .inl fun index => (yields index).bind_fails (fails index)
    · exact .inr ⟨result, keys ∪ more, fun index => (yields index).bind (onward index)⟩

/-- A family may be gone through in another way. -/
theorem Agree.reindex {κ : Type} {family : ι → Resolution m α} (agree : Agree handlers family)
    (choose : κ → ι) : Agree handlers fun index => family (choose index) :=
  agree.imp (fun fails index => fails (choose index))
    fun ⟨value, keys, yields⟩ => ⟨value, keys, fun index => yields (choose index)⟩

/-- One constant computation agrees with itself. -/
theorem Agree.of_constant {computation : Resolution m α} (constant : computation.Constant) :
    Agree handlers fun _ : ι => computation := by
  obtain ⟨outcome, runs⟩ := constant
  cases outcome with
  | error error => exact .inl fun _ => fails_of_exec runs
  | ok value => exact .inr ⟨value, ∅, fun _ => yields_of_exec runs⟩

theorem Agree.ofExcept (outcome : Except ResolveError α) :
    Agree handlers fun _ : ι => (Resolution.ofExcept outcome : Resolution m α) :=
  .of_constant ⟨outcome, Resolution.exec_ofExcept outcome⟩

theorem Agree.pure (value : α) :
    Agree handlers fun _ : ι => (Pure.pure value : Resolution m α) :=
  .ofExcept (.ok value)

end Agreement

/-! ## Reads and transforms -/

/-- There is a value under a name after one was put under it, and where there was one. -/
theorem contains_insert_iff {cache : Cache} {name other : String}
    {outcome : Except ResolveError Content} :
    (cache.insert name outcome).contains other = true ↔
      cache.contains other = true ∨ other ∈ ({name} : Set String) := by
  rw [Registry.contains, Registry.find?_insert, Set.mem_singleton_iff]
  by_cases same : other = name
  · simp [same]
  · simp [same, Registry.contains]

/-- What a read with a key comes to, whether the cache answers it or not. -/
theorem exec_readThrough_keyed {handlers : Handlers m} (faithful : handlers.Faithful)
    {handler : Handler m} {source : Option Target} {target : Target} {key : String}
    {outcome : Except ResolveError Content} (served : handlers.handlerOf target = .ok handler)
    (keyed : handler.key source target = some key) (reads : handler.Reads source target outcome)
    {cache : Cache} (consistent : cache.Consistent handlers) (world : World) :
    ∃ later : Cache, (handlers.readThrough source target).exec (cache, world) =
        (outcome, later, world) ∧ later.Consistent handlers ∧
      ∀ name, later.contains name = true ↔
        cache.contains name = true ∨ name ∈ ({Cache.key target.name key} : Set String) := by
  have registered := Handlers.handlerOf_eq_ok_iff.1 served
  cases found : cache.find? (Cache.key target.name key) with
  | none =>
      refine ⟨cache.insert (Cache.key target.name key) outcome, ?_,
        consistent.insert faithful registered keyed reads, fun name => contains_insert_iff⟩
      rw [Handlers.exec_readThrough_miss served keyed found, reads world]
  | some kept =>
      have held := consistent registered keyed found world
      rw [reads world] at held
      refine ⟨cache, ?_, consistent, fun name => ?_⟩
      · rw [Handlers.exec_readThrough_hit served keyed found, (Prod.mk.inj held).1]
      · rw [Set.mem_singleton_iff]
        refine (or_iff_left_of_imp ?_).symm
        rintro rfl
        rw [Registry.contains, found, Option.isSome_some]

/-- A read comes to the same wherever it is made. -/
theorem readThrough_agree {ι : Type} {handlers : Handlers m} (faithful : handlers.Faithful)
    (source : Option Target) (target : Target) :
    Agree handlers fun _ : ι => handlers.readThrough source target := by
  cases served : handlers.handlerOf target with
  | error error => exact .of_constant (Handlers.readThrough_constant_of_unknown served source)
  | ok handler =>
      obtain ⟨outcome, reads⟩ :=
        (faithful.faithful (Handlers.handlerOf_eq_ok_iff.1 served)).pure source target
      cases keyed : handler.key source target with
      | none => exact .of_constant (Handlers.readThrough_constant_of_keyless served keyed reads)
      | some key =>
          have course {cache : Cache} (consistent : cache.Consistent handlers) (world : World) :=
            exec_readThrough_keyed faithful served keyed reads consistent world
          cases outcome with
          | error error =>
              refine .inl fun _ cache world consistent => ?_
              obtain ⟨later, runs, kept, -⟩ := course consistent world
              exact ⟨error, later, runs, kept⟩
          | ok content =>
              exact .inr ⟨content, _, fun _ _ world consistent => course consistent world⟩

/-- Content that is supplied or read comes to the same. -/
theorem contentOf_agree {ι : Type} {engine : Engine m} (faithful : engine.handlers.Faithful)
    (source : Option Target) (target : Target) (supplied : Option Content) :
    Agree engine.handlers fun _ : ι => engine.contentOf source target supplied := by
  cases supplied with
  | none => exact readThrough_agree faithful source target
  | some content => exact .pure content

theorem transformNode_agree {ι : Type} {engine : Engine m} (pure : engine.transforms.Pure)
    (source : Target) (text : List Char) (planned : Inclusion) (node : Node) :
    Agree engine.handlers fun _ : ι => engine.transformNode source text planned node :=
  Agree.bind (.of_constant (engine.transform_constant pure _ _ _)) fun _ => .pure _

/-! ## Parts in any order -/

section Placed

variable {handlers : Handlers m} {ι : Type}

/-- Parts that all yield something are put in a row, each with its position. -/
theorem Yields.resolvePlaced {resolve : Piece × Nat → Resolution m Part}
    {part : Piece × Nat → Part} {keys : Piece × Nat → Set String} {pieces : List (Piece × Nat)}
    (yields : ∀ placed ∈ pieces, Yields handlers (resolve placed) (part placed) (keys placed)) :
    Yields handlers (Engine.resolvePlaced resolve pieces)
      (pieces.map fun placed => (part placed, placed.2))
      {key | ∃ placed ∈ pieces, key ∈ keys placed} := by
  induction pieces with
  | nil =>
      have none : {key | ∃ placed ∈ ([] : List (Piece × Nat)), key ∈ keys placed} = ∅ := by simp
      rw [none]
      exact yields_of_exec (Resolution.exec_pure _)
  | cons placed rest ih =>
      have union : {key | ∃ other ∈ placed :: rest, key ∈ keys other} =
          keys placed ∪ ({key | ∃ other ∈ rest, key ∈ keys other} ∪ ∅) := by
        ext key
        simp
      rw [union]
      have others := ih fun other member => yields other (.tail _ member)
      exact (yields placed (.head _)).bind
        (others.bind (yields_of_exec (Resolution.exec_pure _)))

/-- A part that fails makes the parts fail, wherever it is among them. -/
theorem Fails.resolvePlaced {resolve : Piece × Nat → Resolution m Part}
    {failing : Piece × Nat} {pieces : List (Piece × Nat)}
    (decided : ∀ placed, Fails handlers (resolve placed) ∨
      ∃ part keys, Yields handlers (resolve placed) part keys)
    (member : failing ∈ pieces) (fails : Fails handlers (resolve failing)) :
    Fails handlers (Engine.resolvePlaced resolve pieces) := by
  induction pieces with
  | nil => cases member
  | cons placed rest ih =>
      rcases decided placed with first | ⟨part, keys, yields⟩
      · exact first.bind _
      · rcases List.mem_cons.1 member with rfl | later
        · exact fails.bind _
        · exact yields.bind_fails ((ih later).bind _)

/-- **Parts that are the same one by one come to the same in any order**, once they are
put back in the order of the text. -/
theorem Agree.resolvePlaced {resolve : ι → Piece × Nat → Resolution m Part}
    {order : ι → List (Piece × Nat)} {pieces : List (Piece × Nat)}
    (each : ∀ placed, Agree handlers fun index => resolve index placed)
    (perm : ∀ index, (order index).Perm pieces) (distinct : (pieces.map Prod.snd).Nodup)
    (finish : List Part → Node) :
    Agree handlers fun index => Engine.resolvePlaced (resolve index) (order index) >>=
      fun parts => Pure.pure (finish (Part.inOrder parts)) := by
  by_cases failing : ∃ placed ∈ pieces, ∀ index, Fails handlers (resolve index placed)
  · obtain ⟨placed, member, fails⟩ := failing
    refine .inl fun index => Fails.bind (Fails.resolvePlaced (fun other => ?_)
      ((perm index).mem_iff.2 member) (fails index)) _
    exact (each other).imp (fun fails => fails index)
      fun ⟨part, keys, yields⟩ => ⟨part, keys, yields index⟩
  · have all (placed : Piece × Nat) : ∃ (part : Part) (keys : Set String), placed ∈ pieces →
        ∀ index, Yields handlers (resolve index placed) part keys := by
      rcases each placed with fails | ⟨part, keys, yields⟩
      · exact ⟨.text "", ∅, fun member => absurd ⟨placed, member, fails⟩ failing⟩
      · exact ⟨part, keys, fun _ => yields⟩
    choose part keys yields using all
    refine .inr ⟨finish (Part.inOrder (pieces.map fun placed => (part placed, placed.2))),
      {key | ∃ placed ∈ pieces, key ∈ keys placed} ∪ ∅, fun index => ?_⟩
    have placed := Yields.resolvePlaced fun placed member =>
      yields placed ((perm index).mem_iff.1 member) index
    have rearranged := (perm index).map fun placed => (part placed, placed.2)
    have positions : ((order index).map fun placed => (part placed, placed.2)).map Prod.snd =
        (order index).map Prod.snd := by
      rw [List.map_map]
      rfl
    have same := Part.inOrder_eq_of_perm rearranged
      (positions ▸ ((perm index).map Prod.snd).nodup_iff.2 distinct)
    have members : {key | ∃ placed ∈ order index, key ∈ keys placed} =
        {key | ∃ placed ∈ pieces, key ∈ keys placed} := by
      ext key
      simp only [Set.mem_ofPred_eq, (perm index).mem_iff]
    rw [members] at placed
    rw [← same]
    exact placed.bind (yields_of_exec (Resolution.exec_pure _))

end Placed

/-! ## Schedules agree -/

section Schedules

variable {engine : Engine m}

theorem resolvePart_agree {handlers : Handlers m} {ι : Type}
    {resolve : ι → Inclusion → Resolution m Node}
    (each : ∀ planned, Agree handlers fun index => resolve index planned) (piece : Piece) :
    Agree handlers fun index => resolvePart (resolve index) piece := by
  cases piece with
  | text value => exact .pure _
  | inclusion planned => exact (each planned).bind fun node => .pure _

/-- **All schedules agree, at every number of levels and on every way to a text.** -/
theorem resolveScheduled_agree (faithful : engine.handlers.Faithful)
    (pure : engine.transforms.Pure) (levels : Nat) (source : Option Target) (requested : Target)
    (supplied : Option Content) :
    Agree engine.handlers fun chosen : Schedule × List Nat =>
      engine.resolveScheduled chosen.1 levels chosen.2 source requested supplied := by
  induction levels generalizing source requested supplied with
  | zero => exact .ofExcept (.error (.depthExceeded engine.options.maxDepth))
  | succ levels ih =>
      refine Agree.bind (.ofExcept _) fun target => ?_
      refine Agree.bind (contentOf_agree faithful source target supplied) fun content => ?_
      cases content with
      | binary bytes => exact .pure _
      | text text =>
          refine Agree.bind (.ofExcept _) fun planned => ?_
          refine Agree.resolvePlaced (fun placed => ?_) (fun chosen => chosen.1.perm _ _) ?_ _
          · refine resolvePart_agree (fun inclusion => ?_) placed.1
            have below := (ih (some target) inclusion.target none).reindex
              fun chosen : Schedule × List Nat => (chosen.1, placed.2 :: chosen.2)
            exact below.bind fun node => transformNode_agree pure _ _ _ node
          · rw [List.zipIdx_map_snd]
            exact List.nodup_range'

/-- A state in which the cache is consistent keeps it so when an operation is carried out. -/
theorem performBy_consistent (faithful : engine.handlers.Faithful)
    (pure : engine.transforms.Pure) (schedule : Schedule) (operation : Operation)
    {state : Cache × World} (consistent : state.1.Consistent engine.handlers) :
    ((engine.performBy schedule operation).exec state).2.1.Consistent engine.handlers := by
  have agree : Agree engine.handlers fun _ : Unit => engine.performBy schedule operation := by
    cases operation with
    | resolve request =>
        have schedules := resolveScheduled_agree faithful pure
          (engine.options.maxDepth + 1 - request.depth) request.source request.target
          request.content
        exact (schedules.reindex fun _ => (schedule, [])).bind fun node => .pure _
    | read source target =>
        exact (readThrough_agree faithful source target).bind fun content => .pure _
  rcases agree with fails | ⟨answer, keys, yields⟩
  · obtain ⟨error, later, course, kept⟩ := fails () state.1 state.2 consistent
    rwa [course]
  · obtain ⟨later, course, kept, -⟩ := yields () state.1 state.2 consistent
    rwa [course]

theorem historyState_consistent (faithful : engine.handlers.Faithful)
    (pure : engine.transforms.Pure) (history : List (Schedule × Operation))
    {state : Cache × World} (consistent : state.1.Consistent engine.handlers) :
    (engine.historyState history state).1.Consistent engine.handlers := by
  induction history generalizing state with
  | nil => exact consistent
  | cons first rest ih =>
      exact ih (performBy_consistent faithful pure first.1 first.2 consistent)

end Schedules

/-- **The order of siblings does not show.** An engine has answered some operations, each
by a schedule of its own. A request then succeeds by any schedule exactly if it succeeds
from left to right; the node is the same, and so are the keys under which the cache
has outcomes. -/
theorem resolve_rearranged (engine : Engine m) (faithful : engine.handlers.Faithful)
    (pure : engine.transforms.Pure) (history : List (Schedule × Operation)) (world : World)
    (schedule : Schedule) (request : Request) :
    let reached := engine.historyState history (Registry.empty, world)
    let inOrder := (engine.resolve request).exec reached
    let rearranged := (engine.resolveBy schedule request).exec reached
    (∀ node, rearranged.1 = .ok node ↔ inOrder.1 = .ok node) ∧
      ∀ node, inOrder.1 = .ok node →
        ∀ key, rearranged.2.1.contains key = inOrder.2.1.contains key := by
  intro reached inOrder rearranged
  have consistent : reached.1.Consistent engine.handlers :=
    historyState_consistent faithful pure history (Cache.consistent_empty engine.handlers)
  have plain : inOrder = (engine.resolveBy .leftToRight request).exec reached :=
    (engine.resolveScheduled_leftToRight_alike _ [] request.source request.target
      request.content reached).symm
  have agree := resolveScheduled_agree faithful pure
    (engine.options.maxDepth + 1 - request.depth) request.source request.target request.content
  rcases agree with fails | ⟨value, keys, yields⟩
  · obtain ⟨error, later, course, -⟩ := fails (schedule, []) reached.1 reached.2 consistent
    obtain ⟨first, before, left, -⟩ := fails (.leftToRight, []) reached.1 reached.2 consistent
    have failed : inOrder = (.error first, before, reached.2) := plain.trans left
    have alsoFailed : rearranged = (.error error, later, reached.2) := course
    rw [failed, alsoFailed]
    exact ⟨fun node => ⟨nofun, nofun⟩, nofun⟩
  · obtain ⟨later, course, -, names⟩ := yields (schedule, []) reached.1 reached.2 consistent
    obtain ⟨before, left, -, others⟩ := yields (.leftToRight, []) reached.1 reached.2 consistent
    have succeeded : inOrder = (.ok value, before, reached.2) := plain.trans left
    have alsoSucceeded : rearranged = (.ok value, later, reached.2) := course
    rw [succeeded, alsoSucceeded]
    refine ⟨fun node => Iff.rfl, fun node _ key => ?_⟩
    rw [Bool.eq_iff_iff, names, others]

end Resolving

/-- A text with two inclusions that share a target, after one read and by schedules from
right to left. The entries of the cache come in another order, and are the same. -/
theorem resolve_rearranged_shared :
    let engine := Engine.ofEntries
      [("a", .text "$inline('b') and $inline('c')"), ("b", .text "b: $inline('d')"),
        ("c", .text "c: $inline('d')"), ("d", .text "d")]
    let request : Request := { target := ⟨"file", ["a"]⟩ }
    let reached := engine.historyState [(.rightToLeft, .read none ⟨"file", ["z"]⟩)]
      (Registry.empty, ())
    let inOrder := (engine.resolve request).exec reached
    let rearranged := (engine.resolveBy .rightToLeft request).exec reached
    inOrder.1.toOption.map (·.content.display) = some "b: d and c: d" ∧
      inOrder.2.1.names = ["file\x00c", "file\x00d", "file\x00b", "file\x00a", "file\x00z"] ∧
      rearranged.2.1.names = ["file\x00b", "file\x00d", "file\x00c", "file\x00a", "file\x00z"] ∧
      (∀ node, rearranged.1 = .ok node ↔ inOrder.1 = .ok node) ∧
      ∀ node, inOrder.1 = .ok node →
        ∀ key, rearranged.2.1.contains key = inOrder.2.1.contains key := by
  intro engine request reached inOrder rearranged
  have faithful : engine.handlers.Faithful :=
    Engine.faithful_ofEntries _
  exact ⟨by decide +kernel, by decide +kernel, by decide +kernel,
    resolve_rearranged engine faithful Transforms.pure_empty
      [(.rightToLeft, .read none ⟨"file", ["z"]⟩)] () .rightToLeft request⟩

end Engine

end Transclusion
