import Transclusion.Proofs.Engine.Splice
import Transclusion.Proofs.Engine.Transparency
import Transclusion.Proofs.Shortcut.Overlay

/-!
# Trees are made of what their targets are by themselves

A text passes two things on to what it includes: a target and some transforms. Which
ones they are depends on the shortcuts that the text declares, and on nothing else
that happens before. Everything below is the same as if the target were resolved by
itself, from an empty cache: a child is the node of the included target with only its
content replaced, by what the transforms make of it (`Engine.resolve_compositional`).
So declarations do not reach into what is included, nor out of it.

For faithful handlers and pure transforms, an engine without keys is constant at every
number of levels (`Engine.uncached_constant`), and an engine agrees with it from every
cache that a session may leave. The children of a text are therefore taken apart where
no key is given, and each of them is taken back to an empty cache.
-/

set_option autoImplicit false

namespace Transclusion

variable {m : Type → Type} [Monad m] {World : Type} [Runs m World]

/-! ## Taking the parts of a text apart -/

/-- Pieces in a row are resolved one part after the other. -/
theorem Engine.exec_resolvePieces_append_eq_ok {resolveInclusion : Inclusion → Resolution m Node}
    {first second : List Piece} {parts : List Part} {state after : Cache × World}
    (success : (resolvePieces resolveInclusion (first ++ second)).exec state = (.ok parts, after)) :
    ∃ front back between,
      (resolvePieces resolveInclusion first).exec state = (.ok front, between) ∧
      (resolvePieces resolveInclusion second).exec between = (.ok back, after) ∧
      parts = front ++ back := by
  induction first generalizing parts state with
  | nil => exact ⟨[], parts, state, Resolution.exec_pure _ _, success, rfl⟩
  | cons piece rest ih =>
      cases piece with
      | text value =>
          rw [List.cons_append, resolvePieces] at success
          obtain ⟨others, reached, tail, last⟩ := Resolution.exec_bind_eq_ok success
          rw [Resolution.exec_pure] at last
          cases last
          obtain ⟨front, back, between, before, behind, rfl⟩ := ih tail
          refine ⟨.text value :: front, back, between, ?_, behind, rfl⟩
          rw [resolvePieces, Resolution.exec_bind_of_ok before, Resolution.exec_pure]
      | inclusion planned =>
          rw [List.cons_append, resolvePieces] at success
          obtain ⟨node, reached, head, next⟩ := Resolution.exec_bind_eq_ok success
          obtain ⟨others, _, tail, last⟩ := Resolution.exec_bind_eq_ok next
          rw [Resolution.exec_pure] at last
          cases last
          obtain ⟨front, back, between, before, behind, rfl⟩ := ih tail
          refine ⟨.node node :: front, back, between, ?_, behind, rfl⟩
          rw [resolvePieces, Resolution.exec_bind_of_ok head, Resolution.exec_bind_of_ok before,
            Resolution.exec_pure]

/-- A text that is resolved has a child for each directive that is no declaration: what
was planned for the directive, under the declarations in front of it, is resolved to
the child. -/
theorem Engine.exists_children_of_resolveContent {engine : Engine m} {levels : Nat}
    {target : Target} {text : String} {node : Node} {state last : Cache × World}
    (success : (engine.resolveContent levels target (.text text)).exec state = (.ok node, last)) :
    ∃ tokens, Token.ofText text = .ok tokens ∧
      node.children.length = (Token.spans tokens).length ∧
      ∀ before directive after, tokens = before ++ .directive directive :: after →
        directive.isShortcut = false →
        ∃ planned child between reached,
          (∀ scope : Scope, scope.Overlays engine.shortcuts (Token.declared before) →
            Plan.inclusion engine.options.defaultResource target text scope directive =
              .ok planned) ∧
          node.children[(Token.spans before).length]? = some child ∧
          (engine.resolveInclusion levels target text planned).exec between =
            (.ok child, reached) := by
  obtain ⟨pieces, parts, plan, resolved, rfl⟩ := exec_resolveContent_text_eq_ok success
  obtain ⟨tokens, cut, planned⟩ := Plan.exists_tokens_of_ofText plan
  refine ⟨tokens, cut, (fills_of_resolvePieces planned resolved).length_nodes, ?_⟩
  rintro before directive after rfl includes
  obtain ⟨front, included, back, first, under, rfl⟩ :=
    Plan.exists_inclusion_of_split includes planned
  obtain ⟨earlier, later, between, head, tail, rfl⟩ := exec_resolvePieces_append_eq_ok resolved
  rw [resolvePieces] at tail
  obtain ⟨child, reached, inclusion, next⟩ := Resolution.exec_bind_eq_ok tail
  obtain ⟨others, _, _, rest⟩ := Resolution.exec_bind_eq_ok next
  rw [Resolution.exec_pure] at rest
  cases rest
  refine ⟨included, child, between, reached, under, ?_, inclusion⟩
  -- the nodes in front of the child are those of the directives in front
  rw [← (fills_of_resolvePieces first head).length_nodes]
  simp only [Part.assemble, Node.children, List.filterMap_append, List.filterMap_cons, Part.node?]
  rw [List.getElem?_append_right (Nat.le_refl _), Nat.sub_self]
  rfl

/-! ## Engines without keys are constant -/

namespace Engine

variable {engine : Engine m}

theorem uncached_constant (faithful : engine.handlers.Faithful) (pure : engine.transforms.Pure)
    (levels : Nat) (source : Option Target) (requested : Target) (supplied : Option Content) :
    (engine.uncached.resolveWithin levels source requested supplied).Constant := by
  have engines : engine.uncached.Corresponds
      (fun _ (computation _ : Resolution m _) => computation.Constant) engine.uncached :=
    { options := rfl
      shortcuts := rfl
      locate := rfl
      reads := by
        intro source target
        have uncached := engine.handlers.handlerOf_uncached target
        cases served : engine.handlers.handlerOf target with
        | error error =>
            rw [served] at uncached
            exact Handlers.readThrough_constant_of_unknown uncached source
        | ok handler =>
            rw [served] at uncached
            obtain ⟨outcome, reads⟩ :=
              (faithful.faithful (Handlers.handlerOf_eq_ok_iff.1 served)).pure source target
            exact Handlers.readThrough_constant_of_keyless uncached rfl reads
      transforms := engine.uncached.transform_constant pure }
  exact engines.resolveWithin Resolution.Constant.correspondence levels source requested supplied

/-! ## Children -/

/-- From a cache that a session may leave, a request for which a text is located at a
target and obtained is resolved to a node. -/
def ResolvesText (engine : Engine m) (request : Request) (target : Target) (text : String)
    (node : Node) : Prop :=
  ∃ (operations : List Operation) (world : World),
    let reached := (engine.session operations (Registry.empty, world)).2
    engine.Obtains request reached target (.text text) ∧
      ((engine.resolve request).exec reached).1 = .ok node

/-- A text that is resolved holds a directive with some tokens in front of it. What is
planned for the directive, with the declarations among these tokens laid over the
shortcuts that count for every text, stands in the node as a child, at the place of
the directive among those that are no declarations. -/
structure Child (engine : Engine m) (request : Request) (target : Target) (text : String)
    (node : Node) (before : List Token) (directive : Directive) (planned : Inclusion)
    (child : Node) : Prop where
  resolves : engine.ResolvesText request target text node
  written : ∃ after, Token.ofText text = .ok (before ++ .directive directive :: after)
  includes : directive.isShortcut = false
  plan : ∀ scope : Scope, scope.Overlays engine.shortcuts (Token.declared before) →
    Plan.inclusion engine.options.defaultResource target text scope directive = .ok planned
  place : node.children[(Token.spans before).length]? = some child

/-- A node is what a target is resolved to by itself, from an empty cache, for an
including target and at a depth, with only its content replaced: by what the transforms
of an inclusion make of it. -/
def Composes (engine : Engine m) (source : Target) (text : String) (depth : Nat)
    (planned : Inclusion) (child : Node) : Prop :=
  ∃ alone output,
    (∀ world : World, ((engine.resolve
      { source := some source, target := planned.target, depth := depth }).exec
        (Registry.empty, world)).1 = .ok alone) ∧
    (∀ world : World, Runs.run (engine.transforms.run
      ⟨planned.directive, text.toList, alone.target, source⟩ planned.transforms alone.content)
        world = (.ok output, world)) ∧
    child = alone.withContent output

/-- A text that is resolved is resolved without keys, too. -/
theorem ResolvesText.exists_uncached (faithful : engine.handlers.Faithful) {request : Request}
    {target : Target} {text : String} {node : Node}
    (resolves : engine.ResolvesText request target text node) :
    ∃ (below : Nat) (state after : Cache × World),
      engine.options.maxDepth + 1 - request.depth = below + 1 ∧
      (engine.uncached.resolveContent below target (.text text)).exec state =
        (.ok node, after) := by
  obtain ⟨operations, world, obtains, resolved⟩ := resolves
  have consistent : Cache.Consistent engine.handlers
      (engine.session operations (Registry.empty, world)).2.1 :=
    (session_mirrors faithful operations (Cache.consistent_empty engine.handlers) .empty world).1
  generalize (engine.session operations (Registry.empty, world)).2 = reached at *
  obtain ⟨cache, now⟩ := reached
  have engines := uncached_corresponds faithful
  have mirrors := mirrors_correspondence engine.handlers
  obtain ⟨-, same⟩ := resolveWithin_mirrors faithful (engine.options.maxDepth + 1 - request.depth)
    request.source request.target request.content cache cache now consistent
  obtain ⟨-, obtained⟩ := engines.contentOf mirrors request.source target request.content
    cache cache now consistent
  rw [resolve] at resolved
  rw [resolved] at same
  obtain ⟨below, located, content, between, levels, place, read, rest⟩ :=
    exec_resolveWithin_eq_ok same
  obtain rfl : located = target := by
    rw [← engines.locate, obtains.located] at place
    exact (Except.ok.inj place).symm
  obtain rfl : content = .text text := by
    rw [read, obtains.obtained] at obtained
    exact Except.ok.inj (Prod.mk.inj obtained).1
  exact ⟨below, between, _, levels, rest⟩

/-- What is included without keys is composed of what it is by itself. -/
theorem composes_of_resolveInclusion (faithful : engine.handlers.Faithful)
    (pure : engine.transforms.Pure) {depth below : Nat} {target : Target} {text : String}
    {planned : Inclusion} {child : Node} {state after : Cache × World}
    (levels : engine.options.maxDepth + 1 - depth = below)
    (included : (engine.uncached.resolveInclusion below target text planned).exec state =
      (.ok child, after)) :
    engine.Composes target text depth planned child := by
  obtain ⟨alone, between, node, rest⟩ := Resolution.exec_bind_eq_ok included
  obtain ⟨output, reached, transformed, last⟩ := Resolution.exec_bind_eq_ok rest
  rw [Resolution.exec_pure] at last
  cases last
  refine ⟨alone, output, ?_, ?_, rfl⟩
  · intro world
    obtain ⟨outcome, constant⟩ :=
      uncached_constant faithful pure below (some target) planned.target none
    obtain ⟨-, same⟩ := resolveWithin_mirrors faithful below (some target) planned.target none
      .empty .empty world (Cache.consistent_empty engine.handlers)
    rw [constant] at node same
    rw [resolve, levels, ← (Prod.mk.inj same).1, (Prod.mk.inj node).1]
  · intro world
    obtain ⟨outcome, runs⟩ := pure.exists_run
      ⟨planned.directive, text.toList, alone.target, target⟩ planned.transforms alone.content
    rw [exec_inTurn_transform] at transformed
    obtain rfl : outcome = .ok output :=
      (congrArg Prod.fst (runs between.2)).symm.trans (Prod.mk.inj transformed).1
    exact runs world

/-- Every child is composed of what its target is by itself. -/
theorem Child.composes (faithful : engine.handlers.Faithful) (pure : engine.transforms.Pure)
    {request : Request} {target : Target} {text : String} {node child : Node}
    {before : List Token} {directive : Directive} {planned : Inclusion}
    (stands : engine.Child request target text node before directive planned child) :
    engine.Composes target text (request.depth + 1) planned child := by
  obtain ⟨below, state, last, levels, success⟩ := stands.resolves.exists_uncached faithful
  obtain ⟨tokens, cut, -, children⟩ := exists_children_of_resolveContent success
  obtain ⟨after, written⟩ := stands.written
  obtain rfl := Except.ok.inj (cut.symm.trans written)
  obtain ⟨planned', child', between, reached, plan, place, included⟩ :=
    children before directive after rfl stands.includes
  have laid := engine.shortcuts.overlays_child.addAll (Token.declared before)
  obtain rfl : planned = planned' :=
    Except.ok.inj ((stands.plan _ laid).symm.trans (plan _ laid))
  obtain rfl : child = child' := Option.some.inj (stands.place.symm.trans place)
  exact composes_of_resolveInclusion faithful pure (by omega) included

/-- Two nodes that are composed of one target differ in their contents only. -/
theorem Composes.eq_withContent {source : Target} {text elsewhere : String} {depth : Nat}
    {planned reached : Inclusion} {child twin : Node}
    (first : engine.Composes source text depth planned child)
    (second : engine.Composes source elsewhere depth reached twin)
    (same : reached.target = planned.target) (world : World) :
    twin = child.withContent twin.content := by
  obtain ⟨alone, output, node, -, rfl⟩ := first
  obtain ⟨again, result, other, -, rfl⟩ := second
  obtain rfl : again = alone := by
    have outcome := other world
    rw [same, node world] at outcome
    exact (Except.ok.inj outcome).symm
  rfl

/-! ## Compositionality -/

/-- **The children of a text are what their targets are by themselves.** For faithful
handlers and pure transforms, let a text be resolved for a target, from any cache that
a session may leave. It has one child for every directive that is no declaration. Each
of these directives is planned under the shortcuts that count for every text, with the
declarations in front of it in the same text laid over them. Its child is the node that
the planned target is resolved to by itself, one level deeper and from an empty cache,
with only its content replaced, by what the transforms make of it. So a declaration has
no part in a child but by the choice of the target and the transforms: any text that is
resolved for the same target at the same depth, whatever it declares, has the same child
for a directive that is planned with the same target, up to the content. -/
theorem resolve_compositional (faithful : engine.handlers.Faithful)
    (pure : engine.transforms.Pure) {request : Request} {target : Target} {text : String}
    {node : Node} (resolves : engine.ResolvesText request target text node) :
    ∃ tokens, Token.ofText text = .ok tokens ∧
      node.children.length = (Token.spans tokens).length ∧
      ∀ before directive after, tokens = before ++ .directive directive :: after →
        directive.isShortcut = false →
        (∃ scope : Scope, scope.Overlays engine.shortcuts (Token.declared before)) ∧
        ∃ planned child,
          engine.Child request target text node before directive planned child ∧
          engine.Composes target text (request.depth + 1) planned child ∧
          ∀ ⦃other : Request⦄ ⦃elsewhere : String⦄ ⦃tree twin : Node⦄ ⦃front : List Token⦄
            ⦃mark : Directive⦄ ⦃reached : Inclusion⦄,
            engine.Child other target elsewhere tree front mark reached twin →
            other.depth = request.depth → reached.target = planned.target →
            twin = child.withContent twin.content := by
  obtain ⟨below, state, last, levels, success⟩ := resolves.exists_uncached faithful
  obtain ⟨tokens, cut, length, children⟩ := exists_children_of_resolveContent success
  refine ⟨tokens, cut, length, ?_⟩
  rintro before directive after rfl includes
  obtain ⟨planned, child, between, reached, plan, place, -⟩ :=
    children before directive after rfl includes
  have stands : engine.Child request target text node before directive planned child :=
    ⟨resolves, ⟨after, cut⟩, includes, plan, place⟩
  have composes := stands.composes faithful pure
  refine ⟨⟨_, engine.shortcuts.overlays_child.addAll (Token.declared before)⟩, planned, child,
    stands, composes, ?_⟩
  intro other elsewhere tree twin front mark found elsewhereStands depth same
  have alike := elsewhereStands.composes faithful pure
  rw [depth] at alike
  exact composes.eq_withContent alike same state.2

/-- A text declares a shortcut twice and includes, between the two, a text that uses the
name without declaring it. -/
theorem resolve_compositional_local :
    let text :=
      "$inline.shortcut('s','c')$inline('s')$inline('b')$inline.shortcut('s','d')$inline('s')"
    let engine := Engine.ofEntries [("a", .text text), ("b", .text "$inline('s')"),
      ("c", .text "C"), ("d", .text "D"), ("s", .text "S")]
    let target : Target := ⟨"file", ["a"]⟩
    ∃ node tokens,
      engine.handlers.Faithful ∧ engine.transforms.Pure ∧
      engine.ResolvesText { target := target } target text node ∧
      node.children.map (·.content.display) = ["C", "S", "D"] ∧
      Token.ofText text = .ok tokens ∧
      node.children.length = (Token.spans tokens).length ∧
      ∀ before directive after, tokens = before ++ .directive directive :: after →
        directive.isShortcut = false →
        ∃ planned child,
          engine.Child { target := target } target text node before directive planned child ∧
          engine.Composes target text 1 planned child := by
  intro text engine target
  have faithful : engine.handlers.Faithful :=
    Engine.faithful_ofEntries _
  have pure : engine.transforms.Pure := Transforms.pure_empty
  have success : ((engine.resolve { target := target }).exec (.empty, ())).1.toOption.map
      (·.children.map (·.content.display)) = some ["C", "S", "D"] := by decide +kernel
  obtain ⟨node, resolved, display⟩ := exists_ok_of_toOption_map success
  have resolves : engine.ResolvesText { target := target } target text node :=
    ⟨[], (), ⟨rfl, rfl⟩, resolved⟩
  obtain ⟨tokens, cut, length, children⟩ := resolve_compositional faithful pure resolves
  refine ⟨node, tokens, faithful, pure, resolves, display, cut, length, ?_⟩
  intro before directive after split includes
  obtain ⟨-, planned, child, stands, composes, -⟩ :=
    children before directive after split includes
  exact ⟨planned, child, stands, composes⟩

end Engine

end Transclusion
