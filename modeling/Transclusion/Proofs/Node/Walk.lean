import Transclusion.Node
import Mathlib.Data.List.Chain

/-!
# A walk tells its tree

A walk lists the nodes of a tree from the top down, each with its depth. Nothing else of
the tree is kept, and nothing else is needed: the nodes below a visit are those up to the
next visit that is not deeper, so the tree can be built again (`forestOf`), and what is built
from a walk is the tree that was walked (`forestOf_walkForest`).

The depths of a walk begin at zero, and each later one is at least one and at most one more
than the depth before it. No more can be said of them: every list of visits with such depths
is the walk of a tree (`exists_walk_iff`), and so of exactly one (`walk_faithful`).
-/

set_option autoImplicit false

namespace Transclusion.Node

/-! ## The number of visits -/

mutual

/-- The number of nodes of a tree. -/
def size : Node → Nat
  | .mk _ _ children => 1 + sizeForest children

/-- The number of nodes of some trees. -/
def sizeForest : List Node → Nat
  | [] => 0
  | node :: rest => size node + sizeForest rest

end

mutual

/-- Every node of a tree is visited once. -/
theorem length_walkAt (depth : Nat) : ∀ node : Node, (walkAt depth node).length = size node
  | .mk _ _ children => by
      rw [walkAt, size, List.length_cons, length_walkForest (depth + 1) children, Nat.add_comm]

theorem length_walkForest (depth : Nat) :
    ∀ forest : List Node, (walkForest depth forest).length = sizeForest forest
  | [] => rfl
  | node :: rest => by
      rw [walkForest, sizeForest, List.length_append, length_walkAt depth node,
        length_walkForest depth rest]

end

/-! ## The depths of a walk -/

/-- A visit follows another one: it is at most one deeper. -/
def Visit.Follows (earlier later : Visit) : Prop :=
  later.depth ≤ earlier.depth + 1

/-- What the depths of some trees that stand at a depth are like. -/
structure Descends (depth : Nat) (visits : List Visit) : Prop where
  /-- The first tree stands at the depth. -/
  top : ∀ first ∈ visits.head?, first.depth = depth
  /-- No visit is above it. -/
  within : ∀ visit ∈ visits, depth ≤ visit.depth
  /-- No visit is more than one deeper than the one before it. -/
  steps : visits.IsChain Visit.Follows

namespace Descends

variable {depth : Nat} {first : Visit} {below behind : List Visit}

theorem nil : Descends depth [] :=
  ⟨by simp, by simp, .nil⟩

/-- A visit, deeper visits below it and further ones behind them. -/
theorem cons (here : first.depth = depth) (inner : Descends (depth + 1) below)
    (outer : Descends depth behind) : Descends depth (first :: (below ++ behind)) where
  top := by simpa using here
  within := by
    intro visit member
    rcases List.mem_cons.1 member with rfl | member
    · exact Nat.le_of_eq here.symm
    · rcases List.mem_append.1 member with member | member
      · exact Nat.le_of_succ_le (inner.within visit member)
      · exact outer.within visit member
  steps := by
    -- the first visit behind is at the depth itself, so no step down to it is too large
    have down (earlier later : Visit) (above : depth ≤ earlier.depth)
        (next : later ∈ behind.head?) : earlier.Follows later := by
      have level := outer.top later next
      simp only [Visit.Follows]
      omega
    refine List.isChain_cons.2 ⟨fun next member => ?_, ?_⟩
    · rw [List.head?_append, Option.mem_def, Option.or_eq_some_iff] at member
      rcases member with member | ⟨-, member⟩
      · have level := inner.top next member
        simp only [Visit.Follows]
        omega
      · exact down first next (Nat.le_of_eq here.symm) member
    · refine List.isChain_append.2 ⟨inner.steps, outer.steps, fun last ends next member => ?_⟩
      have deeper := inner.within last (List.mem_of_mem_getLast? ends)
      exact down last next (Nat.le_of_succ_le deeper) member

end Descends

mutual

theorem descends_walkAt (depth : Nat) : ∀ (node : Node) {behind : List Visit},
    Descends depth behind → Descends depth (walkAt depth node ++ behind)
  | .mk target content children, _, outer => by
      rw [walkAt, List.cons_append]
      exact .cons rfl (descends_walkForest (depth + 1) children) outer

/-- **The depths of a walk descend by single steps.** -/
theorem descends_walkForest (depth : Nat) :
    ∀ forest : List Node, Descends depth (walkForest depth forest)
  | [] => .nil
  | node :: rest => descends_walkAt depth node (descends_walkForest depth rest)

end

/-! ## From the visits to the tree -/

/-- The visits at the front that are deeper than a depth. -/
def deeper (depth : Nat) (visits : List Visit) : List Visit :=
  visits.takeWhile (depth < ·.depth)

/-- The visits from the first one on that is not deeper than a depth. -/
def behind (depth : Nat) (visits : List Visit) : List Visit :=
  visits.dropWhile (depth < ·.depth)

theorem deeper_append_behind (depth : Nat) (visits : List Visit) :
    deeper depth visits ++ behind depth visits = visits :=
  List.takeWhile_append_dropWhile

/-- The trees at a depth that some visits describe. -/
def forestOf (depth : Nat) : List Visit → List Node
  | [] => []
  | first :: rest =>
      .mk first.target first.content (forestOf (depth + 1) (deeper depth rest)) ::
        forestOf depth (behind depth rest)
termination_by visits => visits.length
decreasing_by
  all_goals
    have parts := congrArg List.length (deeper_append_behind depth rest)
    rw [List.length_append] at parts
    simp only [List.length_cons]
    omega

/-- Visits below a depth end where one at the depth follows. -/
theorem deeper_append {depth : Nat} {inner outer : List Visit}
    (below : Descends (depth + 1) inner) (level : Descends depth outer) :
    deeper depth (inner ++ outer) = inner ∧ behind depth (inner ++ outer) = outer := by
  have inside : ∀ visit ∈ inner, decide (depth < visit.depth) = true := fun visit member =>
    decide_eq_true (below.within visit member)
  rw [deeper, behind, List.takeWhile_append_of_pos inside, List.dropWhile_append_of_pos inside]
  cases outer with
  | nil => simp
  | cons next others =>
      have stop : ¬ depth < next.depth := by
        have := level.top next rfl
        omega
      simp [stop]

mutual

theorem forestOf_walkAt (depth : Nat) : ∀ (node : Node) {outer : List Visit},
    Descends depth outer →
      forestOf depth (walkAt depth node ++ outer) = node :: forestOf depth outer
  | .mk target content children, outer, level => by
      obtain ⟨inside, outside⟩ :=
        deeper_append (descends_walkForest (depth + 1) children) level
      rw [walkAt, List.cons_append, forestOf, inside, outside,
        forestOf_walkForest (depth + 1) children]

/-- **What is built from a walk is what was walked.** -/
theorem forestOf_walkForest (depth : Nat) :
    ∀ forest : List Node, forestOf depth (walkForest depth forest) = forest
  | [] => by rw [walkForest, forestOf]
  | node :: rest => by
      rw [walkForest, forestOf_walkAt depth node (descends_walkForest depth rest),
        forestOf_walkForest depth rest]

end

/-- Visits that descend behind a first one are those below it and those behind them. -/
theorem Descends.of_cons {depth : Nat} {first : Visit} {rest : List Visit}
    (visits : Descends depth (first :: rest)) :
    first.depth = depth ∧ Descends (depth + 1) (deeper depth rest) ∧
      Descends depth (behind depth rest) := by
  have here : first.depth = depth := visits.top first rfl
  have parts := deeper_append_behind depth rest
  obtain ⟨next, steps⟩ := List.isChain_cons.1 visits.steps
  have within : ∀ visit ∈ rest, depth ≤ visit.depth := fun visit member =>
    visits.within visit (List.mem_cons_of_mem first member)
  have below : ∀ visit ∈ deeper depth rest, depth < visit.depth := fun visit member =>
    of_decide_eq_true (List.all_eq_true.1 List.all_takeWhile visit member)
  rw [← parts] at next steps within
  obtain ⟨inner, outer, -⟩ := List.isChain_append.1 steps
  refine ⟨here, ⟨fun visit member => ?_, below, inner⟩, ⟨fun visit member => ?_, ?_, outer⟩⟩
  · have single := next visit (by rw [List.head?_append, Option.mem_def.1 member]; rfl)
    have inside := below visit (List.mem_of_mem_head? member)
    simp only [Visit.Follows] at single
    omega
  · have stop : ¬ depth < visit.depth := by
      have ends := List.head?_dropWhile_not (depth < Visit.depth ·) rest
      rw [← behind, Option.mem_def.1 member] at ends
      simpa using ends
    have above := within visit (List.mem_append_right _ (List.mem_of_mem_head? member))
    omega
  · exact fun visit member => within visit (List.mem_append_right _ member)

/-- **Visits whose depths descend by single steps are a walk of what is built from them.** -/
theorem walkForest_forestOf {depth : Nat} {visits : List Visit} (shape : Descends depth visits) :
    walkForest depth (forestOf depth visits) = visits := by
  fun_induction forestOf depth visits with
  | case1 => rfl
  | case2 depth first rest inner outer =>
      obtain ⟨here, below, level⟩ := shape.of_cons
      rw [walkForest, walkAt, inner below, outer level, List.cons_append, deeper_append_behind,
        ← here]

/-! ## Trees -/

/-- The depths of some visits are those of a tree. -/
structure IsWalk (visits : List Visit) : Prop where
  /-- The first visit is at depth zero. -/
  top : visits.head?.map Visit.depth = some 0
  /-- All others are below it. -/
  below : ∀ visit ∈ visits.tail, 1 ≤ visit.depth
  /-- No visit is more than one deeper than the one before it. -/
  steps : visits.IsChain Visit.Follows

/-- Behind the top of a tree, the visits are those of trees at depth one. -/
theorem isWalk_cons_iff {first : Visit} {others : List Visit} :
    IsWalk (first :: others) ↔ first.depth = 0 ∧ Descends 1 others := by
  constructor
  · rintro ⟨top, below, steps⟩
    have here : first.depth = 0 := Option.some.inj top
    obtain ⟨next, later⟩ := List.isChain_cons.1 steps
    refine ⟨here, ⟨fun visit member => ?_, below, later⟩⟩
    have single := next visit member
    have under := below visit (List.mem_of_mem_head? member)
    simp only [Visit.Follows] at single
    omega
  · rintro ⟨here, top, below, later⟩
    refine ⟨congrArg some here, below, List.isChain_cons.2 ⟨fun visit member => ?_, later⟩⟩
    have level := top visit member
    simp only [Visit.Follows]
    omega

/-- Some visits are the walk of a tree exactly if their depths are those of a tree. -/
theorem exists_walk_iff (visits : List Visit) : (∃ node, walk node = visits) ↔ IsWalk visits := by
  constructor
  · rintro ⟨⟨target, content, children⟩, rfl⟩
    rw [walk, walkAt, isWalk_cons_iff]
    exact ⟨rfl, descends_walkForest 1 children⟩
  · intro shape
    cases visits with
    | nil => cases shape.top
    | cons first others =>
        obtain ⟨here, below⟩ := isWalk_cons_iff.1 shape
        refine ⟨.mk first.target first.content (forestOf 1 others), ?_⟩
        rw [walk, walkAt, walkForest_forestOf below, ← here]

/-- **A walk tells its tree.** It visits every node once, and some visits are the walk of a tree
exactly if the first depth is zero and each later one is at least one and at most one more
than the depth before it. -/
theorem walk_faithful :
    Function.Injective walk ∧ (∀ node, (walk node).length = size node) ∧
      ∀ visits, (∃ node, walk node = visits) ↔ IsWalk visits := by
  refine ⟨?_, length_walkAt 0, exists_walk_iff⟩
  rintro ⟨target, content, children⟩ ⟨other, body, nodes⟩ same
  obtain ⟨top, below⟩ := List.cons.inj same
  obtain ⟨-, rfl, rfl⟩ := Visit.mk.inj top
  rw [← forestOf_walkForest 1 children, ← forestOf_walkForest 1 nodes, below]

end Transclusion.Node
