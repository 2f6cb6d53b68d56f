import Transclusion.Directive.Lexer
import Transclusion.Shortcut.Scope

/-!
# Planning a text

Before anything is included, every directive of a text is turned into what it
includes: a target and the transforms behind it. The head of a directive's pipe
expression is expanded by shortcuts first, each at most once for a directive,
so a shortcut whose expansion begins with its own name ends at the resource of
that name. A declaration counts for the directives behind it.
-/

set_option autoImplicit false

namespace Transclusion

/-- What a directive includes, and the transforms of the included content. -/
structure Inclusion where
  directive : Directive
  target : Target
  transforms : List Segment
deriving DecidableEq, Repr

/-- A part of a planned text. -/
inductive Piece where
  | text (value : String)
  | inclusion (value : Inclusion)
deriving DecidableEq, Repr

namespace Plan

/-- Fewer elements pass the stronger of two tests, if one passes only the
weaker. -/
theorem length_filter_lt {α : Type} {weaker stronger : α → Bool} {list : List α} {element : α}
    (implies : ∀ x, stronger x = true → weaker x = true) (member : element ∈ list)
    (passes : weaker element = true) (fails : stronger element = false) :
    (list.filter stronger).length < (list.filter weaker).length := by
  induction list with
  | nil => simp at member
  | cons head rest ih =>
      have notMore : (rest.filter stronger).length ≤ (rest.filter weaker).length := by
        rw [← List.countP_eq_length_filter, ← List.countP_eq_length_filter]
        exact List.countP_mono_left fun x _ => implies x
      rcases List.mem_cons.1 member with same | inside
      · subst same
        simp only [List.filter_cons, passes, fails, if_true, List.length_cons]
        simpa using Nat.lt_succ_of_le notMore
      · have strict := ih inside
        by_cases strong : stronger head = true
        · simp [strong, implies head strong, strict]
        · by_cases weak : weaker head = true
          · simp only [List.filter_cons, strong, weak, if_true, List.length_cons]
            simpa using Nat.lt_succ_of_lt strict
          · simpa [strong, weak] using strict

/-- Expands a chain by shortcuts until its head names none, or one that was
already expanded. -/
def expandHead (scope : Scope) (source : Target) (expanded : List String)
    (chain : List Segment) : List Segment :=
  match chain with
  | [] => []
  | head :: transforms =>
      if head.name ∈ expanded then head :: transforms
      else
        match _ : scope.expand (some source) (head :: transforms) with
        | none => head :: transforms
        | some text => expandHead scope source (head.name :: expanded) (Pipe.parse text)
termination_by (scope.names.filter (· ∉ expanded)).length
decreasing_by
  refine length_filter_lt ?_ (Scope.mem_names_of_expand ‹_›) ?_ ?_
  · intro name
    simp only [decide_eq_true_eq, List.mem_cons, not_or]
    exact And.right
  · simpa
  · simp

/-- What a directive includes. -/
def inclusion (defaultResource : String) (target : Target) (text : String) (scope : Scope)
    (directive : Directive) : Except ResolveError Inclusion :=
  match directive.params with
  | [] => .error (.malformed target text ⟨.targetMissing, directive.span⟩)
  | param :: _ =>
      match expandHead scope target [] (Pipe.parse param.display) with
      | [] => .error (.malformed target text ⟨.targetEmpty, directive.span⟩)
      | head :: transforms =>
          .ok ⟨directive, Target.ofSegment head defaultResource, transforms⟩

/-- The parts of a text whose tokens are given, from left to right. -/
def pieces (defaultResource : String) (target : Target) (text : String) :
    Scope → List Token → Except ResolveError (List Piece)
  | _, [] => .ok []
  | scope, .text value :: rest =>
      (pieces defaultResource target text scope rest).map (.text value :: ·)
  | scope, .directive directive :: rest =>
      if directive.isShortcut then
        match Shortcut.ofParams directive.params with
        | .error fault => .error (.invalidShortcut fault)
        | .ok shortcut => pieces defaultResource target text (scope.add shortcut) rest
      else
        match inclusion defaultResource target text scope directive with
        | .error error => .error error
        | .ok planned =>
            (pieces defaultResource target text scope rest).map (.inclusion planned :: ·)

/-- The parts of a text that is read for a target, under a scope. -/
def ofText (defaultResource : String) (scope : Scope) (target : Target) (text : String) :
    Except ResolveError (List Piece) :=
  match Token.ofText text with
  | .error error => .error (.malformed target text error)
  | .ok tokens => pieces defaultResource target text scope tokens

end Plan

end Transclusion
