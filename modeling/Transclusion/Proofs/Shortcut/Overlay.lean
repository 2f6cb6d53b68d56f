import Transclusion.Engine.Plan

/-!
# The scope of a directive

A text is planned from left to right, and its declarations are added to the scope on
the way. A directive is therefore planned under the shortcuts that count for every
text, with the declarations in front of it laid over them; of several declarations of
a name the last one counts (`Scope.Overlays`). Planning does not see how a scope came
to be: scopes that look every name up alike plan a directive alike
(`Plan.inclusion_congr`).

Planning follows the tokens. Tokens in a row are planned one part after the other,
the second under the declarations of the first (`Plan.exists_pieces_of_append`), which
singles out what becomes of one directive (`Plan.exists_inclusion_of_split`).
-/

set_option autoImplicit false

namespace Transclusion

/-! ## Lookups -/

namespace Scope

theorem lookup_child (scope : Scope) (name : String) :
    scope.child.lookup name = scope.lookup name := by
  rw [lookup, child, List.findSome?_cons, Registry.find?_empty]
  rfl

theorem lookup_add (scope : Scope) (shortcut : Shortcut) (name : String) :
    (scope.add shortcut).lookup name =
      if name = shortcut.name then some shortcut else scope.lookup name := by
  rw [lookup, lookup, add, List.findSome?_cons, List.findSome?_cons, Registry.find?_insert]
  by_cases same : name = shortcut.name
  · rw [if_pos same, if_pos same]
  · rw [if_neg same, if_neg same]

/-- A scope looks names up in some declarations, the last one first, and where none
has the name, in a global scope. -/
def Overlays (scope global : Scope) (declared : List Shortcut) : Prop :=
  ∀ name, scope.lookup name = (declared.reverse.find? (·.name = name)).or (global.lookup name)

theorem overlays_child (scope : Scope) : scope.child.Overlays scope [] := by
  intro name
  rw [lookup_child]
  rfl

/-- One more declaration. -/
theorem Overlays.add {scope global : Scope} {declared : List Shortcut}
    (overlays : scope.Overlays global declared) (shortcut : Shortcut) :
    (scope.add shortcut).Overlays global (declared ++ [shortcut]) := by
  intro name
  rw [lookup_add, List.reverse_append, List.reverse_singleton, List.singleton_append,
    List.find?_cons]
  by_cases same : name = shortcut.name
  · rw [if_pos same, decide_eq_true same.symm, Option.some_or]
  · rw [if_neg same, decide_eq_false (Ne.symm same)]
    exact overlays name

theorem Overlays.addAll {scope global : Scope} {declared : List Shortcut}
    (overlays : scope.Overlays global declared) (more : List Shortcut) :
    (more.foldl Scope.add scope).Overlays global (declared ++ more) := by
  induction more generalizing scope declared with
  | nil =>
      rw [List.append_nil]
      exact overlays
  | cons shortcut rest ih =>
      rw [List.append_cons]
      exact ih (overlays.add shortcut)

theorem expand_congr {scope other : Scope} (same : ∀ name, scope.lookup name = other.lookup name)
    (source : Option Target) (chain : List Segment) :
    scope.expand source chain = other.expand source chain := by
  cases chain with
  | nil => rfl
  | cons head transforms => rw [expand, expand, same head.name]

end Scope

/-! ## Planning and lookups -/

namespace Plan

section Steps

variable {scope : Scope} {source : Target} {expanded : List String} {head : Segment}
  {transforms : List Segment}

/-- A chain whose head stands for no shortcut is not expanded. -/
theorem expandHead_of_expand_none
    (unknown : scope.expand (some source) (head :: transforms) = none) :
    expandHead scope source expanded (head :: transforms) = head :: transforms := by
  rw [expandHead]
  split
  · rfl
  · split
    · rfl
    · next text known => cases unknown.symm.trans known

/-- A head that stands for a shortcut and was not expanded before is expanded. -/
theorem expandHead_of_expand {text : String} (fresh : head.name ∉ expanded)
    (known : scope.expand (some source) (head :: transforms) = some text) :
    expandHead scope source expanded (head :: transforms) =
      expandHead scope source (head.name :: expanded) (Pipe.parse text) := by
  rw [expandHead, if_neg fresh]
  split
  · next unknown => cases unknown.symm.trans known
  · next found expansion => rw [Option.some.inj (expansion.symm.trans known)]

end Steps

/-- How far a chain is expanded depends on the lookups only. -/
theorem expandHead_congr {scope other : Scope}
    (same : ∀ name, scope.lookup name = other.lookup name) (source : Target)
    (expanded : List String) (chain : List Segment) :
    expandHead scope source expanded chain = expandHead other source expanded chain := by
  fun_induction expandHead scope source expanded chain with
  | case1 expanded => rw [expandHead]
  | case2 expanded head transforms member => rw [expandHead, if_pos member]
  | case3 expanded head transforms fresh unknown =>
      rw [Scope.expand_congr same] at unknown
      rw [expandHead_of_expand_none unknown]
  | case4 expanded head transforms fresh text known ih =>
      rw [Scope.expand_congr same] at known
      rw [ih, expandHead_of_expand fresh known]

/-- Scopes that look every name up alike plan a directive alike. -/
theorem inclusion_congr {scope other : Scope}
    (same : ∀ name, scope.lookup name = other.lookup name) (defaultResource : String)
    (target : Target) (text : String) (directive : Directive) :
    inclusion defaultResource target text scope directive =
      inclusion defaultResource target text other directive := by
  cases written : directive.params with
  | nil => rw [inclusion, inclusion, written]
  | cons param params =>
      rw [inclusion, inclusion, written]
      simp only [expandHead_congr same]

end Plan

/-! ## Declarations in front of a directive -/

namespace Token

/-- The shortcut that a token declares, if it does. -/
def declared? : Token → Option Shortcut
  | .text _ => none
  | .directive written =>
      if written.isShortcut then (Shortcut.ofParams written.params).toOption else none

/-- The shortcuts that some tokens declare, in their order. -/
def declared (tokens : List Token) : List Shortcut :=
  tokens.filterMap declared?

end Token

namespace Plan

variable {defaultResource : String} {target : Target} {text : String}

/-- Tokens in a row are planned one part after the other, the second under the
declarations of the first. -/
theorem exists_pieces_of_append {scope : Scope} {first second : List Token} {planned : List Piece}
    (plan : pieces defaultResource target text scope (first ++ second) = .ok planned) :
    ∃ front back,
      pieces defaultResource target text scope first = .ok front ∧
      pieces defaultResource target text ((Token.declared first).foldl Scope.add scope) second =
        .ok back ∧
      planned = front ++ back := by
  induction first generalizing scope planned with
  | nil => exact ⟨[], planned, rfl, plan, rfl⟩
  | cons token rest ih =>
      cases token with
      | text value =>
          obtain ⟨others, tail, rfl⟩ := Reading.eq_ok_of_map plan
          obtain ⟨front, back, before, behind, rfl⟩ := ih tail
          refine ⟨.text value :: front, back, ?_, behind, rfl⟩
          rw [pieces, before]
          rfl
      | directive directive =>
          rw [List.cons_append, pieces] at plan
          rw [pieces]
          split at plan
          · next shortcut =>
              split at plan
              · cases plan
              · next added written =>
                  obtain ⟨front, back, before, behind, rfl⟩ := ih plan
                  have declares : Token.declared (.directive directive :: rest) =
                      added :: Token.declared rest := by
                    apply List.filterMap_cons_some
                    rw [Token.declared?, if_pos shortcut, written]
                    rfl
                  rw [if_pos shortcut, declares]
                  exact ⟨front, back, before, behind, rfl⟩
          · next shortcut =>
              split at plan
              · cases plan
              · next included written =>
                  obtain ⟨others, tail, rfl⟩ := Reading.eq_ok_of_map plan
                  obtain ⟨front, back, before, behind, rfl⟩ := ih tail
                  have declares : Token.declared (.directive directive :: rest) =
                      Token.declared rest := by
                    apply List.filterMap_cons_none
                    rw [Token.declared?, if_neg shortcut]
                  rw [if_neg shortcut, declares, before]
                  exact ⟨.inclusion included :: front, back, rfl, behind, rfl⟩

/-- A directive of a text that was planned is planned under the declarations in front
of it, laid over the global scope. -/
theorem exists_inclusion_of_split {global : Scope} {before after : List Token}
    {directive : Directive} {planned : List Piece} (includes : directive.isShortcut = false)
    (plan : pieces defaultResource target text global.child
      (before ++ .directive directive :: after) = .ok planned) :
    ∃ front included back,
      pieces defaultResource target text global.child before = .ok front ∧
      (∀ scope : Scope, scope.Overlays global (Token.declared before) →
        inclusion defaultResource target text scope directive = .ok included) ∧
      planned = front ++ .inclusion included :: back := by
  obtain ⟨front, others, first, second, rfl⟩ := exists_pieces_of_append plan
  rw [pieces, if_neg (by simp [includes])] at second
  split at second
  · cases second
  · next included written =>
      obtain ⟨back, -, rfl⟩ := Reading.eq_ok_of_map second
      refine ⟨front, included, back, first, ?_, rfl⟩
      intro scope overlays
      have laid := global.overlays_child.addAll (Token.declared before)
      rw [← written]
      apply inclusion_congr
      intro name
      rw [overlays name, laid name, List.nil_append]

end Plan

end Transclusion
