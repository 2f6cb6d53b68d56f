import Transclusion.Proofs.Shortcut.Overlay
import Mathlib.Data.List.Dedup
import Mathlib.Data.List.Perm.Subperm

/-!
# Rounds of expansion

The head of a directive's chain is expanded in rounds. A round replaces the chain by
what its head expands to, read again, and remembers the name of the head; so nothing
about the chain itself gets smaller. `Plan.Rounds` lays the rounds out: the names that
were expanded, in their order, and the chain at which they end.

The rounds end for every scope, whatever its shortcuts expand to: a round expands a name
that stands for a shortcut and was not expanded before (`Rounds.visible`,
`Rounds.fresh`), and there are finitely many of those (`Scope.exists_visible`). What a
directive includes is read off the chain at which the rounds end
(`inclusion_of_rounds`).
-/

set_option autoImplicit false

namespace Transclusion

/-! ## Names of a scope -/

theorem Registry.isSome_find?_of_mem {α : Type} {registry : Registry α} {name : String}
    (member : name ∈ registry.names) : (registry.find? name).isSome = true := by
  obtain ⟨entries⟩ := registry
  simp only [names, find?] at member ⊢
  induction entries with
  | nil => simp at member
  | cons entry rest ih =>
      obtain ⟨key, value⟩ := entry
      rw [lookup_cons_eq]
      split
      · rfl
      · next distinct =>
          rw [List.map_cons, List.mem_cons] at member
          exact ih (member.resolve_left distinct)

namespace Scope

/-- The names of a scope are those that stand for a shortcut. -/
theorem mem_names_iff {scope : Scope} {name : String} :
    name ∈ scope.names ↔ scope.has name = true := by
  constructor
  · intro member
    obtain ⟨layer, inside, named⟩ := List.mem_flatMap.1 member
    rw [has, lookup, List.findSome?_isSome_iff]
    exact ⟨layer, inside, Registry.isSome_find?_of_mem named⟩
  · intro visible
    obtain ⟨shortcut, found⟩ := Option.isSome_iff_exists.1 visible
    exact mem_names_of_lookup found

/-- There are finitely many names that stand for a shortcut. -/
theorem exists_visible (scope : Scope) :
    ∃ visible : List String, visible.Nodup ∧ ∀ name, name ∈ visible ↔ scope.has name = true := by
  refine ⟨scope.names.dedup, List.nodup_dedup _, fun name => ?_⟩
  rw [List.mem_dedup, mem_names_iff]

/-- A chain is expanded exactly if its head stands for a shortcut. -/
theorem isSome_expand (scope : Scope) (source : Option Target) (head : Segment)
    (transforms : List Segment) :
    (scope.expand source (head :: transforms)).isSome = scope.has head.name := by
  rw [expand, Option.isSome_map, has]

end Scope

/-! ## Rounds -/

namespace Plan

/-- The rounds from a chain on when some names have been expanded: the names that are
expanded and the chain at which the rounds end. -/
inductive Rounds (scope : Scope) (source : Target) :
    List String → List Segment → List String → List Segment → Prop
  /-- A chain without a head is left. -/
  | exhausted {expanded : List String} : Rounds scope source expanded [] [] []
  /-- The head was expanded before. -/
  | repeated {expanded : List String} {head : Segment} {transforms : List Segment}
      (known : head.name ∈ expanded) :
      Rounds scope source expanded (head :: transforms) [] (head :: transforms)
  /-- The head stands for no shortcut. -/
  | plain {expanded : List String} {head : Segment} {transforms : List Segment}
      (unknown : scope.expand (some source) (head :: transforms) = none) :
      Rounds scope source expanded (head :: transforms) [] (head :: transforms)
  /-- The head is expanded, and what it expands to is read as the next chain. -/
  | round {expanded names : List String} {head : Segment} {transforms final : List Segment}
      {text : String} (fresh : head.name ∉ expanded)
      (known : scope.expand (some source) (head :: transforms) = some text)
      (others : Rounds scope source (head.name :: expanded) (Pipe.parse text) names final) :
      Rounds scope source expanded (head :: transforms) (head.name :: names) final

section

variable {scope : Scope} {source : Target} {expanded names : List String}
  {chain final : List Segment}

/-- **The rounds end, at the chain that planning goes on with.** -/
theorem exists_rounds (scope : Scope) (source : Target) (expanded : List String)
    (chain : List Segment) :
    ∃ names, Rounds scope source expanded chain names (expandHead scope source expanded chain) := by
  fun_induction expandHead scope source expanded chain with
  | case1 expanded => exact ⟨[], .exhausted⟩
  | case2 expanded head transforms known => exact ⟨[], .repeated known⟩
  | case3 expanded head transforms fresh unknown => exact ⟨[], .plain unknown⟩
  | case4 expanded head transforms fresh text known ih =>
      obtain ⟨names, others⟩ := ih
      exact ⟨head.name :: names, .round fresh known others⟩

namespace Rounds

/-- There is one chain at which the rounds can end. -/
theorem expandHead_eq (rounds : Rounds scope source expanded chain names final) :
    expandHead scope source expanded chain = final := by
  induction rounds with
  | exhausted => rw [expandHead]
  | repeated known => rw [expandHead, if_pos known]
  | plain unknown => exact expandHead_of_expand_none unknown
  | round unused known others ih => rw [expandHead_of_expand unused known, ih]

/-- The names that are expanded stand for shortcuts. -/
theorem visible (rounds : Rounds scope source expanded chain names final) :
    ∀ name ∈ names, scope.has name = true := by
  induction rounds with
  | exhausted | repeated | plain => simp
  | round fresh known others ih =>
      intro name member
      rcases List.mem_cons.1 member with rfl | later
      · rw [← Scope.isSome_expand, known]
        rfl
      · exact ih name later

/-- The names that are expanded were not expanded before, and none is expanded twice. -/
theorem fresh (rounds : Rounds scope source expanded chain names final) :
    names.Nodup ∧ ∀ name ∈ names, name ∉ expanded := by
  induction rounds with
  | exhausted | repeated | plain => simp
  | @round expanded names head transforms final text unused known others ih =>
      obtain ⟨distinct, later⟩ := ih
      constructor
      · refine List.nodup_cons.2 ⟨fun again => ?_, distinct⟩
        exact later _ again List.mem_cons_self
      · intro name member
        rcases List.mem_cons.1 member with rfl | inside
        · exact unused
        · exact fun before => later name inside (List.mem_cons_of_mem _ before)

/-- There are at most as many rounds as names that stand for a shortcut. -/
theorem exists_length_le (rounds : Rounds scope source expanded chain names final) :
    ∃ visible : List String, visible.Nodup ∧ (∀ name, name ∈ visible ↔ scope.has name = true) ∧
      names.length ≤ visible.length := by
  obtain ⟨visible, once, among⟩ := scope.exists_visible
  have inside : names ⊆ visible := by
    intro name member
    exact (among name).2 (rounds.visible name member)
  exact ⟨visible, once, among, (List.subperm_of_subset rounds.fresh.1 inside).length_le⟩

/-- The rounds end at a head that stands for no shortcut or has been expanded. -/
theorem stops (rounds : Rounds scope source expanded chain names final) :
    ∀ head ∈ final.head?, scope.has head.name = false ∨ head.name ∈ expanded ++ names := by
  induction rounds with
  | exhausted => simp
  | repeated known =>
      rintro head ⟨⟩
      exact .inr (List.mem_append_left _ known)
  | plain unknown =>
      rintro head ⟨⟩
      rw [← Scope.isSome_expand, unknown]
      exact .inl rfl
  | round unused known others ih =>
      intro head first
      refine (ih head first).imp_right fun member => ?_
      simp only [List.cons_append, List.mem_cons, List.mem_append] at member ⊢
      tauto

end Rounds

end

/-- **A directive's shortcuts are expanded in finitely many rounds, each name at most once,
and what it includes is told by the chain at which they end.** The names are among those
that stand for a shortcut, so there are at most as many rounds as such names, and the
last head stands for no shortcut or was expanded already. A directive without parameters
has no chain. -/
theorem inclusion_of_rounds (defaultResource : String) (target : Target) (text : String)
    (scope : Scope) (directive : Directive) :
    (directive.params = [] → inclusion defaultResource target text scope directive =
      .error (.malformed target text ⟨.targetMissing, directive.span⟩)) ∧
    ∀ param others, directive.params = param :: others →
      (∃ names final, Rounds scope target [] (Pipe.parse param.display) names final) ∧
      ∀ names final, Rounds scope target [] (Pipe.parse param.display) names final →
        names.Nodup ∧ (∀ name ∈ names, scope.has name = true) ∧
        (∃ visible : List String, visible.Nodup ∧
          (∀ name, name ∈ visible ↔ scope.has name = true) ∧ names.length ≤ visible.length) ∧
        (final = [] → inclusion defaultResource target text scope directive =
          .error (.malformed target text ⟨.targetEmpty, directive.span⟩)) ∧
        ∀ head transforms, final = head :: transforms →
          (scope.has head.name = false ∨ head.name ∈ names) ∧
          inclusion defaultResource target text scope directive =
            .ok ⟨directive, Target.ofSegment head defaultResource, transforms⟩ := by
  constructor
  · intro missing
    simp only [inclusion, missing]
  · intro param others written
    obtain ⟨names, ends⟩ := exists_rounds scope target [] (Pipe.parse param.display)
    refine ⟨⟨names, _, ends⟩, fun names final rounds => ?_⟩
    have ended := rounds.expandHead_eq
    refine ⟨rounds.fresh.1, rounds.visible, rounds.exists_length_le, ?_, ?_⟩
    · rintro rfl
      simp only [inclusion, written, ended]
    · rintro head transforms rfl
      refine ⟨rounds.stops head rfl, ?_⟩
      simp only [inclusion, written, ended]

/-- Two shortcuts that expand to each other, one by a template and one by a function: each is
expanded once, and the transforms of both are kept. -/
theorem inclusion_of_rounds_mutual :
    let scope := (Scope.empty.add ⟨"a", .template "b:$1|suffix:x"⟩).child.add
      ⟨"b", .compute fun _ args => "a|prefix:" ++ String.join args⟩
    let source : Target := ⟨"file", ["main"]⟩
    let directive : Directive := ⟨.plain, [.text "a:1"], ⟨0, 14⟩⟩
    Rounds scope source [] (Pipe.parse "a:1") ["a", "b"]
        [⟨"a", []⟩, ⟨"prefix", ["1"]⟩, ⟨"suffix", ["x"]⟩] ∧
      (∃ visible : List String, visible.Nodup ∧
        (∀ name, name ∈ visible ↔ scope.has name = true) ∧ 2 ≤ visible.length) ∧
      inclusion "file" source "" scope directive =
        .ok ⟨directive, ⟨"file", ["a"]⟩, [⟨"prefix", ["1"]⟩, ⟨"suffix", ["x"]⟩]⟩ := by
  intro scope source directive
  have first : Pipe.parse "a:1" = [⟨"a", ["1"]⟩] := by decide +kernel
  have template : scope.expand (some source) [⟨"a", ["1"]⟩] = some "b:1|suffix:x" := by
    decide +kernel
  have second : Pipe.parse "b:1|suffix:x" = [⟨"b", ["1"]⟩, ⟨"suffix", ["x"]⟩] := by decide +kernel
  have function : scope.expand (some source) [⟨"b", ["1"]⟩, ⟨"suffix", ["x"]⟩] =
      some "a|prefix:1|suffix:x" := by decide +kernel
  have third : Pipe.parse "a|prefix:1|suffix:x" =
      [⟨"a", []⟩, ⟨"prefix", ["1"]⟩, ⟨"suffix", ["x"]⟩] := by decide +kernel
  have rounds : Rounds scope source [] (Pipe.parse "a:1") ["a", "b"]
      [⟨"a", []⟩, ⟨"prefix", ["1"]⟩, ⟨"suffix", ["x"]⟩] := by
    rw [first]
    refine .round (by decide) template ?_
    rw [second]
    refine .round (by decide) function ?_
    rw [third]
    exact .repeated (by decide)
  have told := (inclusion_of_rounds "file" source "" scope directive).2 (.text "a:1") [] rfl
  obtain ⟨-, -, bounded, -, included⟩ := told.2 _ _ rounds
  exact ⟨rounds, bounded, (included _ _ rfl).2⟩

end Plan

end Transclusion
