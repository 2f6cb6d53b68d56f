import Transclusion.Proofs.Shortcut.Overlay
import Mathlib.Data.List.Induction

/-!
# Histories of scopes

Scopes are numbered as they come to be. A history is a list of operations: one edits
the own layer of a scope, which is to add a shortcut or to remove a name, or makes a
child of a scope. Every operation is about a scope that is there already
(`Family.perform`).

A history tells what each scope looks up. The own layer answers for a name with the last
edit of that name in that scope (`find?_own_of_run`), and the layers below are those that
the parent had when the scope was made (`outer_of_run`). Both follow by induction on the
history from what one operation does to the scopes (`getElem?_of_perform`), and so does
that operations on other scopes leave a scope alone (`run_keeps`).
-/

set_option autoImplicit false

namespace Transclusion.Scope

/-! ## Operations -/

/-- A change of the own layer of a scope. -/
inductive Edit where
  | add (shortcut : Shortcut)
  | remove (name : String)

namespace Edit

/-- The name that an edit is about. -/
def name : Edit → String
  | .add shortcut => shortcut.name
  | .remove name => name

/-- What the name stands for in the edited layer. -/
def value : Edit → Option Shortcut
  | .add shortcut => some shortcut
  | .remove _ => none

/-- The scope after an edit. -/
def apply (scope : Scope) : Edit → Scope
  | .add shortcut => scope.add shortcut
  | .remove name => (scope.remove name).2

/-- An edit leaves the layers below alone. -/
theorem outer_apply (edit : Edit) (scope : Scope) : (edit.apply scope).outer = scope.outer := by
  cases edit <;> rfl

theorem find?_own_apply (edit : Edit) (scope : Scope) (name : String) :
    (edit.apply scope).own.find? name =
      if name = edit.name then edit.value else scope.own.find? name := by
  cases edit with
  | add shortcut => exact Registry.find?_insert scope.own shortcut.name name shortcut
  | remove removed => exact Registry.find?_erase scope.own removed name

end Edit

/-- An operation on the scopes that there are. -/
inductive Operation where
  | edit (number : Nat) (edit : Edit)
  | child (number : Nat)

namespace Operation

/-- The number of the scope that is edited, or gets a child. -/
def number : Operation → Nat
  | .edit number _ => number
  | .child number => number

/-- Whether a scope is made. -/
def isChild : Operation → Bool
  | .edit _ _ => false
  | .child _ => true

/-- Whether an operation edits a scope. -/
def edits (number : Nat) : Operation → Bool
  | .edit edited _ => edited == number
  | .child _ => false

/-- The edit of a name in a scope that an operation is, if it is one. -/
def editOf (number : Nat) (name : String) : Operation → Option Edit
  | .edit edited change => if edited = number ∧ name = change.name then some change else none
  | .child _ => none

theorem editOf_eq_none {operation : Operation} {number : Nat}
    (other : operation.edits number = false) (name : String) :
    operation.editOf number name = none := by
  cases operation with
  | edit edited change =>
      have distinct : edited ≠ number := by simpa [edits] using other
      exact if_neg fun same => distinct same.1
  | child parent => rfl

end Operation

/-- The scopes that there are, in the order in which they came to be. -/
abbrev Family := List Scope

/-- The family after an operation, if the scope that it is about is there. -/
def Family.perform (family : Family) (operation : Operation) : Option Family :=
  family[operation.number]?.map fun scope =>
    match operation with
    | .edit number edit => family.set number (edit.apply scope)
    | .child _ => family ++ [scope.child]

/-- The family after some operations, from one scope with no shortcuts on. -/
def run (history : List Operation) : Option Family :=
  history.foldlM Family.perform [empty]

/-- The last edit of a name in a scope. -/
def lastEdit (history : List Operation) (number : Nat) (name : String) : Option Edit :=
  history.reverse.findSome? (Operation.editOf number name)

/-- A scope is made as the child of another one, behind the first operations of a
history: the number of the scopes that are made before tells which one it is. -/
structure Born (history : List Operation) (number : Nat) (before : List Operation)
    (parent : Nat) : Prop where
  split : ∃ after, history = before ++ .child parent :: after
  counted : before.countP Operation.isChild + 1 = number

/-- What a scope is given to look a name up in when it is made: the first scope nothing,
and every other one what its parent looks up at that moment. -/
inductive Inherits (history : List Operation) (name : String) : Nat → Option Shortcut → Prop
  | first : Inherits history name 0 none
  | child {number parent : Nat} {before : List Operation} {family : Family} {origin : Scope}
      (born : Born history number before parent) (ran : run before = some family)
      (there : family[parent]? = some origin) :
      Inherits history name number (origin.lookup name)

/-! ## One operation -/

section Steps

variable {history : List Operation} {operation : Operation} {family next : Family}
  {number : Nat} {scope : Scope}

theorem run_concat_iff : run (history ++ [operation]) = some next ↔
    ∃ family, run history = some family ∧ family.perform operation = some next := by
  rw [run, List.foldlM_append, Option.bind_eq_bind, Option.bind_eq_some_iff]
  simp only [List.foldlM_cons, List.foldlM_nil, bind_pure]
  rfl

theorem lastEdit_concat (name : String) :
    lastEdit (history ++ [operation]) number name =
      (operation.editOf number name).or (lastEdit history number name) := by
  rw [lastEdit, List.reverse_append, List.reverse_singleton, List.singleton_append,
    List.findSome?_cons]
  cases operation.editOf number name with
  | none => rfl
  | some edit => rfl

/-- An edit of a scope that is there succeeds, and puts the edited scope in its place. -/
theorem perform_edit_iff {edit : Edit} : family.perform (.edit number edit) = some next ↔
    ∃ scope, family[number]? = some scope ∧ family.set number (edit.apply scope) = next :=
  Option.map_eq_some_iff

/-- A child of a scope that is there is made, and put behind the others. -/
theorem perform_child_iff : family.perform (.child number) = some next ↔
    ∃ scope, family[number]? = some scope ∧ family ++ [scope.child] = next :=
  Option.map_eq_some_iff

/-- An operation makes a scope or leaves the number of scopes alone. -/
theorem length_of_perform (performed : family.perform operation = some next) :
    next.length = family.length + [operation].countP Operation.isChild := by
  cases operation with
  | edit edited edit =>
      obtain ⟨scope, -, rfl⟩ := perform_edit_iff.1 performed
      simp [Operation.isChild]
  | child parent =>
      obtain ⟨scope, -, rfl⟩ := perform_child_iff.1 performed
      simp [Operation.isChild]

/-- Where a scope comes from: it was edited, or it was there as it is, or it was made. -/
theorem getElem?_of_perform (performed : family.perform operation = some next)
    (here : next[number]? = some scope) :
    (∃ edit before, operation = .edit number edit ∧ family[number]? = some before ∧
        scope = edit.apply before) ∨
      (operation.edits number = false ∧ family[number]? = some scope) ∨
      ∃ parent origin, operation = .child parent ∧ family[parent]? = some origin ∧
        number = family.length ∧ scope = origin.child := by
  cases operation with
  | edit edited edit =>
      obtain ⟨before, found, rfl⟩ := perform_edit_iff.1 performed
      by_cases same : edited = number
      · subst same
        obtain ⟨inside, -⟩ := List.getElem?_eq_some_iff.1 found
        rw [List.getElem?_set_self inside, Option.some.injEq] at here
        exact .inl ⟨edit, before, rfl, found, here.symm⟩
      · rw [List.getElem?_set_ne same] at here
        exact .inr (.inl ⟨by simpa [Operation.edits] using same, here⟩)
  | child parent =>
      obtain ⟨origin, found, rfl⟩ := perform_child_iff.1 performed
      by_cases inside : number < family.length
      · rw [List.getElem?_append_left inside] at here
        exact .inr (.inl ⟨rfl, here⟩)
      · obtain ⟨bound, -⟩ := List.getElem?_eq_some_iff.1 here
        rw [List.length_append, List.length_singleton] at bound
        have last : number = family.length := by omega
        subst last
        rw [List.getElem?_concat_length, Option.some.injEq] at here
        exact .inr (.inr ⟨parent, origin, rfl, found, rfl, here.symm⟩)

/-- An operation that does not edit a scope leaves it as it is. -/
theorem perform_keeps (performed : family.perform operation = some next)
    (here : family[number]? = some scope) (other : operation.edits number = false) :
    next[number]? = some scope := by
  cases operation with
  | edit edited edit =>
      obtain ⟨before, -, rfl⟩ := perform_edit_iff.1 performed
      rw [List.getElem?_set_ne (by simpa [Operation.edits] using other)]
      exact here
  | child parent =>
      obtain ⟨origin, -, rfl⟩ := perform_child_iff.1 performed
      obtain ⟨inside, -⟩ := List.getElem?_eq_some_iff.1 here
      rw [List.getElem?_append_left inside]
      exact here

/-- A scope is born behind more operations if it is born behind fewer. -/
theorem Born.concat {before : List Operation} {parent : Nat}
    (born : Born history number before parent) :
    Born (history ++ [operation]) number before parent where
  split := by
    obtain ⟨after, whole⟩ := born.split
    exact ⟨after ++ [operation], by rw [whole, List.append_assoc, List.cons_append]⟩
  counted := born.counted

end Steps

/-! ## Whole histories -/

section Runs

variable {history : List Operation} {family : Family} {number : Nat} {scope : Scope}

/-- There is the first scope, and one for every scope that was made. -/
theorem length_of_run (ran : run history = some family) :
    family.length = history.countP Operation.isChild + 1 := by
  induction history using List.reverseRecOn generalizing family with
  | nil =>
      cases ran
      rfl
  | append_singleton history operation ih =>
      obtain ⟨before, ran, performed⟩ := run_concat_iff.1 ran
      rw [length_of_perform performed, ih ran, List.countP_append]
      omega

/-- A scope that is not there was not edited. -/
theorem lastEdit_eq_none (ran : run history = some family) (absent : family.length ≤ number)
    (name : String) : lastEdit history number name = none := by
  induction history using List.reverseRecOn generalizing family with
  | nil => rfl
  | append_singleton history operation ih =>
      obtain ⟨before, ran, performed⟩ := run_concat_iff.1 ran
      have size := length_of_perform performed
      rw [lastEdit_concat, ih ran (by omega), Option.or_none]
      apply Operation.editOf_eq_none
      cases operation with
      | edit edited edit =>
          obtain ⟨scope, found, -⟩ := perform_edit_iff.1 performed
          obtain ⟨inside, -⟩ := List.getElem?_eq_some_iff.1 found
          have distinct : edited ≠ number := by omega
          simpa [Operation.edits] using distinct
      | child parent => rfl

/-- **The own layer of a scope answers for a name with its last edit there.** -/
theorem find?_own_of_run (ran : run history = some family) (here : family[number]? = some scope)
    (name : String) :
    scope.own.find? name = (lastEdit history number name).bind Edit.value := by
  induction history using List.reverseRecOn generalizing family scope with
  | nil =>
      cases ran
      obtain ⟨-, rfl⟩ := List.getElem?_eq_some_iff.1 here
      simp [lastEdit, empty]
  | append_singleton history operation ih =>
      obtain ⟨before, past, performed⟩ := run_concat_iff.1 ran
      rw [lastEdit_concat]
      rcases getElem?_of_perform performed here with
        ⟨edit, earlier, rfl, found, rfl⟩ | ⟨other, found⟩ | ⟨parent, origin, rfl, -, rfl, rfl⟩
      · rw [Edit.find?_own_apply, ih past found, Operation.editOf]
        by_cases same : name = edit.name
        · rw [if_pos same, if_pos ⟨rfl, same⟩]
          rfl
        · rw [if_neg same, if_neg fun both => same both.2]
          rfl
      · rw [ih past found, Operation.editOf_eq_none other]
        rfl
      · rw [lastEdit_eq_none past (Nat.le_refl _)]
        exact Registry.find?_empty name

/-- What a removal gives back was added last under the name in the scope, and not removed
since. -/
theorem removed_of_run (ran : run history = some family) (here : family[number]? = some scope)
    (name : String) :
    (scope.remove name).1 = (lastEdit history number name).bind Edit.value :=
  find?_own_of_run ran here name

/-- **The layers below a scope are those its parent had when the scope was made.** -/
theorem outer_of_run (ran : run history = some family) (here : family[number]? = some scope) :
    (number = 0 ∧ scope.outer = []) ∨
      ∃ before parent earlier origin, Born history number before parent ∧
        run before = some earlier ∧ earlier[parent]? = some origin ∧
        scope.outer = origin.own :: origin.outer := by
  induction history using List.reverseRecOn generalizing family scope with
  | nil =>
      cases ran
      obtain ⟨inside, rfl⟩ := List.getElem?_eq_some_iff.1 here
      rw [List.length_singleton] at inside
      exact .inl ⟨by omega, by simp [empty]⟩
  | append_singleton history operation ih =>
      obtain ⟨before, past, performed⟩ := run_concat_iff.1 ran
      have older {scope earlier : Scope} (found : before[number]? = some earlier)
          (same : scope.outer = earlier.outer) :
          (number = 0 ∧ scope.outer = []) ∨
            ∃ first parent earlier origin, Born (history ++ [operation]) number first parent ∧
              run first = some earlier ∧ earlier[parent]? = some origin ∧
              scope.outer = origin.own :: origin.outer := by
        rw [same]
        rcases ih past found with none | ⟨first, parent, family, origin, born, layers⟩
        · exact .inl none
        · exact .inr ⟨first, parent, family, origin, born.concat, layers⟩
      rcases getElem?_of_perform performed here with
        ⟨edit, earlier, rfl, found, rfl⟩ | ⟨-, found⟩ | ⟨parent, origin, rfl, found, rfl, rfl⟩
      · exact older found (edit.outer_apply earlier)
      · exact older found rfl
      · exact .inr ⟨history, parent, before, origin, ⟨⟨[], rfl⟩, (length_of_run past).symm⟩, past,
          found, rfl⟩

/-- A scope looks a name up in its own layer, and else in the layers below. -/
theorem lookup_eq_or (scope : Scope) (name : String) :
    scope.lookup name =
      (scope.own.find? name).or (scope.outer.findSome? (·.find? name)) := by
  rw [lookup, List.findSome?_cons]
  cases scope.own.find? name with
  | none => rfl
  | some shortcut => rfl

/-- What the layers below a scope answer is what the scope was given when it was made. -/
theorem inherits_of_run (ran : run history = some family) (here : family[number]? = some scope)
    (name : String) :
    Inherits history name number (scope.outer.findSome? (·.find? name)) := by
  rcases outer_of_run ran here with ⟨rfl, none⟩ |
    ⟨before, parent, earlier, origin, born, past, found, layers⟩
  · rw [none]
    exact .first
  · rw [layers]
    exact .child born past found

/-- Operations that do not edit a scope leave it as it is. -/
theorem run_keeps {later : List Operation} {next : Family} (ran : run history = some family)
    (here : family[number]? = some scope)
    (other : ∀ operation ∈ later, operation.edits number = false)
    (further : run (history ++ later) = some next) : next[number]? = some scope := by
  induction later using List.reverseRecOn generalizing next with
  | nil =>
      rw [List.append_nil, ran, Option.some.injEq] at further
      exact further ▸ here
  | append_singleton later operation ih =>
      rw [← List.append_assoc] at further
      obtain ⟨before, ran, performed⟩ := run_concat_iff.1 further
      have kept := ih (fun earlier member => other earlier (List.mem_append_left _ member)) ran
      exact perform_keeps performed kept (other operation (by simp))

/-- **A scope looks a name up as its own history says, and nothing that is done to other
scopes changes what it looks up.** A name stands for what was added last under it in the
scope; where nothing was added, or the name was removed since, for what the parent
looked up when the scope was made. -/
theorem lookup_of_history (ran : run history = some family)
    (here : family[number]? = some scope) :
    (∀ name,
      (∀ shortcut, lastEdit history number name = some (.add shortcut) →
        scope.lookup name = some shortcut) ∧
      ((∀ shortcut, lastEdit history number name ≠ some (.add shortcut)) →
        Inherits history name number (scope.lookup name))) ∧
    ∀ later next, run (history ++ later) = some next →
      (∀ operation ∈ later, operation.edits number = false) →
      ∃ after, next[number]? = some after ∧
        (∀ name, after.lookup name = scope.lookup name ∧ after.has name = scope.has name) ∧
        ∀ source chain, after.expand source chain = scope.expand source chain := by
  refine ⟨fun name => ⟨fun shortcut added => ?_, fun free => ?_⟩,
    fun later next further other => ?_⟩
  · rw [lookup_eq_or, find?_own_of_run ran here, added]
    rfl
  · have nothing : scope.own.find? name = none := by
      rw [find?_own_of_run ran here]
      cases last : lastEdit history number name with
      | none => rfl
      | some edit =>
          cases edit with
          | add shortcut => exact (free shortcut last).elim
          | remove removed => rfl
    rw [lookup_eq_or, nothing, Option.none_or]
    exact inherits_of_run ran here name
  · exact ⟨scope, run_keeps ran here other further, fun name => ⟨rfl, rfl⟩, fun _ _ => rfl⟩

end Runs

/-- A name is added in the first scope, added again and removed in its child, and added
once more in the first scope: the child looks up what was there when it was made, and
its own child what the child had added. -/
theorem lookup_of_history_shadowed :
    let old : Shortcut := ⟨"g", .template "old"⟩
    let own : Shortcut := ⟨"g", .template "own"⟩
    let history : List Operation :=
      [.edit 0 (.add old), .child 0, .edit 1 (.add own), .child 1, .edit 1 (.remove "g")]
    let later : List Operation := [.edit 0 (.add ⟨"g", .template "new"⟩), .edit 2 (.remove "g")]
    ∃ scope after : Scope, lastEdit history 1 "g" = some (.remove "g") ∧
      Inherits history "g" 1 (scope.lookup "g") ∧ scope.lookup "g" = some old ∧
      ∃ family, run (history ++ later) = some family ∧ family[1]? = some after ∧
        after.lookup "g" = scope.lookup "g" := by
  intro old own history later
  let scope : Scope := ⟨⟨[]⟩, [⟨[("g", old)]⟩]⟩
  have ran : run history = some [⟨⟨[("g", old)]⟩, []⟩, scope,
      ⟨⟨[]⟩, [⟨[("g", own)]⟩, ⟨[("g", old)]⟩]⟩] := rfl
  have further : run (history ++ later) = some [⟨⟨[("g", ⟨"g", .template "new"⟩)]⟩, []⟩, scope,
      ⟨⟨[]⟩, [⟨[("g", own)]⟩, ⟨[("g", old)]⟩]⟩] := rfl
  have here : [⟨⟨[("g", old)]⟩, []⟩, scope,
      ⟨⟨[]⟩, [⟨[("g", own)]⟩, ⟨[("g", old)]⟩]⟩][1]? = some scope := rfl
  obtain ⟨looks, keeps⟩ := lookup_of_history ran here
  have removed : lastEdit history 1 "g" = some (.remove "g") := rfl
  have inherited := (looks "g").2 (by simp [removed])
  obtain ⟨after, there, same, -⟩ := keeps later _ further (by decide)
  exact ⟨scope, after, removed, inherited, rfl, _, further, there, (same "g").1⟩

end Transclusion.Scope
