import Transclusion.Registry
import Transclusion.ResolveError
import Transclusion.Shortcut.Template

/-!
# Shortcuts and their scopes

A shortcut expands the head of a pipe expression that bears its name. A scope
is a layer of shortcuts over the layers it was made from. A name is looked up
in the nearest layer that has it, and adding and removing touch the scope's own
layer only. A scope holds the layers below as they were when it was made.
-/

set_option autoImplicit false

namespace Transclusion

/-- What a shortcut puts in the place of its invocation. -/
inductive Expansion where
  | template (text : String)
  /-- A function of the including target and the arguments. -/
  | compute (function : Option Target → List String → String)

/-- A name for the head of a pipe expression and what it expands to. -/
structure Shortcut where
  name : String
  expansion : Expansion

namespace Shortcut

/-- The shortcut that the parameters of a declaration describe. -/
def ofParams : List Param → Except ShortcutFault Shortcut
  | .text name :: .text expansion :: _ => .ok ⟨name, .template expansion⟩
  | _ :: .number found :: _ => .error (.expansionNotText found)
  | .number found :: _ => .error (.nameNotText found)
  | _ => .error .incomplete

/-- The text that an invocation with some arguments expands to. -/
def expand (shortcut : Shortcut) (source : Option Target) (args : List String) : String :=
  match shortcut.expansion with
  | .template text => Template.expand text args
  | .compute function => function source args

end Shortcut

/-- A layer of shortcuts over the layers it was made from, nearest first. -/
structure Scope where
  own : Registry Shortcut
  outer : List (Registry Shortcut)

namespace Scope

/-- The scope with no shortcuts. -/
def empty : Scope := ⟨.empty, []⟩

instance : Inhabited Scope := ⟨empty⟩

/-- Adds a shortcut to the scope's own layer. -/
def add (scope : Scope) (shortcut : Shortcut) : Scope :=
  { scope with own := scope.own.insert shortcut.name shortcut }

/-- Removes a name from the scope's own layer, and gives back what it stood for there. -/
def remove (scope : Scope) (name : String) : Option Shortcut × Scope :=
  let (removed, own) := scope.own.remove name
  (removed, { scope with own })

/-- A new scope over this one as it is now. -/
def child (scope : Scope) : Scope :=
  ⟨.empty, scope.own :: scope.outer⟩

/-- The shortcut that a name stands for. -/
def lookup (scope : Scope) (name : String) : Option Shortcut :=
  (scope.own :: scope.outer).findSome? (·.find? name)

/-- Whether a name stands for a shortcut. -/
def has (scope : Scope) (name : String) : Bool :=
  (scope.lookup name).isSome

/-- The names that stand for a shortcut. -/
def names (scope : Scope) : List String :=
  (scope.own :: scope.outer).flatMap Registry.names

/-- Expands a chain whose head names a shortcut, keeping the segments behind
the head. -/
def expand (scope : Scope) (source : Option Target) : List Segment → Option String
  | [] => none
  | head :: transforms =>
      (scope.lookup head.name).map fun shortcut =>
        let text := shortcut.expand source head.args
        if transforms = [] then text else text ++ "|" ++ Pipe.render transforms

/-- A name that stands for a shortcut is among the names of the scope. -/
theorem mem_names_of_lookup {scope : Scope} {name : String} {shortcut : Shortcut}
    (found : scope.lookup name = some shortcut) : name ∈ scope.names := by
  obtain ⟨layer, member, inside⟩ := List.exists_of_findSome?_eq_some found
  exact List.mem_flatMap.2 ⟨layer, member, Registry.mem_names_of_find? inside⟩

/-- A chain that is expanded has a head that stands for a shortcut. -/
theorem mem_names_of_expand {scope : Scope} {source : Option Target} {head : Segment}
    {transforms : List Segment} {text : String}
    (expanded : scope.expand source (head :: transforms) = some text) :
    head.name ∈ scope.names := by
  obtain ⟨shortcut, found, -⟩ := Option.map_eq_some_iff.1 expanded
  exact mem_names_of_lookup found

end Scope

end Transclusion
