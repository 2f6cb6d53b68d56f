import Transclusion.Proofs.Path.NormalForms
import Transclusion.Resource.Builtin

/-!
# Where a relocated path leads

A path is a way to walk through directories: a name leads into one, two points lead out of
it, and the root leads back to the start of all ways. `walk` follows the components of a path
from any directory.

No step on the way to the normal form of some components changes where they lead
(`walk_normalize`). A relocated path is the text of a normal form (`relocate_of_relative`),
from which its components are read again. So it leads where the path leads from the directory
of the including file (`Handler.relocate_file`).
-/

set_option autoImplicit false

namespace Transclusion

/-! ## Walking -/

namespace Path

/-- Where a component leads from a directory, which is given by the names on the way to it,
the innermost first. From the root no step leads up. -/
def step (directory : List String) : PathComponent → List String
  | .root => []
  | .here => directory
  | .up => directory.tail
  | .name value => value :: directory

/-- Where components lead from a directory. -/
def walk (start : List String) (list : List PathComponent) : List String :=
  list.foldl step start

theorem walk_append (start : List String) (front back : List PathComponent) :
    walk start (front ++ back) = walk (walk start front) back :=
  List.foldl_append

theorem walk_concat (start : List String) (list : List PathComponent) (component : PathComponent) :
    walk start (list ++ [component]) = step (walk start list) component :=
  walk_append start list [component]

/-- The normal form leads where the components lead. -/
theorem walk_normalize (start : List String) (list : List PathComponent) :
    walk start (normalize list) = walk start list := by
  induction list using List.reverseRecOn with
  | nil => rfl
  | append_singleton list component ih =>
      rw [walk_concat, ← ih]
      rcases normalize_concat_cases list component with
        ⟨rfl, same⟩ | ⟨rfl, value, taken⟩ | ⟨-, -, kept⟩
      · rw [same]
        rfl
      · rw [taken, walk_concat]
        rfl
      · rw [kept, walk_concat]

/-! ## Relocated paths -/

section Relocating

variable {path : String}

/-- The normal form of a path inside a directory. -/
theorem normalize_components_join (directory : String) (relative : isAbsolute path = false) :
    normalize (components (join directory path)) =
      normalize (components directory ++ components path) := by
  by_cases empty : directory = ""
  · subst empty
    rw [join, if_pos (.inr rfl)]
    rfl
  · rw [components_join empty relative]
    rcases components_of_relative relative with plain | pointed
    · rw [plain]
    · rw [pointed, normalize_append_here]

theorem relocate_of_relative (base : String) (relative : isAbsolute path = false) :
    relocate base path =
      render (normalize (components ((parent? base).getD "") ++ components path)) := by
  rw [relocate, if_neg (Bool.eq_false_iff.1 relative), tidy_eq_render,
    normalize_components_join _ relative]

end Relocating

end Path

namespace Handler

open Transclusion.Path

/-- **A relative path is relocated to a normal form that leads where it leads from the
directory of the including file.** The name of the target and its other arguments are kept.
The path that takes the place of the first argument has a root or none, then steps up, then
names, and is its own normal form. From every directory it leads where the directory of the
including file leads, and on from there where the relative path does. -/
theorem relocate_file {m : Type → Type} [Monad m]
    (readFile : String → m (Except FileError ByteArray)) (base path name : String)
    (rest others : List String) (relative : isAbsolute path = false) :
    ∃ located : String,
      (file readFile).relocate ⟨"file", base :: rest⟩ ⟨name, path :: others⟩ =
        ⟨name, located :: others⟩ ∧
      PathComponent.here ∉ components located ∧
      (∃ (root : List PathComponent) (ups : Nat) (names : List String),
        (root = [] ∨ root = [.root]) ∧
        components located = root ++ (List.replicate ups .up ++ names.map .name)) ∧
      (∀ start, walk start (components located) =
        walk (walk start (components ((parent? base).getD ""))) (components path)) ∧
      render (normalize (components located)) = located := by
  have normal := isNormal_components (join ((parent? base).getD "") path)
  rw [normalize_components_join _ relative] at normal
  have read := normal.components_render
  rw [← relocate_of_relative base relative] at read
  refine ⟨Path.relocate base path, rfl, ?_, ?_, ?_, ?_⟩
  · rw [read]
    exact normal.here_notMem
  · obtain ⟨root, ups, names, kind, shape, -⟩ := normal.exists_parts
    exact ⟨root, ups, names, kind, read.trans shape⟩
  · intro start
    rw [read, walk_normalize, walk_append]
  · rw [read, normal.normalize_eq, relocate_of_relative base relative]

/-- More steps up than the directory of the including file has names. -/
theorem relocate_file_exhausted :
    let handler : Handler Id := file fun _ => .error .notFound
    let path := "../.././../shared//x.md"
    isAbsolute path = false ∧
      handler.relocate ⟨"file", ["/docs/./guide//index.md"]⟩ ⟨"file", [path, "y"]⟩ =
        ⟨"file", ["/../shared/x.md", "y"]⟩ ∧
      components "/../shared/x.md" = [.root, .up, .name "shared", .name "x.md"] ∧
      ∀ start, walk start (components "/../shared/x.md") =
        walk (walk start (components "/docs/./guide")) (components path) := by
  intro handler path
  have relative : isAbsolute path = false := by decide +kernel
  have relocated : handler.relocate ⟨"file", ["/docs/./guide//index.md"]⟩ ⟨"file", [path, "y"]⟩ =
      ⟨"file", ["/../shared/x.md", "y"]⟩ := by decide +kernel
  have parent : (parent? "/docs/./guide//index.md").getD "" = "/docs/./guide" := by decide +kernel
  obtain ⟨located, same, -, -, leads, -⟩ := relocate_file (m := Id) (fun _ => .error .notFound)
    "/docs/./guide//index.md" path "file" [] ["y"] relative
  have found : located = "/../shared/x.md" := by
    have targets := same.symm.trans relocated
    simpa using targets
  rw [found, parent] at leads
  exact ⟨relative, relocated, by decide +kernel, leads⟩

end Handler

end Transclusion
