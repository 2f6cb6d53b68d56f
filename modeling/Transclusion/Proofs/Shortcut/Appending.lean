import Transclusion.Proofs.Pipe.Seam
import Transclusion.Shortcut.Scope

/-!
# Transforms behind a shortcut

A chain whose head names a shortcut is expanded to one text: the expansion of the
head alone, a bar and the transforms as they are written. The text is read again, so
whether the transforms arrive at the expansion unchanged is a question about the
place where the two meet, and about the written transforms (`Scope.parse_expand_iff`).

An expansion to which nothing can be appended is one that ends in a delimiter or in a
backslash. The empty expansion is one of them, except for transforms that are blank
themselves.
-/

set_option autoImplicit false

namespace Transclusion

namespace Scope

variable {scope : Scope} {source : Option Target} {head : Segment} {transforms : List Segment}

/-- A head that names a shortcut is expanded with any transforms behind it. -/
theorem exists_expand {shortcut : Shortcut} (found : scope.lookup head.name = some shortcut)
    (source : Option Target) (transforms : List Segment) :
    ∃ bare whole, scope.expand source [head] = some bare ∧
      scope.expand source (head :: transforms) = some whole ∧
      whole = if transforms = [] then bare else bare ++ "|" ++ Pipe.render transforms := by
  refine ⟨shortcut.expand source head.args, _, ?_, ?_, rfl⟩
  · rw [expand, found]
    rfl
  · rw [expand, found]
    rfl

/-- **A shortcut keeps the transforms of an invocation, and its own expansion with them,
exactly if there are none, or the expansion is complete and the transforms can be
written, or a name is missing from the expansion and the transforms are blank.** Transforms
can be written if none of their pieces but the last ends in a backslash and the last is
not empty. -/
theorem parse_expand_iff {text : String} {shortcut : Shortcut} (source : Option Target)
    (read : Pipe.parse text = head :: transforms)
    (found : scope.lookup head.name = some shortcut) :
    ∃ bare whole, scope.expand source [head] = some bare ∧
      scope.expand source (head :: transforms) = some whole ∧
      (Pipe.parse whole = Pipe.parse bare ++ transforms ↔
        transforms = [] ∨
        (Pipe.Complete bare.toList ∧
          (∀ piece ∈ (transforms.flatMap Segment.pieces).dropLast,
            piece.toList.getLast? ≠ some '\\') ∧
          (transforms.flatMap Segment.pieces).getLast? ≠ some "") ∨
        (Pipe.lastPart .name bare.toList = (.name, []) ∧
          ∀ segment ∈ transforms, segment = Pipe.blank)) := by
  obtain ⟨bare, whole, alone, expanded, shape⟩ := exists_expand found source transforms
  refine ⟨bare, whole, alone, expanded, ?_⟩
  cases transforms with
  | nil =>
      rw [shape, if_pos rfl, List.append_nil]
      exact iff_of_true rfl (.inl rfl)
  | cons segment rest =>
      have trimmed : ∀ piece ∈ (segment :: rest).flatMap Segment.pieces,
          Text.trim piece.toList = piece.toList := by
        intro piece member
        have among : piece ∈ (Pipe.parse text).flatMap Segment.pieces := by
          rw [read, List.flatMap_cons]
          exact List.mem_append_right _ member
        exact Text.trim_eq_self_iff.2 (Pipe.trimmed_of_mem_readSegments among)
      have written : whole.toList =
          bare.toList ++ '|' :: (Pipe.render (segment :: rest)).toList := by
        rw [shape, if_neg (List.cons_ne_nil segment rest), String.toList_append,
          String.toList_append, List.append_assoc]
        rfl
      rw [Pipe.parse, Pipe.parse, written, Pipe.readSegments_append_iff, Pipe.stable_iff,
        and_iff_right trimmed, or_iff_right (List.cons_ne_nil segment rest)]

/-- A shortcut with a transform of its own keeps a transform whose arguments hold a comma and
end in a backslash. -/
theorem parse_expand_iff_template :
    let scope := empty.add ⟨"m", .template "file:$1|prefix:p"⟩
    let transforms : List Segment := [⟨"suffix", ["x,y", "z\\"]⟩]
    ∃ bare whole, scope.expand none [⟨"m", ["a"]⟩] = some bare ∧
      scope.expand none (⟨"m", ["a"]⟩ :: transforms) = some whole ∧
      Pipe.parse whole = Pipe.parse bare ++ transforms := by
  intro scope transforms
  have read : Pipe.parse "m:a | suffix : x\\,y, z\\" = ⟨"m", ["a"]⟩ :: transforms := by
    decide +kernel
  have found : scope.lookup "m" = some ⟨"m", .template "file:$1|prefix:p"⟩ := rfl
  obtain ⟨bare, whole, alone, expanded, same⟩ := parse_expand_iff none read found
  refine ⟨bare, whole, alone, expanded, same.2 (.inr (.inl ⟨?_, ?_, ?_⟩))⟩
  · have text : bare = "file:a|prefix:p" := Option.some.inj (alone.symm.trans (by decide +kernel))
    rw [text]
    exact ⟨by decide +kernel, by decide +kernel⟩
  · decide +kernel
  · decide +kernel

/-- A shortcut whose expansion ends in a backslash takes a transform of its invocation into
its own argument. -/
theorem expand_backslash_transform :
    let scope := empty.add ⟨"m", .template "text:a\\"⟩
    let transforms : List Segment := [⟨"suffix", ["x"]⟩]
    Pipe.parse "m|suffix:x" = ⟨"m", []⟩ :: transforms ∧
      scope.expand none [⟨"m", []⟩] = some "text:a\\" ∧
      scope.expand none (⟨"m", []⟩ :: transforms) = some "text:a\\|suffix:x" ∧
      Pipe.parse "text:a\\|suffix:x" = [⟨"text", ["a|suffix:x"]⟩] ∧
      Pipe.parse "text:a\\|suffix:x" ≠ Pipe.parse "text:a\\" ++ transforms := by
  refine ⟨?_, ?_, ?_, ?_, ?_⟩ <;> decide +kernel

end Scope

end Transclusion
