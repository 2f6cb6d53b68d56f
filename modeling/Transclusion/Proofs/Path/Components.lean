import Transclusion.Path
import Mathlib.Data.List.DropRight

/-!
# The text of a path and its components

A path is read by cutting it at its slashes, after the slash of the root or the point in
front of it was taken off. Pieces that are joined by slashes are found again
(`pieces_intercalate`), and only a piece that means nothing could be taken for a root or a
point at the front (`front_eq_self_iff`). So the components of a text that was put together
from pieces are known, and so are those of a path inside a directory (`components_join`).
-/

set_option autoImplicit false

namespace Transclusion

namespace Path

/-! ## Pieces -/

theorem pieces_slash (rest : List Char) : pieces ('/' :: rest) = [] :: pieces rest := by
  rw [pieces, if_pos rfl]

theorem pieces_eq_splitOn (text : List Char) : pieces text = text.splitOn '/' := by
  induction text with
  | nil => rw [List.splitOn_nil, pieces]
  | cons char rest ih =>
      rw [pieces, List.splitOn_cons_eq_if_modifyHead, ih]
      by_cases slash : char = '/'
      · simp [slash]
      · obtain ⟨first, others, shape⟩ := List.exists_cons_of_ne_nil (List.splitOn_ne_nil '/' rest)
        simp [slash, shape]

theorem pieces_ne_nil (text : List Char) : pieces text ≠ [] := by
  rw [pieces_eq_splitOn]
  exact List.splitOn_ne_nil '/' text

/-- A character that is no slash belongs to the first piece. -/
theorem pieces_cons {char : Char} (solid : char ≠ '/') (rest : List Char) :
    ∃ first others, pieces rest = first :: others ∧
      pieces (char :: rest) = (char :: first) :: others := by
  obtain ⟨first, others, shape⟩ := List.exists_cons_of_ne_nil (pieces_ne_nil rest)
  refine ⟨first, others, shape, ?_⟩
  rw [pieces, if_neg solid, shape]

/-- A slash divides the pieces before it from those behind it. -/
theorem pieces_append_slash (front rest : List Char) :
    pieces (front ++ '/' :: rest) = pieces front ++ pieces rest := by
  simp only [pieces_eq_splitOn]
  exact List.splitOnP_append_cons front rest (beq_self_eq_true '/')

theorem slash_notMem_of_mem_pieces {text piece : List Char} (member : piece ∈ pieces text) :
    '/' ∉ piece := by
  induction text generalizing piece with
  | nil => simp_all [pieces]
  | cons char rest ih =>
      by_cases slash : char = '/'
      · subst slash
        rw [pieces_slash] at member
        rcases List.mem_cons.1 member with rfl | later
        · exact List.not_mem_nil
        · exact ih later
      · obtain ⟨first, others, shape, whole⟩ := pieces_cons slash rest
        rw [whole] at member
        rw [shape] at ih
        rcases List.mem_cons.1 member with rfl | later
        · rw [List.mem_cons, not_or]
          exact ⟨Ne.symm slash, ih List.mem_cons_self⟩
        · exact ih (List.mem_cons_of_mem first later)

/-- Pieces that are joined by slashes are found again. -/
theorem pieces_intercalate {list : List (List Char)} (nonempty : list ≠ [])
    (solid : ∀ piece ∈ list, '/' ∉ piece) : pieces (['/'].intercalate list) = list := by
  rw [pieces_eq_splitOn]
  exact List.splitOn_intercalate '/' solid nonempty

/-- The components of pieces that are joined by slashes. -/
theorem filterMap_pieces_intercalate {list : List (List Char)}
    (solid : ∀ piece ∈ list, '/' ∉ piece) :
    (pieces (['/'].intercalate list)).filterMap PathComponent.ofPiece? =
      list.filterMap PathComponent.ofPiece? := by
  cases list with
  | nil => rfl
  | cons first others => rw [pieces_intercalate (List.cons_ne_nil _ _) solid]

/-! ## Pieces without a meaning -/

theorem ofPiece?_eq_none_iff {piece : List Char} :
    PathComponent.ofPiece? piece = none ↔ isVoid piece = true := by
  simp only [PathComponent.ofPiece?, isVoid, Bool.or_eq_true, beq_iff_eq]
  split
  · next void => simp [void]
  · next filled => split <;> simp [filled]

theorem dropVoidEnd_eq_rdropWhile (list : List (List Char)) :
    dropVoidEnd list = list.rdropWhile isVoid := rfl

/-! ## The front of a path -/

/-- The root is taken off the front of a path that begins with a slash, and a point or nothing
off any other. -/
theorem front_cases (text : List Char) :
    (text.head? = some '/' ∧ (front text).1 = [.root]) ∨
      (text.head? ≠ some '/' ∧ ((front text).1 = [] ∨ (front text).1 = [.here])) := by
  fun_cases front text with
  | case1 rest => exact .inl ⟨rfl, rfl⟩
  | case2 => exact .inr ⟨by simp, .inr rfl⟩
  | case3 rest => exact .inr ⟨by simp, .inr rfl⟩
  | case4 _ slash =>
      refine .inr ⟨fun head => ?_, .inl rfl⟩
      obtain ⟨rest, whole⟩ := List.head?_eq_some_iff.1 head
      exact slash rest whole

/-- Nothing is taken off the front of a path exactly if its first piece means something. -/
theorem front_eq_self_iff (text : List Char) :
    front text = ([], text) ↔ text = [] ∨ ∀ first ∈ (pieces text).head?, isVoid first = false := by
  fun_cases front text with
  | case1 rest =>
      refine iff_of_false (by simp) ?_
      simp [pieces_slash, isVoid]
  | case2 => exact iff_of_false (by simp) (by decide)
  | case3 rest =>
      refine iff_of_false (by simp) ?_
      simp [pieces, isVoid]
  | case4 _ slash point pointed =>
      refine iff_of_true rfl ?_
      cases text with
      | nil => exact .inl rfl
      | cons char rest =>
          have solid : char ≠ '/' := fun same => slash rest (same ▸ rfl)
          obtain ⟨first, others, shape, whole⟩ := pieces_cons solid rest
          refine .inr fun other member => ?_
          rw [whole] at member
          cases member
          by_contra void
          have dotted : char = '.' ∧ first = [] := by simpa [isVoid] using void
          obtain ⟨rfl, rfl⟩ := dotted
          cases rest with
          | nil => exact point rfl
          | cons next rest =>
              by_cases slashed : next = '/'
              · exact pointed rest (slashed ▸ rfl)
              · obtain ⟨_, _, _, again⟩ := pieces_cons slashed rest
                rw [again] at shape
                cases shape

/-- What is taken off the front of a path is taken off it before a slash, too. -/
theorem front_append_slash {text body : List Char} {first : List PathComponent}
    (split : front text = (first, body)) (filled : text ≠ []) (rest : List Char) :
    front (text ++ '/' :: rest) = (first, body ++ '/' :: rest) := by
  have bare (self : front text = ([], text)) :
      front (text ++ '/' :: rest) = ([], text ++ '/' :: rest) := by
    rw [front_eq_self_iff] at self ⊢
    refine .inr fun piece member => self.resolve_left filled piece ?_
    rw [pieces_append_slash, List.head?_append_of_ne_nil _ (pieces_ne_nil text)] at member
    exact member
  revert split bare
  fun_cases front text with
  | case1 | case2 | case3 =>
      rintro ⟨⟩ -
      rfl
  | case4 =>
      rintro ⟨⟩ bare
      exact bare rfl

/-! ## The components of a text -/

theorem components_of_front {path : String} {first : List PathComponent} {body : List Char}
    (split : front path.toList = (first, body)) :
    components path = first ++ (pieces body).filterMap PathComponent.ofPiece? := by
  rw [components, split]

/-- A relative path has the components of its pieces, maybe behind a point. -/
theorem components_of_relative {path : String} (relative : isAbsolute path = false) :
    components path = (pieces path.toList).filterMap PathComponent.ofPiece? ∨
      components path = .here :: (pieces path.toList).filterMap PathComponent.ofPiece? := by
  have solid : path.toList.head? ≠ some '/' := by simpa [isAbsolute] using relative
  rw [components]
  generalize path.toList = text at solid
  fun_cases front text with
  | case1 => exact absurd rfl solid
  | case2 => exact .inr rfl
  | case3 => exact .inr (by simp [pieces, PathComponent.ofPiece?])
  | case4 => exact .inl rfl

/-- The components of a path before a slash and of the pieces behind it. -/
theorem components_append_slash {path : String} (filled : path ≠ "") (rest : String) :
    components (path ++ "/" ++ rest) =
      components path ++ (pieces rest.toList).filterMap PathComponent.ofPiece? := by
  cases split : front path.toList with
  | mk first body =>
      have longer := front_append_slash split (by simpa using filled) rest.toList
      have whole : front (path ++ "/" ++ rest).toList = (first, body ++ '/' :: rest.toList) := by
        rw [← longer, String.toList_append, String.toList_append, List.append_assoc]
        rfl
      rw [components_of_front split, components_of_front whole, pieces_append_slash,
        List.filterMap_append, List.append_assoc]

/-- A slash at the end of a directory divides as well. -/
theorem components_append_of_slash {directory : String}
    (slash : directory.toList.getLast? = some '/') (rest : String) :
    components (directory ++ rest) =
      components directory ++ (pieces rest.toList).filterMap PathComponent.ofPiece? := by
  obtain ⟨outer, shape⟩ := List.getLast?_eq_some_iff.1 slash
  obtain rfl : directory = String.ofList outer ++ "/" := by
    rw [← String.toList_inj]
    simp [shape]
  by_cases root : outer = []
  · subst root
    have split : front ("/" ++ rest).toList = ([.root], rest.toList) := by
      rw [String.toList_append]
      rfl
    exact components_of_front split
  · have filled : String.ofList outer ≠ "" := by simpa using root
    have alone := components_append_slash filled ""
    rw [String.append_empty] at alone
    rw [components_append_slash filled, alone]
    simp [pieces, PathComponent.ofPiece?]

/-- **The components of a path inside a directory** are those of the directory and of the
pieces of the path. -/
theorem components_join {directory path : String} (filled : directory ≠ "")
    (relative : isAbsolute path = false) :
    components (join directory path) =
      components directory ++ (pieces path.toList).filterMap PathComponent.ofPiece? := by
  rw [join, if_neg (by simp [filled, relative])]
  split
  · next slash => exact components_append_of_slash slash path
  · exact components_append_slash filled path

end Path

end Transclusion
