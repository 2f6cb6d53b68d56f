import Transclusion.Text.Offset

/-!
# Places in a text

A reader that goes through a text from left to right keeps its place: the
offset it has come to and the offset at which the line it is on begins. Both
follow from the characters passed so far (`Place.past`), whatever comes after
them: the offset is their length (`offset_past`), and the line begins where
`Text.lineStart` says it does (`lineStart_past_start`).
-/

set_option autoImplicit false

namespace Transclusion

/-- An offset and the offset at which its line begins. -/
structure Place where
  offset : Nat
  lineStart : Nat
deriving DecidableEq, Repr

namespace Place

/-- The start of a text. -/
def start : Place := ⟨0, 0⟩

/-- The place behind a character. -/
def next (place : Place) (char : Char) : Place :=
  let offset := place.offset + char.utf8Size
  ⟨offset, if char = '\n' then offset else place.lineStart⟩

/-- The place behind some characters. -/
def past (place : Place) (text : List Char) : Place :=
  text.foldl next place

@[simp] theorem past_nil (place : Place) : place.past [] = place := rfl

@[simp] theorem past_cons (place : Place) (char : Char) (rest : List Char) :
    place.past (char :: rest) = (place.next char).past rest := rfl

theorem past_append (place : Place) (left right : List Char) :
    place.past (left ++ right) = (place.past left).past right :=
  List.foldl_append

/-- Passing characters adds their length to the offset. -/
theorem offset_past (place : Place) (text : List Char) :
    (place.past text).offset = place.offset + Text.byteLength text := by
  induction text generalizing place with
  | nil => rfl
  | cons char rest ih => simp [ih, next, Nat.add_assoc]

/-- The line at a place begins behind the last newline that was passed. -/
theorem lineStart_past_reverse (reversed : List Char) :
    (start.past reversed.reverse).lineStart + Text.byteLength (reversed.takeWhile (· ≠ '\n')) =
      Text.byteLength reversed.reverse := by
  induction reversed with
  | nil => rfl
  | cons char rest ih =>
      rw [List.reverse_cons, past_append, Text.byteLength_append]
      by_cases newline : char = '\n'
      · simp [newline, next, offset_past, start]
      · rw [List.takeWhile_cons_of_pos (by simpa using newline)]
        simp only [past_cons, past_nil, next, newline, if_false, Text.byteLength_cons,
          Text.byteLength_nil]
        omega

/-- The line at a place reached from the start begins where the line around its
offset does. -/
theorem lineStart_past_start (before rest : List Char) :
    (start.past before).lineStart =
      Text.lineStart (before ++ rest) (Text.byteLength before) := by
  have passed := lineStart_past_reverse before.reverse
  rw [List.reverse_reverse] at passed
  rw [Text.lineStart, Text.lineBefore, Text.upto_byteLength]
  omega

end Place

end Transclusion
