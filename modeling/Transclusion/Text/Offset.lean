/-!
# Byte offsets in a text

A text is read as a list of characters, but every place in it is named by the
number of UTF-8 bytes that stand before it. This module relates the two views:
`byteLength` measures a list of characters, `upto` and `onward` cut one at a
byte offset, and an offset is a boundary when no character straddles it.

A cut at any offset loses nothing (`upto_append_onward`), and at a boundary the
first part has exactly the length asked for.
-/

set_option autoImplicit false

namespace Transclusion

/-- A half-open range of byte offsets. -/
structure Span where
  start : Nat
  stop : Nat
deriving DecidableEq, Repr, Inhabited

namespace Span

/-- The empty span at one offset. -/
def point (offset : Nat) : Span := ⟨offset, offset⟩

end Span

namespace Text

/-- The number of bytes the characters take in UTF-8. -/
def byteLength : List Char → Nat
  | [] => 0
  | char :: rest => char.utf8Size + byteLength rest

@[simp] theorem byteLength_nil : byteLength [] = 0 := rfl

@[simp] theorem byteLength_cons (char : Char) (rest : List Char) :
    byteLength (char :: rest) = char.utf8Size + byteLength rest := rfl

@[simp] theorem byteLength_append (left right : List Char) :
    byteLength (left ++ right) = byteLength left + byteLength right := by
  induction left with
  | nil => simp
  | cons char rest ih => simp [ih, Nat.add_assoc]

theorem byteLength_reverse (text : List Char) : byteLength text.reverse = byteLength text := by
  induction text with
  | nil => rfl
  | cons char rest ih => simp [ih, Nat.add_comm]

/-- The longest part of the text that ends at or before the offset. -/
def upto : List Char → Nat → List Char
  | [], _ => []
  | char :: rest, offset =>
      if char.utf8Size ≤ offset then char :: upto rest (offset - char.utf8Size) else []

/-- What follows the longest part that ends at or before the offset. -/
def onward : List Char → Nat → List Char
  | [], _ => []
  | char :: rest, offset =>
      if char.utf8Size ≤ offset then onward rest (offset - char.utf8Size) else char :: rest

/-- Cutting a text at an offset loses nothing. -/
theorem upto_append_onward (text : List Char) (offset : Nat) :
    upto text offset ++ onward text offset = text := by
  induction text generalizing offset with
  | nil => rfl
  | cons char rest ih =>
      simp only [upto, onward]
      split
      · simp [ih]
      · rfl

/-- The part before an offset is no longer than the offset. -/
theorem byteLength_upto_le (text : List Char) (offset : Nat) :
    byteLength (upto text offset) ≤ offset := by
  induction text generalizing offset with
  | nil => simp [upto]
  | cons char rest ih =>
      simp only [upto]
      split
      · have := ih (offset - char.utf8Size)
        simp only [byteLength_cons]
        omega
      · simp

@[simp] theorem upto_zero (text : List Char) : upto text 0 = [] := by
  cases text with
  | nil => rfl
  | cons char rest =>
      have := char.utf8Size_pos
      exact if_neg (by omega)

@[simp] theorem onward_zero (text : List Char) : onward text 0 = text := by
  have whole := upto_append_onward text 0
  rwa [upto_zero] at whole

/-- A cut behind a first part keeps that part. -/
theorem upto_append (front rest : List Char) (offset : Nat) :
    upto (front ++ rest) (byteLength front + offset) = front ++ upto rest offset := by
  induction front with
  | nil => simp
  | cons char front ih => simp [upto, Nat.add_assoc, ih]

/-- A cut behind a first part leaves nothing of it. -/
theorem onward_append (front rest : List Char) (offset : Nat) :
    onward (front ++ rest) (byteLength front + offset) = onward rest offset := by
  have whole := upto_append_onward (front ++ rest) (byteLength front + offset)
  rw [upto_append, List.append_assoc] at whole
  have remaining := List.append_cancel_left whole
  exact List.append_cancel_left (remaining.trans (upto_append_onward rest offset).symm)

/-- A text cut where a first part ends gives that part. -/
theorem upto_byteLength (front rest : List Char) :
    upto (front ++ rest) (byteLength front) = front := by
  simpa using upto_append front rest 0

/-- A text cut where a first part ends leaves the rest. -/
theorem onward_byteLength (front rest : List Char) :
    onward (front ++ rest) (byteLength front) = rest := by
  simpa using onward_append front rest 0

/-- An offset is a boundary when a whole number of characters stands before it. -/
def IsBoundary (text : List Char) (offset : Nat) : Prop :=
  byteLength (upto text offset) = offset

instance (text : List Char) (offset : Nat) : Decidable (IsBoundary text offset) :=
  inferInstanceAs (Decidable (_ = _))

/-- The length of a first part of a text is a boundary of the text. -/
theorem isBoundary_byteLength (front rest : List Char) :
    IsBoundary (front ++ rest) (byteLength front) := by
  rw [IsBoundary, upto_byteLength]

/-- The characters between two boundaries. -/
def slice (text : List Char) (span : Span) : List Char :=
  upto (onward text span.start) (span.stop - span.start)

/-- The characters of the line before an offset, last one first. -/
def lineBefore (text : List Char) (offset : Nat) : List Char :=
  (upto text offset).reverse.takeWhile (· ≠ '\n')

/-- The offset at which the line around an offset begins: just past the last
newline before it, or the start of the text. -/
def lineStart (text : List Char) (offset : Nat) : Nat :=
  byteLength (upto text offset) - byteLength (lineBefore text offset)

/-- What is left of a text from the start of the line around an offset on, given
what is left from the start of the line the text begins on. -/
def lineOnward (line : List Char) : List Char → Nat → List Char
  | [], _ => line
  | char :: rest, offset =>
      if char.utf8Size ≤ offset then
        lineOnward (if char = '\n' then rest else line) rest (offset - char.utf8Size)
      else line

/-- A line does not go on past a newline. -/
theorem takeWhile_append_newline (line rest : List Char) :
    (line ++ '\n' :: rest).takeWhile (· ≠ '\n') = line.takeWhile (· ≠ '\n') := by
  induction line with
  | nil => simp
  | cons char line ih => by_cases newline : char = '\n' <;> simp_all

/-- No line begins before a newline that comes before the offset. -/
theorem lineStart_append_newline (front rest : List Char) (offset : Nat) :
    lineStart (front ++ '\n' :: rest) (byteLength (front ++ ['\n']) + offset) =
      byteLength (front ++ ['\n']) + lineStart rest offset := by
  have cut := upto_append (front ++ ['\n']) rest offset
  rw [List.append_assoc, List.singleton_append] at cut
  have line : lineBefore (front ++ '\n' :: rest) (byteLength (front ++ ['\n']) + offset) =
      lineBefore rest offset := by
    rw [lineBefore, lineBefore, cut, List.append_assoc, List.reverse_append, List.reverse_append,
      List.reverse_singleton, List.append_assoc, List.singleton_append, takeWhile_append_newline]
  have within : byteLength (lineBefore rest offset) ≤ byteLength (upto rest offset) := by
    have whole := congrArg byteLength
      (List.takeWhile_append_dropWhile (p := (· ≠ '\n')) (l := (upto rest offset).reverse))
    rw [byteLength_append, byteLength_reverse] at whole
    simp only [lineBefore]
    omega
  rw [lineStart, line, cut, byteLength_append, lineStart]
  omega

/-- On the first line of a text every offset has the start of the text as its
line start. -/
theorem lineStart_eq_zero {text : List Char} {offset : Nat} (same : '\n' ∉ upto text offset) :
    lineStart text offset = 0 := by
  have all : lineBefore text offset = (upto text offset).reverse := by
    have solid : ∀ char ∈ (upto text offset).reverse, decide (char ≠ '\n') = true := by
      intro char member
      rw [decide_eq_true_iff]
      rintro rfl
      exact same (List.mem_reverse.1 member)
    have whole : ((upto text offset).reverse ++ []).takeWhile (· ≠ '\n') = _ :=
      List.takeWhile_append_of_pos solid
    simpa [lineBefore] using whole
  rw [lineStart, all, byteLength_reverse, Nat.sub_self]

/-- Going through a text that begins within a line gives what a cut at the line
start gives. -/
theorem lineOnward_append (current text : List Char) (offset : Nat) (same : '\n' ∉ current) :
    lineOnward (current ++ text) text offset =
      onward (current ++ text) (lineStart (current ++ text) (byteLength current + offset)) := by
  induction text generalizing current offset with
  | nil =>
      have first : '\n' ∉ upto (current ++ []) (byteLength current + offset) := by
        rw [upto_append, upto, List.append_nil]
        exact same
      rw [lineStart_eq_zero first, onward_zero, lineOnward]
  | cons char rest ih =>
      by_cases passed : char.utf8Size ≤ offset
      · rw [lineOnward, if_pos passed]
        by_cases newline : char = '\n'
        · subst newline
          have moved : byteLength current + offset =
              byteLength (current ++ ['\n']) + (offset - '\n'.utf8Size) := by
            rw [byteLength_append, byteLength_cons, byteLength_nil]
            omega
          have cut := onward_append (current ++ ['\n']) rest
            (lineStart rest (offset - '\n'.utf8Size))
          rw [List.append_assoc, List.singleton_append] at cut
          have tail := ih [] (offset - '\n'.utf8Size) (by simp)
          rw [List.nil_append, byteLength_nil, Nat.zero_add] at tail
          rw [if_pos rfl, moved, lineStart_append_newline, cut, tail]
        · have tail := ih (current ++ [char]) (offset - char.utf8Size)
            (by simpa using ⟨same, Ne.symm newline⟩)
          have moved : byteLength current + offset =
              byteLength (current ++ [char]) + (offset - char.utf8Size) := by
            rw [byteLength_append, byteLength_cons, byteLength_nil]
            omega
          rw [if_neg newline, moved]
          rwa [List.append_assoc, List.singleton_append] at tail
      · have first : '\n' ∉ upto (current ++ char :: rest) (byteLength current + offset) := by
          rw [upto_append, upto, if_neg passed, List.append_nil]
          exact same
        rw [lineStart_eq_zero first, onward_zero, lineOnward, if_neg passed]

/-- Going through a text from its start gives what a cut at the line start
gives. -/
theorem lineOnward_self (text : List Char) (offset : Nat) :
    lineOnward text text offset = onward text (lineStart text offset) := by
  simpa using lineOnward_append [] text offset (by simp)

/-- The offset of the first newline at or after an offset, or the end of the text. -/
def lineStop (text : List Char) (offset : Nat) : Nat :=
  byteLength (upto text offset) + byteLength ((onward text offset).takeWhile (· ≠ '\n'))

/-- The line around an offset, without the newlines on either side. -/
def lineSpan (text : List Char) (offset : Nat) : Span :=
  ⟨lineStart text offset, lineStop text offset⟩

/-- The number of the line around an offset, the first line being line one. -/
def lineNumber (text : List Char) (offset : Nat) : Nat :=
  (upto text offset).count '\n' + 1

/-- The number of the column at an offset, in characters, the first column being
column one. -/
def columnNumber (text : List Char) (offset : Nat) : Nat :=
  (lineBefore text offset).length + 1

end Text

end Transclusion
