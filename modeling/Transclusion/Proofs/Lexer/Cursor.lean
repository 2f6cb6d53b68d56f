import Transclusion.Proofs.Lexer.Spans

/-!
# Reading calls by offsets

A reader that walks over the characters of a text cannot leave the text. One that keeps
byte offsets can: it may look behind the end, or into a character. This module has the
readers of calls in that form. Every look at the text is a slice at some offsets, and a
slice is refused if its offsets are out of range, turned around or inside a character
(`Text.from?`, `Text.slice?`). A loop that goes on at an offset which is not further on
is refused, too.

Nothing is ever refused: from every place of a text, a reader by offsets comes to what
the reader of characters comes to (`Cursor.call_eq`, and one lemma for each reader
below it).
-/

set_option autoImplicit false

namespace Transclusion

/-! ## Slices -/

namespace Text

/-- What is left of a text from an offset on; refused if the offset is out of range or
inside a character. -/
def from? (text : List Char) (offset : Nat) : Option (List Char) :=
  if IsBoundary text offset then some (onward text offset) else none

/-- The characters of a span; refused if the span is turned around or one of its ends is
out of range or inside a character. -/
def slice? (text : List Char) (span : Span) : Option (List Char) :=
  if span.start ≤ span.stop ∧ IsBoundary text span.start ∧ IsBoundary text span.stop then
    some (slice text span)
  else none

/-- The offset at which something is left of a text. -/
def placeOf (text rest : List Char) : Nat :=
  byteLength text - byteLength rest

section

variable {text input front rest : List Char} {offset : Nat}

theorem from?_eq_some_iff :
    from? text offset = some input ↔
      ∃ before, before ++ input = text ∧ byteLength before = offset := by
  unfold from?
  constructor
  · intro found
    split at found
    · next boundary =>
        cases found
        exact ⟨_, upto_append_onward text offset, boundary⟩
    · cases found
  · rintro ⟨before, rfl, rfl⟩
    rw [if_pos (isBoundary_byteLength before input), onward_byteLength]

/-- A part that is passed is left behind. -/
theorem from?_append (left : from? text offset = some (front ++ rest)) :
    from? text (offset + byteLength front) = some rest := by
  obtain ⟨before, whole, rfl⟩ := from?_eq_some_iff.1 left
  refine from?_eq_some_iff.2 ⟨before ++ front, ?_, byteLength_append before front⟩
  rw [List.append_assoc, whole]

theorem from?_cons {char : Char} (left : from? text offset = some (char :: rest)) :
    from? text (offset + char.utf8Size) = some rest :=
  from?_append (show from? text offset = some ([char] ++ rest) from left)

/-- A part that stands at an offset is the slice of its bytes. -/
theorem slice?_append (left : from? text offset = some (front ++ rest)) :
    slice? text ⟨offset, offset + byteLength front⟩ = some front := by
  obtain ⟨before, whole, rfl⟩ := from?_eq_some_iff.1 left
  rw [← List.append_assoc] at whole
  have within := Span.within_of_parts whole
  have parts := slice_parts before front rest
  rw [whole] at parts
  rw [← byteLength_append, slice?, if_pos ⟨within.ordered, within.starts, within.stops⟩, parts]

/-- What is left at an offset is left there. -/
theorem placeOf_eq (left : from? text offset = some rest) : placeOf text rest = offset := by
  obtain ⟨before, rfl, rfl⟩ := from?_eq_some_iff.1 left
  rw [placeOf, byteLength_append, Nat.add_sub_cancel_right]

theorem le_byteLength_of_from? (left : from? text offset = some rest) :
    offset + byteLength rest = byteLength text := by
  obtain ⟨before, rfl, rfl⟩ := from?_eq_some_iff.1 left
  exact (byteLength_append before rest).symm

end

end Text

/-- The outcome of reading by offsets; nothing if a slice was refused. -/
abbrev Sliced (α : Type) : Type :=
  ExceptT SyntaxError Option α

namespace Sliced

variable {α β : Type}

/-- A slice was refused. -/
def refused : Sliced α :=
  ExceptT.mk none

/-- An outcome for which no slice was refused. -/
def of (outcome : Except SyntaxError α) : Sliced α :=
  ExceptT.mk (some outcome)

theorem some_bind (value : α) (next : α → Sliced β) :
    (liftM (some value) >>= next : Sliced β) = next value :=
  rfl

theorem of_ok_bind (value : α) (next : α → Sliced β) : of (.ok value) >>= next = next value :=
  rfl

end Sliced

/-! ## Readers by offsets -/

namespace Cursor

section

variable (text : List Char)

/-- The offset behind the characters from an offset on that are accepted. -/
def passWhile (accept : Char → Bool) (offset : Nat) : Option Nat :=
  match _ : Text.from? text offset with
  | none => none
  | some [] => some offset
  | some (char :: _) =>
      if accept char then passWhile accept (offset + char.utf8Size) else some offset
termination_by Text.byteLength text - offset
decreasing_by
  have whole := Text.le_byteLength_of_from? ‹_›
  have := char.utf8Size_pos
  rw [Text.byteLength_cons] at whole
  omega

/-- The offset behind the characters from an offset on that are accepted, but no more than
a number of them. -/
def passUpTo (accept : Char → Bool) : Nat → Nat → Option Nat
  | 0, offset => some offset
  | count + 1, offset =>
      match Text.from? text offset with
      | none => none
      | some [] => some offset
      | some (char :: _) =>
          if accept char then passUpTo accept count (offset + char.utf8Size) else some offset

/-- The offset behind the trivia from an offset on. -/
def passTrivia (state : Trivia) (offset : Nat) : Option Nat :=
  match _ : Text.from? text offset with
  | none => none
  | some [] => some offset
  | some (char :: rest) =>
      match state.next char rest with
      | some following => passTrivia following (offset + char.utf8Size)
      | none => some offset
termination_by Text.byteLength text - offset
decreasing_by
  have whole := Text.le_byteLength_of_from? ‹_›
  have := char.utf8Size_pos
  rw [Text.byteLength_cons] at whole
  omega

open Literal in
/-- Reads the code of a character. -/
def unicodeEscape (offset : Nat) : Sliced (Char × Nat) := do
  let ahead ← Text.from? text offset
  if ahead.head? = some '\x7b' then
    let stop ← passWhile text isHexDigit (offset + 1)
    let digits ← Text.slice? text ⟨offset + 1, stop⟩
    let behind ← Text.from? text stop
    if behind.head? = some '\x7d' then
      match charOfHex? digits with
      | some char => return (char, stop + 1)
      | none => throw ⟨.escapeInvalid, ⟨offset, stop + 1⟩⟩
    else throw ⟨.escapeInvalid, ⟨offset, stop⟩⟩
  else
    let stop ← passUpTo text isHexDigit 4 offset
    let digits ← Text.slice? text ⟨offset, stop⟩
    if digits.length = 4 then
      match charOfHex? digits with
      | some char => return (char, stop)
      | none => throw ⟨.escapeInvalid, ⟨offset, stop⟩⟩
    else throw ⟨.escapeInvalid, ⟨offset, stop⟩⟩

/-- An offset lies further on in the text than another. -/
def Forward (offset next : Nat) : Prop :=
  offset < next ∧ next ≤ Text.byteLength text

instance (offset next : Nat) : Decidable (Forward text offset next) :=
  inferInstanceAs (Decidable (_ ∧ _))

/-- What a character of a string stands for, with the offset behind it and what belongs
to it. -/
def stringChar (opening : Nat) (char : Char) (behind : Nat) : Sliced (List Char × Nat) := do
  if char = '\\' then
    let after ← Text.from? text behind
    match after with
    | [] => throw ⟨.stringUnclosed, ⟨opening, behind⟩⟩
    | 'u' :: _ =>
        let (code, stop) ← unicodeEscape text (behind + 1)
        return ([code], stop)
    | '\n' :: _ => return ([], behind + 1)
    | other :: _ => return ([Literal.escaped other], behind + other.utf8Size)
  else return ([char], behind)

/-- Reads a string up to its closing quote. -/
def stringTail (quote : Char) (opening offset : Nat) : Sliced (List Char × Nat) := do
  let ahead ← Text.from? text offset
  match ahead with
  | [] => throw ⟨.stringUnclosed, ⟨opening, offset⟩⟩
  | char :: _ =>
      if char = quote then return ([], offset + char.utf8Size)
      else if char = '\n' ∧ !Literal.spansLines quote then
        throw ⟨.stringUnclosed, ⟨opening, offset⟩⟩
      else
        let (written, next) ← stringChar text opening char (offset + char.utf8Size)
        if _ : Forward text offset next then
          let (value, last) ← stringTail quote opening next
          return (written ++ value, last)
        else .refused
termination_by Text.byteLength text - offset
decreasing_by
  obtain ⟨later, inside⟩ := ‹Forward text offset next›
  omega

open Literal in
/-- Reads the digits of a hexadecimal number that begins at an offset. -/
def hexNumber (opening offset : Nat) : Sliced (Binary64 × Nat) := do
  let stop ← passWhile text isHexDigit offset
  let digits ← Text.slice? text ⟨offset, stop⟩
  let number := natOfDigits 16 digits
  if digits ≠ [] ∧ number < hexLimit then return (Binary64.ofRatio number 1, stop)
  else throw ⟨.numberInvalid, ⟨opening, stop⟩⟩

open Literal in
/-- Reads an exponent, if one stands there. -/
def exponent (offset : Nat) : Option (Option Int × Nat) := do
  let ahead ← Text.from? text offset
  if ahead.head? = some 'e' ∨ ahead.head? = some 'E' then
    let unsigned ← passUpTo text isSign 1 (offset + 1)
    let sign ← Text.slice? text ⟨offset + 1, unsigned⟩
    let stop ← passWhile text Char.isDigit unsigned
    let digits ← Text.slice? text ⟨unsigned, stop⟩
    let size := natOfDigits 10 digits
    return (if digits = [] then none else some (if sign = ['-'] then -(size : Int) else size), stop)
  else return (some 0, offset)

open Literal in
/-- Reads a decimal number. -/
def decimalNumber (offset : Nat) : Sliced (Binary64 × Nat) := do
  let behind ← passWhile text isDigitOrPoint offset
  let digits ← Text.slice? text ⟨offset, behind⟩
  let (power, stop) ← exponent text behind
  match power.bind (decimal? digits) with
  | some number => return (number, stop)
  | none => throw ⟨.numberInvalid, ⟨offset, stop⟩⟩

/-- Reads a number. -/
def number (offset : Nat) : Sliced (Binary64 × Nat) := do
  let ahead ← Text.from? text offset
  match ahead with
  | '0' :: 'x' :: _ => hexNumber text offset (offset + 2)
  | '0' :: 'X' :: _ => hexNumber text offset (offset + 2)
  | _ => decimalNumber text offset

/-- Reads one parameter. -/
def param (offset : Nat) : Sliced (Param × Nat) := do
  let ahead ← Text.from? text offset
  match ahead with
  | [] => throw ⟨.notAValue, .point offset⟩
  | char :: _ =>
      if Literal.isQuote char then
        let (value, stop) ← stringTail text char offset (offset + char.utf8Size)
        return (.text (String.ofList value), stop)
      else if Call.startsNumber ahead then
        let (value, stop) ← number text offset
        return (.number value, stop)
      else throw ⟨.notAValue, .point offset⟩

/-- Reads parameters up to the closing parenthesis. -/
def params (wanted : Bool) (offset : Nat) : Sliced (List Param × Nat) := do
  let start ← passTrivia text .outside offset
  let ahead ← Text.from? text start
  match ahead with
  | [] => throw ⟨.parenthesisMissing, .point start⟩
  | char :: _ =>
      if char = ')' then return ([], start + 1)
      else if char = ',' then
        if wanted then throw ⟨.valueMissing, .point start⟩
        else if _ : Forward text offset (start + 1) then params true (start + 1)
        else .refused
      else if wanted then
        let (first, stop) ← param text start
        if _ : Forward text offset stop then
          let (others, last) ← params false stop
          return (first :: others, last)
        else .refused
      else throw ⟨.commaMissing, .point start⟩
termination_by Text.byteLength text - offset
decreasing_by
  all_goals
    obtain ⟨later, inside⟩ := ‹Forward text offset _›
    omega

/-- Reads the parameter list, if a parenthesis opens one. -/
def arguments (method : Option String) (offset : Nat) : Sliced (Call × Nat) := do
  let ahead ← Text.from? text offset
  if ahead.head? = some '(' then
    let (values, stop) ← params text true (offset + 1)
    return (⟨method, values⟩, stop)
  else return (⟨method, []⟩, offset)

/-- Reads a call from the offset behind its marker on. -/
def call (offset : Nat) : Sliced (Call × Nat) := do
  let ahead ← Text.from? text offset
  if ahead.head? = some '.' then
    let stop ← passWhile text Call.isMethodChar (offset + 1)
    let method ← Text.slice? text ⟨offset + 1, stop⟩
    if method = [] then
      let behind ← Text.from? text stop
      throw ⟨.methodExpected behind.head?, .point (offset + 1)⟩
    else arguments text (some (String.ofList method)) stop
  else arguments text none offset

end

/-! ## No slice is refused -/

section

variable {text input rest : List Char} {offset : Nat} {α β : Type}

theorem passWhile_eq (accept : Char → Bool) (left : Text.from? text offset = some input) :
    passWhile text accept offset = some (offset + Text.byteLength (input.takeWhile accept)) := by
  induction input generalizing offset with
  | nil =>
      rw [passWhile]
      split
      · next none => cases left.symm.trans none
      · rfl
      · next other => cases left.symm.trans other
  | cons char rest ih =>
      rw [passWhile]
      split
      · next none => cases left.symm.trans none
      · next other => cases left.symm.trans other
      · next same =>
          cases left.symm.trans same
          by_cases accepted : accept char = true
          · rw [if_pos accepted, ih (Text.from?_cons left), List.takeWhile_cons_of_pos accepted,
              Text.byteLength_cons, Nat.add_assoc]
          · rw [if_neg accepted, List.takeWhile_cons_of_neg accepted, Text.byteLength_nil,
              Nat.add_zero]

theorem passUpTo_eq (accept : Char → Bool) (count : Nat)
    (left : Text.from? text offset = some input) :
    passUpTo text accept count offset =
      some (offset + Text.byteLength ((input.take count).takeWhile accept)) := by
  induction count generalizing input offset with
  | zero => simp [passUpTo]
  | succ count ih =>
      rw [passUpTo, left]
      cases input with
      | nil => simp
      | cons char rest =>
          simp only [List.take_succ_cons]
          by_cases accepted : accept char = true
          · rw [if_pos accepted, ih (Text.from?_cons left), List.takeWhile_cons_of_pos accepted,
              Text.byteLength_cons, Nat.add_assoc]
          · rw [if_neg accepted, List.takeWhile_cons_of_neg accepted, Text.byteLength_nil,
              Nat.add_zero]

theorem passTrivia_eq (state : Trivia) (left : Text.from? text offset = some input) :
    passTrivia text state offset = some (offset + Text.byteLength (Trivia.front state input)) := by
  induction input generalizing state offset with
  | nil =>
      rw [passTrivia]
      split
      · next none => cases left.symm.trans none
      · rfl
      · next other => cases left.symm.trans other
  | cons char rest ih =>
      rw [passTrivia]
      split
      · next none => cases left.symm.trans none
      · next other => cases left.symm.trans other
      · next same =>
          cases left.symm.trans same
          rw [Trivia.front]
          cases state.next char rest with
          | none => rfl
          | some following =>
              simp only [ih following (Text.from?_cons left), Text.byteLength_cons, Nat.add_assoc]

/-- A character of ASCII that is left at an offset takes one byte. -/
theorem from?_succ {char : Char} (single : char.utf8Size = 1)
    (left : Text.from? text offset = some (char :: rest)) :
    Text.from? text (offset + 1) = some rest :=
  single ▸ Text.from?_cons left

/-- What a reader of characters comes to, told by offsets of a text. -/
def settle (text : List Char) : Except Fault (Reading α) → Except SyntaxError (α × Nat)
  | .ok reading => .ok (reading.value, Text.placeOf text reading.rest)
  | .error fault =>
      .error ⟨fault.cause, ⟨Text.placeOf text fault.start, Text.placeOf text fault.stop⟩⟩

/-- A reading whose value is changed, with what it leaves kept, is told by the same offset. -/
theorem settle_map (change : Reading α → Reading β) (view : α → β)
    (value : ∀ reading, (change reading).value = view reading.value)
    (rest : ∀ reading, (change reading).rest = reading.rest)
    (result : Except Fault (Reading α)) :
    settle text (result.map change) =
      (settle text result).map fun read => (view read.1, read.2) := by
  cases result with
  | error fault => rfl
  | ok reading => simp only [Except.map, settle, value, rest]

/-- Characters that are passed are the slice up to the offset that is reached. -/
theorem exists_passWhile (accept : Char → Bool) (left : Text.from? text offset = some input) :
    ∃ stop, passWhile text accept offset = some stop ∧
      Text.slice? text ⟨offset, stop⟩ = some (input.takeWhile accept) ∧
      Text.from? text stop = some (input.dropWhile accept) := by
  have pass := passWhile_eq accept left
  rw [← List.takeWhile_append_dropWhile (p := accept) (l := input)] at left
  exact ⟨_, pass, Text.slice?_append left, Text.from?_append left⟩

theorem exists_passUpTo (accept : Char → Bool) (count : Nat)
    (left : Text.from? text offset = some input) :
    ∃ stop, passUpTo text accept count offset = some stop ∧
      Text.slice? text ⟨offset, stop⟩ = some ((input.take count).takeWhile accept) ∧
      Text.from? text stop = some (input.drop ((input.take count).takeWhile accept).length) := by
  have pass := passUpTo_eq accept count left
  rw [← Literal.takeWhile_take_append_drop accept count input] at left
  exact ⟨_, pass, Text.slice?_append left, Text.from?_append left⟩

theorem head?_ne_of_not_cons {list : List α} {first : α}
    (different : ∀ rest, list = first :: rest → False) : ¬ list.head? = some first := by
  intro same
  obtain ⟨rest, whole⟩ := List.head?_eq_some_iff.1 same
  exact different rest whole

theorem unicodeEscape_eq (left : Text.from? text offset = some input) :
    unicodeEscape text offset = .of (settle text (Literal.unicodeEscape input)) := by
  have here := Text.placeOf_eq left
  unfold unicodeEscape
  rw [left, Sliced.some_bind]
  fun_cases Literal.unicodeEscape input with
  | case1 braced digits rest closing char code =>
      obtain ⟨stop, pass, slice, behind⟩ :=
        exists_passWhile Literal.isHexDigit (from?_succ rfl left)
      rw [closing] at behind
      have place := Text.placeOf_eq (from?_succ rfl behind)
      simp only [List.head?_cons, if_true, pass, slice, behind, Sliced.some_bind]
      rw [code]
      simp only [settle, place]
      rfl
  | case2 braced digits rest closing code =>
      obtain ⟨stop, pass, slice, behind⟩ :=
        exists_passWhile Literal.isHexDigit (from?_succ rfl left)
      rw [closing] at behind
      have place := Text.placeOf_eq (from?_succ rfl behind)
      simp only [List.head?_cons, if_true, pass, slice, behind, Sliced.some_bind]
      rw [code]
      simp only [settle, here, place]
      rfl
  | case3 braced closing =>
      obtain ⟨stop, pass, slice, behind⟩ :=
        exists_passWhile Literal.isHexDigit (from?_succ rfl left)
      have place := Text.placeOf_eq behind
      simp only [List.head?_cons, if_true, pass, slice, behind, Sliced.some_bind]
      rw [if_neg (head?_ne_of_not_cons closing)]
      simp only [settle, here, place]
      rfl
  | case4 _ digits long char code bare =>
      obtain ⟨stop, pass, slice, behind⟩ := exists_passUpTo Literal.isHexDigit 4 left
      have place := Text.placeOf_eq behind
      rw [if_neg (head?_ne_of_not_cons bare)]
      simp only [pass, slice, Sliced.some_bind]
      rw [if_pos long, if_pos long, code]
      simp only [settle, place]
      rfl
  | case5 _ digits long code bare =>
      obtain ⟨stop, pass, slice, behind⟩ := exists_passUpTo Literal.isHexDigit 4 left
      have place := Text.placeOf_eq behind
      rw [if_neg (head?_ne_of_not_cons bare)]
      simp only [pass, slice, Sliced.some_bind]
      rw [if_pos long, if_pos long, code]
      simp only [settle, here, place]
      rfl
  | case6 _ digits short bare =>
      obtain ⟨stop, pass, slice, behind⟩ := exists_passUpTo Literal.isHexDigit 4 left
      have place := Text.placeOf_eq behind
      rw [if_neg (head?_ne_of_not_cons bare)]
      simp only [pass, slice, Sliced.some_bind]
      rw [if_neg short, if_neg short]
      simp only [settle, here, place]
      rfl

/-- Where less is left, an offset lies further on. -/
theorem forward_of_from? {next : Nat} (left : Text.from? text offset = some input)
    (later : Text.from? text next = some rest)
    (less : Text.byteLength rest < Text.byteLength input) : Forward text offset next := by
  have here := Text.le_byteLength_of_from? left
  have there := Text.le_byteLength_of_from? later
  exact ⟨by omega, by omega⟩

theorem byteLength_rest_le {reading : Reading α} (whole : reading.Of input) :
    Text.byteLength reading.rest ≤ Text.byteLength input := by
  rw [← whole, Text.byteLength_append]
  exact Nat.le_add_left _ _

/-- What a reading leaves is left behind what it took. -/
theorem from?_reading {reading : Reading α} (whole : reading.Of input)
    (left : Text.from? text offset = some input) :
    Text.from? text (Text.placeOf text reading.rest) = some reading.rest := by
  rw [← whole] at left
  have behind := Text.from?_append left
  rwa [Text.placeOf_eq behind]

/-- A string goes on behind a character and what belongs to it. -/
theorem stringTail_cons {quote char : Char} {opening next : Nat} {rest after written : List Char}
    {tail : Except Fault (Reading (List Char))}
    (left : Text.from? text offset = some (char :: rest)) (open_ : ¬ char = quote)
    (solid : ¬ (char = '\n' ∧ (!Literal.spansLines quote) = true))
    (stands : stringChar text opening char (offset + char.utf8Size) = .of (.ok (written, next)))
    (later : Text.from? text next = some after)
    (less : Text.byteLength after ≤ Text.byteLength rest)
    (others : stringTail text quote opening next = .of (settle text tail)) :
    stringTail text quote opening offset =
      .of ((settle text tail).map fun read => (written ++ read.1, read.2)) := by
  have forward : Forward text offset next := by
    refine forward_of_from? left later ?_
    have := char.utf8Size_pos
    rw [Text.byteLength_cons]
    omega
  rw [stringTail, left, Sliced.some_bind]
  simp only
  rw [if_neg open_, if_neg solid, stands, Sliced.of_ok_bind]
  simp only [forward, dite_true, others]
  cases settle text tail <;> rfl

theorem stringTail_eq {quote : Char} {opening : Nat} {start : List Char}
    (opens : Text.from? text opening = some start) (left : Text.from? text offset = some input) :
    stringTail text quote opening offset =
      .of (settle text (Literal.stringTail quote start input)) := by
  have first := Text.placeOf_eq opens
  fun_induction Literal.stringTail quote start input generalizing offset with
  | case1 =>
      rw [stringTail, left, Sliced.some_bind]
      simp only [settle, first, Text.placeOf_eq left]
      rfl
  | case2 rest =>
      rw [stringTail, left, Sliced.some_bind]
      simp only [if_true, settle, Text.placeOf_eq (Text.from?_cons left)]
      rfl
  | case3 char rest other newline =>
      rw [stringTail, left, Sliced.some_bind]
      simp only [if_neg other, if_pos newline, settle, first, Text.placeOf_eq left]
      rfl
  | case4 other solid =>
      have behind := Text.from?_cons left
      rw [stringTail, left, Sliced.some_bind]
      simp only [if_neg other, if_neg solid, stringChar, if_true, behind, Sliced.some_bind, settle,
        first, Text.placeOf_eq behind]
      rfl
  | case5 code fault refused other solid =>
      have behind := Text.from?_cons left
      have escape := unicodeEscape_eq (from?_succ rfl behind)
      rw [refused] at escape
      rw [stringTail, left, Sliced.some_bind]
      simp only [if_neg other, if_neg solid, stringChar, if_true, behind, Sliced.some_bind, escape]
      rfl
  | case6 code escape read other solid ih =>
      have behind := from?_succ rfl (Text.from?_cons left)
      have escaping := unicodeEscape_eq behind
      rw [read] at escaping
      have whole := Literal.unicodeEscape_of read
      have later := from?_reading whole behind
      rw [settle_map (Literal.prepend _ _) ([escape.value] ++ ·) (fun _ => rfl) fun _ => rfl]
      refine stringTail_cons left other solid ?_ later ?_ (ih later)
      · simp only [stringChar, if_true, Text.from?_cons left, Sliced.some_bind, escaping]
        rfl
      · have := byteLength_rest_le whole
        rw [Text.byteLength_cons]
        omega
  | case7 after other solid ih =>
      have later := from?_succ rfl (Text.from?_cons left)
      rw [settle_map (Reading.behind _) ([] ++ ·) (fun _ => rfl) fun _ => rfl]
      refine stringTail_cons left other solid ?_ later ?_ (ih later)
      · simp only [stringChar, if_true, Text.from?_cons left, Sliced.some_bind]
        rfl
      · rw [Text.byteLength_cons]
        omega
  | case8 char after bare line other solid ih =>
      have later := Text.from?_cons (Text.from?_cons left)
      rw [settle_map (Literal.prepend _ _) ([Literal.escaped char] ++ ·) (fun _ => rfl)
        fun _ => rfl]
      refine stringTail_cons left other solid ?_ later ?_ (ih later)
      · simp only [stringChar, if_true, Text.from?_cons left, Sliced.some_bind]
        rfl
      · rw [Text.byteLength_cons]
        omega
  | case9 char rest other solid plain ih =>
      have later := Text.from?_cons left
      rw [settle_map (Literal.prepend _ _) ([char] ++ ·) (fun _ => rfl) fun _ => rfl]
      refine stringTail_cons left other solid ?_ later (Nat.le_refl _) (ih later)
      rw [stringChar, if_neg plain]
      rfl

theorem hexNumber_eq {opening : Nat} {start : List Char}
    (opens : Text.from? text opening = some start) (left : Text.from? text offset = some input) :
    hexNumber text opening offset = .of (settle text (Literal.hexNumber start input)) := by
  obtain ⟨stop, pass, slice, behind⟩ := exists_passWhile Literal.isHexDigit left
  simp only [hexNumber, Literal.hexNumber, pass, slice, Sliced.some_bind]
  split
  · simp only [settle, Text.placeOf_eq behind]
    rfl
  · simp only [settle, Text.placeOf_eq opens, Text.placeOf_eq behind]
    rfl

theorem exponent_eq (left : Text.from? text offset = some input) :
    exponent text offset = some ((Literal.exponent input).value,
      Text.placeOf text (Literal.exponent input).rest) := by
  rw [exponent, left, Option.bind_eq_bind, Option.bind_some]
  cases input with
  | nil =>
      rw [if_neg (by simp)]
      simp only [Literal.exponent, Text.placeOf_eq left]
      rfl
  | cons mark rest =>
      simp only [Literal.exponent, List.head?_cons, Option.some.injEq]
      split
      · next letter =>
          have single : mark.utf8Size = 1 := by rcases letter with rfl | rfl <;> rfl
          have inside := from?_succ single left
          obtain ⟨unsigned, pass, sign, after⟩ := exists_passUpTo Literal.isSign 1 inside
          obtain ⟨stop, onward, digits, behind⟩ := exists_passWhile Char.isDigit after
          simp only [pass, sign, onward, digits, Option.bind_eq_bind, Option.bind_some,
            Text.placeOf_eq behind]
          rfl
      · simp only [Text.placeOf_eq left]
        rfl

theorem decimalNumber_eq (left : Text.from? text offset = some input) :
    decimalNumber text offset = .of (settle text (Literal.decimalNumber input)) := by
  obtain ⟨stop, pass, slice, behind⟩ := exists_passWhile Literal.isDigitOrPoint left
  simp only [decimalNumber, Literal.decimalNumber, pass, slice, Sliced.some_bind,
    exponent_eq behind]
  cases (Literal.exponent (input.dropWhile Literal.isDigitOrPoint)).value.bind
    (Literal.decimal? (input.takeWhile Literal.isDigitOrPoint)) with
  | some number => rfl
  | none =>
      simp only [settle, Text.placeOf_eq left]
      rfl

theorem settle_behind (front : List Char) (result : Except Fault (Reading α)) :
    settle text (result.map (Reading.behind front)) = settle text result := by
  cases result <;> rfl

theorem number_eq (left : Text.from? text offset = some input) :
    number text offset = .of (settle text (Literal.number input)) := by
  rw [number, left, Sliced.some_bind]
  fun_cases Literal.number input with
  | case1 digits =>
      rw [settle_behind]
      exact hexNumber_eq left (from?_succ rfl (from?_succ rfl left))
  | case2 digits =>
      rw [settle_behind]
      exact hexNumber_eq left (from?_succ rfl (from?_succ rfl left))
  | case3 _ lower upper =>
      split
      · next digits => exact absurd rfl (lower digits)
      · next digits => exact absurd rfl (upper digits)
      · exact decimalNumber_eq left

/-- A decimal number has a digit. -/
theorem taken_ne_nil_of_decimalNumber {reading : Reading Binary64}
    (read : Literal.decimalNumber input = .ok reading) : reading.taken ≠ [] := by
  simp only [Literal.decimalNumber] at read
  split at read
  · next number known =>
      cases read
      obtain ⟨power, -, value⟩ := Option.bind_eq_some_iff.1 known
      intro nothing
      rw [(List.append_eq_nil_iff.1 nothing).1] at value
      cases value
  · cases read

/-- Something is taken for every parameter. -/
theorem taken_ne_nil_of_readParam {reading : Reading Param}
    (read : Call.readParam input = .ok reading) : reading.taken ≠ [] := by
  unfold Call.readParam at read
  split at read
  · cases read
  · split at read
    · obtain ⟨value, -, rfl⟩ := Reading.eq_ok_of_map read
      exact List.cons_ne_nil _ _
    · split at read
      · obtain ⟨value, inner, rfl⟩ := Reading.eq_ok_of_map read
        unfold Literal.number at inner
        split at inner
        · obtain ⟨digits, -, rfl⟩ := Reading.eq_ok_of_map inner
          exact List.cons_ne_nil _ _
        · obtain ⟨digits, -, rfl⟩ := Reading.eq_ok_of_map inner
          exact List.cons_ne_nil _ _
        · exact taken_ne_nil_of_decimalNumber inner
      · cases read

theorem byteLength_lt_of_readParam {reading : Reading Param}
    (read : Call.readParam input = .ok reading) :
    Text.byteLength reading.rest < Text.byteLength input := by
  have whole : reading.taken ++ reading.rest = input := Call.readParam_of read
  have positive : Text.byteLength reading.taken ≠ 0 := fun empty =>
    taken_ne_nil_of_readParam read (Text.eq_nil_of_byteLength_eq_zero empty)
  rw [← whole, Text.byteLength_append]
  omega

theorem param_eq (left : Text.from? text offset = some input) :
    param text offset = .of (settle text (Call.readParam input)) := by
  rw [param, left, Sliced.some_bind]
  cases input with
  | nil =>
      simp only [Call.readParam, Fault.point, settle, Text.placeOf_eq left]
      rfl
  | cons char rest =>
      simp only [Call.readParam]
      split
      · rw [stringTail_eq left (Text.from?_cons left)]
        cases Literal.stringTail char (char :: rest) rest <;> rfl
      · split
        · rw [number_eq left]
          cases Literal.number (char :: rest) <;> rfl
        · have here := Text.placeOf_eq left
          simp only [Fault.point, settle, here]
          rfl

theorem params_eq {wanted : Bool} (left : Text.from? text offset = some input) :
    params text wanted offset = .of (settle text (Call.readParams wanted input)) := by
  have onward {offset : Nat} {input : List Char} (left : Text.from? text offset = some input) :
      ∃ start, passTrivia text .outside offset = some start ∧
        Text.from? text start = some (Trivia.skip .outside input) := by
    have pass := passTrivia_eq .outside left
    rw [← Trivia.front_append_skip .outside input] at left
    exact ⟨_, pass, Text.from?_append left⟩
  have shorter (input : List Char) :
      Text.byteLength (Trivia.skip .outside input) ≤ Text.byteLength input := by
    have whole := congrArg Text.byteLength (Trivia.front_append_skip .outside input)
    rw [Text.byteLength_append] at whole
    omega
  fun_induction Call.readParams wanted input generalizing offset with
  | case1 wanted input skipped =>
      obtain ⟨start, pass, ahead⟩ := onward left
      rw [skipped] at ahead
      rw [params, pass, Sliced.some_bind, ahead, Sliced.some_bind]
      simp only [Fault.point, settle, Text.placeOf_eq ahead]
      rfl
  | case2 wanted input rest skipped =>
      obtain ⟨start, pass, ahead⟩ := onward left
      rw [skipped] at ahead
      rw [params, pass, Sliced.some_bind, ahead, Sliced.some_bind]
      simp only [if_true, settle, Text.placeOf_eq (from?_succ rfl ahead)]
      rfl
  | case3 input rest skipped =>
      obtain ⟨start, pass, ahead⟩ := onward left
      rw [skipped] at ahead
      rw [params, pass, Sliced.some_bind, ahead, Sliced.some_bind]
      simp only [Fault.point, settle, Text.placeOf_eq ahead]
      rfl
  | case4 wanted input rest bare skipped unwanted ih =>
      obtain ⟨start, pass, ahead⟩ := onward left
      have less := shorter input
      rw [skipped] at ahead less
      have behind := from?_succ rfl ahead
      have forward : Forward text offset (start + 1) := by
        refine forward_of_from? left behind ?_
        rw [Text.byteLength_cons] at less
        have := ','.utf8Size_pos
        omega
      rw [settle_behind, ← ih behind, params, pass, Sliced.some_bind, ahead, Sliced.some_bind]
      simp only [if_neg bare, if_neg unwanted, if_true, dif_pos forward]
  | case5 input char rest skipped close comma refusal refused =>
      obtain ⟨start, pass, ahead⟩ := onward left
      rw [skipped] at ahead
      have first := param_eq ahead
      rw [refused] at first
      rw [params, pass, Sliced.some_bind, ahead, Sliced.some_bind]
      simp only [if_neg close, if_neg comma, if_true, first]
      rfl
  | case6 input char rest skipped close comma first taken ih =>
      obtain ⟨start, pass, ahead⟩ := onward left
      have less := shorter input
      rw [skipped] at ahead less
      have value := param_eq ahead
      rw [taken] at value
      have behind := from?_reading (Call.readParam_of taken) ahead
      have forward := forward_of_from? left behind
        (Nat.lt_of_lt_of_le (byteLength_lt_of_readParam taken) less)
      rw [params, pass, Sliced.some_bind, ahead, Sliced.some_bind]
      simp only [if_neg close, if_neg comma, if_true, value, settle]
      rw [Sliced.of_ok_bind]
      simp only [dif_pos forward, ih behind]
      cases Call.readParams false first.rest <;> rfl
  | case7 wanted input char rest skipped close comma unwanted =>
      obtain ⟨start, pass, ahead⟩ := onward left
      rw [skipped] at ahead
      rw [params, pass, Sliced.some_bind, ahead, Sliced.some_bind]
      simp only [if_neg close, if_neg comma, if_neg unwanted, Fault.point, settle,
        Text.placeOf_eq ahead]
      rfl

theorem arguments_eq (method : Option String) (left : Text.from? text offset = some input) :
    arguments text method offset = .of (settle text (Call.readArguments method input)) := by
  rw [arguments, left, Sliced.some_bind]
  fun_cases Call.readArguments method input with
  | case1 rest =>
      rw [List.head?_cons, if_pos rfl, params_eq (from?_succ rfl left)]
      cases Call.readParams true rest <;> rfl
  | case2 _ bare =>
      rw [if_neg (head?_ne_of_not_cons bare)]
      simp only [settle, Text.placeOf_eq left]
      rfl

/-- **A call that is read by offsets is the call that is read from the characters.** -/
theorem call_eq (left : Text.from? text offset = some input) :
    call text offset = .of (settle text (Call.read input)) := by
  rw [call, left, Sliced.some_bind]
  fun_cases Call.read input with
  | case1 named method rest nameless =>
      have inside := from?_succ rfl left
      obtain ⟨stop, pass, slice, behind⟩ := exists_passWhile Call.isMethodChar inside
      rw [List.head?_cons, if_pos rfl, pass, Sliced.some_bind, slice, Sliced.some_bind,
        if_pos nameless, behind, Sliced.some_bind]
      simp only [Fault.point, settle, Text.placeOf_eq inside]
      rfl
  | case2 named method rest nonempty =>
      obtain ⟨stop, pass, slice, behind⟩ :=
        exists_passWhile Call.isMethodChar (from?_succ rfl left)
      rw [List.head?_cons, if_pos rfl, pass, Sliced.some_bind, slice, Sliced.some_bind,
        if_neg nonempty, settle_behind, arguments_eq _ behind]
  | case3 _ bare =>
      rw [if_neg (head?_ne_of_not_cons bare), arguments_eq _ left]

end

end Cursor

end Transclusion
