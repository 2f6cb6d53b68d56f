import Transclusion.Directive.Literal
import Transclusion.Directive.Trivia
import Transclusion.Text.Word

/-!
# Calls

A call is the marker `$inline`, a method after a point, and a list of
parameters in parentheses; the method and the list may be missing. The reader
of this module takes the characters behind the marker (`Call.read`), so what it
returns depends on nothing that stands before the call. `Call.readAt` is the
same reader placed at a byte offset of a text.
-/

set_option autoImplicit false

namespace Transclusion

/-- A call as it is written. -/
structure Call where
  method : Option String
  params : List Param
deriving DecidableEq, Repr

namespace Call

/-- The characters that open a call, in any mix of cases. -/
def marker : List Char := ['$', 'i', 'n', 'l', 'i', 'n', 'e']

/-- A character of a method name. -/
def isMethodChar (char : Char) : Bool :=
  Text.isWordChar char || char == '_'

/-- Whether a number begins here: with a digit, or with a point and a digit. -/
def startsNumber : List Char → Bool
  | '.' :: char :: _ => char.isDigit
  | char :: _ => char.isDigit
  | [] => false

/-- Reads one parameter. -/
def readParam (input : List Char) : Except Fault (Reading Param) :=
  match input with
  | [] => .error (.point .notAValue input)
  | char :: rest =>
      if Literal.isQuote char then
        (Literal.stringTail char input rest).map fun tail =>
          (tail.map fun value => .text (String.ofList value)).behind [char]
      else if startsNumber input then (Literal.number input).map (Reading.map .number)
      else .error (.point .notAValue input)

theorem readParam_of {input : List Char} {reading : Reading Param}
    (read : readParam input = .ok reading) : reading.Of input := by
  unfold readParam at read
  split at read
  · simp at read
  · next char tail =>
      split at read
      · obtain ⟨value, inner, rfl⟩ := Reading.eq_ok_of_map read
        exact (Literal.stringTail_of inner).behind [char]
      · split at read
        · obtain ⟨value, inner, rfl⟩ := Reading.eq_ok_of_map read
          exact Literal.number_of inner
        · simp at read

/-- Reads parameters up to the closing parenthesis. A value is wanted at the
start and behind a comma; elsewhere only a comma or the end may follow. -/
def readParams (wanted : Bool) (input : List Char) : Except Fault (Reading (List Param)) :=
  match _ : Trivia.skip .outside input with
  | [] => .error (.point .parenthesisMissing [])
  | char :: rest =>
      if char = ')' then .ok ⟨[], Trivia.front .outside input ++ [char], rest⟩
      else if char = ',' then
        if wanted then .error (.point .valueMissing (char :: rest))
        else (readParams true rest).map (Reading.behind (Trivia.front .outside input ++ [char]))
      else if wanted then
        match _ : readParam (char :: rest) with
        | .error fault => .error fault
        | .ok first =>
            (readParams false first.rest).map fun others =>
              (others.map (first.value :: ·)).behind (Trivia.front .outside input ++ first.taken)
      else .error (.point .commaMissing (char :: rest))
termination_by 2 * input.length + wanted.toNat
decreasing_by
  · have := Trivia.length_skip_le .outside input
    simp_all
    omega
  · have skipped := Trivia.length_skip_le .outside input
    have taken := (readParam_of ‹_›).length_le
    simp_all
    omega

theorem readParams_of {wanted : Bool} {input : List Char} {reading : Reading (List Param)}
    (read : readParams wanted input = .ok reading) : reading.Of input := by
  fun_induction readParams wanted input generalizing reading with
  | case2 _ input rest skipped =>
      have whole := Trivia.front_append_skip .outside input
      rw [skipped] at whole
      simp only [Except.ok.injEq] at read
      simp [← read, Reading.Of, whole]
  | case4 _ input rest _ skipped _ ih =>
      have whole := Trivia.front_append_skip .outside input
      rw [skipped] at whole
      obtain ⟨others, inner, rfl⟩ := Reading.eq_ok_of_map read
      have extended := (ih inner).behind (Trivia.front .outside input ++ [','])
      rwa [List.append_assoc, List.singleton_append, whole] at extended
  | case6 input char tail skipped _ _ first taken ih =>
      have whole := Trivia.front_append_skip .outside input
      rw [skipped] at whole
      obtain ⟨others, inner, rfl⟩ := Reading.eq_ok_of_map read
      have extended := ((readParam_of taken).trans (ih inner)).behind (Trivia.front .outside input)
      simp only [Reading.Of, Reading.behind, Reading.map] at extended ⊢
      rw [List.append_assoc (Trivia.front .outside input), extended]
      exact whole
  | _ => simp at read

/-- Reads the parameter list, if a parenthesis opens one. -/
def readArguments (method : Option String) (input : List Char) : Except Fault (Reading Call) :=
  match input with
  | '(' :: rest =>
      (readParams true rest).map fun values => (values.map (⟨method, ·⟩)).behind ['(']
  | _ => .ok ⟨⟨method, []⟩, [], input⟩

theorem readArguments_of {method : Option String} {input : List Char} {reading : Reading Call}
    (read : readArguments method input = .ok reading) : reading.Of input := by
  unfold readArguments at read
  split at read
  · obtain ⟨values, inner, rfl⟩ := Reading.eq_ok_of_map read
    exact (readParams_of inner).behind ['(']
  · simp only [Except.ok.injEq] at read
    simp [← read, Reading.Of]

/-- Reads a call from the characters behind its marker. -/
def read (input : List Char) : Except Fault (Reading Call) :=
  match input with
  | '.' :: named =>
      let method := named.takeWhile isMethodChar
      let rest := named.dropWhile isMethodChar
      if method = [] then .error (.point (.methodExpected rest.head?) named)
      else
        (readArguments (some (String.ofList method)) rest).map (Reading.behind ('.' :: method))
  | _ => readArguments none input

/-- What a call was read from and what is left behind it make up what stood
behind its marker. -/
theorem read_of {input : List Char} {reading : Reading Call}
    (success : read input = .ok reading) : reading.Of input := by
  unfold read at success
  split at success
  · next named =>
      simp only at success
      split at success
      · simp at success
      · obtain ⟨call, inner, rfl⟩ := Reading.eq_ok_of_map success
        have extended := (readArguments_of inner).behind ('.' :: named.takeWhile isMethodChar)
        rwa [List.cons_append, List.takeWhile_append_dropWhile] at extended
  · exact readArguments_of success

/-- Reads a call whose marker stands at a byte offset, with the offset just
past the call. -/
def readAt (text : List Char) (offset : Nat) : Except SyntaxError (Call × Nat) :=
  let start := offset + Text.byteLength marker
  let input := Text.onward text start
  match read input with
  | .ok reading => .ok (reading.value, start + Text.byteLength reading.taken)
  | .error fault => .error (fault.locate input start)

end Call

end Transclusion
