import Transclusion.Directive.Reading

/-!
# String and number literals

A string stands between two equal quotes. Only a string between backquotes may
contain a newline. A number is hexadecimal after `0x`, otherwise decimal with
an optional point and exponent.
-/

set_option autoImplicit false

namespace Transclusion

namespace Literal

/-- A hexadecimal digit. -/
def isHexDigit (char : Char) : Bool :=
  char.isDigit || ('a' ≤ char && char ≤ 'f') || ('A' ≤ char && char ≤ 'F')

/-- The value of a hexadecimal digit. -/
def hexDigitValue (char : Char) : Nat :=
  if char.isDigit then char.toNat - 48
  else if 'a' ≤ char then char.toNat - 87
  else char.toNat - 55

/-- The number written with some digits in a base. -/
def natOfDigits (base : Nat) (digits : List Char) : Nat :=
  digits.foldl (fun number digit => base * number + hexDigitValue digit) 0

/-! ## Strings -/

/-- The quotes a string may stand between. -/
def isQuote (char : Char) : Bool :=
  char == '\x27' || char == '\x22' || char == '\x60'

/-- Whether a string between these quotes may contain a newline. -/
def spansLines (quote : Char) : Bool :=
  quote == '\x60'

/-- The character with a hexadecimal code, if there is one. -/
def charOfHex? (digits : List Char) : Option Char :=
  let code := natOfDigits 16 digits
  if digits ≠ [] ∧ code.isValidChar then some (Char.ofNat code) else none

/-- Reads the code of a character behind a backslash and `u`: digits in braces,
or four digits. -/
def unicodeEscape (input : List Char) : Except Fault (Reading Char) :=
  match input with
  | '\x7b' :: braced =>
      let digits := braced.takeWhile isHexDigit
      match braced.dropWhile isHexDigit with
      | '\x7d' :: rest =>
          match charOfHex? digits with
          | some char => .ok ⟨char, '\x7b' :: (digits ++ ['\x7d']), rest⟩
          | none => .error ⟨.escapeInvalid, input, rest⟩
      | rest => .error ⟨.escapeInvalid, input, rest⟩
  | _ =>
      let digits := (input.take 4).takeWhile isHexDigit
      let rest := input.drop digits.length
      if digits.length = 4 then
        match charOfHex? digits with
        | some char => .ok ⟨char, digits, rest⟩
        | none => .error ⟨.escapeInvalid, input, rest⟩
      else .error ⟨.escapeInvalid, input, rest⟩

/-- Digits in front of a text and what is left behind them make up the text. -/
theorem takeWhile_take_append_drop (accept : Char → Bool) (count : Nat) (input : List Char) :
    (input.take count).takeWhile accept ++
      input.drop ((input.take count).takeWhile accept).length = input := by
  have whole : (input.take count).takeWhile accept <+: input :=
    (List.takeWhile_prefix _).trans (List.take_prefix _ _)
  obtain ⟨tail, equation⟩ := whole
  generalize (input.take count).takeWhile accept = front at equation
  simp [← equation]

theorem unicodeEscape_of {input : List Char} {reading : Reading Char}
    (read : unicodeEscape input = .ok reading) : reading.Of input := by
  unfold unicodeEscape at read
  split at read
  · next braced =>
      simp only at read
      split at read
      · next rest closing =>
          split at read
          · simp only [Except.ok.injEq] at read
            have whole := List.takeWhile_append_dropWhile (p := isHexDigit) (l := braced)
            rw [closing] at whole
            simp [← read, Reading.Of, whole]
          · simp at read
      · simp at read
  · simp only at read
    split at read
    · split at read
      · simp only [Except.ok.injEq] at read
        exact read ▸ takeWhile_take_append_drop isHexDigit 4 input
      · simp at read
    · simp at read

/-- What a character stands for behind a backslash. -/
def escaped (char : Char) : Char :=
  match char with
  | 'n' => '\n'
  | 't' => '\t'
  | 'r' => '\r'
  | 'b' => '\x08'
  | 'f' => '\x0c'
  | 'v' => '\x0b'
  | '0' => '\x00'
  | _ => char

/-- Puts a character, read from the given text, in front of the string that was
read behind it. -/
def prepend (char : Char) (written : List Char) (tail : Reading (List Char)) :
    Reading (List Char) :=
  (tail.map (char :: ·)).behind written

/-- Reads a string up to its closing quote. The place of the opening quote is
where a string that never closes is reported. -/
def stringTail (quote : Char) (opening : List Char) (input : List Char) :
    Except Fault (Reading (List Char)) :=
  match input with
  | [] => .error ⟨.stringUnclosed, opening, []⟩
  | char :: rest =>
      if char = quote then .ok ⟨[], [char], rest⟩
      else if char = '\n' ∧ !spansLines quote then .error ⟨.stringUnclosed, opening, char :: rest⟩
      else if char = '\\' then
        match rest with
        | [] => .error ⟨.stringUnclosed, opening, []⟩
        | 'u' :: code =>
            match _ : unicodeEscape code with
            | .error fault => .error fault
            | .ok escape =>
                (stringTail quote opening escape.rest).map
                  (prepend escape.value (char :: 'u' :: escape.taken))
        | '\n' :: after => (stringTail quote opening after).map (Reading.behind [char, '\n'])
        | other :: after =>
            (stringTail quote opening after).map (prepend (escaped other) [char, other])
      else (stringTail quote opening rest).map (prepend char [char])
termination_by input.length
decreasing_by
  · have := (unicodeEscape_of ‹_›).length_le
    simp only [List.length_cons]
    omega
  all_goals simp only [List.length_cons]; omega

theorem stringTail_of {quote : Char} {opening input : List Char} {reading : Reading (List Char)}
    (read : stringTail quote opening input = .ok reading) : reading.Of input := by
  fun_induction stringTail quote opening input generalizing reading with
  | case2 tail =>
      simp only [Except.ok.injEq] at read
      simp [← read, Reading.Of]
  | case6 code escape escaping _ _ ih =>
      obtain ⟨tail, inner, rfl⟩ := Reading.eq_ok_of_map read
      exact ((unicodeEscape_of escaping).trans (ih inner)).behind ['\\', 'u']
  | case7 after _ _ ih =>
      obtain ⟨tail, inner, rfl⟩ := Reading.eq_ok_of_map read
      exact (ih inner).behind ['\\', '\n']
  | case8 other after _ _ _ _ ih =>
      obtain ⟨tail, inner, rfl⟩ := Reading.eq_ok_of_map read
      exact (ih inner).behind ['\\', other]
  | case9 char tail _ _ _ ih =>
      obtain ⟨value, inner, rfl⟩ := Reading.eq_ok_of_map read
      exact (ih inner).behind [char]
  | _ => simp at read

/-! ## Numbers -/

/-- The largest hexadecimal number. -/
def hexLimit : Nat := Nat.pow 2 64

/-- Reads the digits behind `0x` in a number that begins at `opening`. -/
def hexNumber (opening input : List Char) : Except Fault (Reading Binary64) :=
  let digits := input.takeWhile isHexDigit
  let rest := input.dropWhile isHexDigit
  let number := natOfDigits 16 digits
  if digits ≠ [] ∧ number < hexLimit then .ok ⟨Binary64.ofRatio number 1, digits, rest⟩
  else .error ⟨.numberInvalid, opening, rest⟩

/-- The number written by digits with at most one point among them, times a
power of ten. -/
def decimal? (digits : List Char) (exponent : Int) : Option Binary64 :=
  let whole := digits.takeWhile (· ≠ '.')
  let fraction := (digits.dropWhile (· ≠ '.')).drop 1
  if whole ++ fraction = [] ∨ '.' ∈ fraction then none
  else some (Binary64.ofDecimal (natOfDigits 10 (whole ++ fraction)) (exponent - fraction.length))

/-- A sign. -/
def isSign (char : Char) : Bool :=
  char == '+' || char == '-'

/-- Reads an exponent, if one stands there. An exponent without digits has no
value. -/
def exponent (input : List Char) : Reading (Option Int) :=
  match input with
  | mark :: rest =>
      if mark = 'e' ∨ mark = 'E' then
        let sign := (rest.take 1).takeWhile isSign
        let unsigned := rest.drop sign.length
        let digits := unsigned.takeWhile Char.isDigit
        let size := natOfDigits 10 digits
        ⟨if digits = [] then none else some (if sign = ['-'] then -(size : Int) else size),
          mark :: (sign ++ digits), unsigned.dropWhile Char.isDigit⟩
      else ⟨some 0, [], input⟩
  | [] => ⟨some 0, [], []⟩

/-- A character that may stand before the exponent of a number. -/
def isDigitOrPoint (char : Char) : Bool :=
  char.isDigit || char == '.'

/-- Reads a decimal number. -/
def decimalNumber (input : List Char) : Except Fault (Reading Binary64) :=
  let digits := input.takeWhile isDigitOrPoint
  let tail := exponent (input.dropWhile isDigitOrPoint)
  match tail.value.bind (decimal? digits) with
  | some number => .ok ⟨number, digits ++ tail.taken, tail.rest⟩
  | none => .error ⟨.numberInvalid, input, tail.rest⟩

/-- Reads a number. -/
def number (input : List Char) : Except Fault (Reading Binary64) :=
  match input with
  | '0' :: 'x' :: digits => (hexNumber input digits).map (Reading.behind ['0', 'x'])
  | '0' :: 'X' :: digits => (hexNumber input digits).map (Reading.behind ['0', 'X'])
  | _ => decimalNumber input

theorem hexNumber_of {opening input : List Char} {reading : Reading Binary64}
    (read : hexNumber opening input = .ok reading) : reading.Of input := by
  simp only [hexNumber] at read
  split at read
  · simp only [Except.ok.injEq] at read
    simp [← read, Reading.Of]
  · simp at read

theorem exponent_of (input : List Char) : (exponent input).Of input := by
  unfold exponent
  split
  · next mark rest =>
      split
      · simp only [Reading.Of, List.cons_append, List.append_assoc,
          List.takeWhile_append_dropWhile, takeWhile_take_append_drop]
      · rfl
  · rfl

theorem decimalNumber_of {input : List Char} {reading : Reading Binary64}
    (read : decimalNumber input = .ok reading) : reading.Of input := by
  simp only [decimalNumber] at read
  split at read
  · simp only [Except.ok.injEq] at read
    have tail := exponent_of (input.dropWhile isDigitOrPoint)
    simp only [Reading.Of] at tail
    simp [← read, Reading.Of, tail]
  · simp at read

theorem number_of {input : List Char} {reading : Reading Binary64}
    (read : number input = .ok reading) : reading.Of input := by
  unfold number at read
  split at read
  · obtain ⟨tail, inner, rfl⟩ := Reading.eq_ok_of_map read
    exact (hexNumber_of inner).behind ['0', 'x']
  · obtain ⟨tail, inner, rfl⟩ := Reading.eq_ok_of_map read
    exact (hexNumber_of inner).behind ['0', 'X']
  · exact decimalNumber_of read

end Literal

end Transclusion
