import Transclusion.Proofs.Lexer.Delimitation
import Transclusion.Proofs.Lexer.Marker

/-!
# Writing calls

A call with string parameters can be written in many ways: each string between one of three
quotes, with blanks and comments around the values and the commas, and with a comma
behind the last value or without one. `CallText` holds a call together with all these
choices. Each part of it carries what makes it well-formed: a comment does not hold its own
end, and a method has a name.

Whatever was chosen, reading the written text gives the call back and ends with its
parenthesis, in front of any text (`Call.readAt_text`). The proof goes reader by reader: what
is filled in between values is skipped (`Trivia.skip_texts`), a string is read as it was
before its characters were written (`Literal.stringTail_flatMap`), and a list of parameters
is read value by value (`Call.readParams_text`).
-/

set_option autoImplicit false

namespace Transclusion

namespace CallText

/-! ## Written calls -/

/-- What may be filled in between the values and commas of a call. -/
inductive Filler where
  | blank (char : Char) (white : Text.isBlank char = true)
  /-- A comment between a slash with a star and a star with a slash. -/
  | block (body : List Char) (inner : ¬ ['*', '/'] <:+: body)
  /-- A comment from two slashes up to a newline. -/
  | line (body : List Char) (solid : '\n' ∉ body)

/-- The characters of a filler. -/
def Filler.text : Filler → List Char
  | .blank char _ => [char]
  | .block body _ => '/' :: '*' :: (body ++ ['*', '/'])
  | .line body _ => '/' :: '/' :: (body ++ ['\n'])

/-- The characters of some fillers in a row. -/
def Filler.texts (fillers : List Filler) : List Char :=
  fillers.flatMap Filler.text

/-- The quotes that a string may stand between. -/
inductive Quote where
  | single
  | double
  | back
deriving DecidableEq, Repr

/-- The character of a quote. -/
def Quote.char : Quote → Char
  | .single => '\x27'
  | .double => '\x22'
  | .back => '\x60'

/-- A character as it stands in a string: behind a backslash if it would end the string or
is a backslash itself, and a newline by its letter. -/
def Quote.escapeChar (quote : Quote) (char : Char) : List Char :=
  if char = quote.char ∨ char = '\\' then ['\\', char]
  else if char = '\n' then ['\\', 'n']
  else [char]

/-- The characters of a string as they stand between quotes. -/
def Quote.escape (quote : Quote) (value : List Char) : List Char :=
  value.flatMap quote.escapeChar

/-- A string parameter with the quotes it stands between and what is filled in around
it. -/
structure Argument where
  before : List Filler
  quote : Quote
  value : String
  after : List Filler

/-- The characters of a parameter. -/
def Argument.text (argument : Argument) : List Char :=
  Filler.texts argument.before ++ argument.quote.char ::
    (argument.quote.escape argument.value.toList ++
      argument.quote.char :: Filler.texts argument.after)

/-- The parameters of a call. -/
inductive Arguments where
  | none (inside : List Filler)
  /-- At least one parameter, and behind the last one a comma with fillers or nothing. -/
  | some (first : Argument) (others : List Argument) (trailing : Option (List Filler))

namespace Arguments

/-- The strings that are the parameters. -/
def values : Arguments → List String
  | .none _ => []
  | .some first others _ => first.value :: others.map Argument.value

/-- The characters of further parameters, a comma before each of them. -/
def furtherText (others : List Argument) : List Char :=
  others.flatMap fun argument => ',' :: argument.text

/-- The characters of a comma behind the last parameter, if there is one. -/
def trailingText : Option (List Filler) → List Char
  | .none => []
  | .some fillers => ',' :: Filler.texts fillers

/-- The characters between the parentheses. -/
def text : Arguments → List Char
  | .none inside => Filler.texts inside
  | .some first others trailing => first.text ++ (furtherText others ++ trailingText trailing)

end Arguments

/-- The name of a method. -/
structure Method where
  name : String
  nonempty : name.toList ≠ []
  valid : ∀ char ∈ name.toList, Call.isMethodChar char = true

end CallText

/-- A call with string parameters and a way to write it. -/
structure CallText where
  method : Option CallText.Method
  arguments : CallText.Arguments

namespace CallText

/-- The characters of a method behind its point, if there is one. -/
def methodText : Option Method → List Char
  | none => []
  | some method => '.' :: method.name.toList

/-- The characters of a written call. -/
def text (written : CallText) : List Char :=
  Call.marker ++ (methodText written.method ++ '(' :: (written.arguments.text ++ [')']))

/-- The call that is written. -/
def call (written : CallText) : Call :=
  ⟨written.method.map Method.name, written.arguments.values.map Param.text⟩

end CallText

open CallText

/-! ## Fillers are skipped -/

namespace Trivia

/-- A comment that is opened by two slashes ends with its newline. -/
theorem skip_lineComment {body : List Char} (solid : '\n' ∉ body) (rest : List Char) :
    skip .lineComment (body ++ '\n' :: rest) = skip .outside rest := by
  induction body with
  | nil => simp [skip, next]
  | cons char others ih =>
      rw [List.mem_cons, not_or] at solid
      rw [List.cons_append, skip, next, if_neg (Ne.symm solid.1)]
      exact ih solid.2

/-- A comment that is opened by a slash and a star ends with the first star and slash. -/
theorem skip_blockComment {body : List Char} (inner : ¬ ['*', '/'] <:+: body)
    (rest : List Char) :
    skip .blockComment (body ++ '*' :: '/' :: rest) = skip .outside rest := by
  induction body with
  | nil => simp [skip, next]
  | cons char others ih =>
      have further : ¬ (char = '*' ∧ (others ++ '*' :: '/' :: rest).head? = some '/') := by
        rintro ⟨rfl, slash⟩
        cases others with
        | nil => cases slash
        | cons second more =>
            cases slash
            exact inner ⟨[], more, rfl⟩
      rw [List.cons_append, skip, next, if_neg further]
      exact ih fun inside => inner (inside.trans (List.suffix_cons char others).isInfix)

/-- A filler is skipped. -/
theorem skip_text (filler : Filler) (rest : List Char) :
    skip .outside (filler.text ++ rest) = skip .outside rest := by
  cases filler with
  | blank char white => simp [Filler.text, skip, next, white]
  | block body inner =>
      have slash : Text.isBlank '/' = false := by decide
      simp only [Filler.text, List.cons_append, List.append_assoc, List.nil_append]
      simpa [skip, next, slash] using skip_blockComment inner rest
  | line body solid =>
      have slash : Text.isBlank '/' = false := by decide
      simp only [Filler.text, List.cons_append, List.append_assoc, List.nil_append]
      simpa [skip, next, slash] using skip_lineComment solid rest

/-- Fillers in front of a character that begins none are skipped, and nothing else is. -/
theorem skip_texts (fillers : List Filler) {char : Char} (solid : Text.isBlank char = false)
    (bare : char ≠ '/') (rest : List Char) :
    front .outside (Filler.texts fillers ++ char :: rest) = Filler.texts fillers ∧
      skip .outside (Filler.texts fillers ++ char :: rest) = char :: rest := by
  have skipped : skip .outside (Filler.texts fillers ++ char :: rest) = char :: rest := by
    induction fillers with
    | nil => simp [Filler.texts, skip, next, solid, bare]
    | cons filler others ih =>
        rw [Filler.texts, List.flatMap_cons, List.append_assoc, skip_text]
        exact ih
  refine ⟨?_, skipped⟩
  have whole := front_append_skip .outside (Filler.texts fillers ++ char :: rest)
  rw [skipped] at whole
  exact List.append_cancel_right whole

end Trivia

/-! ## Strings -/

namespace CallText.Quote

theorem isQuote_char (quote : Quote) : Literal.isQuote quote.char = true := by
  cases quote <;> decide

/-- A quote is no character that has a meaning of its own in a string or between values. -/
theorem char_ne (quote : Quote) {char : Char}
    (special : char ∈ ['\\', '\n', 'u', '/', ')', ',']) : quote.char ≠ char := by
  rintro rfl
  revert special
  cases quote <;> decide

theorem isBlank_char (quote : Quote) : Text.isBlank quote.char = false := by
  cases quote <;> decide

theorem escaped_char (quote : Quote) : Literal.escaped quote.char = quote.char := by
  cases quote <;> rfl

end CallText.Quote

namespace Literal

/-- The ways to write a character between quotes: as it is, by the letter that stands for it
behind a backslash, or by four digits. -/
inductive Written (quote : Quote) : Char → List Char → Prop
  | plain {char : Char} (inside : char ≠ quote.char) (bare : char ≠ '\\') (solid : char ≠ '\n') :
      Written quote char [char]
  | letter {letter : Char} (coded : letter ≠ 'u') (solid : letter ≠ '\n') :
      Written quote (escaped letter) ['\\', letter]
  | code {char : Char} {digits : List Char} (hex : ∀ digit ∈ digits, isHexDigit digit = true)
      (four : digits.length = 4) (coded : charOfHex? digits = some char) :
      Written quote char ('\\' :: 'u' :: digits)

/-- A character is read as it was before it was written. -/
theorem stringTail_written {quote : Quote} {char : Char} {text : List Char}
    (written : Written quote char text) (opening rest : List Char) :
    stringTail quote.char opening (text ++ rest) =
      (stringTail quote.char opening rest).map (prepend char text) := by
  have closes : ¬ '\\' = quote.char := Ne.symm (quote.char_ne (by decide))
  cases written with
  | plain inside bare solid =>
      rw [List.singleton_append, stringTail.eq_def]
      simp [inside, solid, bare]
  | letter coded solid =>
      simp only [List.cons_append, List.nil_append]
      rw [stringTail.eq_def]
      simp [closes]
  | @code _ digits hex four coded =>
      have resumed := unicodeEscape_of_length hex four coded rest
      have newline : ¬ ('\\' = '\n' ∧ !spansLines quote.char) :=
        fun both => absurd both.1 (by decide)
      rw [List.cons_append, List.cons_append, stringTail, if_neg closes, if_neg newline, if_pos rfl]
      split
      · next failed => cases resumed.symm.trans failed
      · next escape success =>
          cases resumed.symm.trans success
          rfl

/-- **A string is read as it was before its characters were written.** -/
theorem stringTail_flatMap {quote : Quote} {write : Char → List Char}
    (written : ∀ char, Written quote char (write char)) (opening value rest : List Char) :
    stringTail quote.char opening (value.flatMap write ++ quote.char :: rest) =
      .ok ⟨value, value.flatMap write ++ [quote.char], rest⟩ := by
  induction value with
  | nil =>
      rw [List.flatMap_nil, List.nil_append, stringTail.eq_def]
      exact if_pos rfl
  | cons char others ih =>
      rw [List.flatMap_cons, List.append_assoc, stringTail_written (written char), ih]
      simp [Except.map, prepend, Reading.map, Reading.behind]

theorem written_escapeChar (quote : Quote) (char : Char) :
    Written quote char (quote.escapeChar char) := by
  unfold Quote.escapeChar
  split
  · next special =>
      have plain : escaped char = char ∧ char ≠ 'u' ∧ char ≠ '\n' := by
        rcases special with rfl | rfl
        · exact ⟨quote.escaped_char, quote.char_ne (by decide), quote.char_ne (by decide)⟩
        · decide
      obtain ⟨same, coded, solid⟩ := plain
      have written : Written quote (escaped char) ['\\', char] := .letter coded solid
      rwa [same] at written
  · next ordinary =>
      rw [not_or] at ordinary
      split
      · next newline =>
          have written : Written quote (escaped 'n') ['\\', 'n'] := .letter (by decide) (by decide)
          exact newline ▸ written
      · next solid => exact .plain ordinary.1 ordinary.2 solid

end Literal

/-! ## Parameters -/

namespace Call

section Lists

variable {wanted : Bool} (fillers : List Filler) (rest : List Char)

/-- A parenthesis behind fillers ends a parameter list. -/
theorem readParams_fillers_close :
    readParams wanted (Filler.texts fillers ++ ')' :: rest) =
      .ok ⟨[], Filler.texts fillers ++ [')'], rest⟩ := by
  have solid : Text.isBlank ')' = false := by decide
  obtain ⟨ahead, behind⟩ := Trivia.skip_texts fillers solid (by decide) rest
  rw [readParams_close behind, ahead]

/-- A comma behind fillers asks for a further value. -/
theorem readParams_fillers_comma :
    readParams false (Filler.texts fillers ++ ',' :: rest) =
      (readParams true rest).map (Reading.behind (Filler.texts fillers ++ [','])) := by
  have solid : Text.isBlank ',' = false := by decide
  obtain ⟨ahead, behind⟩ := Trivia.skip_texts fillers solid (by decide) rest
  rw [readParams_comma behind Bool.false_ne_true, ahead]

end Lists

section Strings

variable {quote : Quote} {write : Char → List Char}

/-- A string is read as a parameter. -/
theorem readParam_string (written : ∀ char, Literal.Written quote char (write char))
    (value : String) (rest : List Char) :
    readParam (quote.char :: (value.toList.flatMap write ++ quote.char :: rest)) =
      .ok ⟨.text value, quote.char :: (value.toList.flatMap write ++ [quote.char]), rest⟩ := by
  rw [readParam, if_pos quote.isQuote_char, Literal.stringTail_flatMap written]
  simp [Except.map, Reading.map, Reading.behind]

/-- A string behind fillers is read as the next value. -/
theorem readParams_string (written : ∀ char, Literal.Written quote char (write char))
    (fillers : List Filler) (value : String) (rest : List Char) :
    readParams true (Filler.texts fillers ++
        quote.char :: (value.toList.flatMap write ++ quote.char :: rest)) =
      (readParams false rest).map fun others => (others.map (.text value :: ·)).behind
        (Filler.texts fillers ++ quote.char :: (value.toList.flatMap write ++ [quote.char])) := by
  obtain ⟨ahead, behind⟩ := Trivia.skip_texts fillers quote.isBlank_char
    (quote.char_ne (by decide)) (value.toList.flatMap write ++ quote.char :: rest)
  rw [readParams_param behind (quote.char_ne (by decide)) (quote.char_ne (by decide))
    (readParam_string written value rest), ahead]

end Strings

/-- Behind a value, the parameters that are left are read one after the other. -/
theorem readParams_furtherText (after : List Filler) (others : List Argument)
    (trailing : Option (List Filler)) (rest : List Char) :
    readParams false (Filler.texts after ++ (Arguments.furtherText others ++
        (Arguments.trailingText trailing ++ ')' :: rest))) =
      .ok ⟨others.map fun argument => .text argument.value,
        Filler.texts after ++ (Arguments.furtherText others ++
          (Arguments.trailingText trailing ++ [')'])), rest⟩ := by
  induction others generalizing after with
  | nil =>
      cases trailing with
      | none => exact readParams_fillers_close after rest
      | some fillers =>
          change readParams false (Filler.texts after ++ ',' :: (Filler.texts fillers ++ _)) = _
          rw [readParams_fillers_comma, readParams_fillers_close]
          simp [Except.map, Reading.behind, Arguments.furtherText, Arguments.trailingText]
  | cons argument more ih =>
      have parts (tail : List Char) : Filler.texts after ++
          (Arguments.furtherText (argument :: more) ++ tail) =
          Filler.texts after ++ ',' :: (Filler.texts argument.before ++ argument.quote.char ::
            (argument.value.toList.flatMap argument.quote.escapeChar ++ argument.quote.char ::
              (Filler.texts argument.after ++ (Arguments.furtherText more ++ tail)))) := by
        simp [Arguments.furtherText, Argument.text, Quote.escape]
      rw [parts, parts, readParams_fillers_comma,
        readParams_string (Literal.written_escapeChar argument.quote), ih argument.after]
      simp [Except.map, Reading.map, Reading.behind]

/-- **A list of parameters is read as it was written.** -/
theorem readParams_text (arguments : Arguments) (rest : List Char) :
    readParams true (arguments.text ++ ')' :: rest) =
      .ok ⟨arguments.values.map Param.text, arguments.text ++ [')'], rest⟩ := by
  cases arguments with
  | none inside => exact readParams_fillers_close inside rest
  | some first others trailing =>
      have parts (tail : List Char) : (Arguments.some first others trailing).text ++ tail =
          Filler.texts first.before ++ first.quote.char ::
            (first.value.toList.flatMap first.quote.escapeChar ++ first.quote.char ::
              (Filler.texts first.after ++ (Arguments.furtherText others ++
                (Arguments.trailingText trailing ++ tail)))) := by
        simp [Arguments.text, Argument.text, Quote.escape]
      rw [parts, parts, readParams_string (Literal.written_escapeChar first.quote),
        readParams_furtherText]
      simp [Except.map, Reading.map, Reading.behind, Arguments.values]

/-! ## Whole calls -/

/-- Behind a method and a parenthesis, parameters are read. -/
theorem read_listed (method : Option Method) (input : List Char) :
    read (methodText method ++ '(' :: input) = (readParams true input).map fun values =>
      ⟨⟨method.map Method.name, values.value⟩, methodText method ++ '(' :: values.taken,
        values.rest⟩ := by
  cases method with
  | none => rfl
  | some method =>
      have stop : ∀ char ∈ ('(' :: input).head?, isMethodChar char = false := by
        rintro char ⟨⟩
        decide +kernel
      obtain ⟨taken, dropped⟩ := Text.takeWhile_append_of_stop method.valid stop
      simp only [methodText, List.cons_append, read, taken, dropped, if_neg method.nonempty,
        readArguments, String.ofList_toList]
      cases readParams true input <;> rfl

/-- What stands behind the marker of a written call is read as the call. -/
theorem read_text (written : CallText) (rest : List Char) :
    read (methodText written.method ++ '(' :: (written.arguments.text ++ ')' :: rest)) =
      .ok ⟨written.call,
        methodText written.method ++ '(' :: (written.arguments.text ++ [')']), rest⟩ := by
  rw [read_listed, readParams_text]
  rfl

/-- **Reading a written call gives the call back and ends with its parenthesis**, whatever
its strings hold, however it was written and whatever stands around it. -/
theorem readAt_text (written : CallText) (before after : List Char) :
    readAt (before ++ written.text ++ after) (Text.byteLength before) =
      .ok (written.call, Text.byteLength (before ++ written.text)) := by
  have parts : before ++ written.text ++ after = before ++ (marker ++ (methodText written.method ++
      '(' :: (written.arguments.text ++ ')' :: after))) := by
    simp [CallText.text]
  have starts : startsMarker (marker ++ (methodText written.method ++
      '(' :: (written.arguments.text ++ ')' :: after))) = true := by
    cases written.method <;> rfl
  have behind := read_text written after
  rw [parts, readAt_append_ok before starts behind, Text.byteLength_append before]
  rfl

-- a call with a comment in a string, two kinds of quotes, fillers and a comma at the end
example : (CallText.mk none (.some ⟨[], .single, "/*it's", []⟩
    [⟨[.line ['a'] (by decide)], .back, "\n", [.blank ' ' (by decide)]⟩] (some []))).text =
    "$inline('/*it\\'s',//a\n`\\n` ,)".toList := by decide +kernel

end Call

end Transclusion
