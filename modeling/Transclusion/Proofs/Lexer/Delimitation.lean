import Transclusion.Directive.Lexer
import Transclusion.Proofs.Text.Runs

/-!
# Calls are told from their own characters

What stands behind a call decides at most where the call ends. A string ends with
its quote and a parameter list with its parenthesis, so these are read alike whatever
follows them (`Literal.stringTail_append`, `Call.readParams_append`). A number and
the name of a method end where the next character does not belong to them, so these
are read alike in front of the same character. Together: a call that has parameters
is read alike in front of any text, and every other call is read alike in front of any
text that begins with the same character (`Call.read_append`).

Each lemma takes a reading and puts other characters behind what it took
(`Reading.withRest`). For the lexer this means that a call may be moved: the characters of a
call that a search has come upon (`Call.Written`) are found again behind any characters
without a dollar sign (`scan_append`), and they close the same bodies there
(`findClosing_append`).
-/

set_option autoImplicit false

namespace Transclusion

/-- The reading with other characters left behind what it took. -/
def Reading.withRest {α : Type} (reading : Reading α) (rest : List Char) : Reading α :=
  ⟨reading.value, reading.taken, rest⟩

/-- A reading that takes anything takes the first character. -/
theorem Reading.Of.taken_eq_cons {α : Type} {reading : Reading α} {char : Char}
    {rest : List Char} (whole : reading.Of (char :: rest)) (progress : reading.taken ≠ []) :
    ∃ others, reading.taken = char :: others := by
  obtain ⟨first, others, taken⟩ := List.exists_cons_of_ne_nil progress
  rw [Reading.Of, taken, List.cons_append, List.cons.injEq] at whole
  exact ⟨others, whole.1 ▸ taken⟩

/-! ## Characters of one class -/

namespace Text

variable {accept : Char → Bool} {input rest taken left : List Char}

/-- Behind the same characters, texts with the same first character have the same first
character. -/
theorem head?_append_congr (same : rest.head? = left.head?) :
    (taken ++ rest).head? = (taken ++ left).head? := by
  rw [List.head?_append, List.head?_append, same]

theorem head?_append_of_ne_nil (progress : taken ≠ []) :
    (taken ++ rest).head? = (taken ++ left).head? := by
  obtain ⟨char, others, rfl⟩ := List.exists_cons_of_ne_nil progress
  rfl

/-- The characters of a class at the front of a text, in front of a text that begins as
what was left behind them. -/
theorem takeWhile_append_of_head? (same : rest.head? = (input.dropWhile accept).head?) :
    (input.takeWhile accept ++ rest).takeWhile accept = input.takeWhile accept ∧
      (input.takeWhile accept ++ rest).dropWhile accept = rest := by
  have inside : ∀ char ∈ input.takeWhile accept, accept char = true := fun char member =>
    List.all_eq_true.1 List.all_takeWhile char member
  have outside := stop_dropWhile accept input
  rw [← same] at outside
  exact takeWhile_append_of_stop inside outside

/-- Behind at least one same character, texts with the same first character agree in
their first two. -/
theorem take_two_append_congr (progress : taken ≠ []) (same : rest.head? = left.head?) :
    (taken ++ rest).take 2 = (taken ++ left).take 2 := by
  match taken with
  | [char] => cases rest <;> cases left <;> simp_all
  | first :: second :: others => rfl

end Text

/-! ## Strings -/

namespace Literal

/-- Four digits are the code of a character whatever follows them. -/
theorem unicodeEscape_of_length {code : List Char} {char : Char}
    (hex : ∀ digit ∈ code, isHexDigit digit = true) (four : code.length = 4)
    (coded : charOfHex? code = some char) (rest : List Char) :
    unicodeEscape (code ++ rest) = .ok ⟨char, code, rest⟩ := by
  have front : ((code ++ rest).take 4).takeWhile isHexDigit = code := by
    rw [List.take_append_of_le_length (Nat.le_of_eq four.symm),
      List.take_of_length_le (Nat.le_of_eq four)]
    have whole : (code ++ []).takeWhile isHexDigit = code ++ [].takeWhile isHexDigit :=
      List.takeWhile_append_of_pos hex
    simpa using whole
  unfold unicodeEscape
  split
  · next braced opened =>
      match code with
      | first :: others =>
          obtain ⟨rfl, -⟩ := List.cons.inj opened
          cases hex _ List.mem_cons_self
  · simp only [front, List.drop_left, if_pos four, coded]

/-- The code of a character ends with its brace or with its fourth digit. -/
theorem unicodeEscape_append {input : List Char} {reading : Reading Char}
    (read : unicodeEscape input = .ok reading) (rest : List Char) :
    unicodeEscape (reading.taken ++ rest) = .ok (reading.withRest rest) := by
  unfold unicodeEscape at read
  split at read
  · next braced =>
      simp only at read
      split at read
      · next left closing =>
          split at read
          · next char coded =>
              cases read
              have same : ('\x7d' :: rest).head? = (braced.dropWhile isHexDigit).head? := by
                rw [closing]
                rfl
              obtain ⟨taken, dropped⟩ := Text.takeWhile_append_of_head? same
              simp only [List.cons_append, List.append_assoc, List.nil_append, unicodeEscape, taken,
                dropped, coded, Reading.withRest]
          · cases read
      · cases read
  · simp only at read
    split at read
    · next four =>
        split at read
        · next char coded =>
            cases read
            have hex : ∀ digit ∈ (input.take 4).takeWhile isHexDigit, isHexDigit digit = true :=
              fun digit member => List.all_eq_true.1 List.all_takeWhile digit member
            exact unicodeEscape_of_length hex four coded rest
        · cases read
    · cases read

/-- A string ends with its quote. -/
theorem stringTail_append {quote : Char} {opening input : List Char}
    {reading : Reading (List Char)} (read : stringTail quote opening input = .ok reading)
    (elsewhere rest : List Char) :
    stringTail quote elsewhere (reading.taken ++ rest) = .ok (reading.withRest rest) := by
  fun_induction stringTail quote opening input generalizing reading with
  | case2 tail =>
      cases read
      rw [List.singleton_append, stringTail.eq_def]
      exact if_pos rfl
  | case6 code escape escaping other solid ih =>
      obtain ⟨tail, inner, rfl⟩ := Reading.eq_ok_of_map read
      have resumed := unicodeEscape_append escaping (tail.taken ++ rest)
      have whole : (prepend escape.value ('\\' :: 'u' :: escape.taken) tail).taken ++ rest =
          '\\' :: 'u' :: (escape.taken ++ (tail.taken ++ rest)) := by
        simp [prepend, Reading.behind, Reading.map]
      rw [whole, stringTail, if_neg other, if_neg solid, if_pos rfl]
      split
      · next failed => cases resumed.symm.trans failed
      · next again success =>
          cases resumed.symm.trans success
          exact congrArg (Except.map _) (ih inner)
  | case7 after other solid ih =>
      obtain ⟨tail, inner, rfl⟩ := Reading.eq_ok_of_map read
      have whole : (tail.behind ['\\', '\n']).taken ++ rest =
          '\\' :: '\n' :: (tail.taken ++ rest) := rfl
      rw [whole, stringTail, if_neg other, if_neg solid, if_pos rfl]
      exact congrArg (Except.map _) (ih inner)
  | case8 other after named newline different solid ih =>
      obtain ⟨tail, inner, rfl⟩ := Reading.eq_ok_of_map read
      have whole : (prepend (escaped other) ['\\', other] tail).taken ++ rest =
          '\\' :: other :: (tail.taken ++ rest) := rfl
      rw [whole, stringTail.eq_def]
      simp only [if_neg different, if_neg solid, if_true]
      exact congrArg (Except.map _) (ih inner)
  | case9 char tail other solid slash ih =>
      obtain ⟨value, inner, rfl⟩ := Reading.eq_ok_of_map read
      have whole : (prepend char [char] value).taken ++ rest =
          char :: (value.taken ++ rest) := rfl
      rw [whole, stringTail.eq_def]
      simp only [if_neg other, if_neg solid, if_neg slash]
      exact congrArg (Except.map _) (ih inner)
  | _ => cases read

/-! ## Numbers -/

theorem hexNumber_append {opening input : List Char} {reading : Reading Binary64}
    (read : hexNumber opening input = .ok reading) (elsewhere : List Char) {rest : List Char}
    (same : rest.head? = reading.rest.head?) :
    hexNumber elsewhere (reading.taken ++ rest) = .ok (reading.withRest rest) := by
  simp only [hexNumber] at read
  split at read
  · next valid =>
      cases read
      obtain ⟨taken, dropped⟩ := Text.takeWhile_append_of_head? same
      simp only [hexNumber, taken, dropped, if_pos valid, Reading.withRest]
  · cases read

/-- A sign at the front of a text, in front of a text that begins as what was left behind
it. -/
theorem takeWhile_isSign_append {input rest : List Char}
    (same : rest.head? = (input.drop ((input.take 1).takeWhile isSign).length).head?) :
    (((input.take 1).takeWhile isSign ++ rest).take 1).takeWhile isSign =
      (input.take 1).takeWhile isSign := by
  match input with
  | [] =>
      cases List.head?_eq_none_iff.1 same
      rfl
  | char :: others =>
      by_cases sign : isSign char = true
      · simp [sign]
      · simp only [List.take_succ_cons, List.take_zero, List.takeWhile_cons_of_neg sign,
          List.length_nil, List.drop_zero, List.head?_cons] at same
        cases rest with
        | nil => cases same
        | cons first more =>
            cases same
            simp [sign]

/-- An exponent ends with its last digit. -/
theorem exponent_append {input rest : List Char}
    (same : rest.head? = (exponent input).rest.head?) :
    exponent ((exponent input).taken ++ rest) = (exponent input).withRest rest := by
  match input with
  | [] =>
      cases List.head?_eq_none_iff.1 same
      rfl
  | mark :: others =>
      by_cases marked : mark = 'e' ∨ mark = 'E'
      · simp only [exponent, if_pos marked] at same
        generalize signed : (others.take 1).takeWhile isSign = sign at same
        have unsigned : (((others.drop sign.length).takeWhile Char.isDigit) ++ rest).head? =
            (others.drop sign.length).head? := by
          rw [Text.head?_append_congr same, List.takeWhile_append_dropWhile]
        have again := takeWhile_isSign_append (signed ▸ unsigned)
        obtain ⟨taken, dropped⟩ := Text.takeWhile_append_of_head? same
        simp only [signed] at again
        simp only [exponent, if_pos marked, signed, List.cons_append, List.append_assoc, again,
          List.drop_left, taken, dropped, Reading.withRest]
      · simp only [exponent, if_neg marked] at same
        cases rest with
        | nil => cases same
        | cons first more =>
            cases same
            simp only [exponent, if_neg marked, List.nil_append, Reading.withRest]

theorem decimalNumber_append {input rest : List Char} {reading : Reading Binary64}
    (read : decimalNumber input = .ok reading) (same : rest.head? = reading.rest.head?) :
    decimalNumber (reading.taken ++ rest) = .ok (reading.withRest rest) := by
  simp only [decimalNumber] at read
  split at read
  · next value denotes =>
      cases read
      generalize trailing : exponent (input.dropWhile isDigitOrPoint) = tail at *
      have whole : tail.taken ++ tail.rest = input.dropWhile isDigitOrPoint :=
        trailing ▸ exponent_of _
      have again := exponent_append (trailing ▸ same)
      rw [trailing] at again
      have ahead : (tail.taken ++ rest).head? = (input.dropWhile isDigitOrPoint).head? := by
        rw [Text.head?_append_congr same, whole]
      obtain ⟨taken, dropped⟩ := Text.takeWhile_append_of_head? ahead
      simp only [decimalNumber, List.append_assoc, taken, dropped, again, Reading.withRest, denotes]
  · cases read

theorem decimalNumber_taken_ne_nil {input : List Char} {reading : Reading Binary64}
    (read : decimalNumber input = .ok reading) : reading.taken ≠ [] := by
  simp only [decimalNumber] at read
  split at read
  · next value denotes =>
      cases read
      intro nothing
      rw [(List.append_eq_nil_iff.1 nothing).1, Option.bind_eq_some_iff] at denotes
      obtain ⟨power, -, missing⟩ := denotes
      cases missing
  · cases read

/-- A number takes a character. -/
theorem number_taken_ne_nil {input : List Char} {reading : Reading Binary64}
    (read : number input = .ok reading) : reading.taken ≠ [] := by
  unfold number at read
  split at read
  · obtain ⟨tail, -, rfl⟩ := Reading.eq_ok_of_map read
    exact List.cons_ne_nil _ _
  · obtain ⟨tail, -, rfl⟩ := Reading.eq_ok_of_map read
    exact List.cons_ne_nil _ _
  · exact decimalNumber_taken_ne_nil read

/-- A number ends where a character does not belong to it. -/
theorem number_append {input rest : List Char} {reading : Reading Binary64}
    (read : number input = .ok reading) (same : rest.head? = reading.rest.head?) :
    number (reading.taken ++ rest) = .ok (reading.withRest rest) := by
  unfold number at read
  split at read
  · obtain ⟨tail, inner, rfl⟩ := Reading.eq_ok_of_map read
    exact congrArg (Except.map _) (hexNumber_append inner _ same)
  · obtain ⟨tail, inner, rfl⟩ := Reading.eq_ok_of_map read
    exact congrArg (Except.map _) (hexNumber_append inner _ same)
  · next lower upper =>
      -- what was no hexadecimal number has not become one: its first two characters are the same
      have parts := (List.take_append_drop 2 input).symm
      rw [← decimalNumber_of read,
        Text.take_two_append_congr (decimalNumber_taken_ne_nil read) same.symm] at parts
      unfold number
      split
      · next digits hex =>
          rw [hex, decimalNumber_of read] at parts
          exact (lower _ parts).elim
      · next digits hex =>
          rw [hex, decimalNumber_of read] at parts
          exact (upper _ parts).elim
      · exact decimalNumber_append read same

end Literal

/-! ## Trivia -/

namespace Trivia

/-- Only the next character is looked at. -/
theorem next_congr (state : Trivia) (char : Char) {rest other : List Char}
    (same : rest.head? = other.head?) : state.next char rest = state.next char other := by
  simp only [next, same]

/-- Trivia end alike in front of a character that opens no comment. -/
theorem skip_append {state : Trivia} {input rest : List Char} {char : Char}
    (stops : skip state input = char :: rest) (bare : char ≠ '/') (other : List Char) :
    front state (front state input ++ char :: other) = front state input ∧
      skip state (front state input ++ char :: other) = char :: other := by
  fun_induction front state input with
  | case1 => cases stops
  | case2 state first others following passes ih =>
      rw [skip, passes] at stops
      obtain ⟨inner, left⟩ := ih stops
      have whole : front following others ++ char :: rest = others := by
        rw [← stops, front_append_skip]
      have heads : (front following others ++ char :: other).head? =
          (front following others ++ char :: rest).head? := Text.head?_append_congr rfl
      rw [whole] at heads
      have again : state.next first (front following others ++ char :: other) =
          some following := (next_congr state first heads).trans passes
      rw [List.cons_append, front, skip, again]
      exact ⟨congrArg _ inner, left⟩
  | case3 state first others stays =>
      rw [skip, stays] at stops
      cases stops
      have again : state.next char other = none := by
        cases state <;> simp_all [next]
      rw [List.nil_append, front, skip, again]
      exact ⟨rfl, rfl⟩

end Trivia

/-! ## Calls -/

namespace Call

/-- Two characters tell whether a number begins. -/
theorem startsNumber_take (input : List Char) :
    startsNumber (input.take 2) = startsNumber input := by
  match input with
  | [] => rfl
  | [_] => rfl
  | first :: second :: rest =>
      by_cases point : first = '.'
      · subst point
        rfl
      · simp [startsNumber, point]

/-- A parameter takes a character, and the first one is no slash. -/
theorem readParam_taken {input : List Char} {reading : Reading Param}
    (read : readParam input = .ok reading) :
    ∃ char others, reading.taken = char :: others ∧ char ≠ '/' := by
  unfold readParam at read
  split at read
  · cases read
  · next char tail =>
      split at read
      · next quoted =>
          obtain ⟨value, inner, rfl⟩ := Reading.eq_ok_of_map read
          refine ⟨char, value.taken, rfl, ?_⟩
          rintro rfl
          cases quoted
      · split at read
        · next digits =>
            obtain ⟨value, inner, rfl⟩ := Reading.eq_ok_of_map read
            obtain ⟨others, taken⟩ :=
              (Literal.number_of inner).taken_eq_cons (Literal.number_taken_ne_nil inner)
            refine ⟨char, others, taken, ?_⟩
            rintro rfl
            cases digits
        · cases read

/-- A string ends with its quote, and a number where a character does not belong to it. -/
theorem readParam_append {input rest : List Char} {reading : Reading Param}
    (read : readParam input = .ok reading) (same : rest.head? = reading.rest.head?) :
    readParam (reading.taken ++ rest) = .ok (reading.withRest rest) := by
  unfold readParam at read
  split at read
  · cases read
  · next char tail =>
      split at read
      · next quoted =>
          obtain ⟨value, inner, rfl⟩ := Reading.eq_ok_of_map read
          change readParam (char :: (value.taken ++ rest)) = _
          simp only [readParam, if_pos quoted, Literal.stringTail_append inner]
          rfl
      · next unquoted =>
          split at read
          · next digits =>
              obtain ⟨value, inner, rfl⟩ := Reading.eq_ok_of_map read
              replace same : rest.head? = value.rest.head? := same
              have progress := Literal.number_taken_ne_nil inner
              obtain ⟨others, taken⟩ := (Literal.number_of inner).taken_eq_cons progress
              have again := Literal.number_append inner same
              have begins : startsNumber (value.taken ++ rest) = true := by
                rw [← startsNumber_take, Text.take_two_append_congr progress same, startsNumber_take,
                  Literal.number_of inner]
                exact digits
              change readParam (value.taken ++ rest) = _
              rw [taken, List.cons_append] at again begins ⊢
              simp only [readParam, if_neg unquoted, if_pos begins, again]
              rfl
          · cases read

/-- A parameter list takes a character: its parenthesis. -/
theorem readParams_taken_ne_nil {wanted : Bool} {input : List Char}
    {reading : Reading (List Param)} (read : readParams wanted input = .ok reading) :
    reading.taken ≠ [] := by
  intro nothing
  fun_induction readParams wanted input generalizing reading with
  | case2 _ input rest skipped =>
      cases read
      cases (List.append_eq_nil_iff.1 nothing).2
  | case4 _ input rest _ skipped _ ih =>
      obtain ⟨others, inner, rfl⟩ := Reading.eq_ok_of_map read
      exact ih inner (List.append_eq_nil_iff.1 nothing).2
  | case6 input char tail skipped _ _ first taken ih =>
      obtain ⟨others, inner, rfl⟩ := Reading.eq_ok_of_map read
      exact ih inner (List.append_eq_nil_iff.1 nothing).2
  | _ => cases read

section Steps

variable {wanted : Bool} {input rest : List Char}

theorem readParams_close (skipped : Trivia.skip .outside input = ')' :: rest) :
    readParams wanted input = .ok ⟨[], Trivia.front .outside input ++ [')'], rest⟩ := by
  fun_cases readParams wanted input <;> simp_all

theorem readParams_comma (skipped : Trivia.skip .outside input = ',' :: rest)
    (settled : ¬ wanted = true) :
    readParams wanted input =
      (readParams true rest).map (Reading.behind (Trivia.front .outside input ++ [','])) := by
  fun_cases readParams wanted input <;> simp_all

theorem readParams_param {char : Char} {first : Reading Param}
    (skipped : Trivia.skip .outside input = char :: rest) (close : ¬ char = ')')
    (comma : ¬ char = ',') (read : readParam (char :: rest) = .ok first) :
    readParams true input = (readParams false first.rest).map fun others =>
      (others.map (first.value :: ·)).behind (Trivia.front .outside input ++ first.taken) := by
  have distinct := And.intro (Ne.symm close) (Ne.symm comma)
  fun_cases readParams true input <;> simp_all

end Steps

/-- A parameter list ends with its parenthesis. -/
theorem readParams_append {wanted : Bool} {input : List Char} {reading : Reading (List Param)}
    (read : readParams wanted input = .ok reading) (rest : List Char) :
    readParams wanted (reading.taken ++ rest) = .ok (reading.withRest rest) := by
  fun_induction readParams wanted input generalizing reading with
  | case2 _ input left skipped =>
      cases read
      obtain ⟨ahead, behind⟩ := Trivia.skip_append skipped (by decide) rest
      have whole : Trivia.front .outside input ++ [')'] ++ rest =
          Trivia.front .outside input ++ ')' :: rest := by simp
      rw [whole, readParams_close behind, ahead]
      rfl
  | case4 _ input left settled skipped _ ih =>
      obtain ⟨others, inner, rfl⟩ := Reading.eq_ok_of_map read
      obtain ⟨ahead, behind⟩ := Trivia.skip_append skipped (by decide) (others.taken ++ rest)
      have whole : (others.behind (Trivia.front .outside input ++ [','])).taken ++ rest =
          Trivia.front .outside input ++ ',' :: (others.taken ++ rest) := by
        simp [Reading.behind]
      rw [whole, readParams_comma behind settled, ahead, ih inner]
      rfl
  | case6 input char tail skipped close comma first param ih =>
      obtain ⟨others, inner, rfl⟩ := Reading.eq_ok_of_map read
      obtain ⟨begins, more, taken, slash⟩ := readParam_taken param
      have same : (others.taken ++ rest).head? = first.rest.head? := by
        rw [← readParams_of inner]
        exact Text.head?_append_of_ne_nil (readParams_taken_ne_nil inner)
      have again := readParam_append param same
      have whole := readParam_of param
      rw [Reading.Of, taken, List.cons_append, List.cons.injEq] at whole
      rw [taken, List.cons_append, whole.1] at again
      obtain ⟨ahead, behind⟩ :=
        Trivia.skip_append skipped (whole.1 ▸ slash) (more ++ (others.taken ++ rest))
      have parts : ((others.map (first.value :: ·)).behind
          (Trivia.front .outside input ++ first.taken)).taken ++ rest =
          Trivia.front .outside input ++ char :: (more ++ (others.taken ++ rest)) := by
        simp [Reading.behind, Reading.map, taken, whole.1]
      rw [parts, readParams_param behind close comma again, ahead]
      change Except.map _ (readParams false (others.taken ++ rest)) = _
      rw [ih inner]
      rfl
  | _ => cases read

/-- A call with parameters is read alike in front of any text, and any other call is read
alike in front of any text that begins with the same character. -/
theorem readArguments_append {method : Option String} {input rest : List Char}
    {reading : Reading Call} (read : readArguments method input = .ok reading)
    (apart : reading.value.params ≠ [] ∨ rest.head? = reading.rest.head?) :
    readArguments method (reading.taken ++ rest) = .ok (reading.withRest rest) ∧
      (reading.taken ++ rest).head? = input.head? := by
  unfold readArguments at read
  split at read
  · next listed =>
      obtain ⟨values, inner, rfl⟩ := Reading.eq_ok_of_map read
      refine ⟨?_, rfl⟩
      exact congrArg (Except.map _) (readParams_append inner rest)
  · next bare =>
      cases read
      have same : rest.head? = input.head? := apart.resolve_left fun listed => listed rfl
      refine ⟨?_, same⟩
      unfold readArguments
      split
      · next others opened =>
          replace opened : rest = '(' :: others := opened
          rw [opened] at same
          obtain ⟨left, opens⟩ := List.head?_eq_some_iff.1 same.symm
          exact (bare left opens).elim
      · rfl

/-- **A call is told from its own characters.** With parameters it is read alike in front
of any text, and without them in front of any text that begins with the same
character. -/
theorem read_append {input rest : List Char} {reading : Reading Call}
    (success : read input = .ok reading)
    (apart : reading.value.params ≠ [] ∨ rest.head? = reading.rest.head?) :
    read (reading.taken ++ rest) = .ok (reading.withRest rest) := by
  unfold read at success
  split at success
  · next named =>
      simp only at success
      split at success
      · cases success
      · next chosen =>
          obtain ⟨call, inner, rfl⟩ := Reading.eq_ok_of_map success
          obtain ⟨again, same⟩ := readArguments_append inner apart
          obtain ⟨taken, dropped⟩ := Text.takeWhile_append_of_head? same
          have whole : (call.behind ('.' :: named.takeWhile isMethodChar)).taken ++ rest =
              '.' :: (named.takeWhile isMethodChar ++ (call.taken ++ rest)) := by
            simp [Reading.behind]
          simp only [whole, read, taken, dropped, if_neg chosen, again]
          rfl
  · next unnamed =>
      obtain ⟨again, same⟩ := readArguments_append success apart
      unfold read
      split
      · next named opened =>
          rw [opened] at same
          obtain ⟨left, opens⟩ := List.head?_eq_some_iff.1 same.symm
          exact (unnamed left opens).elim
      · exact again

/-- A call that opens with a point or a parenthesis takes it. -/
theorem read_taken_ne_nil {char : Char} {rest : List Char} {reading : Reading Call}
    (success : read (char :: rest) = .ok reading) (opens : char = '.' ∨ char = '(') :
    reading.taken ≠ [] := by
  rcases opens with rfl | rfl
  · simp only [read] at success
    split at success
    · cases success
    · obtain ⟨call, -, rfl⟩ := Reading.eq_ok_of_map success
      exact List.cons_ne_nil _ _
  · obtain ⟨values, -, rfl⟩ := Reading.eq_ok_of_map success
    exact List.cons_ne_nil _ _

end Call

/-! ## Calls as they are written -/

/-- Only a dollar sign is one in another case. -/
theorem eq_dollar_of_toLower {char : Char} (lower : char.toLower = '$') : char = '$' := by
  unfold Char.toLower at lower
  split at lower
  · have code := congrArg Char.val lower
    grind
  · exact lower

/-- A marker is told from its letters and the character behind them. -/
theorem startsWithMarker_append {expected text : List Char}
    (longer : expected.length < text.length) (rest other : List Char) :
    startsWithMarker expected (text ++ rest) = startsWithMarker expected (text ++ other) := by
  induction expected generalizing text with
  | nil =>
      obtain ⟨char, others, rfl⟩ := List.exists_cons_of_length_pos longer
      rfl
  | cons first more ih =>
      obtain ⟨char, others, rfl⟩ := List.exists_cons_of_length_pos (Nat.zero_lt_of_lt longer)
      simp only [List.cons_append, startsWithMarker]
      rw [ih (Nat.lt_of_succ_lt_succ longer)]

/-- Behind the letters of a marker there is a point or a parenthesis. -/
theorem exists_opens_of_startsWithMarker {expected text : List Char}
    (starts : startsWithMarker expected text = true) :
    ∃ char rest, text.drop expected.length = char :: rest ∧ (char = '.' ∨ char = '(') := by
  fun_induction startsWithMarker expected text with
  | case1 first others char rest ih =>
      rw [Bool.and_eq_true] at starts
      exact ih starts.2
  | case2 char rest =>
      rw [Bool.or_eq_true, beq_iff_eq, beq_iff_eq] at starts
      exact ⟨char, rest, rfl, starts⟩
  | case3 => cases starts

/-- Some characters are a call as it is written in front of a text: a marker and what
the call is read from. -/
structure Call.Written (call : Call) (text rest : List Char) : Prop where
  starts : startsMarker (text ++ rest) = true
  longer : Call.marker.length < text.length
  reads : Call.read (text.drop Call.marker.length ++ rest) =
    .ok ⟨call, text.drop Call.marker.length, rest⟩

namespace Call.Written

variable {call : Call} {text rest other : List Char}

/-- A call is written alike in front of any text if it has parameters, and else in front
of any text that begins with the same character. -/
theorem before (written : call.Written text rest)
    (apart : call.params ≠ [] ∨ other.head? = rest.head?) : call.Written text other where
  starts := (startsWithMarker_append written.longer other rest).trans written.starts
  longer := written.longer
  reads := Call.read_append written.reads apart

/-- A call is no gap: what stands behind it does not come first. -/
theorem head?_append (written : call.Written text rest) (gap left right : List Char) :
    (gap ++ (text ++ left)).head? = (gap ++ (text ++ right)).head? := by
  have progress : text ≠ [] := List.ne_nil_of_length_pos (Nat.zero_lt_of_lt written.longer)
  exact Text.head?_append_congr (Text.head?_append_of_ne_nil progress)

end Call.Written

/-! ## Searches -/

section Searching

variable {place : Place} {input gap : List Char} {site : Site} {awaited : Awaited}

/-- A call that a search comes upon is written behind the characters that were passed. -/
theorem written_of_scan (result : scan place input = .call site) :
    ∃ gap, gap ++ (site.text ++ site.rest) = input ∧ site.place = place.past gap ∧
      site.call.Written site.text site.rest := by
  unfold scan at result
  split at result
  · cases result
  · next found marked search =>
      obtain ⟨gap, whole, passed, starts⟩ := findMarker_eq_some search
      simp only at result
      split at result
      · cases result
      · next reading success =>
          cases result
          obtain ⟨char, others, behind, opens⟩ := exists_opens_of_startsWithMarker starts
          have taken : reading.taken ++ reading.rest = marked.drop Call.marker.length :=
            Call.read_of success
          have mark : (marked.take Call.marker.length).length = Call.marker.length := by
            have longer := congrArg List.length behind
            rw [List.length_drop, List.length_cons] at longer
            rw [List.length_take]
            omega
          have parts : (marked.take Call.marker.length ++ reading.taken).drop
              Call.marker.length = reading.taken := List.drop_left' mark
          have again : marked.take Call.marker.length ++ reading.taken ++ reading.rest =
              marked := by
            rw [List.append_assoc, taken, List.take_append_drop]
          refine ⟨gap, ?_, passed.symm, ?_, ?_, ?_⟩
          · rw [again, whole]
          · rw [again]
            exact starts
          · have progress := Call.read_taken_ne_nil (behind ▸ success) opens
            rw [List.length_append, mark]
            exact Nat.lt_add_of_pos_right (List.length_pos_iff.2 progress)
          · rw [parts, taken]
            exact success

/-- A search passes characters without a dollar sign. -/
theorem findMarker_append (free : '$' ∉ gap) {marked : List Char}
    (starts : startsMarker marked = true) :
    findMarker place (gap ++ marked) = some (place.past gap, marked) := by
  induction gap generalizing place with
  | nil =>
      cases marked with
      | nil => cases starts
      | cons char rest => rw [List.nil_append, findMarker, if_pos starts, Place.past_nil]
  | cons char others ih =>
      rw [List.mem_cons, not_or] at free
      have unmarked : ¬ startsMarker (char :: (others ++ marked)) = true := by
        intro starts
        rw [startsMarker, Call.marker, startsWithMarker, Bool.and_eq_true, beq_iff_eq] at starts
        exact free.1 (eq_dollar_of_toLower starts.1).symm
      rw [List.cons_append, findMarker, if_neg unmarked, ih free.2, Place.past_cons]

/-- A search comes upon the first call behind characters without a dollar sign. -/
theorem scan_append (free : '$' ∉ gap) {call : Call} {text rest : List Char}
    (written : call.Written text rest) :
    scan place (gap ++ (text ++ rest)) = .call ⟨call, place.past gap, text, rest⟩ := by
  have behind : (text ++ rest).drop Call.marker.length = text.drop Call.marker.length ++ rest :=
    List.drop_append_of_le_length (Nat.le_of_lt written.longer)
  have mark : (text ++ rest).take Call.marker.length = text.take Call.marker.length :=
    List.take_append_of_le_length (Nat.le_of_lt written.longer)
  simp only [scan, findMarker_append free written.starts, behind, written.reads, mark,
    List.take_append_drop]

/-- The call that closes a body is written where the search has come to. -/
theorem written_of_findClosing (found : awaited.findClosing place input = some site) :
    awaited.closedBy site.call = true ∧ site.call.Written site.text site.rest := by
  fun_induction Awaited.findClosing awaited place input with
  | case1 => cases found
  | case2 place input fault behind rest result ih => exact ih found
  | case3 place input closing result closes =>
      cases found
      obtain ⟨-, -, -, written⟩ := written_of_scan result
      exact ⟨closes, written⟩
  | case4 place input other result _ ih => exact ih found

/-- A body without a dollar sign is closed by the call behind it. -/
theorem findClosing_append (free : '$' ∉ gap) {call : Call} {text rest : List Char}
    (written : call.Written text rest) (closes : awaited.closedBy call = true) :
    awaited.findClosing place (gap ++ (text ++ rest)) =
      some ⟨call, place.past gap, text, rest⟩ := by
  have result := @scan_append place gap free call text rest written
  fun_cases Awaited.findClosing awaited place (gap ++ (text ++ rest)) <;> simp_all

theorem Awaited.written_of_closing {opener : Site} (closed : awaited.closing opener = .ok site) :
    awaited.closedBy site.call = true ∧ site.call.Written site.text site.rest := by
  unfold Awaited.closing at closed
  split at closed
  · next found =>
      cases closed
      exact written_of_findClosing found
  · cases closed

theorem Awaited.closing_append {opener : Site} (free : '$' ∉ gap) {call : Call}
    {text rest : List Char} (written : call.Written text rest)
    (behind : opener.rest = gap ++ (text ++ rest)) (closes : awaited.closedBy call = true) :
    awaited.closing opener = .ok ⟨call, opener.stop.past gap, text, rest⟩ := by
  unfold Awaited.closing
  rw [behind, findClosing_append free written closes]

end Searching

end Transclusion
