import Transclusion.Proofs.Lexer.Frames
import Transclusion.Proofs.Lexer.Partition

/-!
# The span of a directive and its own calls

What a directive replaces should take its own call with it, as a plain directive and a
whole line do, or leave its calls alone, as a block and a region do. Whether it does is
decided by the newlines in the opening call, since a parameter list may go over several
lines, and a line is always the one on which the call begins.

A plain directive and a region never fail (`Justified.respects`). A whole line takes its call
with it exactly if there is no newline in the call (`LineAround.contains_iff`), and a block
leaves its opening call alone exactly if there is none, or nothing is replaced
(`LineAround.apart_iff`). `Token.ofText_broken_calls` has a line and a block that fail.
-/

set_option autoImplicit false

namespace Transclusion

/-! ## Spans and offsets -/

/-- Every byte of one span is a byte of another one. -/
def Span.Contains (outer inner : Span) : Prop :=
  ∀ offset, inner.Covers offset → outer.Covers offset

/-- Two spans have no byte in common. -/
def Span.Apart (left right : Span) : Prop :=
  ∀ offset, left.Covers offset → ¬ right.Covers offset

/-- A character stands at an offset of a text. -/
def CharAt (source : List Char) (offset : Nat) (char : Char) : Prop :=
  ∃ before after, before ++ char :: after = source ∧ Text.byteLength before = offset

/-- The characters of a part of a text are those that stand at its offsets. -/
theorem mem_iff_charAt (before text after : List Char) (char : Char) :
    char ∈ text ↔ ∃ offset, CharAt (before ++ text ++ after) offset char ∧
      Span.Covers ⟨Text.byteLength before, Text.byteLength (before ++ text)⟩ offset := by
  constructor
  · intro member
    obtain ⟨front, back, rfl⟩ := List.append_of_mem member
    have size := char.utf8Size_pos
    refine ⟨Text.byteLength (before ++ front), ⟨before ++ front, back ++ after, by simp, rfl⟩, ?_⟩
    simp only [Span.Covers, Text.byteLength_append, Text.byteLength_cons]
    omega
  · rintro ⟨offset, ⟨front, back, whole, rfl⟩, start, stop⟩
    rw [List.append_assoc] at whole
    obtain ⟨inside, rfl, rest⟩ := Text.exists_append_of_byteLength_le whole.symm start
    simp only [Text.byteLength_append, Nat.add_lt_add_iff_left] at stop
    obtain ⟨others, rfl, tail⟩ := Text.exists_append_of_byteLength_le rest.symm (Nat.le_of_lt stop)
    cases others with
    | nil =>
        rw [List.append_nil] at stop
        exact (Nat.lt_irrefl _ stop).elim
    | cons first more =>
        obtain ⟨rfl, -⟩ := List.cons.inj tail
        exact List.mem_append_right inside List.mem_cons_self

/-- The characters of a span are those that stand at its offsets. -/
theorem Span.Within.mem_slice_iff {source : List Char} {span : Span} (within : span.Within source)
    (char : Char) :
    char ∈ Text.slice source span ↔
      ∃ offset, CharAt source offset char ∧ span.Covers offset := by
  obtain ⟨start, stop⟩ := span
  obtain ⟨ordered, starts, stops⟩ := within
  simp only [Text.IsBoundary] at ordered starts stops
  have front := Text.upto_append_onward source start
  have back := Text.upto_append_onward source stop
  obtain ⟨inside, whole, -⟩ := Text.exists_append_of_byteLength_le (front.trans back.symm)
    (by omega)
  rw [whole] at back stops
  have members := mem_iff_charAt (Text.upto source start) inside (Text.onward source stop) char
  have slice := Text.slice_parts (Text.upto source start) inside (Text.onward source stop)
  rw [back, starts, stops] at members slice
  rw [slice, members]

/-! ## The last character of a call -/

namespace Call

/-- A parameter list ends with its parenthesis. -/
theorem readParams_getLast? {wanted : Bool} {input : List Char} {reading : Reading (List Param)}
    (read : readParams wanted input = .ok reading) : reading.taken.getLast? = some ')' := by
  fun_induction readParams wanted input generalizing reading with
  | case2 _ input rest skipped =>
      cases read
      exact List.getLast?_concat
  | case4 _ input rest _ skipped _ ih =>
      obtain ⟨others, inner, rfl⟩ := Reading.eq_ok_of_map read
      rw [Reading.behind, List.getLast?_append, ih inner]
      rfl
  | case6 input char tail skipped _ _ first taken ih =>
      obtain ⟨others, inner, rfl⟩ := Reading.eq_ok_of_map read
      rw [Reading.behind, Reading.map, List.getLast?_append, ih inner]
      rfl
  | _ => cases read

/-- A call ends with the parenthesis of its parameters, or with its name. -/
theorem readArguments_getLast? {method : Option String} {input : List Char}
    {reading : Reading Call} (read : readArguments method input = .ok reading) :
    reading.taken = [] ∨ reading.taken.getLast? = some ')' := by
  unfold readArguments at read
  split at read
  · obtain ⟨values, inner, rfl⟩ := Reading.eq_ok_of_map read
    refine .inr ?_
    rw [Reading.behind, Reading.map, List.getLast?_append, readParams_getLast? inner]
    rfl
  · cases read
    exact .inl rfl

theorem ne_newline_of_isMethodChar {char : Char} (belongs : isMethodChar char = true) :
    char ≠ '\n' := by
  rintro rfl
  revert belongs
  decide +kernel

/-- No call ends with a newline. -/
theorem read_getLast? {input : List Char} {reading : Reading Call}
    (success : read input = .ok reading) : ∀ char ∈ reading.taken.getLast?, char ≠ '\n' := by
  have listed {taken : List Char} (ends : taken = [] ∨ taken.getLast? = some ')') :
      ∀ char ∈ taken.getLast?, char ≠ '\n' := by
    rcases ends with rfl | ends
    · simp
    · rw [ends]
      rintro char ⟨⟩
      decide
  unfold read at success
  split at success
  · next named =>
      simp only at success
      split at success
      · cases success
      · next chosen =>
          obtain ⟨call, inner, rfl⟩ := Reading.eq_ok_of_map success
          have ends := readArguments_getLast? inner
          intro char last
          rw [Reading.behind, List.getLast?_append, Option.mem_def, Option.or_eq_some_iff] at last
          rcases last with last | ⟨-, last⟩
          · exact listed ends char last
          · rw [List.getLast?_cons, Option.some.injEq] at last
            apply ne_newline_of_isMethodChar
            rw [← last, List.getLast?_eq_some_getLast chosen, Option.getD_some]
            exact List.all_eq_true.1 List.all_takeWhile _ (List.getLast_mem chosen)
  · exact listed (readArguments_getLast? success)

end Call

/-- The characters of a call that stands in a text: they are not empty, and the last one is
no newline. -/
theorem Occurrence.In.exists_parts {source : List Char} {occurrence : Occurrence}
    (here : occurrence.In source) :
    ∃ before text last after, before ++ (text ++ [last]) ++ after = source ∧ last ≠ '\n' ∧
      occurrence.span =
        ⟨Text.byteLength before, Text.byteLength (before ++ (text ++ [last]))⟩ := by
  obtain ⟨call, start, stop⟩ := occurrence
  obtain ⟨before, marked, whole, rfl, starts⟩ := markerAt_iff_exists.1 here.marker
  have reads := here.reads
  subst whole
  cases success : Call.read (marked.drop Call.marker.length) with
  | error fault =>
      obtain ⟨error, failed⟩ := Call.readAt_append_error before starts success
      cases failed.symm.trans reads
  | ok reading =>
      cases (Call.readAt_append_ok before starts success).symm.trans reads
      obtain ⟨char, others, behind, opens⟩ := exists_opens_of_startsWithMarker starts
      have progress := Call.read_taken_ne_nil (behind ▸ success) opens
      have taken : reading.taken ++ reading.rest = marked.drop Call.marker.length :=
        Call.read_of success
      have parts : marked.take Call.marker.length ++ reading.taken.dropLast ++
          [reading.taken.getLast progress] = marked.take Call.marker.length ++ reading.taken := by
        rw [List.append_assoc, List.dropLast_concat_getLast]
      refine ⟨before, marked.take Call.marker.length ++ reading.taken.dropLast,
        reading.taken.getLast progress, reading.rest, ?_, ?_, ?_⟩
      · rw [parts, List.append_assoc, List.append_assoc, taken, List.take_append_drop]
      · exact Call.read_getLast? success _ (List.getLast?_eq_some_getLast progress)
      · rw [parts, Text.byteLength_append before]
        rfl

/-! ## Lines and calls -/

section Lines

variable {source : List Char} {offset : Nat} {span : Span} {occurrence : Occurrence}

/-- No newline stands in a line. -/
theorem LineAround.free (around : LineAround source offset span) {place : Nat}
    (newline : CharAt source place '\n') : ¬ span.Covers place := by
  obtain ⟨before, line, after, rfl, between, rfl, -, -⟩ := around
  intro covered
  exact between.solid ((mem_iff_charAt before line after '\n').2 ⟨place, newline, covered⟩)

/-- A line that is not the last one ends at a newline. -/
theorem LineAround.charAt_stop (around : LineAround source offset span)
    (inner : span.stop < Text.byteLength source) : CharAt source span.stop '\n' := by
  obtain ⟨before, line, after, rfl, between, rfl, -, -⟩ := around
  cases after with
  | nil =>
      rw [List.append_nil] at inner
      exact (Nat.lt_irrefl _ inner).elim
  | cons char rest =>
      cases between.below char rfl
      exact ⟨before ++ line, rest, rfl, rfl⟩

/-- A call holds a newline exactly if one stands at an offset of the call. -/
theorem Occurrence.In.newline_iff (here : occurrence.In source) :
    '\n' ∈ Text.slice source occurrence.span ↔
      ∃ offset, CharAt source offset '\n' ∧ occurrence.span.Covers offset := by
  obtain ⟨before, text, last, after, rfl, -, same⟩ := here.exists_parts
  rw [same, Text.slice_parts]
  exact mem_iff_charAt before (text ++ [last]) after '\n'

/-- A call takes a byte and does not go past the end of the text. -/
theorem Occurrence.In.bounds (here : occurrence.In source) :
    occurrence.span.start < occurrence.span.stop ∧
      occurrence.span.stop ≤ Text.byteLength source := by
  obtain ⟨before, text, last, after, rfl, -, same⟩ := here.exists_parts
  have size := last.utf8Size_pos
  rw [same]
  simp only [Text.byteLength_append, Text.byteLength_cons]
  omega

/-- A newline in a call is not its last byte. -/
theorem Occurrence.In.succ_lt (here : occurrence.In source) {place : Nat}
    (newline : CharAt source place '\n') (covered : occurrence.span.Covers place) :
    place + 1 < occurrence.span.stop := by
  obtain ⟨before, text, last, after, rfl, other, same⟩ := here.exists_parts
  rw [same, ← List.append_assoc] at covered ⊢
  have size := last.utf8Size_pos
  have total : Text.byteLength (before ++ text ++ [last]) =
      Text.byteLength (before ++ text) + last.utf8Size := by
    rw [Text.byteLength_append, Text.byteLength_cons, Text.byteLength_nil, Nat.add_zero]
  have inner : place < Text.byteLength (before ++ text) := by
    by_contra past
    have member := (mem_iff_charAt (before ++ text) [last] after '\n').2 ⟨place, by
      rwa [List.append_assoc before], Nat.le_of_not_lt past, covered.2⟩
    exact other (List.mem_singleton.1 member).symm
  simp only
  omega

/-- A line takes the call that begins on it with it exactly if the call is on one line. -/
theorem LineAround.contains_iff (here : occurrence.In source)
    (around : LineAround source occurrence.span.start span) :
    span.Contains occurrence.span ↔ '\n' ∉ Text.slice source occurrence.span := by
  have size := here.bounds.2
  obtain ⟨-, -, -, -, -, -, first, last⟩ := id around
  rw [here.newline_iff]
  constructor
  · rintro contains ⟨place, newline, covered⟩
    exact around.free newline (contains place covered)
  · intro solid place covered
    refine ⟨Nat.le_trans first covered.1, Nat.lt_of_not_le fun past => solid ?_⟩
    have inner : span.stop < occurrence.span.stop := Nat.lt_of_le_of_lt past covered.2
    exact ⟨span.stop, around.charAt_stop (Nat.lt_of_lt_of_le inner size), last, inner⟩

/-- What begins behind the line of a call leaves the call alone exactly if the call is on one
line, or nothing is replaced. -/
theorem LineAround.apart_iff {above : Span} (here : occurrence.In source)
    (around : LineAround source occurrence.span.start above) (start : span.start = above.stop + 1) :
    span.Apart occurrence.span ↔
      '\n' ∉ Text.slice source occurrence.span ∨ span.stop ≤ span.start := by
  have bounds := here.bounds
  obtain ⟨-, -, -, -, -, -, first, last⟩ := id around
  constructor
  · intro apart
    by_contra fails
    rw [not_or, not_not, Nat.not_le, here.newline_iff] at fails
    obtain ⟨⟨place, newline, covered⟩, filled⟩ := fails
    -- the first newline of the call ends the line, and the call goes on behind it
    have inner : above.stop < occurrence.span.stop := by
      by_contra past
      refine around.free newline ⟨Nat.le_trans first covered.1, ?_⟩
      have := covered.2
      omega
    have ends := around.charAt_stop (Nat.lt_of_lt_of_le inner bounds.2)
    have further := here.succ_lt ends ⟨last, inner⟩
    exact apart span.start ⟨Nat.le_refl _, filled⟩ ⟨by omega, by omega⟩
  · rintro (solid | empty) place ⟨behind, before⟩ covered
    · have inside := (around.contains_iff here).2 solid place covered
      have := inside.2
      omega
    · omega

end Lines

/-! ## Directives and their calls -/

/-- How the span of a directive lies to the calls that the directive goes back to. -/
structure Respects (source : List Char) (directive : Directive) (origin : Origin) : Prop where
  /-- A plain directive takes its call with it. -/
  plain : directive.kind = .plain → directive.span.Contains origin.opener.span
  /-- A whole line takes its call with it if the call is on one line, and only then. -/
  line : directive.kind = .line → (directive.span.Contains origin.opener.span ↔
    '\n' ∉ Text.slice source origin.opener.span)
  /-- A block leaves its closing call alone, and its opening call if that is on one line or
  nothing is replaced, and only then. -/
  block : directive.kind = .block → directive.span.Apart origin.last.span ∧
    (directive.span.Apart origin.opener.span ↔
      '\n' ∉ Text.slice source origin.opener.span ∨ directive.span.stop ≤ directive.span.start)
  /-- A region leaves both calls alone. -/
  region : directive.kind = .region →
    directive.span.Apart origin.opener.span ∧ directive.span.Apart origin.last.span

/-- What comes before a span is apart from it. -/
theorem Span.apart_of_stop_le {left right : Span} (before : left.stop ≤ right.start) :
    left.Apart right := by
  rintro offset ⟨-, inside⟩ ⟨other, -⟩
  omega

/-- What comes behind a span is apart from it. -/
theorem Span.apart_of_le_start {left right : Span} (behind : right.stop ≤ left.start) :
    left.Apart right := by
  rintro offset ⟨inside, -⟩ ⟨-, other⟩
  omega

theorem Justified.respects {source : List Char} {directive : Directive} {origin : Origin}
    (justified : Justified source directive origin) : Respects source directive origin := by
  cases justified with
  | plain here method => exact ⟨fun _ _ covered => covered, by simp, by simp, by simp⟩
  | line here method around => exact ⟨by simp, fun _ => around.contains_iff here, by simp, by simp⟩
  | shortcut here method => exact ⟨by simp, by simp, by simp, by simp⟩
  | @block opener closer above below span here method there closes behind first last start stop =>
      refine ⟨by simp, by simp, fun _ => ⟨Span.apart_of_stop_le ?_, first.apart_iff here start⟩,
        by simp⟩
      obtain ⟨-, -, -, -, -, -, begins, -⟩ := last
      simp only
      omega
  | region here method there closes behind skipsAfter skipsBefore start stop =>
      refine ⟨by simp, by simp, by simp, fun _ =>
        ⟨Span.apart_of_le_start ?_, Span.apart_of_stop_le ?_⟩⟩
      · exact start ▸ Nat.le_add_right _ _
      · exact stop ▸ Nat.le_add_right _ _

/-- **Every directive of a text goes back to calls that its span respects, but for the opening
call of a line or a block that goes over several lines.** Such a line leaves the end of its
call behind, and such a block replaces the end of its opening call. -/
theorem Token.ofText_respects {source : String} {tokens : List Token}
    (result : Token.ofText source = .ok tokens) :
    ∃ origins : List Origin,
      List.Forall₂ (Justified source.toList) (Token.directives tokens) origins ∧
        List.Forall₂ (Respects source.toList) (Token.directives tokens) origins := by
  obtain ⟨origins, traced⟩ := (cutting_of_ofText result).exists_traced
  refine ⟨origins, traced.justified, traced.justified.imp fun directive origin justified => ?_⟩
  exact justified.respects

/-- A text with a directive of every form, a line and a block with calls over two lines among
them. -/
theorem Token.ofText_respects_mixed :
    ∃ origins : List Origin,
      List.Forall₂
        (Respects ("$inline('p')\n$inline.line(`a\nb`) c\n$inline.start('d',\n'e')\nf\n" ++
          "$inline.end\n$inline.open('u')v$inline.close").toList)
        [⟨.plain, [.text "p"], ⟨0, 12⟩⟩, ⟨.line, [.text "a\nb"], ⟨13, 28⟩⟩,
          ⟨.block, [.text "d", .text "e"], ⟨54, 60⟩⟩,
          ⟨.region, [.text "u"], ⟨90, 91⟩⟩] origins := by
  have result : Token.ofText
      ("$inline('p')\n$inline.line(`a\nb`) c\n$inline.start('d',\n'e')\nf\n" ++
        "$inline.end\n$inline.open('u')v$inline.close") = .ok
      [.directive ⟨.plain, [.text "p"], ⟨0, 12⟩⟩, .text "\n",
        .directive ⟨.line, [.text "a\nb"], ⟨13, 28⟩⟩, .text "\nb`) c\n$inline.start('d',\n",
        .directive ⟨.block, [.text "d", .text "e"], ⟨54, 60⟩⟩,
        .text "\n$inline.end\n$inline.open('u')",
        .directive ⟨.region, [.text "u"], ⟨90, 91⟩⟩, .text "$inline.close"] := by decide +kernel
  obtain ⟨origins, -, respects⟩ := Token.ofText_respects result
  exact ⟨origins, respects⟩

/-- A line that leaves the end of its call behind, and a block that replaces the end of its
opening call. -/
theorem Token.ofText_broken_calls :
    (Token.ofText "$inline.line('a',\n'b')" =
        .ok [.directive ⟨.line, [.text "a", .text "b"], ⟨0, 17⟩⟩, .text "\n'b')"] ∧
      Call.readAt "$inline.line('a',\n'b')".toList 0 =
        .ok (⟨some "line", [.text "a", .text "b"]⟩, 22) ∧
      ¬ Span.Contains ⟨0, 17⟩ ⟨0, 22⟩) ∧
    Token.ofText "$inline.start('a',\n'b')\nbody\n$inline.end" =
        .ok [.text "$inline.start('a',\n",
          .directive ⟨.block, [.text "a", .text "b"], ⟨19, 28⟩⟩, .text "\n$inline.end"] ∧
      Call.readAt "$inline.start('a',\n'b')\nbody\n$inline.end".toList 0 =
        .ok (⟨some "start", [.text "a", .text "b"]⟩, 23) ∧
      ¬ Span.Apart ⟨19, 28⟩ ⟨0, 23⟩ := by
  refine ⟨⟨by decide +kernel, by decide +kernel, fun contains => ?_⟩, by decide +kernel,
    by decide +kernel, fun apart => ?_⟩
  · exact absurd (contains 17 (by decide)) (by decide)
  · exact apart 19 (by decide) (by decide)

end Transclusion
