import Transclusion.Proofs.Lexer.Bodies
import Transclusion.Proofs.Lexer.Origins
import Transclusion.Proofs.Lexer.Partition

/-!
# Spans lie in their text

What the lexer says about a text, it says with spans: a directive has one, and so has
an error. Every one of them lies in the text, not turned around, and begins and ends
between characters (`Token.ofText_spans`), whatever numbers stand in the text as counts
to skip: the span of a directive is looked at before it is taken, and no error is
reported at a span that was refused.

A reader that fails gives the two remainders between which the fault lies, and both of
them are ends of what it was to read (`Fault.Lies`); so a fault that is located in a text
lies between its characters (`Fault.Lies.locate_within`). All other errors lie between
the ends of calls that stand in the text (`directiveAt_error_within`).
-/

set_option autoImplicit false

namespace Transclusion

/-! ## Faults -/

/-- A fault lies in what was to be read: it begins in it, and ends at its beginning or
behind it. -/
structure Fault.Lies (input : List Char) (fault : Fault) : Prop where
  start : fault.start <:+ input
  stop : fault.stop <:+ fault.start

namespace Fault.Lies

variable {input : List Char} {fault : Fault}

theorem point (cause : SyntaxCause) {place : List Char} (within : place <:+ input) :
    (Fault.point cause place).Lies input :=
  ⟨within, List.suffix_rfl⟩

/-- A fault in an end of a text lies in the text. -/
theorem of_suffix {rest : List Char} (lies : fault.Lies rest) (within : rest <:+ input) :
    fault.Lies input :=
  ⟨lies.start.trans within, lies.stop⟩

end Fault.Lies

namespace Literal

theorem unicodeEscape_fault {input : List Char} {fault : Fault}
    (failed : unicodeEscape input = .error fault) : fault.Lies input := by
  unfold unicodeEscape at failed
  split at failed
  · next braced =>
      have within : braced.dropWhile isHexDigit <:+ '\x7b' :: braced :=
        (List.dropWhile_suffix _).trans (List.suffix_cons _ _)
      simp only at failed
      split at failed
      · next rest closing =>
          rw [closing] at within
          split at failed
          · cases failed
          · cases failed
            exact ⟨List.suffix_rfl, (List.suffix_cons _ _).trans within⟩
      · cases failed
        exact ⟨List.suffix_rfl, within⟩
  · have within := List.drop_suffix ((input.take 4).takeWhile isHexDigit).length input
    simp only at failed
    split at failed
    · split at failed
      · cases failed
      · cases failed
        exact ⟨List.suffix_rfl, within⟩
    · cases failed
      exact ⟨List.suffix_rfl, within⟩

/-- A string that is not read fails between its opening quote and what was left of it, or
in a code of a character. -/
theorem stringTail_fault {quote : Char} {opening input : List Char} {fault : Fault}
    (within : input <:+ opening) (failed : stringTail quote opening input = .error fault) :
    fault.Lies opening := by
  fun_induction stringTail quote opening input with
  | case1 | case4 =>
      cases failed
      exact ⟨List.suffix_rfl, List.nil_suffix⟩
  | case2 => cases failed
  | case3 =>
      cases failed
      exact ⟨List.suffix_rfl, within⟩
  | case5 code escaping refused =>
      cases failed
      exact (unicodeEscape_fault refused).of_suffix
        ((List.suffix_append ['\\', 'u'] code).trans within)
  | case6 code escape escaping _ _ ih =>
      have behind : escape.rest <:+ '\\' :: 'u' :: code :=
        (unicodeEscape_of escaping).suffix.trans (List.suffix_append ['\\', 'u'] code)
      exact ih (behind.trans within) (Reading.eq_error_of_map failed)
  | case7 after _ _ ih =>
      exact ih ((List.suffix_append ['\\', '\n'] after).trans within)
        (Reading.eq_error_of_map failed)
  | case8 other after _ _ _ _ ih =>
      exact ih ((List.suffix_append ['\\', other] after).trans within)
        (Reading.eq_error_of_map failed)
  | case9 char tail _ _ _ ih =>
      exact ih ((List.suffix_cons char tail).trans within) (Reading.eq_error_of_map failed)

theorem hexNumber_fault {opening input : List Char} {fault : Fault} (within : input <:+ opening)
    (failed : hexNumber opening input = .error fault) : fault.Lies opening := by
  simp only [hexNumber] at failed
  split at failed
  · cases failed
  · cases failed
    exact ⟨List.suffix_rfl, (List.dropWhile_suffix _).trans within⟩

theorem decimalNumber_fault {input : List Char} {fault : Fault}
    (failed : decimalNumber input = .error fault) : fault.Lies input := by
  simp only [decimalNumber] at failed
  split at failed
  · cases failed
  · cases failed
    exact ⟨List.suffix_rfl, (exponent_of _).suffix.trans (List.dropWhile_suffix _)⟩

theorem number_fault {input : List Char} {fault : Fault} (failed : number input = .error fault) :
    fault.Lies input := by
  unfold number at failed
  split at failed
  · next digits =>
      exact hexNumber_fault (List.suffix_append ['0', 'x'] digits) (Reading.eq_error_of_map failed)
  · next digits =>
      exact hexNumber_fault (List.suffix_append ['0', 'X'] digits) (Reading.eq_error_of_map failed)
  · exact decimalNumber_fault failed

end Literal

namespace Call

theorem readParam_fault {input : List Char} {fault : Fault}
    (failed : readParam input = .error fault) : fault.Lies input := by
  unfold readParam at failed
  split at failed
  · cases failed
    exact .point _ List.suffix_rfl
  · next char rest =>
      split at failed
      · exact Literal.stringTail_fault (List.suffix_cons char rest) (Reading.eq_error_of_map failed)
      · split at failed
        · exact Literal.number_fault (Reading.eq_error_of_map failed)
        · cases failed
          exact .point _ List.suffix_rfl

theorem readParams_fault {wanted : Bool} {input : List Char} {fault : Fault}
    (failed : readParams wanted input = .error fault) : fault.Lies input := by
  have within (input : List Char) : Trivia.skip .outside input <:+ input :=
    ⟨_, Trivia.front_append_skip .outside input⟩
  fun_induction readParams wanted input with
  | case1 =>
      cases failed
      exact .point _ List.nil_suffix
  | case2 => cases failed
  | case3 input rest skipped =>
      cases failed
      exact .point _ (skipped ▸ within input)
  | case4 _ input rest _ skipped _ ih =>
      have behind : rest <:+ input := (List.suffix_cons _ _).trans (skipped ▸ within input)
      exact (ih (Reading.eq_error_of_map failed)).of_suffix behind
  | case5 input char rest skipped _ _ refusal refused =>
      cases failed
      exact (readParam_fault refused).of_suffix (skipped ▸ within input)
  | case6 input char rest skipped _ _ first taken ih =>
      have behind : first.rest <:+ input :=
        (readParam_of taken).suffix.trans (skipped ▸ within input)
      exact (ih (Reading.eq_error_of_map failed)).of_suffix behind
  | case7 _ input char rest skipped =>
      cases failed
      exact .point _ (skipped ▸ within input)

theorem readArguments_fault {method : Option String} {input : List Char} {fault : Fault}
    (failed : readArguments method input = .error fault) : fault.Lies input := by
  unfold readArguments at failed
  split at failed
  · exact (readParams_fault (Reading.eq_error_of_map failed)).of_suffix (List.suffix_cons _ _)
  · cases failed

/-- **A call that cannot be read has its fault in what stands behind its marker.** -/
theorem read_fault {input : List Char} {fault : Fault} (failed : read input = .error fault) :
    fault.Lies input := by
  unfold read at failed
  split at failed
  · next named =>
      simp only at failed
      split at failed
      · cases failed
        exact .point _ (List.suffix_cons _ _)
      · exact (readArguments_fault (Reading.eq_error_of_map failed)).of_suffix
          ((List.dropWhile_suffix _).trans (List.suffix_cons _ _))
  · exact readArguments_fault failed

end Call

/-! ## Spans between places of a text -/

/-- A span between the ends of two first parts of a text lies in the text. -/
theorem Span.within_of_parts {source before inside after : List Char}
    (whole : before ++ inside ++ after = source) :
    Span.Within source ⟨Text.byteLength before, Text.byteLength (before ++ inside)⟩ where
  ordered := by
    rw [Text.byteLength_append]
    exact Nat.le_add_right _ _
  starts := by
    rw [← whole, List.append_assoc]
    exact Text.isBoundary_byteLength _ _
  stops := whole ▸ Text.isBoundary_byteLength _ _

/-- A fault that is located in a text lies in the text. -/
theorem Fault.Lies.locate_within {source passed input : List Char} {fault : Fault}
    (lies : fault.Lies input) (whole : passed ++ input = source) :
    (fault.locate input (Text.byteLength passed)).span.Within source := by
  obtain ⟨⟨front, start⟩, ⟨inside, stop⟩⟩ := lies
  have parts : passed ++ front ++ inside ++ fault.stop = source := by
    rw [List.append_assoc _ inside, stop, List.append_assoc, start, whole]
  have places : (fault.locate input (Text.byteLength passed)).span =
      ⟨Text.byteLength (passed ++ front), Text.byteLength (passed ++ front ++ inside)⟩ := by
    simp only [Fault.locate, ← start, ← stop, Text.byteLength_append, Span.mk.injEq]
    omega
  rw [places]
  exact Span.within_of_parts parts

namespace Site.Stands

variable {source before between : List Char} {opener closer : Site}

/-- A call that stands in a text takes a span that lies in it. -/
theorem span_within (stands : opener.Stands source before) : opener.span.Within source := by
  have span : opener.span = ⟨Text.byteLength before, Text.byteLength (before ++ opener.text)⟩ := by
    rw [← stands.span_start, ← stands.span_stop]
  rw [span]
  exact Span.within_of_parts stands.behind

theorem point_within (stands : closer.Stands source before) :
    (Span.point closer.span.start).Within source := by
  have within := stands.span_within
  exact ⟨Nat.le_refl _, within.starts, within.starts⟩

/-- From a call to a call behind it there is a span that lies in the text. -/
theorem between_within (stands : opener.Stands source before)
    (ends : closer.Stands source (before ++ between)) :
    Span.Within source ⟨opener.span.start, closer.span.start⟩ := by
  rw [stands.span_start, ends.span_start]
  exact Span.within_of_parts ends.whole

end Site.Stands

/-! ## Errors -/

section Errors

variable {source before : List Char} {opener : Site} {error : SyntaxError}

/-- A call that is refused is refused with a span that lies in the text. -/
theorem directiveAt_error_within {size : Nat} (stands : opener.Stands source before)
    (refused : directiveAt size opener = .error error) : error.span.Within source := by
  have here {span : Span} (same : span = opener.span) : span.Within source :=
    same ▸ stands.span_within
  have closing {awaited : Awaited} {error : SyntaxError}
      (missing : awaited.closing opener = .error error) : error.span = opener.span :=
    congrArg SyntaxError.span (Awaited.closing_error stands missing).1
  unfold directiveAt at refused
  simp only [bind, Except.bind, pure, Except.pure] at refused
  split at refused
  · cases refused
  · cases refused
  · cases refused
  · split at refused
    · next missing =>
        cases refused
        exact here (closing missing)
    · split at refused
      · next empty =>
          cases refused
          exact here (blockSpan_error empty).2
      · cases refused
  · split at refused
    · next invalid =>
        cases refused
        exact here (regionStart_error invalid).2
    · split at refused
      · next missing =>
          cases refused
          exact here (closing missing)
      · next closer closed =>
          split at refused
          · next overlaps =>
              cases refused
              obtain ⟨further, ends⟩ := Awaited.closing_stands stands closed
              rw [List.append_assoc] at ends
              rcases (regionSpan_error overlaps).2 with between | point
              · exact between ▸ stands.between_within ends
              · exact point ▸ ends.point_within
          · cases refused
  · split at refused
    · next missing =>
        cases refused
        exact here (closing missing)
    · cases refused
  · cases refused
    exact here rfl

/-- A call that a search cannot read has its fault behind its marker. -/
theorem scan_malformed_fault {place behind : Place} {input rest : List Char} {fault : Fault}
    (malformed : scan place input = .malformed fault behind rest) : fault.Lies rest := by
  unfold scan at malformed
  split at malformed
  · cases malformed
  · simp only at malformed
    split at malformed
    · next failed =>
        cases malformed
        exact Call.read_fault failed
    · cases malformed

/-- A call that a search cannot read has its fault in the text. -/
theorem scan_malformed_within {passed input rest : List Char} {fault : Fault} {behind : Place}
    (searched : passed ++ input = source)
    (malformed : scan (Place.start.past passed) input = .malformed fault behind rest) :
    (fault.locate rest behind.offset).span.Within source := by
  obtain ⟨skipped, whole, placed⟩ := scan_malformed_behind searched malformed
  have offset : behind.offset = Text.byteLength (passed ++ skipped) := by
    rw [placed, Place.offset_past]
    exact Nat.zero_add _
  rw [offset]
  exact (scan_malformed_fault malformed).locate_within whole

/-- **The error with which the lexer fails lies in the text.** -/
theorem tokensFrom_error_within {passed unread input : List Char} {size emitted : Nat}
    {place : Place} (measured : size = Text.byteLength source)
    (searched : passed ++ input = source) (placed : place = Place.start.past passed)
    (failed : tokensFrom size emitted unread place input = .error error) :
    error.span.Within source := by
  fun_induction tokensFrom size emitted unread place input generalizing passed with
  | case1 => cases failed
  | case2 emitted unread place input fault behind rest malformed =>
      subst placed
      cases failed
      exact scan_malformed_within searched malformed
  | case3 emitted unread place input opener found refusal refused =>
      subst placed
      cases failed
      obtain ⟨skipped, stands⟩ := scan_call_stands searched found
      exact directiveAt_error_within stands refused
  | case4 emitted unread place input opener found last accepted ih =>
      subst measured placed
      obtain ⟨further, -, rest, stop⟩ := opening_of_directiveAt searched found accepted
      exact ih rest stop failed
  | case5 emitted unread place input opener found directive last accepted shortcut ih =>
      subst measured placed
      obtain ⟨further, -, rest, stop⟩ := opening_of_directiveAt searched found accepted
      exact ih rest stop (Reading.eq_error_of_map failed)
  | case6 emitted unread place input opener found directive last accepted shortcut error refused =>
      subst placed
      cases failed
      obtain ⟨skipped, stands⟩ := scan_call_stands searched found
      exact (cutAround_error refused).2 ▸ stands.span_within
  | case7 emitted unread place input opener found directive last accepted shortcut plain left
      cut ih =>
      subst measured placed
      obtain ⟨further, -, rest, stop⟩ := opening_of_directiveAt searched found accepted
      exact ih rest stop (Reading.eq_error_of_map failed)

end Errors

/-! ## Directives -/

/-- The span of every directive lies in the text, also that of a declaration. -/
theorem Cutting.directive_within {source front passed : List Char} {tokens : List Token}
    (cutting : Cutting source front passed tokens) :
    ∀ directive ∈ Token.directives tokens, directive.span.Within source := by
  induction cutting with
  | done => simp
  | skip _ _ ih => exact ih
  | declare opening shortcut _ ih =>
      rw [Token.directives_cons, List.forall_mem_cons]
      obtain ⟨skipped, stands⟩ := opening.stands
      refine ⟨?_, ih⟩
      cases opening.opens with
      | shortcut => exact stands.span_within
      | _ => cases shortcut
  | replace _ _ whole start stop _ ih =>
      rw [Token.directives_append, Token.directives_ofPlain, List.nil_append,
        Token.directives_cons, List.forall_mem_cons]
      refine ⟨?_, ih⟩
      have within := Span.within_of_parts whole
      rwa [start, stop] at within

/-- Something holds of the spans in what the lexer makes of a text: of those of all
directives, or of that of the error. -/
def SpansIn (holds : Span → Prop) : Except SyntaxError (List Token) → Prop
  | .ok tokens => ∀ directive ∈ Token.directives tokens, holds directive.span
  | .error error => holds error.span

theorem SpansIn.imp {holds follows : Span → Prop} {outcome : Except SyntaxError (List Token)}
    (spans : SpansIn holds outcome) (implies : ∀ span, holds span → follows span) :
    SpansIn follows outcome := by
  cases outcome with
  | ok tokens => exact fun directive member => implies _ (spans directive member)
  | error error => exact implies _ spans

/-- **Whatever the lexer makes of a text, its spans lie in the text.** -/
theorem Token.ofText_spans (source : String) :
    SpansIn (Span.Within source.toList) (Token.ofText source) := by
  cases result : Token.ofText source with
  | ok tokens => exact (cutting_of_ofText result).directive_within
  | error error => exact tokensFrom_error_within rfl (List.nil_append _) rfl result

end Transclusion
