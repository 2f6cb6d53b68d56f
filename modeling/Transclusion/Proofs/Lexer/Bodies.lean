import Transclusion.Proofs.Lexer.Visibility

/-!
# Bodies in a text

The states in which the lexer has nothing open are those it comes to by accepting
one call after the other (`Reaches`). What stops it there stops it altogether
(`Reaches.ofText_eq_error_iff`), and every error lies behind what has been passed
(`tokensFrom_error_le`), so an error tells which call it is about.

For every call that opens a body in such a state, the body is closed by the first
closing call that is not hidden in another call of the body, and a text fails for a
missing closing call exactly if there is none (`Token.ofText_body`). A closing
call may be hidden by accident: `Token.ofText_hidden_closing` has its only one in a
string.
-/

set_option autoImplicit false

namespace Transclusion

/-! ## Steps of the lexer -/

section Steps

variable {size emitted : Nat} {unread input : List Char} {place : Place} {opener last : Site}
  {directive : Directive}

theorem tokensFrom_refused {error : SyntaxError} (found : scan place input = .call opener)
    (refused : directiveAt size opener = .error error) :
    tokensFrom size emitted unread place input = .error error := by
  fun_cases tokensFrom size emitted unread place input <;> simp_all

theorem tokensFrom_skip (found : scan place input = .call opener)
    (accepted : directiveAt size opener = .ok (none, last)) :
    tokensFrom size emitted unread place input =
      tokensFrom size emitted unread last.stop last.rest := by
  fun_cases tokensFrom size emitted unread place input <;> simp_all

theorem tokensFrom_declare (found : scan place input = .call opener)
    (accepted : directiveAt size opener = .ok (some directive, last))
    (shortcut : directive.isShortcut = true) :
    tokensFrom size emitted unread place input =
      (tokensFrom size emitted unread last.stop last.rest).map (.directive directive :: ·) := by
  fun_cases tokensFrom size emitted unread place input <;> simp_all

theorem tokensFrom_replace {plain left : List Char} (found : scan place input = .call opener)
    (accepted : directiveAt size opener = .ok (some directive, last))
    (shortcut : directive.isShortcut = false)
    (cut : cutAround emitted unread directive.span opener.span = .ok (plain, left)) :
    tokensFrom size emitted unread place input =
      (tokensFrom size directive.span.stop left last.stop last.rest).map
        fun tokens => Token.ofPlain plain ++ .directive directive :: tokens := by
  fun_cases tokensFrom size emitted unread place input <;> simp_all

/-- A call at which the lexer fails is refused, or its span is, or the lexer fails behind
its last call. -/
theorem tokensFrom_error {error : SyntaxError} (found : scan place input = .call opener)
    (failed : tokensFrom size emitted unread place input = .error error) :
    directiveAt size opener = .error error ∨
      (∃ span, cutAround emitted unread span opener.span = .error error) ∨
      ∃ accepted last done left, directiveAt size opener = .ok (accepted, last) ∧
        tokensFrom size done left last.stop last.rest = .error error := by
  revert failed
  fun_cases tokensFrom size emitted unread place input <;> intro failed
  case case1 => cases failed
  case case2 malformed => cases found.symm.trans malformed
  case case3 site called error refused =>
      cases found.symm.trans called
      cases failed
      exact .inl refused
  case case4 site called last accepted =>
      cases found.symm.trans called
      exact .inr (.inr ⟨_, last, _, _, accepted, failed⟩)
  case case5 site called directive last accepted shortcut =>
      cases found.symm.trans called
      exact .inr (.inr ⟨_, last, _, _, accepted, Reading.eq_error_of_map failed⟩)
  case case6 site called directive last accepted shortcut error refused =>
      cases found.symm.trans called
      cases failed
      exact .inr (.inl ⟨_, refused⟩)
  case case7 site called directive last accepted shortcut plain left cut =>
      cases found.symm.trans called
      exact .inr (.inr ⟨_, last, _, _, accepted, Reading.eq_error_of_map failed⟩)

end Steps

/-! ## The lexer with nothing open -/

/-- What a call that the lexer accepts in a text of the given size waits for, if it
opens a body. -/
inductive Awaits (size : Nat) (opener : Site) : Awaited → Prop
  | block (method : opener.call.method = some "start") : Awaits size opener .blockEnd
  | region {start : Nat} (method : opener.call.method = some "open")
      (begins : regionStart size opener = .ok start) : Awaits size opener .regionClose
  | skip (method : opener.call.method = some "skipStart") :
      Awaits size opener (.skipEnd opener.call.params.head?)

/-- The lexer comes to search from a place with nothing open: what is emitted, what
is left to emit, the place and what is left to search. -/
inductive Reaches (source : List Char) : Nat → List Char → Place → List Char → Prop
  | start : Reaches source 0 source .start source
  | skip {emitted : Nat} {unread input : List Char} {place : Place} {opener last : Site}
      (reached : Reaches source emitted unread place input)
      (found : scan place input = .call opener)
      (accepted : directiveAt (Text.byteLength source) opener = .ok (none, last)) :
      Reaches source emitted unread last.stop last.rest
  | declare {emitted : Nat} {unread input : List Char} {place : Place} {opener last : Site}
      {directive : Directive} (reached : Reaches source emitted unread place input)
      (found : scan place input = .call opener)
      (accepted : directiveAt (Text.byteLength source) opener = .ok (some directive, last))
      (shortcut : directive.isShortcut = true) : Reaches source emitted unread last.stop last.rest
  | replace {emitted : Nat} {unread input plain left : List Char} {place : Place}
      {opener last : Site} {directive : Directive}
      (reached : Reaches source emitted unread place input)
      (found : scan place input = .call opener)
      (accepted : directiveAt (Text.byteLength source) opener = .ok (some directive, last))
      (shortcut : directive.isShortcut = false)
      (cut : cutAround emitted unread directive.span opener.span = .ok (plain, left)) :
      Reaches source directive.span.stop left last.stop last.rest

namespace Reaches

variable {source unread input : List Char} {emitted : Nat} {place : Place}

/-- The place and what is left to search belong together. -/
theorem exists_passed (reached : Reaches source emitted unread place input) :
    ∃ passed, place = Place.start.past passed ∧ passed ++ input = source := by
  have behind {input : List Char} {place : Place} {opener last : Site} {found : Option Directive}
      (before : ∃ passed, place = Place.start.past passed ∧ passed ++ input = source)
      (result : scan place input = .call opener)
      (accepted : directiveAt (Text.byteLength source) opener = .ok (found, last)) :
      ∃ passed, last.stop = Place.start.past passed ∧ passed ++ last.rest = source := by
    obtain ⟨passed, rfl, searched⟩ := before
    obtain ⟨further, -, rest, stop⟩ := opening_of_directiveAt searched result accepted
    exact ⟨further, stop, rest⟩
  induction reached with
  | start => exact ⟨[], rfl, rfl⟩
  | skip _ found accepted ih => exact behind ih found accepted
  | declare _ found accepted _ ih => exact behind ih found accepted
  | replace _ found accepted _ _ ih => exact behind ih found accepted

/-- The tokens that are emitted on the way go in front of those that come. -/
theorem exists_tokens {source : String}
    (reached : Reaches source.toList emitted unread place input) :
    ∃ tokens, Token.ofText source =
      (tokensFrom (Text.byteLength source.toList) emitted unread place input).map
        (tokens ++ ·) := by
  have twice (result : Except SyntaxError (List Token)) (change : List Token → List Token)
      (front : List Token) :
      (result.map change).map (front ++ ·) = result.map fun tokens => front ++ change tokens := by
    cases result <;> rfl
  induction reached with
  | start => exact ⟨[], (congrFun Except.map_id _).symm⟩
  | skip _ found accepted ih =>
      obtain ⟨tokens, same⟩ := ih
      rw [tokensFrom_skip found accepted] at same
      exact ⟨tokens, same⟩
  | @declare _ _ _ _ _ _ directive _ found accepted shortcut ih =>
      obtain ⟨tokens, same⟩ := ih
      rw [tokensFrom_declare found accepted shortcut] at same
      refine ⟨tokens ++ [.directive directive], ?_⟩
      simp only [List.append_assoc, List.singleton_append]
      exact same.trans (twice _ _ tokens)
  | @replace _ _ _ plain _ _ _ _ directive _ found accepted shortcut cut ih =>
      obtain ⟨tokens, same⟩ := ih
      rw [tokensFrom_replace found accepted shortcut cut] at same
      refine ⟨tokens ++ (Token.ofPlain plain ++ [.directive directive]), ?_⟩
      simp only [List.append_assoc, List.singleton_append]
      exact same.trans (twice _ _ tokens)

/-- What stops the lexer on its way stops it altogether. -/
theorem ofText_eq_error_iff {source : String} {error : SyntaxError}
    (reached : Reaches source.toList emitted unread place input) :
    Token.ofText source = .error error ↔
      tokensFrom (Text.byteLength source.toList) emitted unread place input = .error error := by
  obtain ⟨tokens, same⟩ := reached.exists_tokens
  rw [same]
  cases tokensFrom (Text.byteLength source.toList) emitted unread place input <;> simp [Except.map]

end Reaches

/-! ## Where errors lie -/

/-- Whether a cause is that a body is left open. -/
def SyntaxCause.isMissing : SyntaxCause → Bool
  | .endMissing | .closeMissing | .skipEndMissing => true
  | _ => false

theorem Awaited.isMissing_missing (awaited : Awaited) : awaited.missing.isMissing = true := by
  cases awaited <;> rfl

section Errors

variable {size : Nat} {opener closer : Site} {error : SyntaxError}

theorem skipCount_error {param : Option Param} {place : Span}
    (refused : skipCount param place = .error error) :
    error.cause.isMissing = false ∧ error.span = place := by
  unfold skipCount at refused
  split at refused
  · cases refused
  · split at refused
    · cases refused
    · cases refused
      exact ⟨rfl, rfl⟩

theorem blockSpan_error (refused : blockSpan opener closer = .error error) :
    error.cause.isMissing = false ∧ error.span = opener.span := by
  simp only [blockSpan] at refused
  split at refused
  · cases refused
  · cases refused
    exact ⟨rfl, rfl⟩

theorem regionStart_error (refused : regionStart size opener = .error error) :
    error.cause.isMissing = false ∧ error.span = opener.span := by
  unfold regionStart at refused
  split at refused
  · next invalid =>
      cases refused
      exact skipCount_error invalid
  · split at refused
    · cases refused
    · cases refused
      exact ⟨rfl, rfl⟩

theorem regionSpan_error {start : Nat} (refused : regionSpan opener closer start = .error error) :
    error.cause.isMissing = false ∧ (error.span = ⟨opener.span.start, closer.span.start⟩ ∨
      error.span = .point closer.span.start) := by
  unfold regionSpan at refused
  split at refused
  · next invalid =>
      cases refused
      obtain ⟨other, span⟩ := skipCount_error invalid
      exact ⟨other, .inr span⟩
  · split at refused
    · cases refused
    · cases refused
      exact ⟨rfl, .inl rfl⟩

theorem cutAround_error {emitted : Nat} {unread : List Char} {span call : Span}
    (refused : cutAround emitted unread span call = .error error) :
    error.cause.isMissing = false ∧ error.span = call := by
  unfold cutAround at refused
  split at refused
  · cases refused
    exact ⟨rfl, rfl⟩
  · simp only at refused
    split at refused
    · cases refused
    · cases refused
      exact ⟨rfl, rfl⟩

variable {source before : List Char}

/-- A call that is refused opens a body that nothing closes, or has an error of another
kind, which does not lie before it. -/
theorem directiveAt_error (stands : opener.Stands source before)
    (refused : directiveAt size opener = .error error) :
    (∃ awaited, Awaits size opener awaited ∧ awaited.closing opener = .error error) ∨
      (error.cause.isMissing = false ∧ opener.span.start ≤ error.span.start) := by
  unfold directiveAt at refused
  simp only [bind, Except.bind, pure, Except.pure] at refused
  split at refused
  · cases refused
  · cases refused
  · cases refused
  · next method =>
      split at refused
      · next missing =>
          cases refused
          exact .inl ⟨_, .block method, missing⟩
      · split at refused
        · next empty =>
            cases refused
            obtain ⟨other, span⟩ := blockSpan_error empty
            exact .inr ⟨other, by rw [span]⟩
        · cases refused
  · next method =>
      split at refused
      · next invalid =>
          cases refused
          obtain ⟨other, span⟩ := regionStart_error invalid
          exact .inr ⟨other, by rw [span]⟩
      · next begins =>
          split at refused
          · next missing =>
              cases refused
              exact .inl ⟨_, .region method begins, missing⟩
          · next closer closed =>
              split at refused
              · next overlaps =>
                  cases refused
                  obtain ⟨other, between | point⟩ := regionSpan_error overlaps
                  · exact .inr ⟨other, by rw [between]⟩
                  · have behind := (Awaited.closing_ok stands closed).2.seen.le
                    have ordered : opener.span.start ≤ opener.span.stop := Nat.le_add_right _ _
                    rw [point]
                    exact .inr ⟨other, Nat.le_trans ordered behind⟩
              · cases refused
  · next method =>
      split at refused
      · next missing =>
          cases refused
          exact .inl ⟨_, .skip method, missing⟩
      · cases refused
  · cases refused
    exact .inr ⟨rfl, Nat.le_refl _⟩

/-- A call that opens a body which nothing closes is refused with the error of the
missing call. -/
theorem directiveAt_of_closing_error {awaited : Awaited} (awaits : Awaits size opener awaited)
    (missing : awaited.closing opener = .error error) : directiveAt size opener = .error error := by
  unfold directiveAt
  cases awaits with
  | block method => simp only [method, missing, bind, Except.bind]
  | region method begins => simp only [method, begins, missing, bind, Except.bind]
  | skip method => simp only [method, missing, bind, Except.bind]

/-- A call waits for one thing only. -/
theorem Awaits.unique {one other : Awaited} (first : Awaits size opener one)
    (second : Awaits size opener other) : one = other := by
  cases first with
  | block method => cases second <;> simp_all
  | region method => cases second <;> simp_all
  | skip method => cases second <;> simp_all

end Errors

/-- An error does not lie before the place from which the lexer came upon it. -/
theorem tokensFrom_error_le {source passed unread input : List Char} {size emitted : Nat}
    {place : Place} {error : SyntaxError} (measured : size = Text.byteLength source)
    (searched : passed ++ input = source) (placed : place = Place.start.past passed)
    (failed : tokensFrom size emitted unread place input = .error error) :
    Text.byteLength passed ≤ error.span.start := by
  fun_induction tokensFrom size emitted unread place input generalizing passed with
  | case1 => cases failed
  | case2 emitted unread place input fault behind rest malformed =>
      subst placed
      cases failed
      obtain ⟨offset, error, next, -, resumed⟩ := scan_malformed_spec searched malformed
      have later := next.behind
      simp only [Fault.locate]
      omega
  | case3 emitted unread place input opener found refusal refused =>
      subst placed
      cases failed
      obtain ⟨skipped, stands⟩ := scan_call_stands searched found
      have later := (scan_call_spec searched found).2.behind
      rcases directiveAt_error stands refused with ⟨awaited, -, missing⟩ | ⟨-, behind⟩
      · rw [(Awaited.closing_error stands missing).1]
        exact later
      · omega
  | case4 emitted unread place input opener found last accepted ih =>
      subst measured placed
      obtain ⟨further, opening, rest, stop⟩ := opening_of_directiveAt searched found accepted
      exact Nat.le_trans (Nat.le_of_lt opening.passed_lt) (ih rest stop failed)
  | case5 emitted unread place input opener found directive last accepted shortcut ih =>
      subst measured placed
      obtain ⟨further, opening, rest, stop⟩ := opening_of_directiveAt searched found accepted
      have behind := ih rest stop (Reading.eq_error_of_map failed)
      exact Nat.le_trans (Nat.le_of_lt opening.passed_lt) behind
  | case6 emitted unread place input opener found directive last accepted shortcut error refused =>
      subst placed
      cases failed
      rw [(cutAround_error refused).2]
      exact (scan_call_spec searched found).2.behind
  | case7 emitted unread place input opener found directive last accepted shortcut plain left
      cut ih =>
      subst measured placed
      obtain ⟨further, opening, rest, stop⟩ := opening_of_directiveAt searched found accepted
      have behind := ih rest stop (Reading.eq_error_of_map failed)
      exact Nat.le_trans (Nat.le_of_lt opening.passed_lt) behind

/-! ## Bodies in a text -/

/-- An error of a body left open, at a call that opens one, says that the body of that
call is left open. -/
theorem closing_error_of_tokensFrom {source passed unread input : List Char} {emitted : Nat}
    {opener : Site} {awaited : Awaited} {error : SyntaxError} (searched : passed ++ input = source)
    (found : scan (Place.start.past passed) input = .call opener)
    (awaits : Awaits (Text.byteLength source) opener awaited)
    (missing : error.cause.isMissing = true) (here : error.span.start = opener.span.start)
    (failed : tokensFrom (Text.byteLength source) emitted unread (Place.start.past passed) input =
      .error error) :
    awaited.closing opener = .error error := by
  obtain ⟨skipped, stands⟩ := scan_call_stands searched found
  rcases tokensFrom_error found failed with
    refused | ⟨span, refused⟩ | ⟨accepted, last, done, left, opened, behind⟩
  · rcases directiveAt_error stands refused with ⟨other, waits, unclosed⟩ | ⟨different, -⟩
    · rwa [awaits.unique waits]
    · rw [missing] at different
      cases different
  · have different := (cutAround_error refused).1
    rw [missing] at different
    cases different
  · -- behind the last call of an opening every error lies further on
    obtain ⟨further, opening, whole, stop⟩ := opening_of_directiveAt searched found opened
    have later := tokensFrom_error_le rfl whole stop behind
    have forward := opening.start_lt
    omega

/-- **A body is closed by the first closing call behind its opening that is not hidden in
another call, and left open only if there is none.** The opening is any call that
the lexer comes upon and accepts while nothing is open. -/
theorem Token.ofText_body {source : String} {emitted : Nat} {unread input : List Char}
    {place : Place} {opener : Site} {awaited : Awaited}
    (reached : Reaches source.toList emitted unread place input)
    (found : scan place input = .call opener)
    (awaits : Awaits (Text.byteLength source.toList) opener awaited) :
    (Token.ofText source = .error ⟨awaited.missing, opener.span⟩ ↔
      ∀ offset, ¬ awaited.EndsAt source.toList opener.span.stop offset) ∧
    ∀ offset, (∃ closer, awaited.closing opener = .ok closer ∧ closer.span.start = offset) ↔
      awaited.EndsAt source.toList opener.span.stop offset ∧
        ∀ other, awaited.EndsAt source.toList opener.span.stop other → offset ≤ other := by
  obtain ⟨passed, rfl, searched⟩ := reached.exists_passed
  obtain ⟨skipped, stands⟩ := scan_call_stands searched found
  refine ⟨?_, fun offset => Awaited.closing_iff stands⟩
  rw [reached.ofText_eq_error_iff]
  constructor
  · intro failed
    have missing := closing_error_of_tokensFrom searched found awaits awaited.isMissing_missing
      rfl failed
    exact (Awaited.closing_error stands missing).2
  · intro none
    cases closed : awaited.closing opener with
    | error error =>
        rw [tokensFrom_refused found (directiveAt_of_closing_error awaits closed),
          (Awaited.closing_error stands closed).1]
    | ok closer =>
        obtain ⟨ends, -⟩ := (Awaited.closing_iff stands).1 ⟨closer, closed, rfl⟩
        exact absurd ends (none _)

/-- A block with a call and a malformed call in it ends at the first `$inline.end`. -/
theorem Token.ofText_body_malformed :
    let source := "$inline.start('a')\n$inline('b')\n$inline.bogus(\n$inline.end\n$inline.end"
    Awaited.blockEnd.EndsAt source.toList 18 47 ∧
      ∀ other, Awaited.blockEnd.EndsAt source.toList 18 other → 47 ≤ other := by
  intro source
  let opener : Site :=
    ⟨⟨some "start", [.text "a"]⟩, .start, "$inline.start('a')".toList,
      "\n$inline('b')\n$inline.bogus(\n$inline.end\n$inline.end".toList⟩
  have found : scan .start source.toList = .call opener := by decide +kernel
  have closed : Awaited.blockEnd.closing opener =
      .ok ⟨⟨some "end", []⟩, ⟨47, 47⟩, "$inline.end".toList, "\n$inline.end".toList⟩ := by
    decide +kernel
  have awaits : Awaits (Text.byteLength source.toList) opener .blockEnd := .block rfl
  exact ((Token.ofText_body .start found awaits).2 47).1 ⟨_, closed, rfl⟩

/-- A closing call stands in a string behind the opening of a skipped region, and the
region is left open all the same. -/
theorem Token.ofText_hidden_closing :
    let source := "$inline.skipStart $inline('$inline.skipEnd') $inline('x')"
    (Awaited.skipEnd none).ClosesAt source.toList 27 ∧
      Token.ofText source = .error ⟨.skipEndMissing, ⟨0, 17⟩⟩ := by
  intro source
  have read : Call.readAt source.toList 27 = .ok (⟨some "skipEnd", []⟩, 42) := by decide +kernel
  exact ⟨⟨⟨by decide +kernel, by decide +kernel⟩, _, _, read, by decide⟩, by decide +kernel⟩

end Transclusion
