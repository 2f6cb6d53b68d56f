import Transclusion.Directive.Token
import Transclusion.Text.Place

/-!
# Cutting a text into tokens

A text is searched for calls from left to right. A call outside any open body
either stands for itself or opens a body, and a body ends at the first call
behind it that closes it. What stands in a body is not looked at otherwise: a
call that closes something else is passed over as a whole, and one that cannot
be read is passed over by its marker.

`Token.ofText` cuts a whole text. Each directive is emitted with the plain text
between the previous directive's span and its own (`cutAround`), so the tokens
and the replaced spans make up the text. Places are kept while characters are
passed, and spans are cut off what is left behind the last one, so no step goes
back to the start of the text.
-/

set_option autoImplicit false

namespace Transclusion

/-! ## Finding calls -/

/-- A call found in a text. -/
structure Site where
  call : Call
  /-- The place of its marker. -/
  place : Place
  /-- The call as it is written, its marker included. -/
  text : List Char
  /-- What is left behind the call. -/
  rest : List Char
deriving DecidableEq, Repr

namespace Site

/-- The bytes the call takes. -/
def span (site : Site) : Span :=
  ⟨site.place.offset, site.place.offset + Text.byteLength site.text⟩

/-- The place behind the call. -/
def stop (site : Site) : Place :=
  site.place.past site.text

/-- Where the line on which the call begins ends: at the next newline, or else at
the end of the text. -/
def lineStop (site : Site) : Nat :=
  site.place.offset + Text.byteLength ((site.text ++ site.rest).takeWhile (· ≠ '\n'))

/-- The line on which the call begins. -/
def lineSpan (site : Site) : Span :=
  ⟨site.place.lineStart, site.lineStop⟩

end Site

/-- Whether a text begins with the expected characters in any case, and then a
point or a parenthesis. -/
def startsWithMarker : List Char → List Char → Bool
  | expected :: others, char :: rest =>
      char.toLower == expected && startsWithMarker others rest
  | [], char :: _ => char == '.' || char == '('
  | _, [] => false

/-- Whether a marker stands here. -/
def startsMarker (input : List Char) : Bool :=
  startsWithMarker Call.marker input

/-- The next marker from a place on: its own place, and the text from there on. -/
def findMarker (place : Place) : List Char → Option (Place × List Char)
  | [] => none
  | char :: rest =>
      if startsMarker (char :: rest) then some (place, char :: rest)
      else findMarker (place.next char) rest

/-- A marker found in a text stands behind the characters that were passed over. -/
theorem findMarker_eq_some {place found : Place} {input marked : List Char}
    (result : findMarker place input = some (found, marked)) :
    ∃ passed, passed ++ marked = input ∧ place.past passed = found ∧
      startsMarker marked = true := by
  fun_induction findMarker place input with
  | case1 => simp at result
  | case2 place char rest starts =>
      simp only [Option.some.injEq, Prod.mk.injEq] at result
      obtain ⟨rfl, rfl⟩ := result
      exact ⟨[], rfl, rfl, starts⟩
  | case3 place char rest _ ih =>
      obtain ⟨passed, rfl, rfl, starts⟩ := ih result
      exact ⟨char :: passed, rfl, rfl, starts⟩

theorem findMarker_length_lt {place found : Place} {input marked : List Char}
    (result : findMarker place input = some (found, marked)) :
    (marked.drop Call.marker.length).length < input.length := by
  obtain ⟨passed, rfl, -, starts⟩ := findMarker_eq_some result
  have positive : 0 < Call.marker.length := by decide
  match marked with
  | [] => simp [startsMarker, startsWithMarker, Call.marker] at starts
  | char :: rest =>
      simp only [List.length_drop, List.length_append, List.length_cons]
      omega

/-- What a search for the next call comes upon. -/
inductive Scan where
  /-- There is no further marker. -/
  | done
  /-- A marker whose call cannot be read, with the place behind the marker and
  what is left there. -/
  | malformed (fault : Fault) (place : Place) (rest : List Char)
  /-- A call. -/
  | call (site : Site)
deriving DecidableEq, Repr

/-- Searches for the next call from a place on. -/
def scan (place : Place) (input : List Char) : Scan :=
  match findMarker place input with
  | none => .done
  | some (found, marked) =>
      let mark := marked.take Call.marker.length
      let behind := marked.drop Call.marker.length
      match Call.read behind with
      | .error fault => .malformed fault (found.past mark) behind
      | .ok reading => .call ⟨reading.value, found, mark ++ reading.taken, reading.rest⟩

theorem scan_malformed_length_lt {place behind : Place} {input rest : List Char}
    {fault : Fault} (result : scan place input = .malformed fault behind rest) :
    rest.length < input.length := by
  unfold scan at result
  split at result
  · simp at result
  · next found marked search =>
      simp only at result
      split at result
      · simp only [Scan.malformed.injEq] at result
        exact result.2.2 ▸ findMarker_length_lt search
      · simp at result

theorem scan_call_length_lt {place : Place} {input : List Char} {site : Site}
    (result : scan place input = .call site) : site.rest.length < input.length := by
  unfold scan at result
  split at result
  · simp at result
  · next found marked search =>
      simp only at result
      split at result
      · simp at result
      · next reading success =>
          simp only [Scan.call.injEq] at result
          have shorter := findMarker_length_lt search
          have within := (Call.read_of success).length_le
          rw [← result]
          simp only
          omega

/-! ## Bodies -/

/-- What an open body waits for. -/
inductive Awaited where
  /-- The end of a block. -/
  | blockEnd
  /-- The close of a region. -/
  | regionClose
  /-- The end of a skipped region, with the tag it was opened with. -/
  | skipEnd (tag : Option Param)
deriving DecidableEq, Repr

namespace Awaited

/-- The method of the call that closes the body. -/
def method : Awaited → String
  | .blockEnd => "end"
  | .regionClose => "close"
  | .skipEnd _ => "skipEnd"

/-- The error of a body that is never closed. -/
def missing : Awaited → SyntaxCause
  | .blockEnd => .endMissing
  | .regionClose => .closeMissing
  | .skipEnd _ => .skipEndMissing

/-- Whether a call closes the body. Tags matter only if both are given. -/
def closedBy (awaited : Awaited) (call : Call) : Bool :=
  call.method == some awaited.method &&
    match awaited, call.params with
    | .skipEnd (some tag), closing :: _ => tag == closing
    | _, _ => true

/-- The first call from a place on that closes the body. -/
def findClosing (awaited : Awaited) (place : Place) (input : List Char) : Option Site :=
  match _ : scan place input with
  | .done => none
  | .malformed _ behind rest => findClosing awaited behind rest
  | .call site =>
      if awaited.closedBy site.call then some site
      else findClosing awaited site.stop site.rest
termination_by input.length
decreasing_by
  · exact scan_malformed_length_lt ‹_›
  · exact scan_call_length_lt ‹_›

theorem findClosing_length_lt {awaited : Awaited} {place : Place} {input : List Char} {site : Site}
    (found : findClosing awaited place input = some site) :
    site.rest.length < input.length := by
  fun_induction findClosing awaited place input with
  | case1 => simp at found
  | case2 place input fault behind rest result ih =>
      have := ih found
      have := scan_malformed_length_lt result
      omega
  | case3 place input closing result closes =>
      simp only [Option.some.injEq] at found
      exact found ▸ scan_call_length_lt result
  | case4 place input other result _ ih =>
      have := ih found
      have := scan_call_length_lt result
      omega

/-- The call that closes a body opened at a site, or the error that it is
never closed. -/
def closing (awaited : Awaited) (opener : Site) : Except SyntaxError Site :=
  match awaited.findClosing opener.stop opener.rest with
  | some site => .ok site
  | none => .error ⟨awaited.missing, opener.span⟩

theorem closing_length_lt {awaited : Awaited} {opener site : Site}
    (found : awaited.closing opener = .ok site) : site.rest.length < opener.rest.length := by
  unfold closing at found
  split at found
  · next result =>
      simp only [Except.ok.injEq] at found
      exact found ▸ findClosing_length_lt result
  · simp at found

end Awaited

/-! ## Directives -/

/-- The number of bytes a call skips, zero if it does not say. -/
def skipCount (param : Option Param) (place : Span) : Except SyntaxError Nat :=
  match param with
  | none => .ok 0
  | some param =>
      match param.count? with
      | some count => .ok count
      | none => .error ⟨.countInvalid param, place⟩

/-- The span of a block: the lines between the line of its opening and the line
of its closing call. -/
def blockSpan (opener closer : Site) : Except SyntaxError Span :=
  let start := opener.lineStop + 1
  let next := closer.place.lineStart
  if start < next then .ok ⟨start, next - 1⟩ else .error ⟨.blockEmpty, opener.span⟩

/-- Where the body of a region begins in a text of the given size: behind the
bytes its opening call skips. -/
def regionStart (size : Nat) (opener : Site) : Except SyntaxError Nat :=
  match skipCount opener.call.params[1]? opener.span with
  | .error error => .error error
  | .ok count =>
      if opener.span.stop + count ≤ size then .ok (opener.span.stop + count)
      else .error ⟨.countPastEnd count, opener.span⟩

/-- The span of a region whose body begins at an offset: up to the bytes that
its closing call skips. -/
def regionSpan (opener closer : Site) (start : Nat) : Except SyntaxError Span :=
  match skipCount closer.call.params.head? (.point closer.span.start) with
  | .error error => .error error
  | .ok count =>
      if start + count ≤ closer.span.start then .ok ⟨start, closer.span.start - count⟩
      else .error ⟨.regionOverlaps, ⟨opener.span.start, closer.span.start⟩⟩

/-- The directive that a call opens in a text of the given size, and the last
call that belongs to it. A skipped region is no directive. -/
def directiveAt (size : Nat) (opener : Site) :
    Except SyntaxError (Option Directive × Site) :=
  let params := opener.call.params
  match opener.call.method with
  | none => .ok (some ⟨.plain, params, opener.span⟩, opener)
  | some "line" => .ok (some ⟨.line, params, opener.lineSpan⟩, opener)
  | some "shortcut" => .ok (some ⟨.shortcut, params, opener.span⟩, opener)
  | some "start" => do
      let closer ← Awaited.blockEnd.closing opener
      let span ← blockSpan opener closer
      return (some ⟨.block, params, span⟩, closer)
  | some "open" => do
      let start ← regionStart size opener
      let closer ← Awaited.regionClose.closing opener
      let span ← regionSpan opener closer start
      return (some ⟨.region, params, span⟩, closer)
  | some "skipStart" => do
      let closer ← (Awaited.skipEnd params.head?).closing opener
      return (none, closer)
  | some other => .error ⟨.methodUnknown other, opener.span⟩

theorem directiveAt_length_le {size : Nat} {opener last : Site}
    {found : Option Directive} (result : directiveAt size opener = .ok (found, last)) :
    last.rest.length ≤ opener.rest.length := by
  have closes (awaited : Awaited) (site : Site) (closed : awaited.closing opener = .ok site) :
      site.rest.length ≤ opener.rest.length := Nat.le_of_lt (Awaited.closing_length_lt closed)
  unfold directiveAt at result
  simp only [bind, Except.bind, pure, Except.pure] at result
  split at result
  iterate 3
    simp only [Except.ok.injEq, Prod.mk.injEq] at result
    simp [← result.2]
  · split at result
    · simp at result
    · next closer closed =>
        split at result
        · simp at result
        · simp only [Except.ok.injEq, Prod.mk.injEq] at result
          exact result.2 ▸ closes _ closer closed
  · split at result
    · simp at result
    · split at result
      · simp at result
      · next closer closed =>
          split at result
          · simp at result
          · simp only [Except.ok.injEq, Prod.mk.injEq] at result
            exact result.2 ▸ closes _ closer closed
  · split at result
    · simp at result
    · next closer closed =>
        simp only [Except.ok.injEq, Prod.mk.injEq] at result
        exact result.2 ▸ closes _ closer closed
  · simp at result

/-! ## Tokens -/

/-- A run of plain text as tokens: none if it is empty. -/
def Token.ofPlain (text : List Char) : List Token :=
  if text = [] then [] else [.text (String.ofList text)]

/-- The plain text before the span of a directive and what is left behind the
span, given what is left at the end of the last span. The two spans must not
overlap, and the new one must not cut a character. -/
def cutAround (emitted : Nat) (unread : List Char) (span call : Span) :
    Except SyntaxError (List Char × List Char) :=
  if span.start < emitted then .error ⟨.directiveOverlaps, call⟩
  else
    let replaced := Text.onward unread (span.start - emitted)
    if Text.IsBoundary unread (span.start - emitted) ∧
        Text.IsBoundary replaced (span.stop - span.start) then
      .ok (Text.upto unread (span.start - emitted),
        Text.onward replaced (span.stop - span.start))
    else .error ⟨.spanOffBoundary, call⟩

/-- The tokens of what is left of a text of the given size, from a place on. The
spans of the directives before reach up to the offset `emitted`, and `unread` is
left from there on. -/
def tokensFrom (size emitted : Nat) (unread : List Char) (place : Place) (input : List Char) :
    Except SyntaxError (List Token) :=
  match _ : scan place input with
  | .done => .ok (Token.ofPlain unread)
  | .malformed fault behind rest => .error (fault.locate rest behind.offset)
  | .call opener =>
      match _ : directiveAt size opener with
      | .error error => .error error
      | .ok (none, last) => tokensFrom size emitted unread last.stop last.rest
      | .ok (some directive, last) =>
          if directive.isShortcut then
            (tokensFrom size emitted unread last.stop last.rest).map (.directive directive :: ·)
          else
            match cutAround emitted unread directive.span opener.span with
            | .error error => .error error
            | .ok (before, left) =>
                (tokensFrom size directive.span.stop left last.stop last.rest).map
                  fun tokens => Token.ofPlain before ++ .directive directive :: tokens
termination_by input.length
decreasing_by
  all_goals
    have shorter := scan_call_length_lt ‹_›
    have within := directiveAt_length_le ‹_›
    omega

/-- The tokens of a text. -/
def Token.ofText (source : String) : Except SyntaxError (List Token) :=
  let text := source.toList
  tokensFrom (Text.byteLength text) 0 text .start text

end Transclusion
