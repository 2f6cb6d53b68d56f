import Transclusion.Proofs.Lexer.Coverage
import Transclusion.Proofs.Lexer.Cursor

/-!
# The lexer by offsets

The lexer as one that keeps byte offsets runs it: it looks for markers among the bytes of
a text, reads calls from an offset on, looks for the newlines around an offset, and cuts
plain text out of the whole text. As for calls, every slice is refused if it is out of
range or cuts a character, and every loop that does not move on is refused.

On every text the lexer by offsets ends without a refusal, and with the tokens or the
error of `Token.ofText`; and all spans that it reports lie in the text
(`Token.ofText_safe`). A marker among the bytes of a text is one among its characters,
so no search ends inside a character (`Cursor.findMarker_eq`); what is read, passed or
skipped on the way is always a whole number of characters.
-/

set_option autoImplicit false

namespace Transclusion

namespace Cursor

/-! ## Markers -/

/-- The bytes between two indices; refused if they are out of range or turned around. -/
def byteSlice? (bytes : List UInt8) (start stop : Nat) : Option (List UInt8) :=
  if start ≤ stop ∧ stop ≤ bytes.length then some ((bytes.drop start).take (stop - start))
  else none

/-- Whether a marker stands at an index of some bytes. -/
def marksAt (bytes : List UInt8) (index : Nat) : Option Bool :=
  let stop := index + Call.marker.length
  if stop < bytes.length then do
    let letters ← byteSlice? bytes index stop
    let behind ← bytes[stop]?
    return decide (letters.map (fun byte => (Char.ofUInt8 byte).toLower) = Call.marker) &&
      (behind == '.'.toUInt8 || behind == '('.toUInt8)
  else return false

/-- The index of the first marker of some bytes from an index on. -/
def findMarker (bytes : List UInt8) (index : Nat) : Option (Option Nat) :=
  if index < bytes.length then do
    if ← marksAt bytes index then return some index
    else findMarker bytes (index + 1)
  else return none
termination_by bytes.length - index

theorem marksAt_eq (bytes : List UInt8) (index : Nat) :
    marksAt bytes index = some (decide (MarkerBytesAt bytes index)) := by
  unfold marksAt
  simp only
  split
  · next inside =>
      have slice : byteSlice? bytes index (index + Call.marker.length) =
          some ((bytes.drop index).take Call.marker.length) := by
        rw [byteSlice?, if_pos ⟨Nat.le_add_right _ _, Nat.le_of_lt inside⟩,
          Nat.add_sub_cancel_left]
      have behind := List.getElem?_eq_getElem inside
      rw [slice, behind]
      refine congrArg some ?_
      rw [Bool.eq_iff_iff]
      simp only [Bool.and_eq_true, Bool.or_eq_true, beq_iff_eq, decide_eq_true_eq]
      constructor
      · rintro ⟨letters, point⟩
        exact ⟨letters, by rwa [behind, Option.some.injEq, Option.some.injEq]⟩
      · rintro ⟨letters, point⟩
        rw [behind, Option.some.injEq, Option.some.injEq] at point
        exact ⟨letters, point⟩
  · next outside =>
      refine congrArg some (decide_eq_false ?_).symm
      rintro ⟨-, point⟩
      rw [List.getElem?_eq_none (Nat.le_of_not_lt outside)] at point
      rcases point with none | none <;> cases none

/-- A search passes indices at which no marker stands. -/
theorem findMarker_skip {bytes : List UInt8} {start : Nat} (count : Nat)
    (inside : start + count ≤ bytes.length)
    (bare : ∀ index, start ≤ index → index < start + count → ¬ MarkerBytesAt bytes index) :
    findMarker bytes start = findMarker bytes (start + count) := by
  induction count generalizing start with
  | zero => rfl
  | succ count ih =>
      have none := bare start (Nat.le_refl _) (by omega)
      rw [findMarker, if_pos (by omega), marksAt_eq, decide_eq_false none]
      have others := @ih (start + 1) (by omega) fun index behind before =>
        bare index (by omega) (by omega)
      rw [show start + (count + 1) = start + 1 + count by omega]
      exact others

end Cursor

/-! ## Markers among bytes and characters -/

theorem Text.length_utf8 (text : List Char) : (utf8 text).length = byteLength text := by
  induction text with
  | nil => rfl
  | cons char rest ih =>
      rw [utf8_cons, List.length_append, String.length_utf8EncodeChar, ih, byteLength_cons]

/-- Characters that start with a marker are written as one. -/
theorem markerBytes_of_startsWithMarker {expected text : List Char}
    (ascii : expected.all (·.toNat < 128) = true) (starts : startsWithMarker expected text = true) :
    ((Text.utf8 text).take expected.length).map
        (fun byte => (Char.ofUInt8 byte).toLower) = expected ∧
      ((Text.utf8 text)[expected.length]? = some '.'.toUInt8 ∨
        (Text.utf8 text)[expected.length]? = some '('.toUInt8) := by
  fun_induction startsWithMarker expected text with
  | case1 expected others char rest ih =>
      rw [List.all_cons, Bool.and_eq_true, decide_eq_true_eq] at ascii
      rw [Bool.and_eq_true, beq_iff_eq] at starts
      obtain ⟨same, starts⟩ := starts
      obtain ⟨letters, behind⟩ := ih ascii.2 starts
      rw [← same] at ascii
      rcases Text.utf8EncodeChar_cases char with ⟨byte, written, told⟩ | ⟨high, -⟩
      · rw [Text.utf8_cons, written, List.singleton_append, List.length_cons,
          List.take_succ_cons, List.map_cons, letters, told, same, List.getElem?_cons_succ]
        exact ⟨rfl, behind⟩
      · exact absurd (toNat_lt_of_toLower ascii.1) (Nat.not_lt_of_le high)
  | case2 char rest =>
      rw [Bool.or_eq_true, beq_iff_eq, beq_iff_eq] at starts
      refine ⟨rfl, ?_⟩
      rcases starts with rfl | rfl
      · exact .inl rfl
      · exact .inr rfl
  | case3 => cases starts

/-- A marker among the characters of a text is one among its bytes. -/
theorem markerBytesAt_of_startsMarker (before : List Char) {marked : List Char}
    (starts : startsMarker marked = true) :
    MarkerBytesAt (Text.utf8 (before ++ marked)) (Text.byteLength before) := by
  obtain ⟨letters, behind⟩ := markerBytes_of_startsWithMarker (by decide) starts
  have parts : Text.utf8 (before ++ marked) = Text.utf8 before ++ Text.utf8 marked :=
    List.flatMap_append
  rw [parts, ← Text.length_utf8]
  constructor
  · rwa [List.drop_left]
  · rwa [List.getElem?_append_right (Nat.le_add_right _ _), Nat.add_sub_cancel_left]

namespace Cursor

section

variable {text input : List Char} {offset : Nat}

/-- No boundary lies inside a character. -/
theorem add_utf8Size_le {char : Char} {rest : List Char} {other : Nat}
    (left : Text.from? text offset = some (char :: rest)) (boundary : Text.IsBoundary text other)
    (behind : offset < other) : offset + char.utf8Size ≤ other := by
  obtain ⟨before, whole, rfl⟩ := Text.from?_eq_some_iff.1 left
  have cut := Text.upto_append_onward text other
  rw [← boundary] at behind ⊢
  obtain ⟨between, long, parts⟩ :=
    Text.exists_append_of_byteLength_le (whole.trans cut.symm) (Nat.le_of_lt behind)
  rw [long, Text.byteLength_append] at behind ⊢
  cases between with
  | nil =>
      rw [Text.byteLength_nil] at behind
      omega
  | cons head others =>
      rw [List.cons_append, List.cons.injEq] at parts
      rw [← parts.1, Text.byteLength_cons]
      omega

/-- **The marker that a search among bytes comes upon is the one that the search among
characters comes upon.** -/
theorem findMarker_eq (place : Place) (left : Text.from? text offset = some input) :
    findMarker (Text.utf8 text) offset =
      some ((Transclusion.findMarker place input).map fun found => Text.placeOf text found.2) := by
  induction input generalizing place offset with
  | nil =>
      have whole := Text.le_byteLength_of_from? left
      rw [Text.byteLength_nil] at whole
      rw [findMarker, if_neg (by rw [Text.length_utf8]; omega)]
      rfl
  | cons char rest ih =>
      have whole := Text.le_byteLength_of_from? left
      rw [Text.byteLength_cons] at whole
      have positive := char.utf8Size_pos
      rw [Transclusion.findMarker]
      by_cases starts : startsMarker (char :: rest) = true
      · obtain ⟨before, parts, measured⟩ := Text.from?_eq_some_iff.1 left
        have marker := markerBytesAt_of_startsMarker before starts
        rw [parts, measured] at marker
        rw [findMarker, if_pos (by rw [Text.length_utf8]; omega), marksAt_eq,
          decide_eq_true marker, if_pos starts]
        simp only [Option.map_some, Text.placeOf_eq left]
        rfl
      · have bare (index : Nat) (behind : offset ≤ index)
            (before : index < offset + char.utf8Size) :
            ¬ MarkerBytesAt (Text.utf8 text) index := by
          intro marker
          have standing := markerAt_of_utf8 marker
          rcases Nat.eq_or_lt_of_le behind with rfl | inside
          · have here := standing.starts
            rw [show Text.onward text offset = char :: rest by
              simpa [Text.from?, standing.boundary] using left] at here
            exact starts here
          · have := add_utf8Size_le left standing.boundary inside
            omega
        rw [if_neg starts, findMarker_skip char.utf8Size (by rw [Text.length_utf8]; omega) bare]
        exact ih (place.next char) (Text.from?_cons left)

end

/-! ## Lines -/

/-- The line around an offset. -/
def lineSpan (text : List Char) (offset : Nat) : Option Span := do
  let before ← Text.slice? text ⟨0, offset⟩
  let ahead ← Text.from? text offset
  return ⟨Text.byteLength before - Text.byteLength (before.reverse.takeWhile (· ≠ '\n')),
    offset + Text.byteLength (ahead.takeWhile (· ≠ '\n'))⟩

theorem lineSpan_eq {text before : List Char} {site : Site} (stands : site.Stands text before) :
    lineSpan text site.span.start = some site.lineSpan := by
  have left : Text.from? text site.span.start = some (site.text ++ site.rest) :=
    Text.from?_eq_some_iff.2 ⟨before, stands.whole, stands.span_start.symm⟩
  have front : Text.slice? text ⟨0, site.span.start⟩ = some before := by
    have start : Text.from? text 0 = some (before ++ (site.text ++ site.rest)) :=
      Text.from?_eq_some_iff.2 ⟨[], stands.whole, rfl⟩
    have parts := Text.slice?_append start
    rwa [Nat.zero_add, ← stands.span_start] at parts
  have line := stands.lineStart_eq
  rw [Text.lineStart, Text.lineBefore, stands.span_start, ← stands.whole,
    Text.upto_byteLength] at line
  rw [lineSpan, front, left, Site.lineSpan, line]
  rfl

/-! ## Searches -/

/-- What a search by offsets comes upon. -/
inductive Sighting where
  /-- There is no further marker. -/
  | done
  /-- A marker whose call cannot be read, with the offset behind the marker. -/
  | malformed (error : SyntaxError) (behind : Nat)
  /-- A call, with the bytes it takes. -/
  | call (call : Call) (span : Span)

/-- What a search among characters comes upon, told by offsets. -/
def Sighting.ofScan : Scan → Sighting
  | .done => .done
  | .malformed fault place rest => .malformed (fault.locate rest place.offset) place.offset
  | .call site => .call site.call site.span

section

variable (text : List Char)

/-- Searches for the next call from an offset on. -/
def scan (offset : Nat) : Option Sighting := do
  match ← findMarker (Text.utf8 text) offset with
  | none => return .done
  | some start =>
      let behind := start + Call.marker.length
      match ← (call text behind).run with
      | .error error => return .malformed error behind
      | .ok (read, stop) => return .call read ⟨start, stop⟩

/-- The first call from an offset on that closes a body. -/
def findClosing (awaited : Awaited) (offset : Nat) : Option (Option (Call × Span)) := do
  match ← scan text offset with
  | .done => return none
  | .malformed _ behind =>
      if _ : Forward text offset behind then findClosing awaited behind else none
  | .call read span =>
      if awaited.closedBy read then return some (read, span)
      else if _ : Forward text offset span.stop then findClosing awaited span.stop
      else none
termination_by Text.byteLength text - offset
decreasing_by
  all_goals
    obtain ⟨later, inside⟩ := ‹Forward text offset _›
    omega

/-- The call that closes a body opened by a call that takes some bytes. -/
def closing (awaited : Awaited) (opener : Span) : Sliced (Call × Span) := do
  match ← findClosing text awaited opener.stop with
  | some closer => return closer
  | none => throw ⟨awaited.missing, opener⟩

/-! ## Directives -/

/-- The span of a block, and the offset behind the call that closes it. -/
def block (opener : Span) : Sliced (Span × Nat) := do
  let above ← lineSpan text opener.start
  let (_, closer) ← closing text .blockEnd opener
  let below ← lineSpan text closer.start
  if above.stop + 1 < below.start then
    return (⟨above.stop + 1, below.start - 1⟩, closer.stop)
  else throw ⟨.blockEmpty, opener⟩

/-- The span of a region, and the offset behind the call that closes it. -/
def region (read : Call) (opener : Span) : Sliced (Span × Nat) := do
  let after ← Sliced.of (skipCount read.params[1]? opener)
  if opener.stop + after ≤ Text.byteLength text then
    let (close, closer) ← closing text .regionClose opener
    let before ← Sliced.of (skipCount close.params.head? (.point closer.start))
    if opener.stop + after + before ≤ closer.start then
      return (⟨opener.stop + after, closer.start - before⟩, closer.stop)
    else throw ⟨.regionOverlaps, ⟨opener.start, closer.start⟩⟩
  else throw ⟨.countPastEnd after, opener⟩

/-- The directive that a call opens, and the offset behind the last call that belongs to
it. -/
def directive (read : Call) (opener : Span) : Sliced (Option Directive × Nat) :=
  match read.method with
  | none => return (some ⟨.plain, read.params, opener⟩, opener.stop)
  | some "line" => do
      let line ← lineSpan text opener.start
      return (some ⟨.line, read.params, line⟩, opener.stop)
  | some "shortcut" => return (some ⟨.shortcut, read.params, opener⟩, opener.stop)
  | some "start" => do
      let (span, stop) ← block text opener
      return (some ⟨.block, read.params, span⟩, stop)
  | some "open" => do
      let (span, stop) ← region text read opener
      return (some ⟨.region, read.params, span⟩, stop)
  | some "skipStart" => do
      let (_, closer) ← closing text (.skipEnd read.params.head?) opener
      return (none, closer.stop)
  | some other => throw ⟨.methodUnknown other, opener⟩

/-! ## Tokens -/

/-- The plain text between the last span and the next one. -/
def cut (emitted : Nat) (span opener : Span) : Sliced (List Token) := do
  if span.start < emitted then throw ⟨.directiveOverlaps, opener⟩
  else if Text.IsBoundary text span.start ∧ Text.IsBoundary text span.stop then
    let plain ← Text.slice? text ⟨emitted, span.start⟩
    return Token.ofPlain plain
  else throw ⟨.spanOffBoundary, opener⟩

/-- The tokens of a text from an offset on, with everything emitted up to another. -/
def tokens (emitted offset : Nat) : Sliced (List Token) := do
  match ← (scan text offset : Option Sighting) with
  | .done =>
      let plain ← Text.slice? text ⟨emitted, Text.byteLength text⟩
      return Token.ofPlain plain
  | .malformed error _ => throw error
  | .call read opener =>
      let (found, stop) ← directive text read opener
      if _ : Forward text offset stop then
        match found with
        | none => tokens emitted stop
        | some written =>
            if written.isShortcut then
              let others ← tokens emitted stop
              return .directive written :: others
            else
              let plain ← cut text emitted written.span opener
              let others ← tokens written.span.stop stop
              return plain ++ .directive written :: others
      else .refused
termination_by Text.byteLength text - offset
decreasing_by
  all_goals
    obtain ⟨later, inside⟩ := ‹Forward text offset _›
    omega

end

/-! ## No slice is refused -/

section

variable {text passed input : List Char}

/-- A fault is located by offsets as it is located among characters. -/
theorem locate_eq {fault : Fault} {offset : Nat} (lies : fault.Lies input)
    (left : Text.from? text offset = some input) :
    fault.locate input offset =
      ⟨fault.cause, ⟨Text.placeOf text fault.start, Text.placeOf text fault.stop⟩⟩ := by
  have whole := Text.le_byteLength_of_from? left
  obtain ⟨⟨front, start⟩, ⟨inside, stop⟩⟩ := lies
  rw [← stop] at start
  simp only [Fault.locate, Text.placeOf, ← whole, ← start, ← stop, Text.byteLength_append]
  congr 2 <;> omega

theorem from?_passed (searched : passed ++ input = text) :
    Text.from? text (Text.byteLength passed) = some input :=
  Text.from?_eq_some_iff.2 ⟨passed, searched, rfl⟩

/-- **A search by offsets comes upon what a search among characters comes upon.** -/
theorem scan_eq (searched : passed ++ input = text) :
    scan text (Text.byteLength passed) =
      some (.ofScan (Transclusion.scan (Place.start.past passed) input)) := by
  rw [scan, findMarker_eq (Place.start.past passed) (from?_passed searched), Transclusion.scan]
  cases search : Transclusion.findMarker (Place.start.past passed) input with
  | none => rfl
  | some found =>
      obtain ⟨place, marked⟩ := found
      obtain ⟨skipped, rest, reached, starts⟩ := findMarker_eq_some search
      have mark : Text.byteLength (marked.take Call.marker.length) = Call.marker.length :=
        byteLength_take_of_startsWithMarker starts
      have start : Text.from? text place.offset =
          some (marked.take Call.marker.length ++ marked.drop Call.marker.length) := by
        rw [List.take_append_drop, ← reached, ← Place.past_append, Place.offset_past,
          show Place.start.offset = 0 from rfl, Nat.zero_add]
        exact from?_passed (by rw [List.append_assoc, rest, searched])
      have behind := Text.from?_append start
      rw [mark] at behind
      rw [List.take_append_drop] at start
      simp only [Option.map_some, Text.placeOf_eq start, Option.bind_eq_bind, Option.bind_some,
        call_eq behind]
      cases read : Call.read (marked.drop Call.marker.length) with
      | error fault =>
          have offset : (place.past (marked.take Call.marker.length)).offset =
              place.offset + Call.marker.length := by
            rw [Place.offset_past, mark]
          simp only [Sighting.ofScan, offset, locate_eq (Call.read_fault read) behind]
          rfl
      | ok reading =>
          have stop : Text.placeOf text reading.rest = place.offset +
              Text.byteLength (marked.take Call.marker.length ++ reading.taken) := by
            have whole : reading.taken ++ reading.rest = marked.drop Call.marker.length :=
              Call.read_of read
            rw [← whole] at behind
            rw [Text.placeOf_eq (Text.from?_append behind), Text.byteLength_append, mark,
              Nat.add_assoc]
          simp only [Sighting.ofScan, Site.span, ← stop]
          rfl

/-- What is passed first lies before what is passed with more behind it. -/
theorem forward_of_passed {further rest : List Char} (whole : further ++ rest = text)
    (more : Text.byteLength passed < Text.byteLength further) :
    Forward text (Text.byteLength passed) (Text.byteLength further) := by
  refine ⟨more, ?_⟩
  rw [← whole, Text.byteLength_append]
  exact Nat.le_add_right _ _

theorem findClosing_eq (awaited : Awaited) {place : Place} (searched : passed ++ input = text)
    (placed : place = Place.start.past passed) :
    findClosing text awaited (Text.byteLength passed) =
      some ((awaited.findClosing place input).map fun site => (site.call, site.span)) := by
  fun_induction Awaited.findClosing awaited place input generalizing passed with
  | case1 place input ends =>
      subst placed
      rw [findClosing, scan_eq searched, ends]
      rfl
  | case2 place input fault behind rest malformed ih =>
      subst placed
      obtain ⟨skipped, whole, reached⟩ := scan_malformed_behind searched malformed
      obtain ⟨start, error, next, -, offset⟩ := scan_malformed_spec searched malformed
      have later : behind.offset = Text.byteLength (passed ++ skipped) := by
        rw [reached, Place.offset_past]
        exact Nat.zero_add _
      have forward :
          Forward text (Text.byteLength passed) (Text.byteLength (passed ++ skipped)) := by
        have := next.behind
        have := byteLength_marker_pos
        exact forward_of_passed whole (by omega)
      rw [findClosing, scan_eq searched, malformed]
      simp only [Option.bind_eq_bind, Option.bind_some, Sighting.ofScan, later, dif_pos forward]
      exact ih whole reached
  | case3 place input closing found closes =>
      subst placed
      rw [findClosing, scan_eq searched, found]
      simp only [Option.bind_eq_bind, Option.bind_some, Sighting.ofScan, if_pos closes]
      rfl
  | case4 place input other found passes ih =>
      subst placed
      obtain ⟨skipped, stands⟩ := scan_call_stands searched found
      have forward : Forward text (Text.byteLength passed) other.span.stop := by
        rw [stands.span_stop]
        refine forward_of_passed stands.behind ?_
        obtain ⟨reads, next⟩ := scan_call_spec searched found
        have := next.behind
        have := Call.add_le_of_readAt reads.reads
        have := byteLength_marker_pos
        rw [← stands.span_stop]
        omega
      rw [findClosing, scan_eq searched, found]
      simp only [Option.bind_eq_bind, Option.bind_some, Sighting.ofScan, if_neg passes,
        dif_pos forward]
      rw [stands.span_stop]
      exact ih stands.behind stands.stop_eq

section Opening

variable {before : List Char} {opener : Site}

theorem closing_eq (awaited : Awaited) (stands : opener.Stands text before) :
    closing text awaited opener.span =
      .of ((awaited.closing opener).map fun site => (site.call, site.span)) := by
  rw [closing, stands.span_stop, findClosing_eq awaited stands.behind stands.stop_eq,
    Awaited.closing]
  cases awaited.findClosing opener.stop opener.rest <;> rfl

theorem block_eq (stands : opener.Stands text before) :
    block text opener.span = .of (do
      let closer ← Awaited.blockEnd.closing opener
      let span ← blockSpan opener closer
      return (span, closer.span.stop)) := by
  rw [block, lineSpan_eq stands, Sliced.some_bind, closing_eq .blockEnd stands]
  cases closed : Awaited.blockEnd.closing opener with
  | error error => rfl
  | ok closer =>
      obtain ⟨between, ends⟩ := Awaited.closing_stands stands closed
      simp only [Except.map, Sliced.of_ok_bind, lineSpan_eq ends, Sliced.some_bind]
      change _ = Sliced.of (blockSpan opener closer >>= fun span => pure (span, closer.span.stop))
      unfold blockSpan Site.lineSpan
      by_cases room : opener.lineStop + 1 < closer.place.lineStart
      · simp only [if_pos room]
        rfl
      · simp only [if_neg room]
        rfl

theorem region_eq (stands : opener.Stands text before) :
    region text opener.call opener.span = .of (do
      let start ← regionStart (Text.byteLength text) opener
      let closer ← Awaited.regionClose.closing opener
      let span ← regionSpan opener closer start
      return (span, closer.span.stop)) := by
  rw [region, regionStart]
  cases skipCount opener.call.params[1]? opener.span with
  | error error => rfl
  | ok after =>
      rw [Sliced.of_ok_bind, closing_eq .regionClose stands]
      by_cases inside : opener.span.stop + after ≤ Text.byteLength text
      · simp only [if_pos inside]
        cases Awaited.regionClose.closing opener with
        | error error => rfl
        | ok closer =>
            simp only [Except.map, Sliced.of_ok_bind]
            change _ = Sliced.of (regionSpan opener closer (opener.span.stop + after) >>=
              fun span => pure (span, closer.span.stop))
            unfold regionSpan
            cases skipCount closer.call.params.head? (.point closer.span.start) with
            | error error => rfl
            | ok skipped =>
                rw [Sliced.of_ok_bind]
                by_cases room : opener.span.stop + after + skipped ≤ closer.span.start
                · simp only [if_pos room]
                  rfl
                · simp only [if_neg room]
                  rfl
      · simp only [if_neg inside]
        rfl

/-- A call with any other method is refused. -/
theorem directiveAt_unknown {size : Nat} {other : String}
    (method : opener.call.method = some other) (line : other ≠ "line")
    (shortcut : other ≠ "shortcut") (start : other ≠ "start") (begins : other ≠ "open")
    (skips : other ≠ "skipStart") :
    directiveAt size opener = .error ⟨.methodUnknown other, opener.span⟩ := by
  unfold directiveAt
  rw [method]
  split <;> simp_all

/-- **A call opens by offsets what it opens among characters.** -/
theorem directive_eq (stands : opener.Stands text before) :
    directive text opener.call opener.span =
      .of ((directiveAt (Text.byteLength text) opener).map fun opened =>
        (opened.1, opened.2.span.stop)) := by
  have line := lineSpan_eq stands
  have block := block_eq stands
  have region := region_eq stands
  have skip := closing_eq (.skipEnd opener.call.params.head?) stands
  unfold directive
  split
  · next method =>
      simp only [directiveAt, method]
      rfl
  · next method =>
      simp only [directiveAt, method, line]
      rfl
  · next method =>
      simp only [directiveAt, method]
      rfl
  · next method =>
      simp only [directiveAt, method, block]
      cases Awaited.blockEnd.closing opener with
      | error error => rfl
      | ok closer =>
          dsimp only [bind, Except.bind]
          cases blockSpan opener closer <;> rfl
  · next method =>
      simp only [directiveAt, method, region]
      cases regionStart (Text.byteLength text) opener with
      | error error => rfl
      | ok start =>
          dsimp only [bind, Except.bind]
          cases Awaited.regionClose.closing opener with
          | error error => rfl
          | ok closer =>
              dsimp only
              cases regionSpan opener closer start <;> rfl
  · next method =>
      simp only [directiveAt, method, skip]
      cases (Awaited.skipEnd opener.call.params.head?).closing opener <;> rfl
  · next other line shortcut start begins skips method =>
      rw [directiveAt_unknown method line shortcut start begins skips]
      rfl

end Opening

/-- An offset behind a first part is a boundary if it is one of what is left. -/
theorem isBoundary_append_iff {front : List Char} (rest : List Char) {offset : Nat}
    (behind : Text.byteLength front ≤ offset) :
    Text.IsBoundary (front ++ rest) offset ↔
      Text.IsBoundary rest (offset - Text.byteLength front) := by
  obtain ⟨further, rfl⟩ := Nat.exists_eq_add_of_le behind
  rw [Text.IsBoundary, Text.IsBoundary, Text.upto_append, Text.byteLength_append,
    Nat.add_sub_cancel_left, Nat.add_left_cancel_iff]

/-- **Plain text is cut out of the whole text as it is cut off what is left.** -/
theorem cut_eq {front unread : List Char} {span opener : Span} (whole : front ++ unread = text)
    (ordered : span.start ≤ span.stop) :
    cut text (Text.byteLength front) span opener =
      .of ((cutAround (Text.byteLength front) unread span opener).map fun parts =>
        Token.ofPlain parts.1) := by
  unfold cut cutAround
  by_cases overlaps : span.start < Text.byteLength front
  · rw [if_pos overlaps, if_pos overlaps]
    rfl
  · rw [if_neg overlaps, if_neg overlaps]
    have behind := Nat.le_of_not_lt overlaps
    have starts : Text.IsBoundary text span.start ↔
        Text.IsBoundary unread (span.start - Text.byteLength front) :=
      whole ▸ isBoundary_append_iff unread behind
    have stops (boundary : Text.IsBoundary unread (span.start - Text.byteLength front)) :
        Text.IsBoundary text span.stop ↔
          Text.IsBoundary (Text.onward unread (span.start - Text.byteLength front))
            (span.stop - span.start) := by
      have parts : front ++ Text.upto unread (span.start - Text.byteLength front) ++
          Text.onward unread (span.start - Text.byteLength front) = text := by
        rw [List.append_assoc, Text.upto_append_onward, whole]
      have measured : Text.byteLength
          (front ++ Text.upto unread (span.start - Text.byteLength front)) = span.start := by
        rw [Text.byteLength_append, boundary]
        omega
      have cut := isBoundary_append_iff
        (Text.onward unread (span.start - Text.byteLength front)) (measured.symm ▸ ordered)
      rwa [parts, measured] at cut
    by_cases boundaries : Text.IsBoundary unread (span.start - Text.byteLength front) ∧
        Text.IsBoundary (Text.onward unread (span.start - Text.byteLength front))
          (span.stop - span.start)
    · have left := from?_passed whole
      rw [← Text.upto_append_onward unread (span.start - Text.byteLength front)] at left
      have plain := Text.slice?_append left
      rw [boundaries.1, Nat.add_sub_cancel' behind] at plain
      rw [if_pos ⟨starts.2 boundaries.1, (stops boundaries.1).2 boundaries.2⟩, plain,
        Sliced.some_bind]
      simp only [if_pos boundaries]
      rfl
    · have off : ¬ (Text.IsBoundary text span.start ∧ Text.IsBoundary text span.stop) := by
        rintro ⟨first, last⟩
        have here := starts.1 first
        exact boundaries ⟨here, (stops here).1 last⟩
      rw [if_neg off]
      simp only [if_neg boundaries]
      rfl

/-- A call that is accepted lies further on with its last call. -/
theorem forward_of_accepted {opener last : Site} {found : Option Directive}
    (searched : passed ++ input = text)
    (scanned : Transclusion.scan (Place.start.past passed) input = .call opener)
    (accepted : directiveAt (Text.byteLength text) opener = .ok (found, last)) :
    Forward text (Text.byteLength passed) last.span.stop := by
  obtain ⟨further, opening, rest, -⟩ := opening_of_directiveAt searched scanned accepted
  rw [← opening.byteLength_searched]
  exact forward_of_passed rest opening.passed_lt

/-- **The lexer by offsets comes to what the lexer of characters comes to.** -/
theorem tokens_eq {front unread : List Char} {size emitted : Nat} {place : Place}
    (measured : size = Text.byteLength text) (reached : emitted = Text.byteLength front)
    (whole : front ++ unread = text) (placed : place = Place.start.past passed)
    (searched : passed ++ input = text) :
    tokens text emitted (Text.byteLength passed) =
      .of (tokensFrom size emitted unread place input) := by
  fun_induction tokensFrom size emitted unread place input generalizing front passed with
  | case1 emitted unread place input ends =>
      subst placed reached
      have left := from?_passed whole
      rw [← List.append_nil unread] at left
      have plain := Text.slice?_append left
      rw [← Text.byteLength_append, whole] at plain
      rw [tokens, scan_eq searched, ends, Sliced.some_bind]
      simp only [Sighting.ofScan, plain, Sliced.some_bind]
      rfl
  | case2 emitted unread place input fault behind rest malformed =>
      subst placed
      rw [tokens, scan_eq searched, malformed, Sliced.some_bind]
      rfl
  | case3 emitted unread place input opener found refusal refused =>
      subst measured placed
      obtain ⟨skipped, stands⟩ := scan_call_stands searched found
      have opened := directive_eq stands
      rw [refused] at opened
      rw [tokens, scan_eq searched, found, Sliced.some_bind]
      simp only [Sighting.ofScan, opened]
      rfl
  | case4 emitted unread place input opener found last accepted ih =>
      subst measured placed
      obtain ⟨skipped, stands⟩ := scan_call_stands searched found
      obtain ⟨further, opening, rest, stop⟩ := opening_of_directiveAt searched found accepted
      have opened := directive_eq stands
      rw [accepted] at opened
      rw [tokens, scan_eq searched, found, Sliced.some_bind]
      simp only [Sighting.ofScan, opened, Except.map, Sliced.of_ok_bind,
        dif_pos (forward_of_accepted searched found accepted)]
      rw [← opening.byteLength_searched]
      exact ih reached whole stop rest
  | case5 emitted unread place input opener found directive last accepted shortcut ih =>
      subst measured placed
      obtain ⟨skipped, stands⟩ := scan_call_stands searched found
      obtain ⟨further, opening, rest, stop⟩ := opening_of_directiveAt searched found accepted
      have opened := directive_eq stands
      rw [accepted] at opened
      have others := ih reached whole stop rest
      rw [opening.byteLength_searched] at others
      rw [tokens, scan_eq searched, found, Sliced.some_bind]
      simp only [Sighting.ofScan, opened, Except.map, Sliced.of_ok_bind,
        dif_pos (forward_of_accepted searched found accepted), if_pos shortcut, others]
      cases tokensFrom (Text.byteLength text) emitted unread last.stop last.rest <;> rfl
  | case6 emitted unread place input opener found directive last accepted shortcut error refused =>
      subst measured placed reached
      obtain ⟨skipped, stands⟩ := scan_call_stands searched found
      have opened := directive_eq stands
      rw [accepted] at opened
      have around := @cut_eq text front unread directive.span opener.span whole
        ((opens_of_directiveAt accepted).ordered stands)
      rw [refused] at around
      rw [tokens, scan_eq searched, found, Sliced.some_bind]
      simp only [Sighting.ofScan, opened, Except.map, Sliced.of_ok_bind,
        dif_pos (forward_of_accepted searched found accepted), if_neg shortcut, around]
      rfl
  | case7 emitted unread place input opener found directive last accepted shortcut plain left
      cut ih =>
      subst measured placed reached
      obtain ⟨skipped, stands⟩ := scan_call_stands searched found
      obtain ⟨further, opening, rest, stop⟩ := opening_of_directiveAt searched found accepted
      have opened := directive_eq stands
      rw [accepted] at opened
      have ordered := opening.opens.ordered stands
      have around := @cut_eq text front unread directive.span opener.span whole ordered
      rw [cut] at around
      obtain ⟨replaced, parts, -, stops⟩ := cutAround_parts whole ordered cut
      have others := ih stops.symm parts stop rest
      rw [opening.byteLength_searched] at others
      rw [tokens, scan_eq searched, found, Sliced.some_bind]
      simp only [Sighting.ofScan, opened, Except.map, Sliced.of_ok_bind,
        dif_pos (forward_of_accepted searched found accepted), if_neg shortcut, around, others]
      cases tokensFrom (Text.byteLength text) directive.span.stop left last.stop last.rest <;> rfl

end

end Cursor

/-! ## Safety -/

theorem Text.utf8ByteSize_ofList (text : List Char) :
    (String.ofList text).utf8ByteSize = byteLength text := by
  have bytes := congrArg List.length (utf8_toList (String.ofList text))
  rw [String.toList_ofList, length_utf8] at bytes
  exact bytes.symm

/-- An offset between characters is a valid position of the text. -/
theorem Text.IsBoundary.isValid {source : String} {offset : Nat}
    (boundary : IsBoundary source.toList offset) : String.Pos.Raw.IsValid source ⟨offset⟩ := by
  refine String.Pos.Raw.isValid_iff_exists_append.2
    ⟨String.ofList (upto source.toList offset), String.ofList (onward source.toList offset), ?_, ?_⟩
  · rw [← String.ofList_append, upto_append_onward, String.ofList_toList]
  · exact String.Pos.Raw.ext (boundary.symm.trans (utf8ByteSize_ofList _).symm)

/-- A span is valid in a text: it is not turned around, it ends in the text, and its ends
are valid positions of the text. -/
structure Span.ValidIn (source : String) (span : Span) : Prop where
  ordered : span.start ≤ span.stop
  inRange : span.stop ≤ source.utf8ByteSize
  starts : String.Pos.Raw.IsValid source ⟨span.start⟩
  stops : String.Pos.Raw.IsValid source ⟨span.stop⟩

theorem Span.Within.validIn {source : String} {span : Span} (within : span.Within source.toList) :
    span.ValidIn source where
  ordered := within.ordered
  inRange := within.stops.isValid.le_rawEndPos
  starts := within.starts.isValid
  stops := within.stops.isValid

/-- The tokens of a text by offsets; nothing if a slice was refused. -/
def Token.ofSlices (source : String) : Option (Except SyntaxError (List Token)) :=
  (Cursor.tokens source.toList 0 0).run

/-- **The lexer is safe on every text.** By offsets it comes to its end, no slice on the
way is refused, and the outcome is that of the lexer of characters; and all spans that it
reports are valid in the text. -/
theorem Token.ofText_safe (source : String) :
    Token.ofSlices source = some (Token.ofText source) ∧
      SpansIn (Span.ValidIn source) (Token.ofText source) := by
  refine ⟨Cursor.tokens_eq rfl rfl (List.nil_append _) rfl (List.nil_append _), ?_⟩
  exact (Token.ofText_spans source).imp fun _ within => within.validIn

end Transclusion
