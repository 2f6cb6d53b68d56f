import Transclusion.Proofs.Lexer.Frames

/-!
# How bodies stand in a text

The span of a block or a region is what its calls leave over: of a block the end of the
line of the opening call and the start of the line of the closing call stay, of a region as
many bytes as each call skips. These are the margins of the body (`Margins`). A span leaves
its margins (`margins_of_opens`), and whatever stands between the margins is the span of the
body (`Margins.opens`), so the lexer comes upon the body again if only the text between the
margins is another one (`Layout.tokensFrom_refilled`). What the argument needs of the text
is that the search meets the closing call first: there must be no dollar sign between the
calls except in the span.

Where the frames of a text hold all its dollar signs, every body stands in the text in this
way (`Held.exists_layout`), and so does every skipped region (`Held.exists_skipped`).
-/

set_option autoImplicit false

namespace Transclusion

/-! ## Margins -/

/-- A text that goes on just past the first newline of another is a line of its own and
that newline. -/
theorem exists_newline_of_byteLength {text tail input : List Char} (whole : text ++ tail = input)
    (measured : Text.byteLength text = Text.byteLength (input.takeWhile (· ≠ '\n')) + 1) :
    ∃ line, text = line ++ ['\n'] ∧ '\n' ∉ line := by
  have parts := List.takeWhile_append_dropWhile (p := (· ≠ '\n')) (l := input)
  obtain ⟨more, rfl, behind⟩ :=
    Text.exists_append_of_byteLength_le (parts.trans whole.symm) (by omega)
  rw [Text.byteLength_append] at measured
  cases more with
  | nil => simp at measured
  | cons char others =>
      have newline : char = '\n' := eq_newline_of_mem_head?_dropWhile (by rw [behind]; rfl)
      subst newline
      have size : '\n'.utf8Size = 1 := rfl
      rw [Text.byteLength_cons] at measured
      have nothing : others = [] := Text.eq_nil_of_byteLength_eq_zero (by omega)
      exact ⟨_, by rw [nothing], newline_notMem_takeWhile input⟩

/-- Characters without a newline belong to the line in front of any text. -/
theorem takeWhile_append_of_notMem {line : List Char} (solid : '\n' ∉ line) (rest : List Char) :
    (line ++ rest).takeWhile (· ≠ '\n') = line ++ rest.takeWhile (· ≠ '\n') := by
  refine List.takeWhile_append_of_pos fun char member => ?_
  rw [decide_eq_true_iff]
  rintro rfl
  exact solid member

/-- Up to its first newline a text is a line. -/
theorem takeWhile_line {line : List Char} (solid : '\n' ∉ line) (rest : List Char) :
    (line ++ '\n' :: rest).takeWhile (· ≠ '\n') = line := by
  rw [takeWhile_append_of_notMem solid, List.takeWhile_cons_of_neg (by simp), List.append_nil]

/-- What stands between a call on one line and a span ends the line of the call exactly if
the span begins where that line ends. -/
theorem Site.lineStop_eq_iff {site : Site} (solid : '\n' ∉ site.text) {margin tail : List Char}
    (rest : margin ++ tail = site.rest) :
    site.lineStop + 1 = site.span.stop + Text.byteLength margin ↔
      ∃ line, margin = line ++ ['\n'] ∧ '\n' ∉ line := by
  have lineStop : site.lineStop =
      site.span.stop + Text.byteLength (site.rest.takeWhile (· ≠ '\n')) := by
    rw [Site.lineStop, takeWhile_append_of_notMem solid, Text.byteLength_append, ← Nat.add_assoc]
    rfl
  constructor
  · intro same
    exact exists_newline_of_byteLength rest (by omega)
  · rintro ⟨line, rfl, lone⟩
    rw [List.append_assoc, List.singleton_append] at rest
    rw [lineStop, ← rest, takeWhile_line lone, Text.byteLength_append]
    rfl

/-- What stands between a span and a call begins the line of the call exactly if the span
ends just before that line. -/
theorem Site.Stands.lineStart_eq_iff {source before margin : List Char} {site : Site}
    (stands : site.Stands source (before ++ margin)) :
    Text.byteLength before + 1 = site.place.lineStart ↔
      ∃ line, margin = '\n' :: line ∧ '\n' ∉ line := by
  have passed := Place.lineStart_past_reverse (before ++ margin).reverse
  rw [List.reverse_reverse, List.reverse_append, Text.byteLength_append,
    ← stands.place_eq] at passed
  constructor
  · intro same
    obtain ⟨line, reversed, solid⟩ := @exists_newline_of_byteLength margin.reverse before.reverse _
      rfl (by rw [Text.byteLength_reverse]; omega)
    refine ⟨line.reverse, ?_, by rwa [List.mem_reverse]⟩
    rw [← List.reverse_reverse margin, reversed, List.reverse_append]
    rfl
  · rintro ⟨line, rfl, solid⟩
    have size : '\n'.utf8Size = 1 := rfl
    rw [List.reverse_cons, List.append_assoc, List.singleton_append,
      takeWhile_line (by rwa [List.mem_reverse]), Text.byteLength_reverse,
      Text.byteLength_cons] at passed
    omega

/-- The texts that stay between the calls of a body and its span: of a block, what ends the
line of the opening call and what begins the line of the closing call; of a region, as
many bytes as each of the calls skips. -/
inductive Margins (opener closer : Call) : DirectiveKind → List Char → List Char → Prop
  | block {above below : List Char} (method : opener.method = some "start")
      (closes : Awaited.blockEnd.closedBy closer = true)
      (ended : ∃ line, above = line ++ ['\n'] ∧ '\n' ∉ line)
      (begun : ∃ line, below = '\n' :: line ∧ '\n' ∉ line) :
      Margins opener closer .block above below
  | region {above below : List Char} (method : opener.method = some "open")
      (closes : Awaited.regionClose.closedBy closer = true)
      (after : Skips opener.params[1]? (Text.byteLength above))
      (before : Skips closer.params.head? (Text.byteLength below)) :
      Margins opener closer .region above below

theorem Margins.isShortcut {opener closer : Call} {kind : DirectiveKind} {above below : List Char}
    (margins : Margins opener closer kind above below) {params : List Param} {span : Span} :
    Directive.isShortcut ⟨kind, params, span⟩ = false := by
  cases margins <;> rfl

theorem skipCount_of_skips {param : Option Param} {count : Nat} (skips : Skips param count)
    (place : Span) : skipCount param place = .ok count := by
  cases skips with
  | absent => rfl
  | given denotes => simp only [skipCount, denotes]

section Margins

variable {source before above content below : List Char} {opener closer : Site}

/-- What is left behind the opening call of a body. -/
theorem Site.Stands.rest_eq (stands : opener.Stands source before)
    (ends : closer.Stands source (before ++ opener.text ++ above ++ content ++ below)) :
    above ++ (content ++ (below ++ (closer.text ++ closer.rest))) = opener.rest := by
  have same := ends.whole.trans stands.behind.symm
  simp only [List.append_assoc, List.append_cancel_left_eq] at same
  exact same

/-- The span of a block or a region leaves its margins. -/
theorem margins_of_opens {size : Nat} {directive : Directive}
    (opens : Opens size opener (some directive) closer)
    (body : directive.kind = .block ∨ directive.kind = .region)
    (solid : opener.call.method = some "start" → '\n' ∉ opener.text)
    (stands : opener.Stands source before)
    (ends : closer.Stands source (before ++ opener.text ++ above ++ content ++ below))
    (start : Text.byteLength (before ++ opener.text ++ above) = directive.span.start)
    (stop : Text.byteLength (before ++ opener.text ++ above ++ content) = directive.span.stop) :
    Margins opener.call closer.call directive.kind above below := by
  have behind := stands.span_stop
  have ahead := ends.span_start
  simp only [Text.byteLength_append] at start stop behind ahead
  cases opens with
  | plain | line | shortcut => simp at body
  | block method closed lines =>
      obtain ⟨first, last⟩ := blockSpan_bounds lines
      refine .block method (Awaited.written_of_closing closed).1 ?_ ?_
      · refine (Site.lineStop_eq_iff (solid method) (stands.rest_eq ends)).1 ?_
        rw [← first, ← start, behind]
      · refine ends.lineStart_eq_iff.1 ?_
        rw [← last, ← stop]
        simp only [Text.byteLength_append]
  | region method begins closed between =>
      obtain ⟨after, skipsAfter, begun⟩ := regionStart_skips begins
      obtain ⟨count, skipsBefore, first, last⟩ := regionSpan_skips between
      simp only at start stop
      have skipped : after = Text.byteLength above := by omega
      have kept : count = Text.byteLength below := by omega
      exact .region method (Awaited.written_of_closing closed).1 (skipped ▸ skipsAfter)
        (kept ▸ skipsBefore)

/-- **What leaves the margins of a body is its span**, whatever stands there. -/
theorem Margins.opens {kind : DirectiveKind}
    (margins : Margins opener.call closer.call kind above below)
    (solid : opener.call.method = some "start" → '\n' ∉ opener.text)
    (stands : opener.Stands source before)
    (ends : closer.Stands source (before ++ opener.text ++ above ++ content ++ below))
    (closed : ∀ awaited : Awaited, awaited.closedBy closer.call = true →
      awaited.closing opener = .ok closer) :
    Opens (Text.byteLength source) opener
      (some ⟨kind, opener.call.params, ⟨Text.byteLength (before ++ opener.text ++ above),
        Text.byteLength (before ++ opener.text ++ above ++ content)⟩⟩) closer := by
  have behind := stands.span_stop
  have ahead := ends.span_start
  have size := congrArg Text.byteLength ends.whole
  simp only [Text.byteLength_append] at behind ahead size ⊢
  cases margins with
  | block method closes ended begun =>
      have first := (Site.lineStop_eq_iff (solid method) (stands.rest_eq ends)).2 ended
      have last := ends.lineStart_eq_iff.2 begun
      simp only [Text.byteLength_append] at last
      refine .block method (closed _ closes) ?_
      simp only [blockSpan]
      rw [if_pos (by omega), ← last, first, behind]
      rfl
  | region method closes after skipped =>
      have begins : regionStart (Text.byteLength source) opener =
          .ok (opener.span.stop + Text.byteLength above) := by
        simp only [regionStart, skipCount_of_skips after]
        rw [if_pos (by omega)]
      refine .region method begins (closed _ closes) ?_
      simp only [regionSpan, skipCount_of_skips skipped]
      rw [if_pos (by omega), behind, ahead, Nat.add_sub_cancel]

end Margins

/-! ## Steps over a refilled text -/

/-- What opens something by one of the rules is accepted. -/
theorem directiveAt_of_opens {size : Nat} {opener last : Site} {found : Option Directive}
    (opens : Opens size opener found last) : directiveAt size opener = .ok (found, last) := by
  cases opens with
  | plain method | line method | shortcut method => simp only [directiveAt, method]
  | block method closed lines =>
      simp only [directiveAt, method, closed, lines, bind, Except.bind, pure, Except.pure]
  | region method begins closed between =>
      simp only [directiveAt, method, begins, closed, between, bind, Except.bind, pure, Except.pure]
  | skip method closed =>
      simp only [directiveAt, method, closed, bind, Except.bind, pure, Except.pure]

/-- A cut around a span parts a text that is written in three parts. -/
theorem cutAround_append (front plain content left : List Char) (call : Span) :
    cutAround (Text.byteLength front) (plain ++ (content ++ left))
      ⟨Text.byteLength (front ++ plain), Text.byteLength (front ++ plain ++ content)⟩ call =
      .ok (plain, left) := by
  have first : Text.byteLength (front ++ plain) - Text.byteLength front =
      Text.byteLength plain := by
    rw [Text.byteLength_append, Nat.add_sub_cancel_left]
  have second : Text.byteLength (front ++ plain ++ content) - Text.byteLength (front ++ plain) =
      Text.byteLength content := by
    rw [Text.byteLength_append _ content, Nat.add_sub_cancel_left]
  simp only [cutAround, first, second, Text.onward_byteLength, Text.upto_byteLength,
    Text.isBoundary_byteLength, and_self, if_true]
  rw [if_neg (by rw [Text.byteLength_append]; omega)]

/-- How a body stands in what is left of a text: behind a gap its opening call, a margin, the
replaced text, a margin and its closing call, with no dollar sign between them but in what
is replaced. -/
structure Layout (opener closer : Site) (kind : DirectiveKind)
    (gap above content below : List Char) : Prop where
  behind : opener.rest = above ++ (content ++ (below ++ (closer.text ++ closer.rest)))
  opens : opener.call.Written opener.text opener.rest
  closes : closer.call.Written closer.text closer.rest
  margins : Margins opener.call closer.call kind above below
  solid : opener.call.method = some "start" → '\n' ∉ opener.text
  listed : opener.call.params ≠ []
  gap_free : '$' ∉ gap
  above_free : '$' ∉ above
  below_free : '$' ∉ below

/-- **A body is found again around another content.** -/
theorem Layout.tokensFrom_refilled {opener closer : Site} {kind : DirectiveKind}
    {gap above content below : List Char}
    (layout : Layout opener closer kind gap above content below)
    {ahead middle plain other rest renewed : List Char} {size : Nat}
    (before : plain = middle ++ (gap ++ (opener.text ++ above)))
    (parts : middle ++ renewed = plain ++ (other ++ (below ++ (closer.text ++ rest))))
    (measured : size = Text.byteLength (ahead ++ (middle ++ renewed))) (free : '$' ∉ other)
    (same : rest.head? = closer.rest.head?) :
    tokensFrom size (Text.byteLength ahead) (middle ++ renewed)
        (Place.start.past (ahead ++ middle)) renewed =
      (tokensFrom size (Text.byteLength (ahead ++ plain ++ other)) (below ++ (closer.text ++ rest))
        (Place.start.past (ahead ++ plain ++ other ++ (below ++ closer.text))) rest).map
        fun tokens => Token.ofPlain plain ++ .directive ⟨kind, opener.call.params,
          ⟨Text.byteLength (ahead ++ plain), Text.byteLength (ahead ++ plain ++ other)⟩⟩ ::
            tokens := by
  let again : Site := ⟨opener.call, Place.start.past (ahead ++ middle ++ gap), opener.text,
    above ++ (other ++ (below ++ (closer.text ++ rest)))⟩
  let last : Site := ⟨closer.call, Place.start.past (ahead ++ plain ++ other ++ below),
    closer.text, rest⟩
  have whole : renewed = gap ++ (again.text ++ again.rest) := by
    subst before
    simp only [List.append_assoc, List.append_cancel_left_eq] at parts
    exact parts
  have found : scan (Place.start.past (ahead ++ middle)) renewed = .call again := by
    rw [whole, scan_append layout.gap_free (layout.opens.before (.inl layout.listed)),
      ← Place.past_append]
  have stands : again.Stands (ahead ++ (middle ++ renewed)) (ahead ++ middle ++ gap) :=
    ⟨by simp only [whole, List.append_assoc], rfl⟩
  have front : ahead ++ middle ++ gap ++ again.text ++ above = ahead ++ plain := by
    simp only [before, again, List.append_assoc]
  have ends : last.Stands (ahead ++ (middle ++ renewed))
      (ahead ++ middle ++ gap ++ again.text ++ above ++ other ++ below) := by
    rw [front]
    exact ⟨by simp only [parts, last, List.append_assoc], rfl⟩
  have closed (awaited : Awaited) (closes : awaited.closedBy last.call = true) :
      awaited.closing again = .ok last := by
    have clear : '$' ∉ above ++ (other ++ below) := by
      simp only [List.mem_append, not_or]
      exact ⟨layout.above_free, free, layout.below_free⟩
    rw [Awaited.closing_append clear (layout.closes.before (.inr same))
      (by simp only [again, List.append_assoc]) closes, stands.stop_eq, ← Place.past_append]
    simp only [last, ← front, List.append_assoc]
  have margins : Margins again.call last.call kind above below := layout.margins
  have opens := margins.opens layout.solid stands ends closed
  rw [front] at opens
  have accepted := directiveAt_of_opens opens
  rw [← measured] at accepted
  have cut := cutAround_append ahead plain other (below ++ (closer.text ++ rest)) again.span
  rw [← parts] at cut
  rw [tokensFrom_replace found accepted margins.isShortcut cut, ends.stop_eq, front]
  simp only [again, last, List.append_assoc]

/-- How a skipped region stands in what is left of a text, with no dollar sign between its
calls. -/
structure Skipped (opener closer : Site) (gap between : List Char) : Prop where
  behind : opener.rest = between ++ (closer.text ++ closer.rest)
  opens : opener.call.Written opener.text opener.rest
  closes : closer.call.Written closer.text closer.rest
  method : opener.call.method = some "skipStart"
  closed : (Awaited.skipEnd opener.call.params.head?).closedBy closer.call = true
  gap_free : '$' ∉ gap
  between_free : '$' ∉ between

/-- A skipped region is passed over again in front of another text. -/
theorem Skipped.tokensFrom_refilled {opener closer : Site} {gap between : List Char}
    (skipped : Skipped opener closer gap between) (size emitted : Nat) (unread ahead : List Char)
    {rest : List Char} (same : rest.head? = closer.rest.head?) :
    tokensFrom size emitted unread (Place.start.past ahead)
        (gap ++ (opener.text ++ (between ++ (closer.text ++ rest)))) =
      tokensFrom size emitted unread
        (Place.start.past (ahead ++ (gap ++ (opener.text ++ (between ++ closer.text))))) rest := by
  let again : Site := ⟨opener.call, (Place.start.past ahead).past gap, opener.text,
    between ++ (closer.text ++ rest)⟩
  have heads : again.rest.head? = opener.rest.head? := by
    rw [skipped.behind]
    exact Text.head?_append_congr (Text.head?_append_congr same)
  have found : scan (Place.start.past ahead) (gap ++ (again.text ++ again.rest)) = .call again :=
    scan_append skipped.gap_free (skipped.opens.before (.inr heads))
  have ends : (Awaited.skipEnd again.call.params.head?).closing again = .ok
      ⟨closer.call, again.stop.past between, closer.text, rest⟩ :=
    Awaited.closing_append skipped.between_free (skipped.closes.before (.inr same)) rfl
      skipped.closed
  have accepted : directiveAt size again = .ok (none, _) :=
    directiveAt_of_opens (.skip skipped.method ends)
  rw [tokensFrom_skip found accepted]
  simp only [again, Site.stop, Place.past_append]

/-! ## How bodies stand in a text -/

section Standing

variable {source passed input searched : List Char} {opener closer : Site}

/-- The span of a body begins behind its opening call. -/
theorem Opens.stop_le_span {size : Nat} {directive : Directive}
    (opens : Opens size opener (some directive) closer)
    (body : directive.kind = .block ∨ directive.kind = .region)
    (solid : opener.call.method = some "start" → '\n' ∉ opener.text) :
    opener.span.stop ≤ directive.span.start := by
  cases opens with
  | plain | line | shortcut => simp at body
  | block method closed lines =>
      have lineStop : opener.span.stop ≤ opener.lineStop := by
        rw [Site.lineStop, takeWhile_append_of_notMem (solid method), Text.byteLength_append,
          ← Nat.add_assoc]
        exact Nat.le_add_right _ _
      rw [(blockSpan_bounds lines).1]
      exact Nat.le_succ_of_le lineStop
  | region method begins closed between =>
      obtain ⟨after, -, start⟩ := regionStart_skips begins
      obtain ⟨before, -, same, -⟩ := regionSpan_skips between
      simp only
      omega

theorem Opens.params_eq {size : Nat} {directive : Directive}
    (opens : Opens size opener (some directive) closer) :
    directive.params = opener.call.params := by
  cases opens <;> rfl

/-- The closing call of a body is written where the body ends. -/
theorem Opens.closes_written {size : Nat} {frame : Frame}
    (opens : Opens size frame.opener frame.found frame.last) (regular : frame.Regular) :
    frame.last.call.Written frame.last.text frame.last.rest := by
  obtain ⟨opener, found, last⟩ := frame
  have body := regular.body
  replace opens : Opens size opener found last := opens
  cases opens with
  | plain | line | shortcut => simp at body
  | block _ closed _ => exact (Awaited.written_of_closing closed).2
  | region _ _ closed _ => exact (Awaited.written_of_closing closed).2
  | skip _ closed => exact (Awaited.written_of_closing closed).2

/-- There is no dollar sign before the next frame. -/
theorem Held.gap_free {frame : Frame} (held : Held source passed input)
    (next : frame.Next source passed input searched) {gap rest : List Char}
    (stands : frame.opener.Stands source (passed ++ gap)) (parts : gap ++ rest = input) :
    '$' ∉ gap := by
  have start := stands.span_start
  have last := next.opening.start_lt
  rw [next.opening.byteLength_searched] at last
  refine held.notMem next (show [] ++ (gap ++ rest) = input from parts) ?_ ?_
  · rw [List.append_nil]
    omega
  · intro offset _ before holds
    have behind := (next.opening.bounds_of_holds (held.next_regular next) holds).1
    rw [List.append_nil] at before
    omega

/-- Between its calls a frame holds nothing but its span. -/
theorem Held.between_free {frame : Frame} (held : Held source passed input)
    (next : frame.Next source passed input searched) {before part after : List Char}
    (parts : before ++ (part ++ after) = input)
    (start : frame.opener.span.stop ≤ Text.byteLength (passed ++ before))
    (stop : Text.byteLength (passed ++ before ++ part) ≤ frame.last.span.start)
    (outside : ∀ directive ∈ frame.found,
      Text.byteLength (passed ++ before ++ part) ≤ directive.span.start ∨
        directive.span.stop ≤ Text.byteLength (passed ++ before)) :
    '$' ∉ part := by
  have within : frame.last.span.start ≤ frame.last.span.stop := Nat.le_add_right _ _
  refine held.notMem next parts (by omega) ?_
  rintro offset behind before (⟨_, inside⟩ | ⟨inside, _⟩ | ⟨directive, found, first, last⟩)
  · omega
  · omega
  · rcases outside directive found with above | below <;> omega

/-- The opening call of the next frame is written behind a gap. -/
theorem Frame.Next.exists_stands {frame : Frame}
    (next : frame.Next source passed input searched)
    (result : scan (Place.start.past passed) input = .call frame.opener) :
    ∃ gap, gap ++ (frame.opener.text ++ frame.opener.rest) = input ∧
      frame.opener.Stands source (passed ++ gap) ∧
      frame.opener.call.Written frame.opener.text frame.opener.rest := by
  obtain ⟨gap, whole, place, opens⟩ := written_of_scan result
  refine ⟨gap, whole, ⟨?_, ?_⟩, opens⟩
  · rw [List.append_assoc, whole]
    exact next.whole
  · rw [place, ← Place.past_append]

/-- A directive that is cut out of a text stands there as a body. -/
theorem Held.exists_layout {front middle plain left : List Char} {directive : Directive}
    (held : Held source (front ++ middle) input)
    (next : (Frame.mk opener (some directive) closer).Next source (front ++ middle) input searched)
    (result : scan (Place.start.past (front ++ middle)) input = .call opener)
    (cut : cutAround (Text.byteLength front) (middle ++ input) directive.span opener.span =
      .ok (plain, left)) :
    ∃ gap above content below,
      Layout opener closer directive.kind gap above content below ∧
      gap ++ (opener.text ++ opener.rest) = input ∧
      plain = middle ++ (gap ++ (opener.text ++ above)) ∧
      left = below ++ (closer.text ++ closer.rest) ∧
      directive.span.stop = Text.byteLength (front ++ plain ++ content) := by
  obtain ⟨gap, whole, stands, opens⟩ := next.exists_stands result
  have regular := held.next_regular next
  have body := regular.body directive rfl
  have solid := regular.solid
  have opening : Opens (Text.byteLength source) opener (some directive) closer := next.opening.opens
  have behind := opening.stop_le_span body solid
  have bounds := opening.span_bounds stands body
  have emitted : front ++ (middle ++ input) = source := by
    rw [← List.append_assoc]
    exact next.whole
  obtain ⟨content, parts, start, stop⟩ := cutAround_parts emitted (opening.ordered stands) cut
  -- the opening call ends before the span, and the closing call begins behind it
  have twice : front ++ middle ++ gap ++ opener.text ++ opener.rest =
      front ++ plain ++ (content ++ left) := by
    rw [stands.behind, ← parts, List.append_assoc]
  obtain ⟨above, ahead, rest⟩ := Text.exists_append_of_byteLength_le twice
    (by rw [start, ← stands.span_stop]; exact behind)
  obtain ⟨before, ends, -⟩ := next.opening.ends
  obtain ⟨below, same, remaining⟩ :=
    Text.exists_append_of_byteLength_le (parts.trans ends.whole.symm)
      (by rw [stop, ← ends.span_start]; exact bounds.2)
  have last := stop.symm
  rw [same, ahead] at ends
  rw [ahead] at start stop
  have margins := margins_of_opens opening body solid stands ends start stop
  have closes := next.opening.opens.closes_written regular
  have opened := stands.span_stop
  have closed := ends.span_start
  simp only [Text.byteLength_append] at start stop opened closed
  have above_free : '$' ∉ above := by
    have here : (gap ++ opener.text) ++ (above ++ (content ++ left)) = input := by
      rw [← whole, rest, List.append_assoc]
    refine held.between_free next here ?_ ?_ ?_
    · simp only [Text.byteLength_append]
      omega
    · simp only [Text.byteLength_append]
      omega
    · rintro _ ⟨⟩
      left
      simp only [Text.byteLength_append]
      omega
  have below_free : '$' ∉ below := by
    have here : (gap ++ opener.text ++ above ++ content) ++
        (below ++ (closer.text ++ closer.rest)) = input := by
      simp only [← whole, rest, remaining, List.append_assoc]
    refine held.between_free next here ?_ ?_ ?_
    · simp only [Text.byteLength_append]
      omega
    · simp only [Text.byteLength_append]
      omega
    · rintro _ ⟨⟩
      right
      simp only [Text.byteLength_append]
      omega
  have listed : opener.call.params ≠ [] := opening.params_eq ▸ regular.listed directive rfl
  refine ⟨gap, above, content, below, ⟨?_, opens, closes, margins, solid, listed,
    held.gap_free next stands whole, above_free, below_free⟩, whole, ?_, remaining, last⟩
  · rw [rest, remaining]
  · simpa only [List.append_assoc, List.append_cancel_left_eq] using ahead

/-- A skipped region stands in a text with no dollar sign between its calls. -/
theorem Held.exists_skipped (held : Held source passed input)
    (next : (Frame.mk opener none closer).Next source passed input searched)
    (result : scan (Place.start.past passed) input = .call opener) :
    ∃ gap between, Skipped opener closer gap between ∧
      gap ++ (opener.text ++ opener.rest) = input := by
  obtain ⟨gap, whole, stands, opens⟩ := next.exists_stands result
  have opening : Opens (Text.byteLength source) opener none closer := next.opening.opens
  cases opening with
  | skip method closed =>
      obtain ⟨between, ends⟩ := Awaited.closing_stands stands closed
      obtain ⟨closes, written⟩ := Awaited.written_of_closing closed
      have rest := ends.whole.trans stands.behind.symm
      rw [List.append_assoc, List.append_cancel_left_eq] at rest
      have here : (gap ++ opener.text) ++ (between ++ (closer.text ++ closer.rest)) = input := by
        rw [List.append_assoc, rest, whole]
      have between_free : '$' ∉ between := by
        refine held.between_free next here ?_ ?_ (by simp)
        · rw [← List.append_assoc, ← stands.span_stop]
        · rw [← List.append_assoc, ← ends.span_start]
      exact ⟨gap, between, ⟨rest.symm, opens, written, method, closes,
        held.gap_free next stands whole, between_free⟩, whole⟩

end Standing

end Transclusion
