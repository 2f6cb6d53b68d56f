import Transclusion.Directive.Lexer

/-!
# The course of a cut

`tokensFrom` keeps offsets and remainders of a text; nothing in its arguments
says that they belong together. This module lays a whole run out as a
derivation (`Cutting`) over the text itself: one list of characters holds what
has been emitted, another what has been searched, and each rule says what one
call does to them.

A call found by a search stands in the text (`Site.Stands`), also when it is
found in the search for the end of a body, and a directive's span is never
turned around (`Opens.ordered`). From this every run that succeeds has a
derivation (`cutting_of_ofText`), and what holds of all tokens of a text is
shown by induction on it.
-/

set_option autoImplicit false

namespace Transclusion

/-- The line at a place does not begin behind the place. -/
theorem Place.lineStart_past_le {place : Place} (ordered : place.lineStart ≤ place.offset)
    (text : List Char) : (place.past text).lineStart ≤ (place.past text).offset := by
  induction text generalizing place with
  | nil => exact ordered
  | cons char rest ih =>
      refine ih ?_
      simp only [Place.next]
      split
      · exact Nat.le_refl _
      · omega

/-! ## Where calls stand -/

/-- A site stands in a text behind some characters: with the call and what is
left behind it they make up the text, and the site's place is the place behind
them. -/
structure Site.Stands (source before : List Char) (site : Site) : Prop where
  whole : before ++ (site.text ++ site.rest) = source
  place_eq : site.place = Place.start.past before

namespace Site.Stands

variable {source before : List Char} {site : Site}

theorem stop_eq (stands : site.Stands source before) :
    site.stop = Place.start.past (before ++ site.text) := by
  rw [Site.stop, stands.place_eq, Place.past_append]

theorem behind (stands : site.Stands source before) :
    (before ++ site.text) ++ site.rest = source := by
  rw [List.append_assoc]
  exact stands.whole

theorem lineStart_le (stands : site.Stands source before) :
    site.place.lineStart ≤ site.place.offset := by
  rw [stands.place_eq]
  exact Place.lineStart_past_le (Nat.le_refl 0) before

end Site.Stands

section Searching

variable {source passed input : List Char}

/-- A call that a search comes upon stands behind what was searched before. -/
theorem scan_call_stands {site : Site} (searched : passed ++ input = source)
    (result : scan (Place.start.past passed) input = .call site) :
    ∃ skipped, site.Stands source (passed ++ skipped) := by
  unfold scan at result
  split at result
  · simp at result
  · next found marked search =>
      obtain ⟨skipped, rest, place, -⟩ := findMarker_eq_some search
      simp only at result
      split at result
      · simp at result
      · next reading success =>
          simp only [Scan.call.injEq] at result
          have taken : reading.taken ++ reading.rest = marked.drop Call.marker.length :=
            Call.read_of success
          subst result
          refine ⟨skipped, ?_, ?_⟩
          · rw [List.append_assoc, List.append_assoc, taken, List.take_append_drop, rest]
            exact searched
          · rw [Place.past_append]
            exact place.symm

/-- A search that comes upon a malformed call goes on behind its marker. -/
theorem scan_malformed_behind {fault : Fault} {place : Place} {rest : List Char}
    (searched : passed ++ input = source)
    (result : scan (Place.start.past passed) input = .malformed fault place rest) :
    ∃ skipped, (passed ++ skipped) ++ rest = source ∧
      place = Place.start.past (passed ++ skipped) := by
  unfold scan at result
  split at result
  · simp at result
  · next found marked search =>
      obtain ⟨skipped, left, start, -⟩ := findMarker_eq_some search
      simp only at result
      split at result
      · simp only [Scan.malformed.injEq] at result
        obtain ⟨-, rfl, rfl⟩ := result
        refine ⟨skipped ++ marked.take Call.marker.length, ?_, ?_⟩
        · rw [List.append_assoc, List.append_assoc, List.take_append_drop, left]
          exact searched
        · rw [Place.past_append, Place.past_append, start]
      · simp at result

/-- The call that closes a body stands behind the start of the body. -/
theorem findClosing_stands {awaited : Awaited} {place : Place} {site : Site}
    (searched : passed ++ input = source) (reached : place = Place.start.past passed)
    (found : awaited.findClosing place input = some site) :
    ∃ skipped, site.Stands source (passed ++ skipped) := by
  fun_induction Awaited.findClosing awaited place input generalizing passed with
  | case1 => simp at found
  | case2 place input fault behind rest result ih =>
      subst reached
      obtain ⟨skipped, whole, place⟩ := scan_malformed_behind searched result
      obtain ⟨further, stands⟩ := ih whole place found
      exact ⟨skipped ++ further, List.append_assoc passed skipped further ▸ stands⟩
  | case3 place input closing result closes =>
      subst reached
      simp only [Option.some.injEq] at found
      exact scan_call_stands searched (found ▸ result)
  | case4 place input other result _ ih =>
      subst reached
      obtain ⟨skipped, stands⟩ := scan_call_stands searched result
      obtain ⟨further, inner⟩ := ih stands.behind stands.stop_eq found
      refine ⟨skipped ++ (other.text ++ further), ?_⟩
      rwa [← List.append_assoc, ← List.append_assoc]

/-- The call that closes the body of an opening call stands behind that call. -/
theorem Awaited.closing_stands {awaited : Awaited} {opener site : Site} {before : List Char}
    (stands : opener.Stands source before) (closed : awaited.closing opener = .ok site) :
    ∃ skipped, site.Stands source (before ++ opener.text ++ skipped) := by
  unfold Awaited.closing at closed
  split at closed
  · next found =>
      simp only [Except.ok.injEq] at closed
      subst closed
      exact findClosing_stands stands.behind stands.stop_eq found
  · simp at closed

end Searching

/-! ## What a call opens -/

/-- What a call opens in a text of the given size, with the last call that
belongs to it: one rule for each form of a directive, and one for a skipped
region. -/
inductive Opens (size : Nat) (opener : Site) : Option Directive → Site → Prop
  | plain (method : opener.call.method = none) :
      Opens size opener (some ⟨.plain, opener.call.params, opener.span⟩) opener
  | line (method : opener.call.method = some "line") :
      Opens size opener (some ⟨.line, opener.call.params, opener.lineSpan⟩) opener
  | shortcut (method : opener.call.method = some "shortcut") :
      Opens size opener (some ⟨.shortcut, opener.call.params, opener.span⟩) opener
  | block {closer : Site} {span : Span} (method : opener.call.method = some "start")
      (closed : Awaited.blockEnd.closing opener = .ok closer)
      (lines : blockSpan opener closer = .ok span) :
      Opens size opener (some ⟨.block, opener.call.params, span⟩) closer
  | region {closer : Site} {start : Nat} {span : Span}
      (method : opener.call.method = some "open")
      (begins : regionStart size opener = .ok start)
      (closed : Awaited.regionClose.closing opener = .ok closer)
      (between : regionSpan opener closer start = .ok span) :
      Opens size opener (some ⟨.region, opener.call.params, span⟩) closer
  | skip {closer : Site} (method : opener.call.method = some "skipStart")
      (closed : (Awaited.skipEnd opener.call.params.head?).closing opener = .ok closer) :
      Opens size opener none closer

/-- A call that is accepted opens something by one of the rules. -/
theorem opens_of_directiveAt {size : Nat} {opener last : Site} {found : Option Directive}
    (result : directiveAt size opener = .ok (found, last)) : Opens size opener found last := by
  unfold directiveAt at result
  simp only [bind, Except.bind, pure, Except.pure] at result
  split at result
  · next method =>
      cases result
      exact .plain method
  · next method =>
      cases result
      exact .line method
  · next method =>
      cases result
      exact .shortcut method
  · next method =>
      split at result
      · cases result
      · next closer closed =>
          split at result
          · cases result
          · next span lines =>
              cases result
              exact .block method closed lines
  · next method =>
      split at result
      · cases result
      · next start begins =>
          split at result
          · cases result
          · next closer closed =>
              split at result
              · cases result
              · next span between =>
                  cases result
                  exact .region method begins closed between
  · next method =>
      split at result
      · cases result
      · next closer closed =>
          cases result
          exact .skip method closed
  · cases result

theorem blockSpan_ordered {opener closer : Site} {span : Span}
    (lines : blockSpan opener closer = .ok span) : span.start ≤ span.stop := by
  simp only [blockSpan] at lines
  split at lines
  · cases lines
    simp only
    omega
  · cases lines

theorem regionSpan_ordered {opener closer : Site} {start : Nat} {span : Span}
    (between : regionSpan opener closer start = .ok span) : span.start ≤ span.stop := by
  simp only [regionSpan] at between
  split at between
  · cases between
  · split at between
    · cases between
      simp only
      omega
    · cases between

namespace Opens

variable {size : Nat} {source before : List Char} {opener last : Site}

/-- The last call that belongs to an opening call stands at it or behind it. -/
theorem last_stands {found : Option Directive} (opens : Opens size opener found last)
    (stands : opener.Stands source before) :
    ∃ skipped, last.Stands source (before ++ skipped) := by
  have closes (awaited : Awaited) {closer : Site} (closed : awaited.closing opener = .ok closer) :
      ∃ skipped, closer.Stands source (before ++ skipped) := by
    obtain ⟨skipped, inner⟩ := Awaited.closing_stands stands closed
    exact ⟨opener.text ++ skipped, List.append_assoc before opener.text skipped ▸ inner⟩
  cases opens with
  | plain | line | shortcut =>
      refine ⟨[], ?_⟩
      rwa [List.append_nil]
  | block _ closed _ => exact closes _ closed
  | region _ _ closed _ => exact closes _ closed
  | skip _ closed => exact closes _ closed

/-- The span of a directive is not turned around. -/
theorem ordered {directive : Directive} (opens : Opens size opener (some directive) last)
    (stands : opener.Stands source before) : directive.span.start ≤ directive.span.stop := by
  cases opens with
  | plain | shortcut => exact Nat.le_add_right _ _
  | line => exact Nat.le_trans stands.lineStart_le (Nat.le_add_right _ _)
  | block _ _ lines => exact blockSpan_ordered lines
  | region _ _ _ between => exact regionSpan_ordered between

end Opens

/-! ## The derivation -/

/-- A cut around a span parts what is left into plain text, the characters of
the span and what is left behind them. -/
theorem cutAround_parts {source front unread plain left : List Char} {span call : Span}
    (emitted : front ++ unread = source) (ordered : span.start ≤ span.stop)
    (result : cutAround (Text.byteLength front) unread span call = .ok (plain, left)) :
    ∃ replaced, front ++ plain ++ replaced ++ left = source ∧
      Text.byteLength (front ++ plain) = span.start ∧
      Text.byteLength (front ++ plain ++ replaced) = span.stop := by
  unfold cutAround at result
  split at result
  · cases result
  · next behind =>
      simp only at result
      split at result
      · next boundaries =>
          obtain ⟨starts, stops⟩ := boundaries
          cases result
          let rest := Text.onward unread (span.start - Text.byteLength front)
          refine ⟨Text.upto rest (span.stop - span.start), ?_, ?_, ?_⟩
          · rw [List.append_assoc, Text.upto_append_onward, List.append_assoc,
              Text.upto_append_onward]
            exact emitted
          · rw [Text.byteLength_append, starts]
            omega
          · rw [Text.byteLength_append, Text.byteLength_append, starts, stops]
            omega
      · cases result

/-- A call that a search comes upon behind what has been passed, what it opens, and
what has been searched when the last call that belongs to it is passed too. -/
structure Opening (source passed : List Char) (opener last : Site) (found : Option Directive)
    (searched : List Char) : Prop where
  scanned : ∃ input, passed ++ input = source ∧
    scan (Place.start.past passed) input = .call opener
  opens : Opens (Text.byteLength source) opener found last
  ends : ∃ before, last.Stands source (passed ++ before) ∧
    searched = passed ++ before ++ last.text

/-- The opening call stands behind what has been passed. -/
theorem Opening.stands {source passed searched : List Char} {opener last : Site}
    {found : Option Directive} (opening : Opening source passed opener last found searched) :
    ∃ skipped, opener.Stands source (passed ++ skipped) := by
  obtain ⟨input, whole, result⟩ := opening.scanned
  exact scan_call_stands whole result

/-- How a text is cut into tokens when some of it has been emitted and some of it
has been searched. -/
inductive Cutting (source : List Char) : List Char → List Char → List Token → Prop
  /-- There is no further call: what was not emitted is plain text. -/
  | done {front unread passed input : List Char} (whole : front ++ unread = source)
      (searched : passed ++ input = source)
      (ends : scan (Place.start.past passed) input = .done) :
      Cutting source front passed (Token.ofPlain unread)
  /-- A skipped region is passed over. -/
  | skip {front passed searched : List Char} {opener last : Site} {tokens : List Token}
      (opening : Opening source passed opener last none searched)
      (others : Cutting source front searched tokens) :
      Cutting source front passed tokens
  /-- A declaration is a token, and its text is not emitted with it. -/
  | declare {front passed searched : List Char} {opener last : Site} {directive : Directive}
      {tokens : List Token}
      (opening : Opening source passed opener last (some directive) searched)
      (shortcut : directive.isShortcut = true) (others : Cutting source front searched tokens) :
      Cutting source front passed (.directive directive :: tokens)
  /-- Any other directive comes behind the plain text before its span. -/
  | replace {front plain replaced left passed searched : List Char} {opener last : Site}
      {directive : Directive} {tokens : List Token}
      (opening : Opening source passed opener last (some directive) searched)
      (shortcut : directive.isShortcut = false)
      (whole : front ++ plain ++ replaced ++ left = source)
      (start : Text.byteLength (front ++ plain) = directive.span.start)
      (stop : Text.byteLength (front ++ plain ++ replaced) = directive.span.stop)
      (others : Cutting source (front ++ plain ++ replaced) searched tokens) :
      Cutting source front passed (Token.ofPlain plain ++ .directive directive :: tokens)

/-- A call that is found and accepted is an opening, and the search goes on
behind its last call. -/
theorem opening_of_directiveAt {source passed input : List Char} {opener last : Site}
    {found : Option Directive} (searched : passed ++ input = source)
    (result : scan (Place.start.past passed) input = .call opener)
    (accepted : directiveAt (Text.byteLength source) opener = .ok (found, last)) :
    ∃ behind, Opening source passed opener last found behind ∧ behind ++ last.rest = source ∧
      last.stop = Place.start.past behind := by
  obtain ⟨skipped, stands⟩ := scan_call_stands searched result
  have opens := opens_of_directiveAt accepted
  obtain ⟨further, ends⟩ := opens.last_stands stands
  refine ⟨passed ++ (skipped ++ further) ++ last.text,
    ⟨⟨input, searched, result⟩, opens, skipped ++ further, ?_, rfl⟩, ?_, ?_⟩
  all_goals rw [← List.append_assoc passed]
  · exact ends
  · exact ends.behind
  · exact ends.stop_eq

/-- A run that succeeds has a derivation. -/
theorem cutting_of_tokensFrom {source front unread passed input : List Char} {size emitted : Nat}
    {place : Place} {tokens : List Token} (measured : size = Text.byteLength source)
    (reached : emitted = Text.byteLength front) (whole : front ++ unread = source)
    (placed : place = Place.start.past passed) (searched : passed ++ input = source)
    (result : tokensFrom size emitted unread place input = .ok tokens) :
    Cutting source front passed tokens := by
  fun_induction tokensFrom size emitted unread place input generalizing front passed tokens with
  | case1 emitted unread place input ends =>
      subst placed
      cases result
      exact .done whole searched ends
  | case2 => cases result
  | case3 => cases result
  | case4 emitted unread place input opener found last accepted ih =>
      subst measured placed
      obtain ⟨behind, opening, rest, stop⟩ := opening_of_directiveAt searched found accepted
      exact .skip opening (ih reached whole stop rest result)
  | case5 emitted unread place input opener found directive last accepted shortcut ih =>
      subst measured placed
      obtain ⟨behind, opening, rest, stop⟩ := opening_of_directiveAt searched found accepted
      obtain ⟨others, inner, rfl⟩ := Reading.eq_ok_of_map result
      exact .declare opening shortcut (ih reached whole stop rest inner)
  | case6 => cases result
  | case7 emitted unread place input opener found directive last accepted shortcut plain left
      cut ih =>
      subst measured placed reached
      obtain ⟨behind, opening, rest, stop⟩ := opening_of_directiveAt searched found accepted
      obtain ⟨skipped, stands⟩ := opening.stands
      have ordered := opening.opens.ordered stands
      obtain ⟨replaced, parts, starts, stops⟩ := cutAround_parts whole ordered cut
      obtain ⟨others, inner, rfl⟩ := Reading.eq_ok_of_map result
      exact .replace opening (by simpa using shortcut) parts starts stops
        (ih stops.symm parts stop rest inner)

/-- The tokens of a text are cut from it by a derivation. -/
theorem cutting_of_ofText {source : String} {tokens : List Token}
    (result : Token.ofText source = .ok tokens) : Cutting source.toList [] [] tokens :=
  cutting_of_tokensFrom rfl rfl rfl rfl rfl result

end Transclusion
