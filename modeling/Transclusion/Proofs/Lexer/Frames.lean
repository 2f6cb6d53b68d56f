import Transclusion.Proofs.Lexer.Coverage
import Transclusion.Proofs.Lexer.Delimitation

/-!
# Frames

A frame is a call that the lexer accepts while nothing is open, with what the call
opens and the last call that belongs to it. The frames of a text come one behind the
other (`framesFrom`), they are what the lexer accepts (`mem_framesFrom_iff`), and
what they open are the directives of the text (`directives_eq_frames`).

A frame holds its calls and the span of what it opens (`Frame.Holds`). Where every
directive is a block or a region, this lies behind all that the frames before it hold
(`le_of_mem_framesFrom`). So if every dollar sign of a text is held by some frame, there is
none between the start of a search and the end of the frame it comes upon, except where
this frame holds it (`Held.notMem`).
-/

set_option autoImplicit false

namespace Transclusion

/-- A call that is accepted, what it opens and the last call that belongs to it. -/
structure Frame where
  opener : Site
  found : Option Directive
  last : Site
deriving DecidableEq, Repr

/-- The frames of what is left of a text of the given size, from a place on. -/
def framesFrom (size : Nat) (place : Place) (input : List Char) : List Frame :=
  match _ : scan place input with
  | .call opener =>
      match _ : directiveAt size opener with
      | .ok (found, last) => ⟨opener, found, last⟩ :: framesFrom size last.stop last.rest
      | .error _ => []
  | _ => []
termination_by input.length
decreasing_by
  have shorter := scan_call_length_lt ‹_›
  have within := directiveAt_length_le ‹_›
  omega

/-! ## Frames and what is accepted -/

section Accepting

variable {size emitted : Nat} {unread input : List Char} {place : Place}

theorem framesFrom_accepted {opener last : Site} {found : Option Directive}
    (result : scan place input = .call opener)
    (accepted : directiveAt size opener = .ok (found, last)) :
    framesFrom size place input =
      ⟨opener, found, last⟩ :: framesFrom size last.stop last.rest := by
  fun_cases framesFrom size place input <;> simp_all

theorem framesFrom_done (ends : scan place input = .done) : framesFrom size place input = [] := by
  fun_cases framesFrom size place input <;> simp_all

/-- The frames from a place that is reached on are among the frames of the text. -/
theorem Reaches.exists_frames {source : List Char}
    (reached : Reaches source emitted unread place input) :
    ∃ before, framesFrom (Text.byteLength source) .start source =
      before ++ framesFrom (Text.byteLength source) place input := by
  have step {input : List Char} {place : Place} {opener last : Site} {found : Option Directive}
      (before : ∃ before, framesFrom (Text.byteLength source) .start source =
        before ++ framesFrom (Text.byteLength source) place input)
      (result : scan place input = .call opener)
      (accepted : directiveAt (Text.byteLength source) opener = .ok (found, last)) :
      ∃ before, framesFrom (Text.byteLength source) .start source =
        before ++ framesFrom (Text.byteLength source) last.stop last.rest := by
    obtain ⟨before, frames⟩ := before
    rw [framesFrom_accepted result accepted] at frames
    exact ⟨before ++ [⟨opener, found, last⟩], by rw [frames, List.append_assoc]; rfl⟩
  induction reached with
  | start => exact ⟨[], rfl⟩
  | skip _ result accepted ih => exact step ih result accepted
  | declare _ result accepted _ ih => exact step ih result accepted
  | replace _ result accepted _ _ ih => exact step ih result accepted

/-- What the lexer accepts is a frame of the text. -/
theorem Accepts.mem_framesFrom {source : List Char} {frame : Frame}
    (accepted : Accepts source frame.opener frame.found frame.last) :
    frame ∈ framesFrom (Text.byteLength source) .start source := by
  obtain ⟨emitted, unread, place, input, reached, result, accepted⟩ := accepted
  obtain ⟨before, frames⟩ := reached.exists_frames
  rw [frames, framesFrom_accepted result accepted]
  exact List.mem_append_right before List.mem_cons_self

/-- The frames from a place on are accepted if the lexer succeeds from there. -/
theorem Reaches.accepts_of_mem_framesFrom {source : List Char} {tokens : List Token}
    {frame : Frame} (reached : Reaches source emitted unread place input)
    (result : tokensFrom (Text.byteLength source) emitted unread place input = .ok tokens)
    (member : frame ∈ framesFrom (Text.byteLength source) place input) :
    Accepts source frame.opener frame.found frame.last := by
  fun_induction tokensFrom (Text.byteLength source) emitted unread place input
    generalizing tokens with
  | case1 emitted unread place input ends =>
      rw [framesFrom_done ends] at member
      cases member
  | case2 => cases result
  | case3 => cases result
  | case4 emitted unread place input opener found last accepted ih =>
      rw [framesFrom_accepted found accepted] at member
      rcases List.mem_cons.1 member with rfl | later
      · exact ⟨_, _, _, _, reached, found, accepted⟩
      · exact ih (reached.skip found accepted) result later
  | case5 emitted unread place input opener found directive last accepted shortcut ih =>
      rw [framesFrom_accepted found accepted] at member
      obtain ⟨others, inner, rfl⟩ := Reading.eq_ok_of_map result
      rcases List.mem_cons.1 member with rfl | later
      · exact ⟨_, _, _, _, reached, found, accepted⟩
      · exact ih (reached.declare found accepted shortcut) inner later
  | case6 => cases result
  | case7 emitted unread place input opener found directive last accepted shortcut plain left
      cut ih =>
      rw [framesFrom_accepted found accepted] at member
      obtain ⟨others, inner, rfl⟩ := Reading.eq_ok_of_map result
      rcases List.mem_cons.1 member with rfl | later
      · exact ⟨_, _, _, _, reached, found, accepted⟩
      · exact ih (reached.replace found accepted (by simpa using shortcut) cut) inner later

/-- **The frames of a text are what the lexer accepts.** -/
theorem mem_framesFrom_iff {source : String} {tokens : List Token} {frame : Frame}
    (result : Token.ofText source = .ok tokens) :
    frame ∈ framesFrom (Text.byteLength source.toList) .start source.toList ↔
      Accepts source.toList frame.opener frame.found frame.last :=
  ⟨Reaches.start.accepts_of_mem_framesFrom result, Accepts.mem_framesFrom⟩

/-- What the frames open are the directives of the tokens. -/
theorem directives_eq_frames {tokens : List Token}
    (result : tokensFrom size emitted unread place input = .ok tokens) :
    Token.directives tokens = (framesFrom size place input).filterMap (·.found) := by
  fun_induction tokensFrom size emitted unread place input generalizing tokens with
  | case1 emitted unread place input ends =>
      cases result
      rw [framesFrom_done ends, Token.directives_ofPlain]
      rfl
  | case2 => cases result
  | case3 => cases result
  | case4 emitted unread place input opener found last accepted ih =>
      rw [framesFrom_accepted found accepted]
      exact ih result
  | case5 emitted unread place input opener found directive last accepted shortcut ih =>
      obtain ⟨others, inner, rfl⟩ := Reading.eq_ok_of_map result
      rw [framesFrom_accepted found accepted, Token.directives_cons, ih inner]
      rfl
  | case6 => cases result
  | case7 emitted unread place input opener found directive last accepted shortcut plain left
      cut ih =>
      obtain ⟨others, inner, rfl⟩ := Reading.eq_ok_of_map result
      rw [framesFrom_accepted found accepted, Token.directives_append, Token.directives_ofPlain,
        List.nil_append, Token.directives_cons, ih inner]
      rfl

end Accepting

/-! ## What a frame holds -/

/-- An offset lies in a span. -/
def Span.Covers (span : Span) (offset : Nat) : Prop :=
  span.start ≤ offset ∧ offset < span.stop

instance (span : Span) (offset : Nat) : Decidable (span.Covers offset) :=
  inferInstanceAs (Decidable (_ ∧ _))

namespace Frame

/-- An offset lies in one of the calls of a frame or in the span between them. -/
def Holds (frame : Frame) (offset : Nat) : Prop :=
  frame.opener.span.Covers offset ∨ frame.last.span.Covers offset ∨
    ∃ directive ∈ frame.found, directive.span.Covers offset

instance (frame : Frame) (offset : Nat) : Decidable (frame.Holds offset) :=
  inferInstanceAs (Decidable (_ ∨ _ ∨ ∃ directive ∈ frame.found, directive.span.Covers offset))

/-- A frame is a skipped region, or a block or a region with parameters, and the opening call
of a block stands on one line. -/
structure Regular (frame : Frame) : Prop where
  body : ∀ directive ∈ frame.found, directive.kind = .block ∨ directive.kind = .region
  listed : ∀ directive ∈ frame.found, directive.params ≠ []
  solid : frame.opener.call.method = some "start" → '\n' ∉ frame.opener.text

end Frame

section Bounds

variable {source passed searched : List Char} {opener last : Site} {frame : Frame} {offset : Nat}

/-- The span of a block or a region begins behind the start of its opening call and ends
before its closing call. -/
theorem Opens.span_bounds {size : Nat} {before : List Char} {directive : Directive}
    (opens : Opens size opener (some directive) last) (stands : opener.Stands source before)
    (body : directive.kind = .block ∨ directive.kind = .region) :
    opener.span.start ≤ directive.span.start ∧ directive.span.stop ≤ last.span.start := by
  cases opens with
  | plain | line | shortcut => simp at body
  | block method closed lines =>
      obtain ⟨skipped, ends⟩ := Awaited.closing_stands stands closed
      obtain ⟨start, stop⟩ := blockSpan_bounds lines
      have lineStop : opener.span.start ≤ opener.lineStop := Nat.le_add_right _ _
      have lineStart : last.place.lineStart ≤ last.span.start := ends.lineStart_le
      simp only
      omega
  | region method begins closed between =>
      obtain ⟨after, -, start⟩ := regionStart_skips begins
      obtain ⟨before, -, same, stop⟩ := regionSpan_skips between
      have within : opener.span.start ≤ opener.span.stop := Nat.le_add_right _ _
      simp only
      omega

/-- The last call of a body begins behind its opening call. -/
theorem Opening.stop_le_last (opening : Opening source passed frame.opener frame.last frame.found
    searched) (regular : frame.Regular) : frame.opener.span.stop ≤ frame.last.span.start := by
  obtain ⟨opener, found, last⟩ := frame
  obtain ⟨skipped, stands⟩ := opening.stands
  have body := regular.body
  have opens : Opens (Text.byteLength source) opener found last := opening.opens
  cases opens with
  | plain | line | shortcut => simp at body
  | block _ closed _ => exact (Awaited.closing_ok stands closed).2.seen.le
  | region _ _ closed _ => exact (Awaited.closing_ok stands closed).2.seen.le
  | skip _ closed => exact (Awaited.closing_ok stands closed).2.seen.le

/-- What a body holds lies between the start of its opening call and the end of its last
call. -/
theorem Opening.bounds_of_holds
    (opening : Opening source passed frame.opener frame.last frame.found searched)
    (regular : frame.Regular) (holds : frame.Holds offset) :
    frame.opener.span.start ≤ offset ∧ offset < frame.last.span.stop := by
  have behind := opening.stop_le_last regular
  have opener : frame.opener.span.start ≤ frame.opener.span.stop := Nat.le_add_right _ _
  have last : frame.last.span.start ≤ frame.last.span.stop := Nat.le_add_right _ _
  rcases holds with ⟨start, stop⟩ | ⟨start, stop⟩ | ⟨directive, found, start, stop⟩
  · omega
  · omega
  · obtain ⟨skipped, stands⟩ := opening.stands
    have opens := opening.opens
    rw [Option.mem_def.1 found] at opens
    have bounds := opens.span_bounds stands (regular.body directive found)
    omega

/-- What the frames from a place on hold lies behind the place. -/
theorem le_of_mem_framesFrom {input : List Char} {place : Place}
    (placed : place = Place.start.past passed) (whole : passed ++ input = source)
    (regular : ∀ frame ∈ framesFrom (Text.byteLength source) place input, frame.Regular)
    (member : frame ∈ framesFrom (Text.byteLength source) place input)
    (holds : frame.Holds offset) : Text.byteLength passed ≤ offset := by
  fun_induction framesFrom (Text.byteLength source) place input generalizing passed with
  | case1 place input opener result found last accepted ih =>
      subst placed
      obtain ⟨behind, opening, rest, stop⟩ := opening_of_directiveAt whole result accepted
      rcases List.mem_cons.1 member with rfl | later
      · have inside := opening.bounds_of_holds (regular _ List.mem_cons_self) holds
        exact Nat.le_trans opening.reads.2.behind inside.1
      · have inside := ih stop rest
          (fun frame member => regular frame (List.mem_cons_of_mem _ member)) later
        exact Nat.le_trans (Nat.le_of_lt opening.passed_lt) inside
  | case2 => cases member
  | case3 => cases member

end Bounds

/-! ## Where dollar signs stand -/

/-- A frame is the next one behind what has been passed, and the search goes on behind its
last call. -/
structure Frame.Next (source passed input : List Char) (frame : Frame) (searched : List Char) :
    Prop where
  opening : Opening source passed frame.opener frame.last frame.found searched
  frames : framesFrom (Text.byteLength source) (Place.start.past passed) input =
    frame :: framesFrom (Text.byteLength source) (Place.start.past searched) frame.last.rest
  whole : passed ++ input = source
  left : searched ++ frame.last.rest = source
  stop : frame.last.stop = Place.start.past searched

/-- A call that is found and accepted is the next frame. -/
theorem Frame.next_of_directiveAt {source passed input : List Char} {opener last : Site}
    {found : Option Directive} (whole : passed ++ input = source)
    (result : scan (Place.start.past passed) input = .call opener)
    (accepted : directiveAt (Text.byteLength source) opener = .ok (found, last)) :
    ∃ searched, (Frame.mk opener found last).Next source passed input searched := by
  obtain ⟨searched, opening, left, stop⟩ := opening_of_directiveAt whole result accepted
  refine ⟨searched, opening, ?_, whole, left, stop⟩
  rw [← stop]
  exact framesFrom_accepted result accepted

/-- Every dollar sign of what is left of a text is held by a frame, and the frames are
regular. -/
structure Held (source passed input : List Char) : Prop where
  regular : ∀ frame ∈ framesFrom (Text.byteLength source) (Place.start.past passed) input,
    frame.Regular
  holds : ∀ before after, before ++ '$' :: after = input →
    ∃ frame ∈ framesFrom (Text.byteLength source) (Place.start.past passed) input,
      frame.Holds (Text.byteLength (passed ++ before))

namespace Held

variable {source passed searched input : List Char} {frame : Frame}

theorem next_regular (held : Held source passed input)
    (next : frame.Next source passed input searched) : frame.Regular := by
  refine held.regular frame ?_
  rw [next.frames]
  exact List.mem_cons_self

/-- Behind the last call of a frame the frames that follow hold every dollar sign. -/
theorem rest (held : Held source passed input)
    (next : frame.Next source passed input searched) :
    Held source searched frame.last.rest where
  regular := by
    intro later member
    refine held.regular later ?_
    rw [next.frames]
    exact List.mem_cons_of_mem frame member
  holds := by
    intro before after parts
    obtain ⟨between, rfl, rest⟩ := Text.exists_append_of_byteLength_le
      (next.whole.trans next.left.symm) (Nat.le_of_lt next.opening.passed_lt)
    have inside : (between ++ before) ++ '$' :: after = input := by
      rw [List.append_assoc, parts, rest]
    obtain ⟨holder, member, holds⟩ := held.holds _ _ inside
    rw [← List.append_assoc] at holds
    rw [next.frames] at member
    rcases List.mem_cons.1 member with rfl | later
    · have before := (next.opening.bounds_of_holds (held.next_regular next) holds).2
      rw [← next.opening.byteLength_searched, Text.byteLength_append] at before
      omega
    · exact ⟨holder, later, holds⟩

/-- On the way over a frame there is no dollar sign where the frame holds nothing. -/
theorem notMem (held : Held source passed input)
    (next : frame.Next source passed input searched) {before part after : List Char}
    (parts : before ++ (part ++ after) = input)
    (inside : Text.byteLength (passed ++ before ++ part) ≤ frame.last.span.stop)
    (nothing : ∀ offset, Text.byteLength (passed ++ before) ≤ offset →
      offset < Text.byteLength (passed ++ before ++ part) → ¬ frame.Holds offset) :
    '$' ∉ part := by
  intro member
  obtain ⟨front, back, rfl⟩ := List.append_of_mem member
  obtain ⟨holder, member, holds⟩ :=
    held.holds (before ++ front) (back ++ after) (by rw [← parts]; simp)
  simp only [Text.byteLength_append, Text.byteLength_cons] at inside nothing holds
  have size := '$'.utf8Size_pos
  rw [next.frames] at member
  rcases List.mem_cons.1 member with rfl | later
  · exact nothing _ (by omega) (by omega) holds
  · have behind := le_of_mem_framesFrom rfl next.left (held.rest next).regular later holds
    rw [next.opening.byteLength_searched] at behind
    omega

end Held

end Transclusion
