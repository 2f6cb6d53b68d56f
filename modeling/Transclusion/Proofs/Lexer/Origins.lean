import Transclusion.Proofs.Lexer.Visibility
import Transclusion.Proofs.Text.Runs
import Mathlib.Data.List.Forall2

/-!
# Where directives come from

Every directive of a text goes back to calls that are written in it. Each form of
a directive has a rule (`Justified`) that names the calls, the method each of them
has and the span that follows from the offsets at which they stand. Lines are
described by the newlines around them (`LineAround`) and not by the functions that
look for those newlines.

The calls come in the order of the directives (`Origin.Precedes`): a directive's
opening call stands behind all calls of the directives before it.
-/

set_option autoImplicit false

namespace Transclusion

/-! ## Lines -/

/-- A part of a text is a line: no newline stands in it, and on each side there is a
newline or an end of the text. -/
structure LineBetween (before line after : List Char) : Prop where
  solid : '\n' ∉ line
  above : ∀ char ∈ before.getLast?, char = '\n'
  below : ∀ char ∈ after.head?, char = '\n'

/-- A span is the line of a text around an offset. -/
def LineAround (source : List Char) (offset : Nat) (span : Span) : Prop :=
  ∃ before line after, before ++ line ++ after = source ∧ LineBetween before line after ∧
    span = ⟨Text.byteLength before, Text.byteLength (before ++ line)⟩ ∧
    span.start ≤ offset ∧ offset ≤ span.stop

/-- A newline does not stand before the first newline. -/
theorem newline_notMem_takeWhile (text : List Char) : '\n' ∉ text.takeWhile (· ≠ '\n') := by
  intro member
  simpa using List.all_eq_true.1 List.all_takeWhile _ member

/-- What is left behind the characters before the first newline begins with it. -/
theorem eq_newline_of_mem_head?_dropWhile {text : List Char} {char : Char}
    (first : char ∈ (text.dropWhile (· ≠ '\n')).head?) : char = '\n' := by
  simpa using Text.stop_dropWhile (· ≠ '\n') text char first

/-- The line around a place of a text goes from the last newline before it up to the first
one behind it. -/
theorem lineBetween_around (front rest : List Char) :
    LineBetween (front.reverse.dropWhile (· ≠ '\n')).reverse
      ((front.reverse.takeWhile (· ≠ '\n')).reverse ++ rest.takeWhile (· ≠ '\n'))
      (rest.dropWhile (· ≠ '\n')) where
  solid := by
    rw [List.mem_append, List.mem_reverse, not_or]
    exact ⟨newline_notMem_takeWhile _, newline_notMem_takeWhile _⟩
  above := by
    intro char last
    rw [List.getLast?_reverse] at last
    exact eq_newline_of_mem_head?_dropWhile last
  below := by
    intro char first
    exact eq_newline_of_mem_head?_dropWhile first

/-- The line that is found around an offset is the one that newlines bound. -/
theorem lineAround_lineSpan {source : List Char} {offset : Nat}
    (boundary : Text.IsBoundary source offset) :
    LineAround source offset (Text.lineSpan source offset) := by
  let front := Text.upto source offset
  let rest := Text.onward source offset
  let left := front.reverse.takeWhile (· ≠ '\n')
  let above := front.reverse.dropWhile (· ≠ '\n')
  let right := rest.takeWhile (· ≠ '\n')
  have parts : above.reverse ++ left.reverse = front := by
    rw [← List.reverse_append, List.takeWhile_append_dropWhile, List.reverse_reverse]
  have measured : Text.byteLength above + Text.byteLength left = offset := by
    have whole := congrArg Text.byteLength parts
    rw [Text.byteLength_append, Text.byteLength_reverse, Text.byteLength_reverse] at whole
    exact whole.trans boundary
  have span : Text.lineSpan source offset =
      ⟨Text.byteLength above, offset + Text.byteLength right⟩ := by
    have start : Text.lineStart source offset = offset - Text.byteLength left :=
      congrArg (· - Text.byteLength left) boundary
    have stop : Text.lineStop source offset = offset + Text.byteLength right :=
      congrArg (· + Text.byteLength right) boundary
    rw [Text.lineSpan, start, stop, ← measured, Nat.add_sub_cancel_right]
  refine ⟨_, _, _, ?_, lineBetween_around front rest, ?_, ?_, ?_⟩
  · rw [← List.append_assoc, parts, List.append_assoc, List.takeWhile_append_dropWhile]
    exact Text.upto_append_onward source offset
  · rw [span, ← List.append_assoc, parts, Text.byteLength_append, Text.byteLength_reverse]
    exact congrArg (Span.mk _ <| · + _) boundary.symm
  · rw [span]
    exact measured ▸ Nat.le_add_right _ _
  · rw [span]
    exact Nat.le_add_right _ _

/-! ## Calls and what they justify -/

/-- A call with the bytes it takes. -/
structure Occurrence where
  call : Call
  span : Span

/-- A call stands in a text: at a marker, and it is what is read there. -/
structure Occurrence.In (source : List Char) (occurrence : Occurrence) : Prop where
  marker : MarkerAt source occurrence.span.start
  reads : Call.readAt source occurrence.span.start =
    .ok (occurrence.call, occurrence.span.stop)

/-- The number of bytes that an optional parameter asks to skip. -/
inductive Skips : Option Param → Nat → Prop
  | absent : Skips none 0
  | given {param : Param} {count : Nat} (denotes : param.count? = some count) :
      Skips (some param) count

/-- The calls that a directive goes back to, the first and the last of them. -/
structure Origin where
  opener : Occurrence
  last : Occurrence

/-- The calls of one directive stand before the calls of another. -/
structure Origin.Precedes (earlier later : Origin) : Prop where
  starts : earlier.opener.span.start < later.opener.span.start
  opened : earlier.opener.span.stop ≤ later.opener.span.start
  closed : earlier.last.span.stop ≤ later.opener.span.start

/-- A directive follows from calls that stand in a text. -/
inductive Justified (source : List Char) : Directive → Origin → Prop
  | plain {opener : Occurrence} (here : opener.In source) (method : opener.call.method = none) :
      Justified source ⟨.plain, opener.call.params, opener.span⟩ ⟨opener, opener⟩
  | line {opener : Occurrence} {span : Span} (here : opener.In source)
      (method : opener.call.method = some "line")
      (around : LineAround source opener.span.start span) :
      Justified source ⟨.line, opener.call.params, span⟩ ⟨opener, opener⟩
  | shortcut {opener : Occurrence} (here : opener.In source)
      (method : opener.call.method = some "shortcut") :
      Justified source ⟨.shortcut, opener.call.params, opener.span⟩ ⟨opener, opener⟩
  /-- The lines between the lines of two calls, without the newlines that bound them. -/
  | block {opener closer : Occurrence} {above below span : Span} (here : opener.In source)
      (method : opener.call.method = some "start") (there : closer.In source)
      (closes : closer.call.method = some "end") (behind : opener.span.stop ≤ closer.span.start)
      (first : LineAround source opener.span.start above)
      (last : LineAround source closer.span.start below)
      (start : span.start = above.stop + 1) (stop : span.stop + 1 = below.start) :
      Justified source ⟨.block, opener.call.params, span⟩ ⟨opener, closer⟩
  /-- The text between two calls, less what each of them skips. -/
  | region {opener closer : Occurrence} {after before : Nat} {span : Span}
      (here : opener.In source) (method : opener.call.method = some "open")
      (there : closer.In source) (closes : closer.call.method = some "close")
      (behind : opener.span.stop ≤ closer.span.start)
      (skipsAfter : Skips opener.call.params[1]? after)
      (skipsBefore : Skips closer.call.params.head? before)
      (start : span.start = opener.span.stop + after)
      (stop : span.stop + before = closer.span.start) :
      Justified source ⟨.region, opener.call.params, span⟩ ⟨opener, closer⟩

/-! ## What an opening justifies -/

theorem skips_of_skipCount {param : Option Param} {place : Span} {count : Nat}
    (result : skipCount param place = .ok count) : Skips param count := by
  unfold skipCount at result
  split at result
  · cases result
    exact .absent
  · split at result
    · next denotes =>
        cases result
        exact .given denotes
    · cases result

theorem blockSpan_bounds {opener closer : Site} {span : Span}
    (lines : blockSpan opener closer = .ok span) :
    span.start = opener.lineStop + 1 ∧ span.stop + 1 = closer.place.lineStart := by
  simp only [blockSpan] at lines
  split at lines
  · cases lines
    refine ⟨rfl, ?_⟩
    simp only
    omega
  · cases lines

theorem regionStart_skips {size start : Nat} {opener : Site}
    (begins : regionStart size opener = .ok start) :
    ∃ count, Skips opener.call.params[1]? count ∧ start = opener.span.stop + count := by
  unfold regionStart at begins
  split at begins
  · cases begins
  · next count counted =>
      split at begins
      · cases begins
        exact ⟨count, skips_of_skipCount counted, rfl⟩
      · cases begins

theorem regionSpan_skips {opener closer : Site} {start : Nat} {span : Span}
    (between : regionSpan opener closer start = .ok span) :
    ∃ count, Skips closer.call.params.head? count ∧ span.start = start ∧
      span.stop + count = closer.span.start := by
  unfold regionSpan at between
  split at between
  · cases between
  · next count counted =>
      split at between
      · cases between
        refine ⟨count, skips_of_skipCount counted, rfl, ?_⟩
        simp only
        omega
      · cases between

theorem Awaited.method_of_closedBy {awaited : Awaited} {call : Call}
    (closes : awaited.closedBy call = true) : call.method = some awaited.method := by
  unfold closedBy at closes
  rw [Bool.and_eq_true, beq_iff_eq] at closes
  exact closes.1

/-- The call of a site with the bytes it takes. -/
def Site.occurrence (site : Site) : Occurrence :=
  ⟨site.call, site.span⟩

theorem Site.Reads.occurrence_in {source : List Char} {site : Site} (reads : site.Reads source) :
    site.occurrence.In source :=
  ⟨reads.marker, reads.reads⟩

/-- The line of a site is the line around its marker. -/
theorem Site.Stands.lineAround {source before : List Char} {site : Site}
    (stands : site.Stands source before) (reads : site.Reads source) :
    LineAround source site.span.start site.lineSpan := by
  rw [Site.lineSpan, stands.lineStart_eq, stands.lineStop_eq]
  exact lineAround_lineSpan reads.marker.boundary

/-- The call that closes a body stands in the text behind the call that opens it. -/
theorem Awaited.closing_occurrence {source before : List Char} {awaited : Awaited}
    {opener closer : Site} (stands : opener.Stands source before)
    (closed : awaited.closing opener = .ok closer) :
    closer.Reads source ∧ closer.call.method = some awaited.method ∧
      opener.span.stop ≤ closer.span.start := by
  obtain ⟨reads, seen, ⟨-, call, stop, read, closes⟩, -⟩ := closing_ok stands closed
  rw [reads.reads] at read
  cases read
  exact ⟨reads, method_of_closedBy closes, seen.le⟩

/-- **A directive that is opened in a text is justified by it.** -/
theorem Opening.justified {source passed searched : List Char} {opener last : Site}
    {directive : Directive}
    (opening : Opening source passed opener last (some directive) searched) :
    Justified source directive ⟨opener.occurrence, last.occurrence⟩ := by
  obtain ⟨reads, -⟩ := opening.reads
  obtain ⟨skipped, stands⟩ := opening.stands
  have here := reads.occurrence_in
  cases opening.opens with
  | plain method => exact .plain here method
  | line method => exact .line here method (stands.lineAround reads)
  | shortcut method => exact .shortcut here method
  | block method closed lines =>
      obtain ⟨there, closes, behind⟩ := Awaited.closing_occurrence stands closed
      obtain ⟨further, ends⟩ := Awaited.closing_stands stands closed
      obtain ⟨start, stop⟩ := blockSpan_bounds lines
      exact .block here method there.occurrence_in closes behind (stands.lineAround reads)
        (ends.lineAround there) start stop
  | region method begins closed between =>
      obtain ⟨there, closes, behind⟩ := Awaited.closing_occurrence stands closed
      obtain ⟨after, skipsAfter, rfl⟩ := regionStart_skips begins
      obtain ⟨before, skipsBefore, start, stop⟩ := regionSpan_skips between
      exact .region here method there.occurrence_in closes behind skipsAfter skipsBefore start stop

/-! ## The directives of a text -/

namespace Token

/-- The directive that a token is, if it is one. -/
def directive? : Token → Option Directive
  | .text _ => none
  | .directive written => some written

/-- The directives among some tokens, in the order of the tokens. -/
def directives (tokens : List Token) : List Directive :=
  tokens.filterMap directive?

@[simp] theorem directives_ofPlain (plain : List Char) : directives (ofPlain plain) = [] := by
  unfold ofPlain
  split <;> rfl

@[simp] theorem directives_cons (written : Directive) (tokens : List Token) :
    directives (.directive written :: tokens) = written :: directives tokens := rfl

theorem directives_append (left right : List Token) :
    directives (left ++ right) = directives left ++ directives right :=
  List.filterMap_append

end Token

/-- Some directives go back to calls of a text that come in their order, all of them
behind an offset. -/
structure Traced (source : List Char) (start : Nat) (directives : List Directive)
    (origins : List Origin) : Prop where
  justified : List.Forall₂ (Justified source) directives origins
  ordered : origins.Pairwise Origin.Precedes
  behind : ∀ origin ∈ origins, start ≤ origin.opener.span.start

namespace Traced

variable {source passed searched : List Char} {opener last : Site} {directives : List Directive}
  {origins : List Origin}

/-- What is traced behind an opening is traced behind what was passed before it. -/
theorem skip {found : Option Directive}
    (traced : Traced source (Text.byteLength searched) directives origins)
    (opening : Opening source passed opener last found searched) :
    Traced source (Text.byteLength passed) directives origins where
  justified := traced.justified
  ordered := traced.ordered
  behind := by
    intro origin member
    exact Nat.le_trans (Nat.le_of_lt opening.passed_lt) (traced.behind origin member)

/-- An opened directive comes before what is traced behind its last call. -/
theorem cons {directive : Directive}
    (traced : Traced source (Text.byteLength searched) directives origins)
    (opening : Opening source passed opener last (some directive) searched) :
    Traced source (Text.byteLength passed) (directive :: directives)
      (⟨opener.occurrence, last.occurrence⟩ :: origins) where
  justified := .cons opening.justified traced.justified
  ordered := by
    refine List.pairwise_cons.2 ⟨fun origin member => ?_, traced.ordered⟩
    have later := traced.behind origin member
    have starts := opening.start_lt
    rw [opening.byteLength_searched] at later starts
    exact ⟨Nat.lt_of_lt_of_le starts later, Nat.le_trans opening.stop_le later, later⟩
  behind := by
    intro origin member
    rcases List.mem_cons.1 member with rfl | other
    · exact opening.reads.2.behind
    · exact (traced.skip opening).behind origin other

end Traced

/-- The directives of a derivation are traced behind what has been searched. -/
theorem Cutting.exists_traced {source front passed : List Char} {tokens : List Token}
    (cutting : Cutting source front passed tokens) :
    ∃ origins, Traced source (Text.byteLength passed) (Token.directives tokens) origins := by
  induction cutting with
  | done =>
      rw [Token.directives_ofPlain]
      exact ⟨[], .nil, .nil, by simp⟩
  | skip opening _ ih =>
      obtain ⟨origins, traced⟩ := ih
      exact ⟨origins, traced.skip opening⟩
  | declare opening _ _ ih =>
      obtain ⟨origins, traced⟩ := ih
      exact ⟨_, traced.cons opening⟩
  | replace opening _ _ _ _ _ ih =>
      obtain ⟨origins, traced⟩ := ih
      rw [Token.directives_append, Token.directives_ofPlain, List.nil_append,
        Token.directives_cons]
      exact ⟨_, traced.cons opening⟩

/-- **Every directive of a text is justified by calls of the text, and the calls come in
the order of the directives.** -/
theorem Token.ofText_origins {source : String} {tokens : List Token}
    (result : Token.ofText source = .ok tokens) :
    ∃ origins : List Origin,
      List.Forall₂ (Justified source.toList) (Token.directives tokens) origins ∧
        origins.Pairwise Origin.Precedes := by
  obtain ⟨origins, traced⟩ := (cutting_of_ofText result).exists_traced
  exact ⟨origins, traced.justified, traced.ordered⟩

/-- A text with a directive of every form, a skipped region among them. -/
theorem Token.ofText_origins_mixed :
    ∃ origins : List Origin,
      List.Forall₂
        (Justified ("$inline.shortcut('x','y')\n$inline.skipStart$inline('no')$inline.skipEnd\n" ++
          "a $inline.line('b') c\n$inline('d')\n$inline.start('e')\nf\n$inline.end\n" ++
          "$inline.open('u',2)év$inline.close(1)").toList)
        [⟨.shortcut, [.text "x", .text "y"], ⟨0, 25⟩⟩, ⟨.line, [.text "b"], ⟨72, 93⟩⟩,
          ⟨.plain, [.text "d"], ⟨94, 106⟩⟩, ⟨.block, [.text "e"], ⟨126, 127⟩⟩,
          ⟨.region, [.text "u", .number ⟨0x4000000000000000⟩], ⟨161, 161⟩⟩] origins ∧
        origins.Pairwise Origin.Precedes := by
  have result : Token.ofText
      ("$inline.shortcut('x','y')\n$inline.skipStart$inline('no')$inline.skipEnd\n" ++
        "a $inline.line('b') c\n$inline('d')\n$inline.start('e')\nf\n$inline.end\n" ++
        "$inline.open('u',2)év$inline.close(1)") = .ok
      [.directive ⟨.shortcut, [.text "x", .text "y"], ⟨0, 25⟩⟩,
        .text "$inline.shortcut('x','y')\n$inline.skipStart$inline('no')$inline.skipEnd\n",
        .directive ⟨.line, [.text "b"], ⟨72, 93⟩⟩, .text "\n",
        .directive ⟨.plain, [.text "d"], ⟨94, 106⟩⟩, .text "\n$inline.start('e')\n",
        .directive ⟨.block, [.text "e"], ⟨126, 127⟩⟩,
        .text "\n$inline.end\n$inline.open('u',2)é",
        .directive ⟨.region, [.text "u", .number ⟨0x4000000000000000⟩], ⟨161, 161⟩⟩,
        .text "v$inline.close(1)"] := by decide +kernel
  exact Token.ofText_origins result

end Transclusion
