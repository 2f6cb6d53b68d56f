import Transclusion.Transform.Builtin
import Transclusion.Proofs.Lexer.Extents
import Transclusion.Proofs.Lexer.Spans

/-!
# The indent of an included text

Without an argument, `indent` puts the blanks of a line of the including text in front of the
lines of the included one: of all its lines but the first and the empty ones
(`Indent.apply_eq_intercalate`). The line is the one on which the span of the directive
begins, and the blanks are its leading spaces and tabs (`Indent.ofLine_isIndent`).

So the included text is indented as the line of the call exactly if no newline stands between
the call's marker and the start of the span (`LineAround.sameLine_iff`). A plain directive and a
whole line always are. A block never is: its span begins on the line below the call, so the
blanks are those of the first line that it replaces. A region is, unless its opening call has
a newline in it or skips one. `Token.ofText_stray_indents` has a block and a region that
take their indent from another line.
-/

set_option autoImplicit false

namespace Transclusion

/-! ## Indented lines -/

namespace Indent

/-- Some lines with an indent in front of all but the first and the empty ones. -/
def lines (indent : List Char) : List (List Char) → List (List Char)
  | [] => []
  | first :: others => first :: others.map fun line => if line = [] then [] else indent ++ line

/-- The first line of a text is empty if the text is, or if it begins with a newline. -/
theorem first_eq_nil_iff {text first : List Char} {others : List (List Char)}
    (split : text.splitOn '\n' = first :: others) :
    first = [] ↔ text = [] ∨ text.head? = some '\n' := by
  cases text with
  | nil =>
      rw [List.splitOn_nil] at split
      cases split
      simp
  | cons char rest =>
      rw [List.splitOn_cons_eq_if_modifyHead] at split
      by_cases newline : char = '\n'
      · rw [if_pos (beq_iff_eq.2 newline)] at split
        cases split
        simp [newline]
      · obtain ⟨next, more, below⟩ :=
          List.exists_cons_of_ne_nil (List.splitOn_ne_nil '\n' rest)
        rw [if_neg (mt beq_iff_eq.1 newline), below] at split
        cases split
        simp [newline]

theorem intercalate_append (front first : List Char) (others : List (List Char)) :
    List.intercalate ['\n'] ((front ++ first) :: others) =
      front ++ List.intercalate ['\n'] (first :: others) := by
  cases others with
  | nil => simp
  | cons second others => simp [List.intercalate_cons_cons]

/-- **The lines of an indented text are those of the text, all but the first and the empty ones
with the indent in front.** -/
theorem apply_eq_intercalate (indent body : List Char) :
    apply indent body = List.intercalate ['\n'] (lines indent (body.splitOn '\n')) := by
  induction body with
  | nil => simp [apply, lines, List.splitOn_nil]
  | cons char rest ih =>
      obtain ⟨first, others, split⟩ :=
        List.exists_cons_of_ne_nil (List.splitOn_ne_nil '\n' rest)
      have empty := first_eq_nil_iff split
      rw [split, lines] at ih
      rw [apply, List.splitOn_cons_eq_if_modifyHead, split, ih]
      by_cases newline : char = '\n'
      · subst newline
        rw [if_pos (beq_self_eq_true _), lines, List.map_cons, List.intercalate_cons_cons,
          List.nil_append, List.singleton_append]
        by_cases nothing : first = []
        · have still : ¬ ('\n' = '\n' ∧ rest ≠ [] ∧ rest.head? ≠ some '\n') := by
            rintro ⟨-, filled, other⟩
            exact (empty.1 nothing).elim filled other
          rw [if_neg still, if_pos nothing, nothing]
        · rw [empty, not_or] at nothing
          rw [if_pos ⟨rfl, nothing⟩, if_neg (mt empty.1 (not_or.2 nothing)), intercalate_append]
      · rw [if_neg (fun begins => newline begins.1), if_neg (mt beq_iff_eq.1 newline),
          List.modifyHead_cons, lines]
        exact (intercalate_append [char] first _).symm

/-! ## The blanks of a line -/

/-- Some characters are the leading blanks of a line: spaces and tabs, and no further one
follows. -/
def IsIndent (line blanks : List Char) : Prop :=
  (∀ char ∈ blanks, char = ' ' ∨ char = '\t') ∧
    ∃ rest, line = blanks ++ rest ∧ ∀ char ∈ rest.head?, char ≠ ' ' ∧ char ≠ '\t'

end Indent

/-- The line around an offset begins where the line around it is found to begin. -/
theorem LineAround.lineStart_eq {source : List Char} {offset : Nat} {line : Span}
    (around : LineAround source offset line) : Text.lineStart source offset = line.start := by
  obtain ⟨before, text, after, rfl, between, rfl, start, stop⟩ := around
  simp only [Text.byteLength_append] at start stop
  obtain ⟨inside, rfl⟩ := Nat.exists_eq_add_of_le start
  rw [List.append_assoc, Text.lineStart, Text.lineBefore, Text.upto_append]
  have parts := Text.upto_append_onward (text ++ after) inside
  have short := Text.byteLength_upto_le (text ++ after) inside
  obtain ⟨others, whole, -⟩ := Text.exists_append_of_byteLength_le parts (by omega)
  have solid : ∀ char ∈ (Text.upto (text ++ after) inside).reverse,
      decide (char ≠ '\n') = true := by
    intro char member
    refine decide_eq_true ?_
    rintro rfl
    rw [List.mem_reverse] at member
    exact between.solid (whole ▸ List.mem_append_left others member)
  have above : ∀ char ∈ before.reverse.head?, decide (char ≠ '\n') = false := by
    intro char last
    rw [List.head?_reverse] at last
    simpa using between.above char last
  rw [List.reverse_append, (Text.takeWhile_append_of_stop solid above).1, Text.byteLength_append,
    Text.byteLength_reverse, Nat.add_sub_cancel_right]

/-- The indent that is found at an offset is that of the line around it. -/
theorem Indent.ofLine_isIndent {source : List Char} {offset : Nat} {line : Span}
    (around : LineAround source offset line) :
    Indent.IsIndent (Text.slice source line) (Indent.ofLine source offset) := by
  have begins := around.lineStart_eq
  obtain ⟨before, text, after, rfl, between, rfl, -, -⟩ := around
  let blank (char : Char) : Bool := char = ' ' ∨ char = '\t'
  -- the line ends with a newline or with the text, so the blanks do not go on behind it
  have ends : ∀ char ∈ (text.dropWhile blank ++ after).head?, blank char = false := by
    intro char first
    rw [List.head?_append, Option.mem_def, Option.or_eq_some_iff] at first
    rcases first with first | ⟨-, first⟩
    · exact Text.stop_dropWhile blank text char first
    · rw [between.below char first]
      decide
  have inside : ∀ char ∈ text.takeWhile blank, blank char = true := fun char member =>
    List.all_eq_true.1 List.all_takeWhile char member
  have left : Indent.ofLine (before ++ text ++ after) offset = text.takeWhile blank := by
    have parts : text.takeWhile blank ++ (text.dropWhile blank ++ after) = text ++ after := by
      rw [← List.append_assoc, List.takeWhile_append_dropWhile]
    rw [Indent.ofLine, Text.lineOnward_self, begins, List.append_assoc, Text.onward_byteLength,
      ← parts]
    exact (Text.takeWhile_append_of_stop inside ends).1
  rw [Text.slice_parts, left]
  refine ⟨fun char member => of_decide_eq_true (inside char member), text.dropWhile blank,
    List.takeWhile_append_dropWhile.symm, fun char first => ?_⟩
  exact not_or.1 (of_decide_eq_false (Text.stop_dropWhile blank text char first))

/-! ## The line of a call -/

section Lines

variable {source : List Char} {earlier later : Nat} {line : Span}

/-- **An offset is on the line of a later one exactly if no newline stands between them.** -/
theorem LineAround.sameLine_iff (around : LineAround source later line)
    (ordered : earlier ≤ later) (starts : Text.IsBoundary source earlier)
    (stops : Text.IsBoundary source later) :
    LineAround source earlier line ↔ '\n' ∉ Text.slice source ⟨earlier, later⟩ := by
  have within : Span.Within source ⟨earlier, later⟩ := ⟨ordered, starts, stops⟩
  rw [within.mem_slice_iff]
  constructor
  · rintro ⟨-, -, -, -, -, -, first, -⟩ ⟨place, newline, behind, before⟩
    obtain ⟨-, -, -, -, -, -, -, last⟩ := id around
    exact around.free newline ⟨Nat.le_trans first behind, Nat.lt_of_lt_of_le before last⟩
  · intro free
    obtain ⟨above, text, below, rfl, between, rfl, first, last⟩ := around
    refine ⟨above, text, below, rfl, between, rfl, ?_, Nat.le_trans ordered last⟩
    by_contra outside
    -- the newline at the end of what is above would stand between the offsets
    cases ends : above.getLast? with
    | none =>
        rw [List.getLast?_eq_none_iff] at ends
        exact outside (ends ▸ Nat.zero_le _)
    | some char =>
        obtain ⟨front, rfl⟩ := List.getLast?_eq_some_iff.1 ends
        cases between.above char ends
        have size : Text.byteLength (front ++ ['\n']) = Text.byteLength front + 1 :=
          Text.byteLength_append front ['\n']
        refine free ⟨Text.byteLength front, ⟨front, text ++ below, by simp, rfl⟩, ?_⟩
        simp only [Span.Covers] at first outside ⊢
        omega

/-- What begins right behind the newline of a line begins a line. -/
theorem LineAround.start_eq {above : Span} {offset : Nat} (first : LineAround source offset above)
    (next : LineAround source (above.stop + 1) line) : line.start = above.stop + 1 := by
  obtain ⟨before, text, after, whole, -, same, start, stop⟩ := id next
  refine Nat.le_antisymm start (Nat.lt_of_not_le fun inside => ?_)
  have inner : above.stop < Text.byteLength source := by
    rw [← whole, Text.byteLength_append]
    rw [same] at stop
    exact Nat.lt_of_lt_of_le stop (Nat.le_add_right _ _)
  exact next.free (first.charAt_stop inner) ⟨inside, stop⟩

end Lines

/-- The line from which a directive takes its indent. -/
structure IndentLine (source : List Char) (directive : Directive) (origin : Origin)
    (line : Span) : Prop where
  /-- It is the line on which the span begins. -/
  around : LineAround source directive.span.start line
  /-- It is the line of the opening call if no newline stands before the span, and only then. -/
  sameLine : LineAround source origin.opener.span.start line ↔
    '\n' ∉ Text.slice source ⟨origin.opener.span.start, directive.span.start⟩
  /-- A plain directive and a whole line are on the line of their call. -/
  onCall : directive.kind = .plain ∨ directive.kind = .line →
    LineAround source origin.opener.span.start line
  /-- A block begins on the line below its opening call. -/
  belowCall : directive.kind = .block →
    ∃ above, LineAround source origin.opener.span.start above ∧ line.start = above.stop + 1

/-- A line on which a call and the span of its directive begin. -/
theorem indentLine_of_same {source : List Char} {directive : Directive} {origin : Origin}
    {line : Span} (around : LineAround source directive.span.start line)
    (same : LineAround source origin.opener.span.start line)
    (ordered : directive.span.start ≤ origin.opener.span.start)
    (other : directive.kind ≠ .block) : IndentLine source directive origin line where
  around := around
  sameLine := by
    rw [Text.slice, Nat.sub_eq_zero_of_le ordered, Text.upto_zero]
    exact iff_of_true same List.not_mem_nil
  onCall := fun _ => same
  belowCall := fun block => (other block).elim

/-- **Every directive takes its indent from one line.** -/
theorem Justified.exists_indentLine {source : List Char} {directive : Directive} {origin : Origin}
    (justified : Justified source directive origin) (within : directive.span.Within source) :
    ∃ line, IndentLine source directive origin line := by
  have around := lineAround_lineSpan within.starts
  cases justified with
  | plain => exact ⟨_, indentLine_of_same around around (Nat.le_refl _) (by simp)⟩
  | shortcut => exact ⟨_, indentLine_of_same around around (Nat.le_refl _) (by simp)⟩
  | @line opener span here method along =>
      obtain ⟨before, text, after, whole, between, same, first, last⟩ := id along
      have own : LineAround source span.start span :=
        ⟨before, text, after, whole, between, same, Nat.le_refl _, Nat.le_trans first last⟩
      exact ⟨span, indentLine_of_same own along first (by simp)⟩
  | @block opener closer above below span here method there closes behind first last start stop =>
      obtain ⟨-, -, -, -, -, -, -, ends⟩ := id first
      refine ⟨_, around, around.sameLine_iff ?_ here.marker.boundary within.starts, by simp,
        fun _ => ⟨above, first, ?_⟩⟩
      · simp only
        omega
      · simp only [start] at around ⊢
        exact first.start_eq around
  | @region opener closer after before span here method there closes behind skipsAfter skipsBefore
      start stop =>
      refine ⟨_, around, around.sameLine_iff ?_ here.marker.boundary within.starts, by simp,
        by simp⟩
      have := here.bounds.1
      simp only
      omega

/-- Without an argument, `indent` puts some blanks in front of all lines of a text but the
first and the empty ones. -/
def IndentsBy (source : List Char) (directive : Directive) (blanks : List Char) : Prop :=
  ∀ (m : Type → Type) [Monad m] (target includer : Target) (body : String),
    (Transform.indent (m := m)).apply ⟨directive, source, target, includer⟩ (.text body) [] =
      pure (.ok (.text (String.ofList (List.intercalate ['\n']
        (Indent.lines blanks (body.toList.splitOn '\n'))))))

theorem indentsBy_ofLine (source : List Char) (directive : Directive) :
    IndentsBy source directive (Indent.ofLine source directive.span.start) := by
  intro m _ target includer body
  rw [← Indent.apply_eq_intercalate]
  rfl

/-- There is one indent for a directive. -/
theorem IndentsBy.unique {source : List Char} {directive : Directive} {blanks others : List Char}
    (one : IndentsBy source directive blanks) (other : IndentsBy source directive others) :
    blanks = others := by
  have indented (indent : List Char) : List.intercalate ['\n']
      (Indent.lines indent ("\nx".toList.splitOn '\n')) = '\n' :: (indent ++ ['x']) := by
    rw [← Indent.apply_eq_intercalate]
    simp [Indent.apply]
  have same := (one Id ⟨"", []⟩ ⟨"", []⟩ "\nx").symm.trans (other Id ⟨"", []⟩ ⟨"", []⟩ "\nx")
  rw [indented, indented] at same
  have texts := String.ofList_injective (Content.text.inj (Except.ok.inj same))
  exact List.append_cancel_right (List.cons.inj texts).2

/-- Without an argument, `indent` works for a directive by the leading blanks of its line. -/
def AutoIndents (source : List Char) (directive : Directive) (origin : Origin) : Prop :=
  ∃ line blanks, IndentLine source directive origin line ∧
    Indent.IsIndent (Text.slice source line) blanks ∧ IndentsBy source directive blanks

/-- **Every directive of a text is indented by the line on which its span begins**, which is
the line of its call for a plain directive and for a whole line, the line below it for a block,
and for a region the line of the call exactly if no newline stands before the span. -/
theorem Token.ofText_indents {source : String} {tokens : List Token}
    (result : Token.ofText source = .ok tokens) :
    ∃ origins : List Origin,
      List.Forall₂ (Justified source.toList) (Token.directives tokens) origins ∧
        List.Forall₂ (AutoIndents source.toList) (Token.directives tokens) origins := by
  have cutting := cutting_of_ofText result
  obtain ⟨origins, traced⟩ := cutting.exists_traced
  have within := (List.forall₂_and_left _ _).2 ⟨cutting.directive_within, traced.justified⟩
  refine ⟨origins, traced.justified, within.imp ?_⟩
  rintro directive origin ⟨inside, justified⟩
  obtain ⟨line, taken⟩ := justified.exists_indentLine inside
  exact ⟨line, _, taken, Indent.ofLine_isIndent taken.around, indentsBy_ofLine _ directive⟩

/-- A text with a directive of every form, all of them on indented lines. -/
theorem Token.ofText_indents_mixed :
    ∃ origins : List Origin,
      List.Forall₂
        (AutoIndents ("  a $inline('p')\n\t// $inline.line('q')\n $inline.start('r')\n   b\n" ++
          " $inline.end\n\t$inline.open('s',1) c$inline.close").toList)
        [⟨.plain, [.text "p"], ⟨4, 16⟩⟩, ⟨.line, [.text "q"], ⟨17, 38⟩⟩,
          ⟨.block, [.text "r"], ⟨59, 63⟩⟩,
          ⟨.region, [.text "s", .number ⟨0x3FF0000000000000⟩], ⟨98, 99⟩⟩] origins := by
  have result : Token.ofText
      ("  a $inline('p')\n\t// $inline.line('q')\n $inline.start('r')\n   b\n" ++
        " $inline.end\n\t$inline.open('s',1) c$inline.close") = .ok
      [.text "  a ", .directive ⟨.plain, [.text "p"], ⟨4, 16⟩⟩, .text "\n",
        .directive ⟨.line, [.text "q"], ⟨17, 38⟩⟩, .text "\n $inline.start('r')\n",
        .directive ⟨.block, [.text "r"], ⟨59, 63⟩⟩,
        .text "\n $inline.end\n\t$inline.open('s',1) ",
        .directive ⟨.region, [.text "s", .number ⟨0x3FF0000000000000⟩], ⟨98, 99⟩⟩,
        .text "$inline.close"] := by decide +kernel
  obtain ⟨origins, -, indents⟩ := Token.ofText_indents result
  exact ⟨origins, indents⟩

/-- A block and a region that are opened on lines without an indent, and take one from the line
below. -/
theorem Token.ofText_stray_indents :
    (Token.ofText "$inline.start('a')\n  x\n$inline.end" =
        .ok [.text "$inline.start('a')\n",
          .directive ⟨.block, [.text "a"], ⟨19, 22⟩⟩, .text "\n$inline.end"] ∧
      LineAround "$inline.start('a')\n  x\n$inline.end".toList 0 ⟨0, 18⟩ ∧
      Indent.IsIndent (Text.slice "$inline.start('a')\n  x\n$inline.end".toList ⟨0, 18⟩) [] ∧
      ¬ IndentsBy "$inline.start('a')\n  x\n$inline.end".toList
        ⟨.block, [.text "a"], ⟨19, 22⟩⟩ []) ∧
    Token.ofText "$inline.open('a',1)\n  x$inline.close" =
        .ok [.text "$inline.open('a',1)\n",
          .directive ⟨.region, [.text "a", .number ⟨0x3FF0000000000000⟩], ⟨20, 23⟩⟩,
          .text "$inline.close"] ∧
      LineAround "$inline.open('a',1)\n  x$inline.close".toList 0 ⟨0, 19⟩ ∧
      Indent.IsIndent (Text.slice "$inline.open('a',1)\n  x$inline.close".toList ⟨0, 19⟩) [] ∧
      ¬ IndentsBy "$inline.open('a',1)\n  x$inline.close".toList
        ⟨.region, [.text "a", .number ⟨0x3FF0000000000000⟩], ⟨20, 23⟩⟩ [] := by
  have line (source : String) (stop : Nat) (found : Text.lineSpan source.toList 0 = ⟨0, stop⟩) :
      LineAround source.toList 0 ⟨0, stop⟩ := by
    rw [← found]
    exact lineAround_lineSpan (congrArg Text.byteLength (Text.upto_zero _))
  have plain (source : String) (stop : Nat) (found : Text.lineSpan source.toList 0 = ⟨0, stop⟩)
      (none : Indent.ofLine source.toList 0 = []) :
      Indent.IsIndent (Text.slice source.toList ⟨0, stop⟩) [] :=
    none ▸ Indent.ofLine_isIndent (line source stop found)
  have stray (source : String) (directive : Directive)
      (some : Indent.ofLine source.toList directive.span.start = [' ', ' ']) :
      ¬ IndentsBy source.toList directive [] := by
    intro without
    cases some.symm.trans ((indentsBy_ofLine _ directive).unique without)
  exact ⟨⟨by decide +kernel, line _ _ (by decide +kernel),
      plain _ _ (by decide +kernel) (by decide +kernel), stray _ _ (by decide +kernel)⟩,
    by decide +kernel, line _ _ (by decide +kernel),
    plain _ _ (by decide +kernel) (by decide +kernel), stray _ _ (by decide +kernel)⟩

end Transclusion
