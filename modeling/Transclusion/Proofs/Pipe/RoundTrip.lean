import Transclusion.Proofs.Pipe.Escaping

/-!
# Writing and reading a chain

A chain that is written and read again is the same chain exactly if its pieces
allow it. The pieces are its names and arguments in the order in which they are
written. Each of them is trimmed, each but the last is settled, since a delimiter
stands behind it, and the last is not empty, since nothing is read at the end of
a text (`Stable`).

Reading follows the written text piece by piece. A settled piece comes back, and
reading goes on behind its delimiter; any other piece comes back changed, and
then it does not matter what is read behind it. Each step is therefore an
equivalence (`readArgs_comma_iff`, `readSegments_written_bar_iff`), and so is the result
(`parse_render_eq_iff`).
-/

set_option autoImplicit false

namespace Transclusion

/-- The name and the arguments of a segment, in the order in which they are written. -/
def Segment.pieces (segment : Segment) : List String := segment.name :: segment.args

namespace Pipe

/-! ## Written texts -/

/-- Arguments as they are written. -/
def writtenArgs (args : List String) : List Char :=
  (String.intercalate "," (args.map escapeValue)).toList

theorem writtenArgs_singleton (value : String) :
    writtenArgs [value] = escape valueDelimiters value.toList :=
  String.toList_ofList

theorem writtenArgs_cons_cons (value next : String) (rest : List String) :
    writtenArgs (value :: next :: rest) =
      escape valueDelimiters value.toList ++ ',' :: writtenArgs (next :: rest) := by
  simp [writtenArgs, escapeValue, String.intercalate_cons_cons]

theorem toList_renderSegment_name (name : String) :
    (renderSegment ⟨name, []⟩).toList = escape nameDelimiters name.toList :=
  String.toList_ofList

theorem toList_renderSegment_args (name value : String) (rest : List String) :
    (renderSegment ⟨name, value :: rest⟩).toList =
      escape nameDelimiters name.toList ++ ':' :: writtenArgs (value :: rest) := by
  simp [renderSegment, writtenArgs, escapeName]

theorem render_singleton (segment : Segment) : render [segment] = renderSegment segment := rfl

theorem toList_render_cons_cons (segment next : Segment) (rest : List Segment) :
    (render (segment :: next :: rest)).toList =
      (renderSegment segment).toList ++ '|' :: (render (next :: rest)).toList := by
  simp [render, String.intercalate_cons_cons]

/-! ## Stable pieces -/

/-- Pieces that come back when they are written one behind the other up to the end
of a text. -/
structure Stable (pieces : List String) : Prop where
  settled : ∀ piece ∈ pieces.dropLast, Settled piece
  trimmed : ∀ piece ∈ pieces.getLast?, Text.Trimmed piece.toList
  nonempty : pieces.getLast? ≠ some ""

theorem stable_singleton {last : String} :
    Stable [last] ↔ Text.Trimmed last.toList ∧ last ≠ "" := by
  constructor
  · intro stable
    exact ⟨stable.trimmed last rfl, fun empty => stable.nonempty (congrArg some empty)⟩
  · rintro ⟨trimmed, nonempty⟩
    refine ⟨by simp, ?_, fun empty => nonempty (Option.some.inj empty)⟩
    intro piece member
    cases member
    exact trimmed

/-- Only the last of several pieces need not be settled. -/
theorem stable_append {front back : List String} (nonempty : back ≠ []) :
    Stable (front ++ back) ↔ (∀ piece ∈ front, Settled piece) ∧ Stable back := by
  have init : (front ++ back).dropLast = front ++ back.dropLast :=
    List.dropLast_append_of_ne_nil nonempty
  have last : (front ++ back).getLast? = back.getLast? :=
    List.getLast?_append_of_ne_nil front nonempty
  constructor
  · rintro ⟨settled, trimmed, filled⟩
    rw [init, List.forall_mem_append] at settled
    rw [last] at trimmed filled
    exact ⟨settled.1, settled.2, trimmed, filled⟩
  · rintro ⟨ahead, settled, trimmed, filled⟩
    refine ⟨?_, last ▸ trimmed, last ▸ filled⟩
    rw [init, List.forall_mem_append]
    exact ⟨ahead, settled⟩

theorem stable_cons_cons {piece next : String} {rest : List String} :
    Stable (piece :: next :: rest) ↔ Settled piece ∧ Stable (next :: rest) := by
  rw [← List.singleton_append, stable_append (List.cons_ne_nil next rest),
    List.forall_mem_singleton]

/-- Stability, piece by piece. -/
theorem stable_iff {pieces : List String} :
    Stable pieces ↔
      (∀ piece ∈ pieces, Text.trim piece.toList = piece.toList) ∧
        (∀ piece ∈ pieces.dropLast, piece.toList.getLast? ≠ some '\\') ∧
        pieces.getLast? ≠ some "" := by
  simp only [Text.trim_eq_self_iff]
  constructor
  · rintro ⟨settled, trimmed, filled⟩
    refine ⟨fun piece member => ?_, fun piece member => (settled piece member).noBackslash, filled⟩
    rcases List.eq_nil_or_concat pieces with rfl | ⟨front, last, rfl⟩
    · cases member
    · rw [List.concat_eq_append] at settled trimmed member
      rcases List.mem_append.1 member with inside | atEnd
      · exact (settled piece (by simpa using inside)).trimmed
      · exact trimmed piece (by simp_all)
  · rintro ⟨trimmed, noBackslash, filled⟩
    refine ⟨fun piece member => ?_, fun piece member => ?_, filled⟩
    · exact ⟨trimmed piece (List.dropLast_subset pieces member), noBackslash piece member⟩
    · exact trimmed piece (List.mem_of_getLast? member)

/-! ## Reading arguments -/

theorem ne_nil_of_cut {delimiters input part rest : List Char} {delimiter : Char}
    (result : cut delimiters input = (part, some (delimiter, rest))) : input ≠ [] := by
  rintro rfl
  cases result

theorem readArgs_of_cut_none {input part : List Char} (nonempty : input ≠ [])
    (result : cut valueDelimiters input = (part, none)) :
    readArgs input = ([piece valueDelimiters part], []) := by
  rw [readArgs, if_neg nonempty]
  split <;> simp_all

theorem readArgs_of_cut_bar {input part rest : List Char}
    (result : cut valueDelimiters input = (part, some ('|', rest))) :
    readArgs input = ([piece valueDelimiters part], rest) := by
  rw [readArgs, if_neg (ne_nil_of_cut result)]
  split <;> simp_all

theorem readArgs_of_cut_comma {input part rest : List Char}
    (result : cut valueDelimiters input = (part, some (',', rest))) :
    readArgs input = (piece valueDelimiters part :: (readArgs rest).1, (readArgs rest).2) := by
  rw [readArgs, if_neg (ne_nil_of_cut result)]
  split <;> simp_all

/-- The first argument is read from the part before the first delimiter. -/
theorem head?_readArgs (input : List Char) (nonempty : input ≠ []) :
    (readArgs input).1.head? = some (piece valueDelimiters (cut valueDelimiters input).1) := by
  rw [readArgs, if_neg nonempty]
  split
  · simp_all
  · split <;> simp_all

/-- An argument that comes back before a delimiter is settled. -/
theorem settled_of_readArgs {value : String} {others : List String} {delimiter : Char}
    {tail : List Char} (member : delimiter ∈ valueDelimiters)
    (same : (readArgs (escape valueDelimiters value.toList ++ delimiter :: tail)).1 =
      value :: others) : Settled value := by
  have first := head?_readArgs (escape valueDelimiters value.toList ++ delimiter :: tail) (by simp)
  rw [same] at first
  exact (piece_cut_delimiter_iff delimiting_valueDelimiters member).1
    (Option.some.inj first).symm

/-- A settled argument before a comma is read, and the reading goes on behind the comma. -/
theorem readArgs_comma {value : String} (settled : Settled value) (tail : List Char) :
    readArgs (escape valueDelimiters value.toList ++ ',' :: tail) =
      (value :: (readArgs tail).1, (readArgs tail).2) := by
  rw [readArgs_of_cut_comma (cut_escape_delimiter delimiting_valueDelimiters (by decide)
    settled.noBackslash), piece_escape delimiting_valueDelimiters settled.trimmed]

/-- A settled argument before a bar is the last one, and the bar is passed over. -/
theorem readArgs_bar {value : String} (settled : Settled value) (tail : List Char) :
    readArgs (escape valueDelimiters value.toList ++ '|' :: tail) = ([value], tail) := by
  rw [readArgs_of_cut_bar (cut_escape_delimiter delimiting_valueDelimiters (by decide)
    settled.noBackslash), piece_escape delimiting_valueDelimiters settled.trimmed]

/-- An argument before a comma comes back exactly if it is settled, and the others
exactly if they come back from what stands behind the comma. -/
theorem readArgs_comma_iff {value : String} {others : List String} {tail : List Char} :
    (readArgs (escape valueDelimiters value.toList ++ ',' :: tail)).1 = value :: others ↔
      Settled value ∧ (readArgs tail).1 = others := by
  constructor
  · intro same
    have settled := settled_of_readArgs (by decide) same
    rw [readArgs_comma settled] at same
    exact ⟨settled, (List.cons.inj same).2⟩
  · rintro ⟨settled, rfl⟩
    rw [readArgs_comma settled]

/-- **Arguments before a bar come back exactly if all of them are settled.** -/
theorem readArgs_written_bar_iff (value : String) (rest : List String) (tail : List Char) :
    (readArgs (writtenArgs (value :: rest) ++ '|' :: tail)).1 = value :: rest ↔
      ∀ piece ∈ value :: rest, Settled piece := by
  induction rest generalizing value with
  | nil =>
      rw [writtenArgs_singleton, List.forall_mem_singleton]
      exact ⟨settled_of_readArgs (by decide), fun settled => by rw [readArgs_bar settled]⟩
  | cons next rest ih =>
      rw [writtenArgs_cons_cons, List.append_assoc, List.cons_append, readArgs_comma_iff, ih next]
      exact List.forall_mem_cons.symm

/-- Settled arguments before a bar are passed over together with the bar. -/
theorem readArgs_written_bar {value : String} {rest : List String} (tail : List Char)
    (settled : ∀ piece ∈ value :: rest, Settled piece) :
    (readArgs (writtenArgs (value :: rest) ++ '|' :: tail)).2 = tail := by
  induction rest generalizing value with
  | nil => rw [writtenArgs_singleton, readArgs_bar (List.forall_mem_singleton.1 settled)]
  | cons next rest ih =>
      obtain ⟨first, others⟩ := List.forall_mem_cons.1 settled
      rw [writtenArgs_cons_cons, List.append_assoc, List.cons_append, readArgs_comma first]
      exact ih others

/-- An argument at the end of a text comes back exactly if it is trimmed and not empty. -/
theorem readArgs_end_iff {value : String} :
    (readArgs (escape valueDelimiters value.toList)).1 = [value] ↔ Stable [value] := by
  rw [stable_singleton]
  by_cases empty : value = ""
  · subst empty
    refine iff_of_false ?_ fun stable => stable.2 rfl
    rw [String.toList_empty, escape, List.flatMap_nil, readArgs, if_pos rfl]
    exact (List.cons_ne_nil _ _).symm
  · rw [readArgs_of_cut_none (escape_toList_ne_nil empty)
      (cut_escape delimiting_valueDelimiters value.toList), List.singleton_inj, and_iff_left empty]
    exact piece_escape_iff delimiting_valueDelimiters

/-- **Arguments at the end of a text come back exactly if they are stable.** -/
theorem readArgs_written_end_iff (value : String) (rest : List String) :
    (readArgs (writtenArgs (value :: rest))).1 = value :: rest ↔ Stable (value :: rest) := by
  induction rest generalizing value with
  | nil =>
      rw [writtenArgs_singleton]
      exact readArgs_end_iff
  | cons next rest ih =>
      rw [writtenArgs_cons_cons, readArgs_comma_iff, ih next]
      exact stable_cons_cons.symm

/-- Behind stable arguments at the end of a text nothing is left. -/
theorem readArgs_written_end {value : String} {rest : List String}
    (stable : Stable (value :: rest)) : (readArgs (writtenArgs (value :: rest))).2 = [] := by
  induction rest generalizing value with
  | nil =>
      obtain ⟨-, filled⟩ := stable_singleton.1 stable
      rw [writtenArgs_singleton, readArgs_of_cut_none (escape_toList_ne_nil filled)
        (cut_escape delimiting_valueDelimiters value.toList)]
  | cons next rest ih =>
      obtain ⟨settled, others⟩ := stable_cons_cons.1 stable
      rw [writtenArgs_cons_cons, readArgs_comma settled]
      exact ih others

/-! ## Reading segments -/

theorem readSegments_nil : readSegments [] = [] := by
  rw [readSegments, if_pos rfl]

theorem readSegments_of_cut_none {input part : List Char} (nonempty : input ≠ [])
    (result : cut nameDelimiters input = (part, none)) :
    readSegments input = [⟨piece nameDelimiters part, []⟩] := by
  rw [readSegments, if_neg nonempty]
  split <;> simp_all

theorem readSegments_of_cut_colon {input part rest : List Char}
    (result : cut nameDelimiters input = (part, some (':', rest))) :
    readSegments input =
      ⟨piece nameDelimiters part, (readArgs rest).1⟩ :: readSegments (readArgs rest).2 := by
  rw [readSegments, if_neg (ne_nil_of_cut result)]
  split <;> simp_all

theorem readSegments_of_cut_bar {input part rest : List Char}
    (result : cut nameDelimiters input = (part, some ('|', rest))) :
    readSegments input = ⟨piece nameDelimiters part, []⟩ :: readSegments rest := by
  rw [readSegments, if_neg (ne_nil_of_cut result)]
  split <;> simp_all

/-- The first name is read from the part before the first delimiter. -/
theorem head?_readSegments (input : List Char) (nonempty : input ≠ []) :
    (readSegments input).head?.map Segment.name =
      some (piece nameDelimiters (cut nameDelimiters input).1) := by
  rw [readSegments, if_neg nonempty]
  split
  · simp_all
  · split <;> simp_all

/-- A name that comes back before a delimiter is settled. -/
theorem settled_of_readSegments {name : String} {args : List String} {others : List Segment}
    {delimiter : Char} {tail : List Char} (member : delimiter ∈ nameDelimiters)
    (same : readSegments (escape nameDelimiters name.toList ++ delimiter :: tail) =
      ⟨name, args⟩ :: others) : Settled name := by
  have first := head?_readSegments
    (escape nameDelimiters name.toList ++ delimiter :: tail) (by simp)
  rw [same] at first
  exact (piece_cut_delimiter_iff delimiting_nameDelimiters member).1
    (Option.some.inj first).symm

/-- A settled name before a colon is read, and its arguments behind the colon. -/
theorem readSegments_colon {name : String} (settled : Settled name) (tail : List Char) :
    readSegments (escape nameDelimiters name.toList ++ ':' :: tail) =
      ⟨name, (readArgs tail).1⟩ :: readSegments (readArgs tail).2 := by
  rw [readSegments_of_cut_colon (cut_escape_delimiter delimiting_nameDelimiters (by decide)
    settled.noBackslash), piece_escape delimiting_nameDelimiters settled.trimmed]

/-- A settled name before a bar is a segment of its own. -/
theorem readSegments_bar {name : String} (settled : Settled name) (tail : List Char) :
    readSegments (escape nameDelimiters name.toList ++ '|' :: tail) =
      ⟨name, []⟩ :: readSegments tail := by
  rw [readSegments_of_cut_bar (cut_escape_delimiter delimiting_nameDelimiters (by decide)
    settled.noBackslash), piece_escape delimiting_nameDelimiters settled.trimmed]

/-- A segment with arguments comes back exactly if its name is settled, its arguments
come back, and the other segments come back from what stands behind them. -/
theorem readSegments_colon_iff {name : String} {args : List String} {others : List Segment}
    {tail : List Char} :
    readSegments (escape nameDelimiters name.toList ++ ':' :: tail) = ⟨name, args⟩ :: others ↔
      Settled name ∧ (readArgs tail).1 = args ∧ readSegments (readArgs tail).2 = others := by
  constructor
  · intro same
    have settled := settled_of_readSegments (by decide) same
    rw [readSegments_colon settled, List.cons.injEq, Segment.mk.injEq] at same
    exact ⟨settled, same.1.2, same.2⟩
  · rintro ⟨settled, rfl, rfl⟩
    exact readSegments_colon settled tail

/-- **A segment before a bar comes back exactly if all its pieces are settled, and the
other segments exactly if they come back from what stands behind the bar.** -/
theorem readSegments_written_bar_iff (segment : Segment) (others : List Segment)
    (tail : List Char) :
    readSegments ((renderSegment segment).toList ++ '|' :: tail) = segment :: others ↔
      (∀ piece ∈ segment.pieces, Settled piece) ∧ readSegments tail = others := by
  obtain ⟨name, args⟩ := segment
  cases args with
  | nil =>
      rw [toList_renderSegment_name, Segment.pieces, List.forall_mem_singleton]
      constructor
      · intro same
        have settled := settled_of_readSegments (by decide) same
        rw [readSegments_bar settled] at same
        exact ⟨settled, (List.cons.inj same).2⟩
      · rintro ⟨settled, rfl⟩
        exact readSegments_bar settled tail
  | cons value rest =>
      have pieces : (∀ piece ∈ Segment.pieces ⟨name, value :: rest⟩, Settled piece) ↔
          Settled name ∧ ∀ piece ∈ value :: rest, Settled piece := List.forall_mem_cons
      rw [toList_renderSegment_args, List.append_assoc, List.cons_append, readSegments_colon_iff,
        readArgs_written_bar_iff, pieces, and_assoc]
      -- where the arguments end is known only once they are settled
      refine and_congr_right fun _ => and_congr_right fun settled => ?_
      rw [readArgs_written_bar tail settled]

/-- **A segment at the end of a text comes back exactly if its pieces are stable.** -/
theorem readSegments_written_end_iff (segment : Segment) :
    readSegments (renderSegment segment).toList = [segment] ↔ Stable segment.pieces := by
  obtain ⟨name, args⟩ := segment
  cases args with
  | nil =>
      rw [toList_renderSegment_name, Segment.pieces, stable_singleton]
      by_cases empty : name = ""
      · subst empty
        refine iff_of_false ?_ fun stable => stable.2 rfl
        rw [String.toList_empty, escape, List.flatMap_nil, readSegments_nil]
        exact (List.cons_ne_nil _ _).symm
      · rw [readSegments_of_cut_none (escape_toList_ne_nil empty)
          (cut_escape delimiting_nameDelimiters name.toList), List.singleton_inj,
          Segment.mk.injEq, and_iff_left rfl, and_iff_left empty]
        exact piece_escape_iff delimiting_nameDelimiters
  | cons value rest =>
      rw [toList_renderSegment_args, readSegments_colon_iff, readArgs_written_end_iff,
        Segment.pieces, stable_cons_cons]
      refine and_congr_right fun _ => and_iff_left_of_imp fun stable => ?_
      rw [readArgs_written_end stable, readSegments_nil]

/-! ## The round trip -/

/-- A chain that is not empty comes back exactly if its pieces are stable. -/
theorem readSegments_render_cons_iff (segment : Segment) (rest : List Segment) :
    readSegments (render (segment :: rest)).toList = segment :: rest ↔
      Stable ((segment :: rest).flatMap Segment.pieces) := by
  induction rest generalizing segment with
  | nil =>
      rw [render_singleton, List.flatMap_singleton]
      exact readSegments_written_end_iff segment
  | cons next rest ih =>
      have behind : (next :: rest).flatMap Segment.pieces ≠ [] := by
        simp [Segment.pieces]
      have split : (segment :: next :: rest).flatMap Segment.pieces =
          segment.pieces ++ (next :: rest).flatMap Segment.pieces := List.flatMap_cons
      rw [toList_render_cons_cons, readSegments_written_bar_iff, ih next, split,
        stable_append behind]

/-- **A chain is read back from its text exactly if it is empty, or all its names and
arguments are trimmed, none but the last of them ends in a backslash, and the last is
not empty.** -/
theorem parse_render_eq_iff (segments : List Segment) :
    parse (render segments) = segments ↔
      segments = [] ∨
        (∀ piece ∈ segments.flatMap Segment.pieces, Text.trim piece.toList = piece.toList) ∧
          (∀ piece ∈ (segments.flatMap Segment.pieces).dropLast,
            piece.toList.getLast? ≠ some '\\') ∧
          (segments.flatMap Segment.pieces).getLast? ≠ some "" := by
  cases segments with
  | nil => exact iff_of_true readSegments_nil (.inl rfl)
  | cons segment rest =>
      rw [parse, readSegments_render_cons_iff, stable_iff,
        or_iff_right (List.cons_ne_nil segment rest)]

end Pipe

end Transclusion
