import Transclusion.Proofs.Lexer.Cutting

/-!
# Markers at offsets

The lexer hands a place and a remainder along; what is said about a text names
byte offsets. This module relates the two. A marker stands at an offset
(`MarkerAt`), markers do not overlap (`MarkerAt.add_le`), and a search comes upon
the first marker that is not before the place it starts from (`NextMarker`):
`scan_call_spec`, `scan_malformed_spec` and `scan_done_spec` say so for its three
results. The call of a site is the one that `Call.readAt` reads at the offset of
its marker, and the lines of a site are the lines around that offset.
-/

set_option autoImplicit false

namespace Transclusion

/-! ## First parts of a text -/

namespace Text

theorem eq_nil_of_byteLength_eq_zero {text : List Char} (empty : byteLength text = 0) :
    text = [] := by
  cases text with
  | nil => rfl
  | cons char rest =>
      have := char.utf8Size_pos
      rw [byteLength_cons] at empty
      omega

/-- Of two first parts of a text, the one that is not longer begins the other. -/
theorem exists_append_of_byteLength_le {short long rest other : List Char}
    (same : short ++ rest = long ++ other) (le : byteLength short ≤ byteLength long) :
    ∃ between, long = short ++ between ∧ rest = between ++ other := by
  rcases List.append_eq_append_iff.1 same with ⟨between, rfl, rfl⟩ | ⟨between, rfl, rfl⟩
  · exact ⟨between, rfl, rfl⟩
  · rw [byteLength_append] at le
    have nothing : between = [] := eq_nil_of_byteLength_eq_zero (by omega)
    subst nothing
    exact ⟨[], by simp, rfl⟩

end Text

/-! ## Markers -/

/-- A marker stands at an offset of a text. -/
structure MarkerAt (source : List Char) (offset : Nat) : Prop where
  boundary : Text.IsBoundary source offset
  starts : startsMarker (Text.onward source offset) = true

theorem markerAt_iff_exists {source : List Char} {offset : Nat} :
    MarkerAt source offset ↔ ∃ before marked, before ++ marked = source ∧
      Text.byteLength before = offset ∧ startsMarker marked = true := by
  constructor
  · rintro ⟨boundary, starts⟩
    exact ⟨_, _, Text.upto_append_onward source offset, boundary, starts⟩
  · rintro ⟨before, marked, rfl, rfl, starts⟩
    refine ⟨Text.isBoundary_byteLength before marked, ?_⟩
    rwa [Text.onward_byteLength]

/-- The first marker of a text that stands at an offset or behind it. -/
structure NextMarker (source : List Char) (start offset : Nat) : Prop where
  marker : MarkerAt source offset
  behind : start ≤ offset
  first : ∀ other, MarkerAt source other → start ≤ other → offset ≤ other

/-! ## The characters of a marker -/

theorem utf8Size_toLower (char : Char) : char.toLower.utf8Size = char.utf8Size := by
  unfold Char.toLower
  split
  · simp only [Char.utf8Size]
    grind
  · rfl

/-- A marker takes as many bytes in any mix of cases. -/
theorem byteLength_take_of_startsWithMarker {expected marked : List Char}
    (starts : startsWithMarker expected marked = true) :
    Text.byteLength (marked.take expected.length) = Text.byteLength expected := by
  fun_induction startsWithMarker expected marked with
  | case1 expected others char rest ih =>
      rw [Bool.and_eq_true, beq_iff_eq] at starts
      obtain ⟨same, others⟩ := starts
      rw [List.length_cons, List.take_succ_cons, Text.byteLength_cons, Text.byteLength_cons,
        ih others, ← same, utf8Size_toLower]
  | case2 => rfl
  | case3 => cases starts

/-- The character behind some characters of a marker is the expected one. -/
theorem head?_of_startsWithMarker {expected skipped rest : List Char} {char : Char}
    (starts : startsWithMarker expected (skipped ++ rest) = true)
    (within : expected[skipped.length]? = some char) :
    rest.head?.map Char.toLower = some char := by
  induction skipped generalizing expected with
  | nil =>
      cases expected with
      | nil => cases within
      | cons first others =>
          cases rest with
          | nil => cases starts
          | cons head tail =>
              rw [List.nil_append, startsWithMarker, Bool.and_eq_true, beq_iff_eq] at starts
              rw [← within]
              exact congrArg some starts.1
  | cons head tail ih =>
      cases expected with
      | nil => cases within
      | cons first others =>
          rw [List.cons_append, startsWithMarker, Bool.and_eq_true] at starts
          exact ih starts.2 within

theorem Text.length_le_byteLength (text : List Char) : text.length ≤ byteLength text := by
  induction text with
  | nil => exact Nat.le_refl 0
  | cons char rest ih =>
      have := char.utf8Size_pos
      rw [List.length_cons, byteLength_cons]
      omega

/-- **Markers do not overlap.** -/
theorem MarkerAt.add_le {source : List Char} {earlier later : Nat}
    (first : MarkerAt source earlier) (second : MarkerAt source later) (before : earlier < later) :
    earlier + Text.byteLength Call.marker ≤ later := by
  obtain ⟨front, marked, rfl, rfl, starts⟩ := markerAt_iff_exists.1 first
  obtain ⟨long, rest, whole, rfl, again⟩ := markerAt_iff_exists.1 second
  obtain ⟨between, rfl, rfl⟩ :=
    Text.exists_append_of_byteLength_le whole.symm (Nat.le_of_lt before)
  rw [Text.byteLength_append] at before ⊢
  refine Nat.le_of_not_lt fun overlap => ?_
  have size : Text.byteLength Call.marker = 7 := by decide
  have short := Text.length_le_byteLength between
  have positive : between.length ≠ 0 := by
    intro empty
    rw [List.length_eq_zero_iff] at empty
    rw [empty, Text.byteLength_nil] at before
    omega
  have inside : between.length < Call.marker.length := by
    have : Call.marker.length = 7 := rfl
    omega
  have expected := head?_of_startsWithMarker starts (List.getElem?_eq_getElem inside)
  have dollar : rest.head?.map Char.toLower = some '$' :=
    head?_of_startsWithMarker (List.nil_append rest ▸ again) rfl
  -- only the first character of a marker is a dollar sign
  have letters : ∀ index, (inside : index < Call.marker.length) → index ≠ 0 →
      Call.marker.get ⟨index, inside⟩ ≠ '$' := by decide
  exact letters between.length inside positive (Option.some.inj (expected.symm.trans dollar))

/-! ## Searching -/

/-- A search comes upon the first marker. -/
theorem findMarker_first {place found : Place} {input marked front rest : List Char}
    (result : findMarker place input = some (found, marked)) (whole : front ++ rest = input)
    (starts : startsMarker rest = true) : rest.length ≤ marked.length := by
  fun_induction findMarker place input generalizing front with
  | case1 => cases result
  | case2 place char tail =>
      cases result
      rw [← whole, List.length_append]
      omega
  | case3 place char tail bare ih =>
      cases front with
      | nil =>
          rw [List.nil_append] at whole
          rw [whole] at starts
          exact absurd starts bare
      | cons head front =>
          rw [List.cons_append, List.cons.injEq] at whole
          exact ih result whole.2

/-- A search that comes upon nothing has passed no marker. -/
theorem findMarker_none {place : Place} {input front rest : List Char}
    (result : findMarker place input = none) (whole : front ++ rest = input) :
    startsMarker rest = false := by
  fun_induction findMarker place input generalizing front with
  | case1 =>
      rw [(List.append_eq_nil_iff.1 whole).2]
      rfl
  | case2 => cases result
  | case3 place char tail bare ih =>
      cases front with
      | nil =>
          rw [List.nil_append] at whole
          rw [whole]
          exact Bool.not_eq_true _ ▸ bare
      | cons head front =>
          rw [List.cons_append, List.cons.injEq] at whole
          exact ih result whole.2

/-- What stands behind a marker. -/
theorem onward_marker {before marked : List Char} (starts : startsMarker marked = true) :
    Text.onward (before ++ marked) (Text.byteLength before + Text.byteLength Call.marker) =
      marked.drop Call.marker.length := by
  have parts := Text.onward_byteLength (before ++ marked.take Call.marker.length)
    (marked.drop Call.marker.length)
  rwa [List.append_assoc, List.take_append_drop, Text.byteLength_append,
    byteLength_take_of_startsWithMarker starts] at parts

theorem Call.readAt_append_ok (before : List Char) {marked : List Char} {reading : Reading Call}
    (starts : startsMarker marked = true)
    (success : Call.read (marked.drop Call.marker.length) = .ok reading) :
    Call.readAt (before ++ marked) (Text.byteLength before) = .ok (reading.value,
      Text.byteLength before +
        Text.byteLength (marked.take Call.marker.length ++ reading.taken)) := by
  simp only [Call.readAt, onward_marker starts, success, Text.byteLength_append,
    byteLength_take_of_startsWithMarker starts, Nat.add_assoc]

theorem Call.readAt_append_error (before : List Char) {marked : List Char} {fault : Fault}
    (starts : startsMarker marked = true)
    (failure : Call.read (marked.drop Call.marker.length) = .error fault) :
    ∃ error, Call.readAt (before ++ marked) (Text.byteLength before) = .error error := by
  simp only [Call.readAt, onward_marker starts, failure]
  exact ⟨_, rfl⟩

/-- The call of a site is read at the offset of its marker. -/
structure Site.Reads (source : List Char) (site : Site) : Prop where
  marker : MarkerAt source site.span.start
  reads : Call.readAt source site.span.start = .ok (site.call, site.span.stop)

section Searching

variable {source passed input : List Char}

/-- A marker behind what has been passed stands in what has not. -/
theorem MarkerAt.exists_behind {offset : Nat} (marker : MarkerAt source offset)
    (searched : passed ++ input = source) (behind : Text.byteLength passed ≤ offset) :
    ∃ skipped marked, skipped ++ marked = input ∧
      Text.byteLength (passed ++ skipped) = offset ∧ startsMarker marked = true := by
  obtain ⟨before, marked, whole, rfl, starts⟩ := markerAt_iff_exists.1 marker
  obtain ⟨skipped, rfl, rest⟩ :=
    Text.exists_append_of_byteLength_le (searched.trans whole.symm) behind
  exact ⟨skipped, marked, rest.symm, rfl, starts⟩

/-- The marker that a search comes upon is the next one. -/
theorem nextMarker_of_findMarker {place : Place} {marked : List Char}
    (searched : passed ++ input = source)
    (result : findMarker (Place.start.past passed) input = some (place, marked)) :
    ∃ skipped, passed ++ skipped ++ marked = source ∧
      place = Place.start.past (passed ++ skipped) ∧ startsMarker marked = true ∧
      NextMarker source (Text.byteLength passed) (Text.byteLength (passed ++ skipped)) := by
  obtain ⟨skipped, rest, reached, starts⟩ := findMarker_eq_some result
  have whole : passed ++ skipped ++ marked = source := by
    rw [List.append_assoc, rest]
    exact searched
  refine ⟨skipped, whole, ?_, starts, ?_, ?_, ?_⟩
  · rw [Place.past_append]
    exact reached.symm
  · exact markerAt_iff_exists.2 ⟨_, _, whole, rfl, starts⟩
  · rw [Text.byteLength_append]
    exact Nat.le_add_right _ _
  · intro other marker behind
    obtain ⟨front, later, parts, rfl, again⟩ := marker.exists_behind searched behind
    have shorter := findMarker_first result parts again
    -- what is left at the other marker is the end of what is left at the found one
    rcases List.append_eq_append_iff.1 (rest.trans parts.symm) with
      ⟨between, rfl, -⟩ | ⟨between, rfl, rfl⟩
    · rw [← List.append_assoc, Text.byteLength_append (passed ++ skipped)]
      exact Nat.le_add_right _ _
    · rw [List.length_append] at shorter
      have nothing : between = [] := List.length_eq_zero_iff.1 (by omega)
      exact Nat.le_of_eq (by rw [nothing, List.append_nil])

/-- **A call that a search comes upon is read at the next marker.** -/
theorem scan_call_spec {site : Site} (searched : passed ++ input = source)
    (result : scan (Place.start.past passed) input = .call site) :
    site.Reads source ∧ NextMarker source (Text.byteLength passed) site.span.start := by
  unfold scan at result
  split at result
  · cases result
  · next found marked search =>
      obtain ⟨skipped, whole, place, starts, next⟩ := nextMarker_of_findMarker searched search
      simp only at result
      split at result
      · cases result
      · next reading success =>
          simp only [Scan.call.injEq] at result
          subst result
          have start : found.offset = Text.byteLength (passed ++ skipped) := by
            rw [place, Place.offset_past]
            exact Nat.zero_add _
          have read := Call.readAt_append_ok (passed ++ skipped) starts success
          rw [whole] at read
          rw [← start] at read next
          exact ⟨⟨next.marker, read⟩, next⟩

/-- **A malformed call that a search comes upon stands at the next marker, and the
search goes on behind that marker.** -/
theorem scan_malformed_spec {fault : Fault} {place : Place} {rest : List Char}
    (searched : passed ++ input = source)
    (result : scan (Place.start.past passed) input = .malformed fault place rest) :
    ∃ offset error, NextMarker source (Text.byteLength passed) offset ∧
      Call.readAt source offset = .error error ∧
      place.offset = offset + Text.byteLength Call.marker := by
  unfold scan at result
  split at result
  · cases result
  · next found marked search =>
      obtain ⟨skipped, whole, start, starts, next⟩ := nextMarker_of_findMarker searched search
      simp only at result
      split at result
      · next failure =>
          cases result
          obtain ⟨error, read⟩ := Call.readAt_append_error (passed ++ skipped) starts failure
          rw [whole] at read
          refine ⟨_, error, next, read, ?_⟩
          rw [start, Place.offset_past, Place.offset_past,
            byteLength_take_of_startsWithMarker starts]
          exact congrArg (· + _) (Nat.zero_add _)
      · cases result

/-- **A search that comes upon nothing has no marker left.** -/
theorem scan_done_spec {offset : Nat} (searched : passed ++ input = source)
    (result : scan (Place.start.past passed) input = .done) (marker : MarkerAt source offset) :
    offset < Text.byteLength passed := by
  unfold scan at result
  split at result
  · next search =>
      refine Nat.lt_of_not_le fun behind => ?_
      obtain ⟨skipped, marked, parts, -, starts⟩ := marker.exists_behind searched behind
      rw [findMarker_none search parts] at starts
      cases starts
  · simp only at result
    split at result <;> cases result

end Searching

/-! ## Lines -/

namespace Site.Stands

variable {source before : List Char} {site : Site}

theorem span_start (stands : site.Stands source before) :
    site.span.start = Text.byteLength before := by
  rw [Site.span, stands.place_eq, Place.offset_past]
  exact Nat.zero_add _

theorem span_stop (stands : site.Stands source before) :
    site.span.stop = Text.byteLength (before ++ site.text) := by
  rw [Text.byteLength_append, ← stands.span_start]
  rfl

/-- The line of a site begins where the line around its marker does. -/
theorem lineStart_eq (stands : site.Stands source before) :
    site.place.lineStart = Text.lineStart source site.span.start := by
  rw [stands.span_start, stands.place_eq, ← stands.whole]
  exact Place.lineStart_past_start before (site.text ++ site.rest)

/-- The line of a site ends where the line around its marker does. -/
theorem lineStop_eq (stands : site.Stands source before) :
    site.lineStop = Text.lineStop source site.span.start := by
  have start := stands.span_start
  rw [Text.lineStop, start, ← stands.whole, Text.upto_byteLength, Text.onward_byteLength, ← start]
  rfl

end Site.Stands

end Transclusion
