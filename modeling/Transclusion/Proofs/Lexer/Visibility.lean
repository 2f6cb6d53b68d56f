import Transclusion.Proofs.Lexer.Marker
import Mathlib.Data.Nat.Find

/-!
# What a search in a body sees

Behind a call that opens a body the lexer looks for the call that closes it. The
search passes a call that it can read as a whole, and one that it cannot read by
its marker, so it does not come upon every marker of the body: a marker that
stands inside a call that was read, in a string or in a comment, is hidden from
it (`Hidden`), and every other one is seen (`seen_iff_not_hidden`).

A body is closed by the first closing call that is not hidden
(`Awaited.closing_iff`), and nothing closes it exactly if every closing call behind
its opening is hidden (`Awaited.closing_error`).
-/

set_option autoImplicit false

namespace Transclusion

/-! ## Markers that are seen and markers that are hidden -/

section Seeing

variable {source : List Char} {start offset : Nat}

theorem Call.add_le_of_readAt {call : Call} {stop : Nat}
    (read : Call.readAt source offset = .ok (call, stop)) :
    offset + Text.byteLength Call.marker ≤ stop := by
  simp only [Call.readAt] at read
  split at read
  · cases read
    exact Nat.le_add_right _ _
  · cases read

theorem byteLength_marker_pos : 0 < Text.byteLength Call.marker := by decide

/-- There is a next marker where there is any. -/
theorem MarkerAt.exists_next (marker : MarkerAt source offset) (behind : start ≤ offset) :
    ∃ next, NextMarker source start next := by
  classical
  have any : ∃ other, MarkerAt source other ∧ start ≤ other := ⟨offset, marker, behind⟩
  refine ⟨Nat.find any, (Nat.find_spec any).1, (Nat.find_spec any).2, ?_⟩
  intro other another later
  exact Nat.find_min' any ⟨another, later⟩

theorem NextMarker.unique {other : Nat} (next : NextMarker source start offset)
    (same : NextMarker source start other) : offset = other :=
  Nat.le_antisymm (next.first other same.marker same.behind)
    (same.first offset next.marker next.behind)

/-- The markers that a search from an offset comes upon. It goes on behind a
call that it can read, and behind the marker of one that it cannot read. -/
inductive Seen (source : List Char) : Nat → Nat → Prop
  | here {start offset : Nat} (next : NextMarker source start offset) : Seen source start offset
  | behindMalformed {start first offset : Nat} {error : SyntaxError}
      (next : NextMarker source start first) (read : Call.readAt source first = .error error)
      (later : Seen source (first + Text.byteLength Call.marker) offset) :
      Seen source start offset
  | behindCall {start first stop offset : Nat} {call : Call}
      (next : NextMarker source start first) (read : Call.readAt source first = .ok (call, stop))
      (later : Seen source stop offset) : Seen source start offset

/-- A marker that stands inside a call which a search from an offset reads. -/
def Hidden (source : List Char) (start offset : Nat) : Prop :=
  ∃ outer call stop, Seen source start outer ∧ Call.readAt source outer = .ok (call, stop) ∧
    outer < offset ∧ offset < stop

namespace Seen

theorem marker (seen : Seen source start offset) : MarkerAt source offset := by
  induction seen with
  | here next => exact next.marker
  | behindMalformed _ _ _ ih => exact ih
  | behindCall _ _ _ ih => exact ih

theorem le (seen : Seen source start offset) : start ≤ offset := by
  induction seen with
  | here next => exact next.behind
  | behindMalformed next _ _ ih =>
      have := next.behind
      omega
  | behindCall next read _ ih =>
      have := next.behind
      have := Call.add_le_of_readAt read
      omega

/-- A marker that is seen stands inside no call that is read. -/
theorem stop_le {outer stop : Nat} {call : Call} (seen : Seen source start offset)
    (other : Seen source start outer) (read : Call.readAt source outer = .ok (call, stop))
    (before : outer < offset) : stop ≤ offset := by
  induction seen with
  | here next =>
      have := next.first outer other.marker other.le
      omega
  | behindMalformed next failed later ih =>
      cases other with
      | here same =>
          rw [next.unique same, read] at failed
          cases failed
      | behindMalformed same _ inner =>
          rw [next.unique same] at ih
          exact ih inner before
      | behindCall same success _ =>
          rw [next.unique same, success] at failed
          cases failed
  | behindCall next success later ih =>
      cases other with
      | here same =>
          rw [next.unique same, read] at success
          cases success
          exact later.le
      | behindMalformed same failed _ =>
          rw [next.unique same, failed] at success
          cases success
      | behindCall same again inner =>
          rw [next.unique same, again] at success
          cases success
          exact ih inner before

end Seen

/-- A marker is seen, or it is hidden. -/
theorem seen_or_hidden (marker : MarkerAt source offset) (behind : start ≤ offset) :
    Seen source start offset ∨ Hidden source start offset := by
  -- the distance to the marker gets smaller with every call that the search passes
  induction distance : offset - start using Nat.strongRecOn generalizing start with
  | _ distance ih =>
      obtain ⟨first, next⟩ := marker.exists_next behind
      have positive := byteLength_marker_pos
      have reached := next.first offset marker behind
      have later := next.behind
      rcases Nat.lt_or_eq_of_le reached with before | rfl
      · cases read : Call.readAt source first with
        | error error =>
            have apart := next.marker.add_le marker before
            rcases ih _ (by omega) apart rfl with seen | ⟨outer, call, stop, seen, within⟩
            · exact .inl (.behindMalformed next read seen)
            · exact .inr ⟨outer, call, stop, .behindMalformed next read seen, within⟩
        | ok result =>
            obtain ⟨call, stop⟩ := result
            have longer := Call.add_le_of_readAt read
            rcases Nat.lt_or_ge offset stop with inside | passed
            · exact .inr ⟨first, call, stop, .here next, read, before, inside⟩
            · rcases ih _ (by omega) passed rfl with seen | ⟨outer, inner, last, seen, within⟩
              · exact .inl (.behindCall next read seen)
              · exact .inr ⟨outer, inner, last, .behindCall next read seen, within⟩
      · exact .inl (.here next)

/-- **Exactly the markers that are not hidden are seen.** -/
theorem seen_iff_not_hidden (marker : MarkerAt source offset) (behind : start ≤ offset) :
    Seen source start offset ↔ ¬ Hidden source start offset := by
  constructor
  · rintro seen ⟨outer, call, stop, other, read, before, inside⟩
    have := seen.stop_le other read before
    omega
  · exact (seen_or_hidden marker behind).resolve_right

end Seeing

/-! ## The search for a closing call -/

/-- A call that closes a body stands at an offset. -/
def Awaited.ClosesAt (awaited : Awaited) (source : List Char) (offset : Nat) : Prop :=
  MarkerAt source offset ∧ ∃ call stop, Call.readAt source offset = .ok (call, stop) ∧
    awaited.closedBy call = true

/-- The first closing call that a search from an offset comes upon. -/
structure Awaited.FirstSeen (awaited : Awaited) (source : List Char) (start offset : Nat) :
    Prop where
  seen : Seen source start offset
  closes : awaited.ClosesAt source offset
  first : ∀ other, Seen source start other → awaited.ClosesAt source other → offset ≤ other

section Closing

variable {source : List Char} {awaited : Awaited} {start first offset : Nat}

/-- A malformed call closes nothing, so a search may as well start behind its marker. -/
theorem seen_iff_of_malformed {error : SyntaxError} (next : NextMarker source start first)
    (failed : Call.readAt source first = .error error) (closes : awaited.ClosesAt source offset) :
    Seen source start offset ↔ Seen source (first + Text.byteLength Call.marker) offset := by
  refine ⟨fun seen => ?_, fun seen => .behindMalformed next failed seen⟩
  cases seen with
  | here same =>
      obtain ⟨-, call, stop, read, -⟩ := closes
      rw [← next.unique same, failed] at read
      cases read
  | behindMalformed same _ later => exact next.unique same ▸ later
  | behindCall same read _ =>
      rw [← next.unique same, failed] at read
      cases read

/-- A search may as well start behind a call that does not close the body. -/
theorem seen_iff_of_call {call : Call} {stop : Nat} (next : NextMarker source start first)
    (read : Call.readAt source first = .ok (call, stop)) (other : awaited.closedBy call = false)
    (closes : awaited.ClosesAt source offset) :
    Seen source start offset ↔ Seen source stop offset := by
  refine ⟨fun seen => ?_, fun seen => .behindCall next read seen⟩
  cases seen with
  | here same =>
      obtain ⟨-, found, _, again, closing⟩ := closes
      rw [← next.unique same, read] at again
      cases again
      rw [other] at closing
      cases closing
  | behindMalformed same failed _ =>
      rw [← next.unique same, read] at failed
      cases failed
  | behindCall same again later =>
      rw [← next.unique same, read] at again
      cases again
      exact later

theorem Awaited.FirstSeen.of_resumed {resumed : Nat}
    (same : ∀ other, awaited.ClosesAt source other →
      (Seen source start other ↔ Seen source resumed other))
    (firstSeen : awaited.FirstSeen source resumed offset) :
    awaited.FirstSeen source start offset where
  seen := (same offset firstSeen.closes).2 firstSeen.seen
  closes := firstSeen.closes
  first := fun other seen closes => firstSeen.first other ((same other closes).1 seen) closes

variable {passed input : List Char} {place : Place}

/-- **The closing call that a search finds is the first one that it sees.** -/
theorem findClosing_some {site : Site} (searched : passed ++ input = source)
    (reached : place = Place.start.past passed)
    (found : awaited.findClosing place input = some site) :
    site.Reads source ∧
      awaited.FirstSeen source (Text.byteLength passed) site.span.start := by
  fun_induction Awaited.findClosing awaited place input generalizing passed with
  | case1 => cases found
  | case2 place input fault behind rest result ih =>
      subst reached
      obtain ⟨skipped, whole, place⟩ := scan_malformed_behind searched result
      obtain ⟨first, error, next, failed, resumed⟩ := scan_malformed_spec searched result
      obtain ⟨reads, firstSeen⟩ := ih whole place found
      rw [place, Place.offset_past, Place.start, Nat.zero_add] at resumed
      rw [resumed] at firstSeen
      exact ⟨reads, firstSeen.of_resumed fun _ => seen_iff_of_malformed next failed⟩
  | case3 place input closing result closes =>
      subst reached
      cases found
      obtain ⟨reads, next⟩ := scan_call_spec searched result
      refine ⟨reads, .here next, ⟨reads.marker, _, _, reads.reads, closes⟩, ?_⟩
      intro other seen _
      exact next.first other seen.marker seen.le
  | case4 place input other result ignored ih =>
      subst reached
      obtain ⟨skipped, stands⟩ := scan_call_stands searched result
      obtain ⟨reads, next⟩ := scan_call_spec searched result
      obtain ⟨closing, firstSeen⟩ := ih stands.behind stands.stop_eq found
      rw [← stands.span_stop] at firstSeen
      refine ⟨closing, firstSeen.of_resumed fun _ => ?_⟩
      exact seen_iff_of_call next reads.reads (Bool.not_eq_true _ ▸ ignored)

/-- **A search that finds no closing call sees none.** -/
theorem findClosing_none (searched : passed ++ input = source)
    (reached : place = Place.start.past passed)
    (result : awaited.findClosing place input = none) (closes : awaited.ClosesAt source offset) :
    ¬ Seen source (Text.byteLength passed) offset := by
  fun_induction Awaited.findClosing awaited place input generalizing passed with
  | case1 place input ends =>
      subst reached
      intro seen
      have := scan_done_spec searched ends seen.marker
      have := seen.le
      omega
  | case2 place input fault behind rest malformed ih =>
      subst reached
      obtain ⟨skipped, whole, place⟩ := scan_malformed_behind searched malformed
      obtain ⟨first, error, next, failed, resumed⟩ := scan_malformed_spec searched malformed
      rw [place, Place.offset_past, Place.start, Nat.zero_add] at resumed
      rw [seen_iff_of_malformed next failed closes, ← resumed]
      exact ih whole place result
  | case3 => cases result
  | case4 place input other called ignored ih =>
      subst reached
      obtain ⟨skipped, stands⟩ := scan_call_stands searched called
      obtain ⟨reads, next⟩ := scan_call_spec searched called
      rw [seen_iff_of_call next reads.reads (Bool.not_eq_true _ ▸ ignored) closes,
        stands.span_stop]
      exact ih stands.behind stands.stop_eq result

end Closing

/-- A call that can end a body which begins at an offset: it closes the body, and it
stands inside no call of the body. -/
structure Awaited.EndsAt (awaited : Awaited) (source : List Char) (start offset : Nat) :
    Prop where
  behind : start ≤ offset
  closes : awaited.ClosesAt source offset
  visible : ¬ Hidden source start offset

theorem Awaited.endsAt_iff_seen {awaited : Awaited} {source : List Char} {start offset : Nat} :
    awaited.EndsAt source start offset ↔
      Seen source start offset ∧ awaited.ClosesAt source offset := by
  constructor
  · rintro ⟨behind, closes, visible⟩
    exact ⟨(seen_iff_not_hidden closes.1 behind).2 visible, closes⟩
  · rintro ⟨seen, closes⟩
    exact ⟨seen.le, closes, (seen_iff_not_hidden closes.1 seen.le).1 seen⟩

namespace Awaited

variable {source before : List Char} {awaited : Awaited} {opener closer : Site} {offset : Nat}

/-- The call that closes a body is read where it stands, and it is the first one that
can end the body. -/
theorem closing_ok (stands : opener.Stands source before)
    (closed : awaited.closing opener = .ok closer) :
    closer.Reads source ∧ awaited.FirstSeen source opener.span.stop closer.span.start := by
  unfold closing at closed
  split at closed
  · next found =>
      cases closed
      rw [stands.span_stop]
      exact findClosing_some stands.behind stands.stop_eq found
  · cases closed

/-- A body that nothing closes has no call that can end it. -/
theorem closing_error {error : SyntaxError} (stands : opener.Stands source before)
    (failed : awaited.closing opener = .error error) :
    error = ⟨awaited.missing, opener.span⟩ ∧
      ∀ offset, ¬ awaited.EndsAt source opener.span.stop offset := by
  unfold closing at failed
  split at failed
  · cases failed
  · next missing =>
      cases failed
      refine ⟨rfl, fun offset ends => ?_⟩
      obtain ⟨seen, closes⟩ := endsAt_iff_seen.1 ends
      rw [stands.span_stop] at seen
      exact findClosing_none stands.behind stands.stop_eq missing closes seen

/-- **A body is closed by the first call that can end it.** -/
theorem closing_iff (stands : opener.Stands source before) :
    (∃ closer, awaited.closing opener = .ok closer ∧ closer.span.start = offset) ↔
      awaited.EndsAt source opener.span.stop offset ∧
        ∀ other, awaited.EndsAt source opener.span.stop other → offset ≤ other := by
  constructor
  · rintro ⟨closer, closed, rfl⟩
    obtain ⟨-, seen, closes, first⟩ := closing_ok stands closed
    refine ⟨endsAt_iff_seen.2 ⟨seen, closes⟩, fun other ends => ?_⟩
    obtain ⟨otherSeen, otherCloses⟩ := endsAt_iff_seen.1 ends
    exact first other otherSeen otherCloses
  · rintro ⟨ends, first⟩
    cases closed : awaited.closing opener with
    | error error => exact absurd ends ((closing_error stands closed).2 offset)
    | ok closer =>
        obtain ⟨-, seen, closes, least⟩ := closing_ok stands closed
        obtain ⟨endSeen, endCloses⟩ := endsAt_iff_seen.1 ends
        refine ⟨closer, rfl, Nat.le_antisymm (least offset endSeen endCloses) ?_⟩
        exact first _ (endsAt_iff_seen.2 ⟨seen, closes⟩)

end Awaited

/-! ## Openings -/

namespace Opening

variable {source passed searched : List Char} {opener last : Site} {found : Option Directive}

/-- The opening call is read behind what has been passed. -/
theorem reads (opening : Opening source passed opener last found searched) :
    opener.Reads source ∧ NextMarker source (Text.byteLength passed) opener.span.start := by
  obtain ⟨input, whole, result⟩ := opening.scanned
  exact scan_call_spec whole result

/-- What has been searched ends with the last call. -/
theorem byteLength_searched (opening : Opening source passed opener last found searched) :
    Text.byteLength searched = last.span.stop := by
  obtain ⟨before, stands, rfl⟩ := opening.ends
  exact stands.span_stop.symm

/-- The last call does not end before the opening call. -/
theorem stop_le (opening : Opening source passed opener last found searched) :
    opener.span.stop ≤ last.span.stop := by
  obtain ⟨skipped, stands⟩ := opening.stands
  have closes (awaited : Awaited) {closer : Site} (closed : awaited.closing opener = .ok closer) :
      opener.span.stop ≤ closer.span.stop :=
    Nat.le_trans (Awaited.closing_ok stands closed).2.seen.le (Nat.le_add_right _ _)
  cases opening.opens with
  | plain | line | shortcut => exact Nat.le_refl _
  | block _ closed _ => exact closes _ closed
  | region _ _ closed _ => exact closes _ closed
  | skip _ closed => exact closes _ closed

/-- An opening takes characters. -/
theorem start_lt (opening : Opening source passed opener last found searched) :
    opener.span.start < Text.byteLength searched := by
  have longer := Call.add_le_of_readAt opening.reads.1.reads
  have positive := byteLength_marker_pos
  have within := opening.stop_le
  rw [opening.byteLength_searched]
  omega

theorem passed_lt (opening : Opening source passed opener last found searched) :
    Text.byteLength passed < Text.byteLength searched :=
  Nat.lt_of_le_of_lt opening.reads.2.behind opening.start_lt

end Opening

end Transclusion
