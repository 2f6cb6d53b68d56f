import Transclusion.Proofs.Lexer.Bodies
import Transclusion.Proofs.Lexer.Origins

/-!
# No marker is passed over in silence

A text that is cut into tokens without error may hold markers that no token goes
back to, and each of them has a reason (`Passed`): it opens a skipped region, it
stands inside a call that was read, in a string or in a comment, or it stands in a
body. Every other marker is where the call of a directive begins, and there is one
directive for it (`Token.ofText_markers`).

Markers are taken here as they stand among the bytes of a text (`MarkerBytesAt`).
A byte of ASCII is always a whole character, so these are markers among the
characters too (`markerAt_of_markerBytesAt`).

The argument follows the run of the lexer. From one search with nothing open to
the next, every marker on the way is the one at which the accepted call begins, or
it was passed for a reason (`Accepts.eq_or_passed`). So the calls of the directives
can be gathered from the end of the run backwards, and they account for every marker
behind the place the lexer has come to (`Accounts`).
-/

set_option autoImplicit false

namespace Transclusion

/-! ## Markers among bytes -/

/-- A marker stands at an offset among some bytes: the letters of `$inline` in any
mix of cases, and then a point or a parenthesis. -/
structure MarkerBytesAt (bytes : List UInt8) (offset : Nat) : Prop where
  letters : ((bytes.drop offset).take Call.marker.length).map
    (fun byte => (Char.ofUInt8 byte).toLower) = Call.marker
  behind : bytes[offset + Call.marker.length]? = some '.'.toUInt8 ∨
    bytes[offset + Call.marker.length]? = some '('.toUInt8

instance (bytes : List UInt8) (offset : Nat) : Decidable (MarkerBytesAt bytes offset) :=
  decidable_of_iff (_ ∧ _) ⟨fun both => ⟨both.1, both.2⟩, fun marker => ⟨marker.1, marker.2⟩⟩

namespace Text

/-- The bytes of some characters in UTF-8. -/
def utf8 (text : List Char) : List UInt8 :=
  text.flatMap String.utf8EncodeChar

theorem utf8_cons (char : Char) (rest : List Char) :
    utf8 (char :: rest) = String.utf8EncodeChar char ++ utf8 rest :=
  List.flatMap_cons

theorem utf8_toList (source : String) : utf8 source.toList = source.toUTF8.data.toList := by
  rw [String.toUTF8, ← String.utf8Encode_toList, List.utf8Encode, List.data_toByteArray]
  rfl

theorem val_ofUInt8 (byte : UInt8) : (Char.ofUInt8 byte).val = byte.toUInt32 := rfl

/-- A character takes one byte that tells it, or it is outside ASCII, and so are its
bytes. -/
theorem utf8EncodeChar_cases (char : Char) :
    (∃ byte, String.utf8EncodeChar char = [byte] ∧ Char.ofUInt8 byte = char) ∨
      (128 ≤ char.toNat ∧ ∀ byte ∈ String.utf8EncodeChar char, 128 ≤ byte.toNat) := by
  fun_cases String.utf8EncodeChar char with
  | case1 code small =>
      refine .inl ⟨_, rfl, ?_⟩
      apply Char.ext
      apply UInt32.toNat_inj.1
      simp only [val_ofUInt8, UInt8.toNat_toUInt32, UInt8.toNat_ofNat']
      exact Nat.mod_eq_of_lt (Nat.lt_of_le_of_lt small (by decide))
  | case2 | case3 | case4 =>
      right
      refine ⟨Nat.lt_of_not_le ‹_›, ?_⟩
      simp only [List.forall_mem_cons, List.not_mem_nil, false_implies, implies_true, and_true,
        UInt8.toNat_ofNat']
      omega

/-- A text whose first byte is one of ASCII begins with that character. -/
theorem eq_cons_of_utf8 {text : List Char} {byte : UInt8} {bytes : List UInt8}
    (encoded : utf8 text = byte :: bytes) (ascii : byte.toNat < 128) :
    ∃ rest, text = Char.ofUInt8 byte :: rest ∧ utf8 rest = bytes := by
  cases text with
  | nil => cases encoded
  | cons char rest =>
      rw [utf8_cons] at encoded
      rcases utf8EncodeChar_cases char with ⟨single, written, told⟩ | ⟨-, high⟩
      · rw [written, List.singleton_append, List.cons.injEq] at encoded
        obtain ⟨rfl, left⟩ := encoded
        exact ⟨rest, by rw [told], left⟩
      · cases written : String.utf8EncodeChar char with
        | nil => exact absurd written String.utf8EncodeChar_ne_nil
        | cons first others =>
            rw [written, List.cons_append, List.cons.injEq] at encoded
            have outside := high first (by rw [written]; exact List.mem_cons_self)
            rw [encoded.1] at outside
            omega

/-- **A byte of ASCII stands between characters.** -/
theorem exists_append_of_drop_utf8 {text : List Char} {offset : Nat} {byte : UInt8}
    {bytes : List UInt8} (encoded : (utf8 text).drop offset = byte :: bytes)
    (ascii : byte.toNat < 128) :
    ∃ before after, before ++ after = text ∧ byteLength before = offset ∧
      utf8 after = byte :: bytes := by
  induction text generalizing offset with
  | nil => cases List.drop_nil.symm.trans encoded
  | cons char rest ih =>
      have size := String.length_utf8EncodeChar char
      by_cases passed : char.utf8Size ≤ offset
      · rw [utf8_cons, List.drop_append, List.drop_eq_nil_of_le (by omega), List.nil_append,
          size] at encoded
        obtain ⟨before, after, rfl, measured, left⟩ := ih encoded
        refine ⟨char :: before, after, rfl, ?_, left⟩
        rw [byteLength_cons, measured]
        omega
      · by_cases start : offset = 0
        · subst start
          exact ⟨[], char :: rest, rfl, rfl, encoded⟩
        · -- the offset lies inside a character of more than one byte
          have inside : byte ∈ String.utf8EncodeChar char := by
            rw [utf8_cons, List.drop_append_of_le_length (by omega)] at encoded
            cases within : (String.utf8EncodeChar char).drop offset with
            | nil =>
                rw [List.drop_eq_nil_iff] at within
                omega
            | cons first others =>
                rw [within, List.cons_append, List.cons.injEq] at encoded
                have member : first ∈ (String.utf8EncodeChar char).drop offset := by
                  rw [within]
                  exact List.mem_cons_self
                exact encoded.1 ▸ List.mem_of_mem_drop member
          rcases utf8EncodeChar_cases char with ⟨single, written, -⟩ | ⟨-, high⟩
          · rw [written, List.length_singleton] at size
            omega
          · have outside := high byte inside
            omega

end Text

/-- A character that stands for one of ASCII in some case is one of ASCII. -/
theorem toNat_lt_of_toLower {char : Char} (lower : char.toLower.toNat < 128) :
    char.toNat < 128 := by
  unfold Char.toLower at lower
  split at lower
  · next upper =>
      simp only [ge_iff_le, UInt32.le_iff_toNat_le] at upper
      have last : 'Z'.val.toNat = 90 := rfl
      exact Nat.lt_of_le_of_lt upper.2 (by omega)
  · exact lower

/-- A byte that stands for a letter of ASCII in some case is a byte of ASCII. -/
theorem toNat_lt_of_toLower_ofUInt8 {byte : UInt8}
    (lower : (Char.ofUInt8 byte).toLower.toNat < 128) : byte.toNat < 128 := by
  have ascii : (Char.ofUInt8 byte).val.toNat < 128 := toNat_lt_of_toLower lower
  rwa [Text.val_ofUInt8, UInt8.toNat_toUInt32] at ascii

/-- Characters that are written as a marker start with one. -/
theorem startsWithMarker_of_utf8 {expected text : List Char}
    (ascii : expected.all (·.toNat < 128) = true)
    (letters : ((Text.utf8 text).take expected.length).map
      (fun byte => (Char.ofUInt8 byte).toLower) = expected)
    (behind : (Text.utf8 text)[expected.length]? = some '.'.toUInt8 ∨
      (Text.utf8 text)[expected.length]? = some '('.toUInt8) :
    startsWithMarker expected text = true := by
  induction expected generalizing text with
  | nil =>
      cases encoded : Text.utf8 text with
      | nil => simp [encoded] at behind
      | cons byte bytes =>
          simp only [encoded, List.length_nil, List.getElem?_cons_zero, Option.some.injEq] at behind
          rcases behind with rfl | rfl
          · obtain ⟨rest, rfl, -⟩ := Text.eq_cons_of_utf8 encoded (by decide)
            rfl
          · obtain ⟨rest, rfl, -⟩ := Text.eq_cons_of_utf8 encoded (by decide)
            rfl
  | cons first others ih =>
      rw [List.all_cons, Bool.and_eq_true, decide_eq_true_eq] at ascii
      cases encoded : Text.utf8 text with
      | nil => simp [encoded] at letters
      | cons byte bytes =>
          rw [encoded, List.length_cons, List.take_succ_cons, List.map_cons,
            List.cons.injEq] at letters
          obtain ⟨rfl, letters⟩ := letters
          obtain ⟨rest, rfl, rfl⟩ :=
            Text.eq_cons_of_utf8 encoded (toNat_lt_of_toLower_ofUInt8 ascii.1)
          rw [encoded, List.length_cons, List.getElem?_cons_succ] at behind
          rw [startsWithMarker, Bool.and_eq_true, beq_iff_eq]
          exact ⟨rfl, ih ascii.2 letters behind⟩

/-- **A marker among the bytes of some characters is a marker among the characters.** -/
theorem markerAt_of_utf8 {text : List Char} {offset : Nat}
    (marker : MarkerBytesAt (Text.utf8 text) offset) : MarkerAt text offset := by
  obtain ⟨letters, behind⟩ := marker
  cases encoded : (Text.utf8 text).drop offset with
  | nil =>
      rw [encoded] at letters
      cases letters
  | cons byte bytes =>
      have dollar : (Char.ofUInt8 byte).toLower = '$' := by
        rw [encoded] at letters
        exact (List.cons.inj letters).1
      have ascii : byte.toNat < 128 := toNat_lt_of_toLower_ofUInt8 (by rw [dollar]; decide)
      obtain ⟨before, marked, whole, measured, left⟩ :=
        Text.exists_append_of_drop_utf8 encoded ascii
      rw [encoded, ← left] at letters
      rw [← List.getElem?_drop, encoded, ← left] at behind
      exact markerAt_iff_exists.2
        ⟨before, marked, whole, measured, startsWithMarker_of_utf8 (by decide) letters behind⟩

theorem markerAt_of_markerBytesAt {source : String} {offset : Nat}
    (marker : MarkerBytesAt source.toUTF8.data.toList offset) :
    MarkerAt source.toList offset := by
  rw [← Text.utf8_toList] at marker
  exact markerAt_of_utf8 marker

/-! ## What is accepted and what is passed -/

/-- The lexer comes upon a call while nothing is open and accepts it, with what the
call opens and the last call that belongs to it. -/
def Accepts (source : List Char) (opener : Site) (found : Option Directive) (last : Site) : Prop :=
  ∃ emitted unread place input, Reaches source emitted unread place input ∧
    scan place input = .call opener ∧
    directiveAt (Text.byteLength source) opener = .ok (found, last)

/-- Why an offset is the start of no directive's call. -/
inductive Passed (source : List Char) (offset : Nat) : Prop
  /-- A call that opens a skipped region begins there. -/
  | skipStart {opener last : Site} (accepted : Accepts source opener none last)
      (method : opener.call.method = some "skipStart") (here : opener.span.start = offset)
  /-- It lies strictly inside a call that was read while nothing was open. -/
  | inCall {opener last : Site} {found : Option Directive}
      (accepted : Accepts source opener found last) (behind : opener.span.start < offset)
      (before : offset < opener.span.stop)
  /-- It lies behind a call that opens a body and before the end of the call that
  closes it. -/
  | inBody {opener closer : Site} {found : Option Directive} {awaited : Awaited}
      (accepted : Accepts source opener found closer)
      (awaits : Awaits (Text.byteLength source) opener awaited)
      (closed : awaited.closing opener = .ok closer) (behind : opener.span.stop ≤ offset)
      (before : offset < closer.span.stop)

namespace Accepts

variable {source : List Char} {opener last : Site} {found : Option Directive}

/-- An accepted call ends what belongs to it, or it opens a body that its last call
closes. -/
theorem eq_or_awaits (accepted : Accepts source opener found last) :
    last = opener ∨ ∃ awaited, Awaits (Text.byteLength source) opener awaited ∧
      awaited.closing opener = .ok last := by
  obtain ⟨emitted, unread, place, input, -, -, result⟩ := accepted
  cases opens_of_directiveAt result with
  | plain | line | shortcut => exact .inl rfl
  | block method closed => exact .inr ⟨_, .block method, closed⟩
  | region method begins closed => exact .inr ⟨_, .region method begins, closed⟩
  | skip method closed => exact .inr ⟨_, .skip method, closed⟩

/-- A call that opens no directive opens a skipped region. -/
theorem method_of_none (accepted : Accepts source opener none last) :
    opener.call.method = some "skipStart" := by
  obtain ⟨emitted, unread, place, input, -, -, result⟩ := accepted
  cases opens_of_directiveAt result with
  | skip method => exact method

/-- **On the way over an accepted call, a marker is the call's own or was passed for a
reason.** -/
theorem eq_or_passed {passed searched : List Char} {offset : Nat}
    (accepted : Accepts source opener found last)
    (opening : Opening source passed opener last found searched) (marker : MarkerAt source offset)
    (behind : Text.byteLength passed ≤ offset) (before : offset < Text.byteLength searched) :
    offset = opener.span.start ∨ Passed source offset := by
  rw [opening.byteLength_searched] at before
  rcases Nat.eq_or_lt_of_le (opening.reads.2.first offset marker behind) with here | later
  · exact .inl here.symm
  · right
    by_cases inside : offset < opener.span.stop
    · exact .inCall accepted later inside
    · rcases accepted.eq_or_awaits with rfl | ⟨awaited, awaits, closed⟩
      · exact absurd before inside
      · exact .inBody accepted awaits closed (Nat.le_of_not_lt inside) before

end Accepts

/-! ## Accounts of a run -/

/-- Calls account for the markers of a text behind an offset: they are the calls of
some directives, in their order, and every marker is where one of them begins, or it
was passed. -/
structure Accounts (source : List Char) (start : Nat) (directives : List Directive)
    (calls : List Site) : Prop where
  emitted : List.Forall₂ (fun directive call => ∃ last, Accepts source call (some directive) last)
    directives calls
  ordered : calls.Pairwise fun earlier later => earlier.span.start < later.span.start
  behind : ∀ call ∈ calls, start ≤ call.span.start
  complete : ∀ offset, MarkerAt source offset → start ≤ offset →
    (∃ call ∈ calls, call.span.start = offset) ∨ Passed source offset

namespace Accounts

variable {source passed searched : List Char} {opener last : Site} {directives : List Directive}
  {calls : List Site}

/-- What accounts for the markers behind a skipped region does so for those behind what
was passed before it. -/
theorem skip (accounts : Accounts source (Text.byteLength searched) directives calls)
    (opening : Opening source passed opener last none searched)
    (accepted : Accepts source opener none last) :
    Accounts source (Text.byteLength passed) directives calls where
  emitted := accounts.emitted
  ordered := accounts.ordered
  behind := by
    intro call member
    exact Nat.le_trans (Nat.le_of_lt opening.passed_lt) (accounts.behind call member)
  complete := by
    intro offset marker after
    rcases Nat.lt_or_ge offset (Text.byteLength searched) with before | behind
    · rcases accepted.eq_or_passed opening marker after before with here | reason
      · exact .inr (.skipStart accepted accepted.method_of_none here.symm)
      · exact .inr reason
    · exact accounts.complete offset marker behind

/-- The call of a directive, in front of what accounts for the markers behind its last
call, accounts for those behind what was passed before it. -/
theorem cons {directive : Directive}
    (accounts : Accounts source (Text.byteLength searched) directives calls)
    (opening : Opening source passed opener last (some directive) searched)
    (accepted : Accepts source opener (some directive) last) :
    Accounts source (Text.byteLength passed) (directive :: directives) (opener :: calls) where
  emitted := .cons ⟨last, accepted⟩ accounts.emitted
  ordered := by
    refine List.pairwise_cons.2 ⟨fun call member => ?_, accounts.ordered⟩
    exact Nat.lt_of_lt_of_le opening.start_lt (accounts.behind call member)
  behind := by
    intro call member
    rcases List.mem_cons.1 member with rfl | other
    · exact opening.reads.2.behind
    · exact Nat.le_trans (Nat.le_of_lt opening.passed_lt) (accounts.behind call other)
  complete := by
    intro offset marker after
    rcases Nat.lt_or_ge offset (Text.byteLength searched) with before | behind
    · rcases accepted.eq_or_passed opening marker after before with here | reason
      · exact .inl ⟨opener, List.mem_cons_self, here.symm⟩
      · exact .inr reason
    · rcases accounts.complete offset marker behind with ⟨call, member, here⟩ | reason
      · exact .inl ⟨call, List.mem_cons_of_mem _ member, here⟩
      · exact .inr reason

/-- A marker that was not passed is where exactly one of the calls begins. -/
theorem existsUnique_or_passed {start offset : Nat}
    (accounts : Accounts source start directives calls) (marker : MarkerAt source offset)
    (behind : start ≤ offset) :
    (∃! index : Fin calls.length, (calls.get index).span.start = offset) ∨
      Passed source offset := by
  rcases accounts.complete offset marker behind with ⟨call, member, here⟩ | reason
  · left
    obtain ⟨index, rfl⟩ := List.get_of_mem member
    refine ⟨index, here, fun other same => ?_⟩
    have increasing := List.pairwise_iff_getElem.1 accounts.ordered
    rcases Nat.lt_trichotomy other index with before | equal | after
    · have less := increasing _ _ other.isLt index.isLt before
      exact absurd (same.trans here.symm) (Nat.ne_of_lt less)
    · exact Fin.ext equal
    · have less := increasing _ _ index.isLt other.isLt after
      exact absurd (here.trans same.symm) (Nat.ne_of_lt less)
  · exact .inr reason

end Accounts

/-- From every search with nothing open that ends without error, there are calls that
account for the markers behind it. -/
theorem Reaches.exists_accounts {source passed unread input : List Char} {emitted : Nat}
    {place : Place} {tokens : List Token} (reached : Reaches source emitted unread place input)
    (placed : place = Place.start.past passed) (searched : passed ++ input = source)
    (result : tokensFrom (Text.byteLength source) emitted unread place input = .ok tokens) :
    ∃ calls, Accounts source (Text.byteLength passed) (Token.directives tokens) calls := by
  fun_induction tokensFrom (Text.byteLength source) emitted unread place input
    generalizing passed tokens with
  | case1 emitted unread place input ends =>
      subst placed
      cases result
      refine ⟨[], ?_, .nil, by simp, fun offset marker behind => ?_⟩
      · rw [Token.directives_ofPlain]
        exact .nil
      · have before := scan_done_spec searched ends marker
        omega
  | case2 => cases result
  | case3 => cases result
  | case4 emitted unread place input opener found last accepted ih =>
      subst placed
      obtain ⟨behind, opening, rest, stop⟩ := opening_of_directiveAt searched found accepted
      obtain ⟨calls, accounts⟩ := ih (reached.skip found accepted) stop rest result
      exact ⟨calls, accounts.skip opening ⟨_, _, _, _, reached, found, accepted⟩⟩
  | case5 emitted unread place input opener found directive last accepted shortcut ih =>
      subst placed
      obtain ⟨behind, opening, rest, stop⟩ := opening_of_directiveAt searched found accepted
      obtain ⟨others, inner, rfl⟩ := Reading.eq_ok_of_map result
      obtain ⟨calls, accounts⟩ := ih (reached.declare found accepted shortcut) stop rest inner
      exact ⟨_, accounts.cons opening ⟨_, _, _, _, reached, found, accepted⟩⟩
  | case6 => cases result
  | case7 emitted unread place input opener found directive last accepted shortcut plain left
      cut ih =>
      subst placed
      obtain ⟨behind, opening, rest, stop⟩ := opening_of_directiveAt searched found accepted
      obtain ⟨others, inner, rfl⟩ := Reading.eq_ok_of_map result
      obtain ⟨calls, accounts⟩ :=
        ih (reached.replace found accepted (by simpa using shortcut) cut) stop rest inner
      rw [Token.directives_append, Token.directives_ofPlain, List.nil_append,
        Token.directives_cons]
      exact ⟨_, accounts.cons opening ⟨_, _, _, _, reached, found, accepted⟩⟩

/-- **No marker of a text is passed over in silence.** Every marker, as it stands among
the bytes of the text, is where the call of exactly one directive begins, or there is
a reason why it is none: it opens a skipped region, or it stands inside a call or a
body that the lexer has accepted. -/
theorem Token.ofText_markers {source : String} {tokens : List Token}
    (result : Token.ofText source = .ok tokens) :
    ∃ calls : List Site,
      List.Forall₂ (fun directive call => ∃ last, Accepts source.toList call (some directive) last)
        (Token.directives tokens) calls ∧
      ∀ offset, MarkerBytesAt source.toUTF8.data.toList offset →
        (∃! index : Fin calls.length, (calls.get index).span.start = offset) ∨
          Passed source.toList offset := by
  obtain ⟨calls, accounts⟩ := Reaches.start.exists_accounts rfl (List.nil_append _) result
  refine ⟨calls, accounts.emitted, fun offset marker => ?_⟩
  exact accounts.existsUnique_or_passed (markerAt_of_markerBytesAt marker) (Nat.zero_le offset)

/-- A marker in capitals, one in a string, one in a skipped region and a malformed one
in a block, behind a character of two bytes. -/
theorem Token.ofText_markers_mixed :
    let source := "é$INLINE('$inline(')\n$inline.skipStart$inline('no')$inline.skipEnd\n" ++
      "$inline.start('e')\n$inline.bogus(\n$inline.end"
    ∃ calls : List Site,
      List.Forall₂ (fun directive call => ∃ last, Accepts source.toList call (some directive) last)
        [⟨.plain, [.text "$inline("], ⟨2, 21⟩⟩, ⟨.block, [.text "e"], ⟨87, 101⟩⟩] calls ∧
      ∀ offset ∈ [2, 11, 22, 39, 52, 68, 87, 102],
        (∃! index : Fin calls.length, (calls.get index).span.start = offset) ∨
          Passed source.toList offset := by
  intro source
  have result : Token.ofText source = .ok
      [.text "é", .directive ⟨.plain, [.text "$inline("], ⟨2, 21⟩⟩,
        .text "\n$inline.skipStart$inline('no')$inline.skipEnd\n$inline.start('e')\n",
        .directive ⟨.block, [.text "e"], ⟨87, 101⟩⟩, .text "\n$inline.end"] := by decide +kernel
  have markers : [2, 11, 22, 39, 52, 68, 87, 102].all (fun offset =>
      decide (MarkerBytesAt source.toUTF8.data.toList offset)) = true := by
    simp only [← Text.utf8_toList]
    decide +kernel
  obtain ⟨calls, emitted, complete⟩ := Token.ofText_markers result
  refine ⟨calls, emitted, fun offset member => complete offset ?_⟩
  exact of_decide_eq_true (List.all_eq_true.1 markers offset member)

end Transclusion
