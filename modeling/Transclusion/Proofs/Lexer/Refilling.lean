import Transclusion.Proofs.Lexer.Layouts
import Transclusion.Proofs.Lexer.Partition

/-!
# Refilled texts

A text whose directives are blocks and regions may have its spans replaced, by what the
directives include or by anything else, and then be read again. If the new texts have no
dollar sign, and the text has none but in the calls and the spans of its frames, the lexer
comes upon the same calls again. The tokens are the same but for the spans, which have moved
to where the new texts stand (`Token.ofText_refill`).

`Token.refill` is the text that takes the place of the old one and `Token.relocate` its
tokens. The proof goes along the run of the lexer over the old text
(`Held.exists_refilled`): between two calls of the run, what has been searched but not yet
emitted is the same in both texts, and what is left to search begins with the same character,
so a call without parameters ends where it did before.
-/

set_option autoImplicit false

namespace Transclusion

/-! ## Refilled texts and moved tokens -/

namespace Token

/-- The text in which texts take the places of the directives among some tokens, one text
for each directive. -/
def refill : List Token → List String → List Char
  | .text value :: tokens, contents => value.toList ++ refill tokens contents
  | .directive _ :: tokens, content :: contents => content.toList ++ refill tokens contents
  | _, _ => []

/-- The tokens from an offset on in which the span of every directive is the range that the
text in its place takes. -/
def relocate (start : Nat) : List Token → List String → List Token
  | .text value :: tokens, contents =>
      .text value :: relocate (start + Text.byteLength value.toList) tokens contents
  | .directive written :: tokens, content :: contents =>
      let stop := start + Text.byteLength content.toList
      .directive { written with span := ⟨start, stop⟩ } :: relocate stop tokens contents
  | _, _ => []

theorem refill_ofPlain_append (plain : List Char) (tokens : List Token) (contents : List String) :
    refill (ofPlain plain ++ tokens) contents = plain ++ refill tokens contents := by
  unfold ofPlain
  split
  · next empty => rw [empty, List.nil_append, List.nil_append]
  · rw [List.singleton_append, refill, String.toList_ofList]

theorem relocate_ofPlain_append (start : Nat) (plain : List Char) (tokens : List Token)
    (contents : List String) :
    relocate start (ofPlain plain ++ tokens) contents =
      ofPlain plain ++ relocate (start + Text.byteLength plain) tokens contents := by
  unfold ofPlain
  split
  · next empty => rw [empty, List.nil_append, List.nil_append, Text.byteLength_nil, Nat.add_zero]
  · rw [List.singleton_append, relocate, String.toList_ofList, List.singleton_append]

theorem refill_ofPlain (plain : List Char) (contents : List String) :
    refill (ofPlain plain) contents = plain := by
  simpa [refill] using refill_ofPlain_append plain [] contents

theorem relocate_ofPlain (start : Nat) (plain : List Char) (contents : List String) :
    relocate start (ofPlain plain) contents = ofPlain plain := by
  simpa [relocate] using relocate_ofPlain_append start plain [] contents

end Token

/-- Whether there is a marker does not depend on the place. -/
theorem findMarker_none_congr {place : Place} {input : List Char}
    (none : findMarker place input = none) (other : Place) : findMarker other input = .none := by
  induction input generalizing place other with
  | nil => rfl
  | cons char rest ih =>
      rw [findMarker] at none ⊢
      split at none
      · cases none
      · next unmarked =>
          rw [if_neg unmarked]
          exact ih none _

theorem scan_done_congr {place : Place} {input : List Char} (ends : scan place input = .done)
    (other : Place) : scan other input = .done := by
  unfold scan at ends
  split at ends
  · next none => simp only [scan, findMarker_none_congr none other]
  · simp only at ends
    split at ends <;> cases ends

theorem tokensFrom_done {size emitted : Nat} {unread input : List Char} {place : Place}
    (ends : scan place input = .done) :
    tokensFrom size emitted unread place input = .ok (Token.ofPlain unread) := by
  fun_cases tokensFrom size emitted unread place input <;> simp_all

/-! ## The run over a refilled text -/

/-- Tokens that were found in an input are found in another one, wherever it stands, with
other contents. In front of both there are the characters `middle` that have been searched
and not yet emitted, and both begin with the same character. -/
structure Refilled (tokens : List Token) (contents : List String)
    (middle input renewed : List Char) : Prop where
  text : Token.refill tokens contents = middle ++ renewed
  head : renewed.head? = input.head?
  again : ∀ ahead size, size = Text.byteLength (ahead ++ (middle ++ renewed)) →
    tokensFrom size (Text.byteLength ahead) (middle ++ renewed)
      (Place.start.past (ahead ++ middle)) renewed =
        .ok (Token.relocate (Text.byteLength ahead) tokens contents)

section Run

variable {tokens : List Token} {contents : List String} {opener closer : Site}
  {middle gap renewed : List Char}

/-- A skipped region is refilled if what stands behind it is. -/
theorem Skipped.refilled {between : List Char} (skipped : Skipped opener closer gap between)
    (rest : Refilled tokens contents
      (middle ++ (gap ++ (opener.text ++ (between ++ closer.text)))) closer.rest renewed) :
    Refilled tokens contents middle (gap ++ (opener.text ++ opener.rest))
      (gap ++ (opener.text ++ (between ++ (closer.text ++ renewed)))) where
  text := by
    rw [rest.text]
    simp only [List.append_assoc]
  head := skipped.opens.head?_append gap _ _
  again := by
    intro ahead size measured
    have again := rest.again ahead size (by simp only [measured, List.append_assoc])
    rw [skipped.tokensFrom_refilled size _ _ _ rest.head]
    simpa only [List.append_assoc] using again

/-- A body is refilled with another content if what stands behind it is refilled. -/
theorem Layout.refilled {directive : Directive} {above content below plain : List Char}
    {first : String} (layout : Layout opener closer directive.kind gap above content below)
    (params : directive.params = opener.call.params) (clear : '$' ∉ first.toList)
    (before : plain = middle ++ (gap ++ (opener.text ++ above)))
    (rest : Refilled tokens contents (below ++ closer.text) closer.rest renewed) :
    Refilled (Token.ofPlain plain ++ .directive directive :: tokens) (first :: contents) middle
      (gap ++ (opener.text ++ opener.rest))
      (gap ++ (opener.text ++ (above ++ (first.toList ++ (below ++ (closer.text ++ renewed)))))) where
  text := by
    rw [Token.refill_ofPlain_append, Token.refill, rest.text]
    simp only [before, List.append_assoc]
  head := layout.opens.head?_append gap _ _
  again := by
    intro ahead size measured
    have again := rest.again (ahead ++ plain ++ first.toList) size
      (by simp only [measured, before, List.append_assoc])
    rw [List.append_assoc below] at again
    rw [layout.tokensFrom_refilled before (by simp only [before, List.append_assoc]) measured clear
      rest.head, again, Token.relocate_ofPlain_append, Token.relocate, ← params]
    simp only [Text.byteLength_append]
    rfl

/-- **The run over a text is repeated over the refilled text.** -/
theorem Held.exists_refilled {source front unread input : List Char} {emitted : Nat}
    {place : Place} (held : Held source (front ++ middle) input)
    (whole : front ++ middle ++ input = source) (reached : emitted = Text.byteLength front)
    (left : unread = middle ++ input) (placed : place = Place.start.past (front ++ middle))
    (result : tokensFrom (Text.byteLength source) emitted unread place input = .ok tokens)
    (count : contents.length = (Token.directives tokens).length)
    (free : ∀ content ∈ contents, '$' ∉ content.toList) :
    ∃ renewed, Refilled tokens contents middle input renewed := by
  fun_induction tokensFrom (Text.byteLength source) emitted unread place input
    generalizing front middle tokens contents with
  | case1 emitted unread place input ends =>
      subst left
      cases result
      refine ⟨input, Token.refill_ofPlain _ _, rfl, fun ahead size measured => ?_⟩
      rw [tokensFrom_done (scan_done_congr ends _), Token.relocate_ofPlain]
  | case2 => cases result
  | case3 => cases result
  | case4 emitted unread place input opener found last accepted ih =>
      subst left placed
      obtain ⟨searched, next⟩ := Frame.next_of_directiveAt whole found accepted
      obtain ⟨gap, between, skipped, rfl⟩ := held.exists_skipped next found
      have behind : searched =
          front ++ (middle ++ (gap ++ (opener.text ++ (between ++ last.text)))) := by
        refine List.append_cancel_right (next.left.trans (whole.symm.trans ?_))
        simp only [skipped.behind, List.append_assoc]
      subst behind
      obtain ⟨renewed, refilled⟩ := ih (held.rest next) next.left reached
        (by simp only [skipped.behind, List.append_assoc]) next.stop result count free
      exact ⟨_, skipped.refilled refilled⟩
  | case5 emitted unread place input opener found directive last accepted shortcut ih =>
      subst placed
      obtain ⟨searched, next⟩ := Frame.next_of_directiveAt whole found accepted
      have body := (held.next_regular next).body directive rfl
      simp only [Directive.isShortcut, beq_iff_eq] at shortcut
      simp [shortcut] at body
  | case6 => cases result
  | case7 emitted unread place input opener found directive last accepted shortcut plain remaining
      cut ih =>
      subst reached left placed
      obtain ⟨searched, next⟩ := Frame.next_of_directiveAt whole found accepted
      obtain ⟨others, inner, rfl⟩ := Reading.eq_ok_of_map result
      obtain ⟨gap, above, content, below, layout, rfl, before, rfl, stop⟩ :=
        held.exists_layout next found cut
      rw [Token.directives_append, Token.directives_ofPlain, List.nil_append,
        Token.directives_cons] at count
      obtain ⟨first, more, rfl⟩ := List.exists_cons_of_length_eq_add_one count
      have behind : searched = front ++ plain ++ content ++ (below ++ last.text) := by
        refine List.append_cancel_right (next.left.trans (whole.symm.trans ?_))
        simp only [before, layout.behind, List.append_assoc]
      subst behind
      obtain ⟨renewed, refilled⟩ := ih (held.rest next) next.left stop
        (List.append_assoc _ _ _).symm next.stop inner (Nat.succ.inj count)
        (fun other member => free other (List.mem_cons_of_mem _ member))
      exact ⟨_, layout.refilled next.opening.opens.params_eq (free first List.mem_cons_self) before
        refilled⟩

end Run

/-! ## Texts that are refilled -/

/-- Along the derivation of the tokens, a refilled text has the bytes of what is left of the
text with the spans replaced. -/
theorem Cutting.utf8Encode_refill {source front passed : List Char} {tokens : List Token}
    {contents : List String} (cutting : Cutting source front passed tokens)
    (replaced : ∀ directive ∈ Token.directives tokens, directive.isShortcut = false)
    (count : contents.length = (Token.directives tokens).length) :
    (Token.refill tokens contents).utf8Encode =
      splice source.utf8Encode (Text.byteLength front) (Token.spans tokens)
        (contents.map String.toUTF8) := by
  induction cutting generalizing contents with
  | @done front unread _ _ whole =>
      have kept := Text.extract_utf8Encode front unread []
      rw [List.append_nil, whole, ← Text.size_utf8Encode source] at kept
      rw [Token.refill_ofPlain, Token.spans_ofPlain, splice_nil, kept]
  | skip _ _ ih => exact ih replaced count
  | declare _ shortcut _ _ =>
      have plain := replaced _ List.mem_cons_self
      rw [shortcut] at plain
      cases plain
  | @replace front plain content left _ _ _ _ directive others _ shortcut whole start stop _ ih =>
      rw [Token.directives_append, Token.directives_ofPlain, List.nil_append,
        Token.directives_cons] at replaced count
      obtain ⟨first, more, rfl⟩ := List.exists_cons_of_length_eq_add_one count
      have kept := Text.extract_utf8Encode front plain (content ++ left)
      rw [← List.append_assoc, whole, start] at kept
      have tail := ih (fun other member => replaced other (List.mem_cons_of_mem _ member))
        (Nat.succ.inj count)
      rw [stop] at tail
      rw [Token.refill_ofPlain_append, Token.refill, Token.spans_append, Token.spans_ofPlain,
        List.nil_append, Token.spans_cons_of_not_isShortcut shortcut, List.map_cons, splice, kept,
        List.utf8Encode_append, List.utf8Encode_append, tail, ByteArray.append_assoc]
      simp

/-- A span that was moved holds the text that was put there. -/
theorem Token.slice_relocate (front : List Char) {tokens : List Token} {contents : List String}
    (replaced : ∀ directive ∈ directives tokens, directive.isShortcut = false)
    (count : contents.length = (directives tokens).length) :
    (spans (relocate (Text.byteLength front) tokens contents)).map
        (Text.slice (front ++ refill tokens contents)) = contents.map String.toList := by
  induction tokens generalizing front contents with
  | nil =>
      cases List.length_eq_zero_iff.1 count
      rfl
  | cons token tokens ih =>
      cases token with
      | text value =>
          have tail := ih (front ++ value.toList) replaced count
          rw [Text.byteLength_append, List.append_assoc] at tail
          exact tail
      | directive written =>
          obtain ⟨first, more, rfl⟩ := List.exists_cons_of_length_eq_add_one count
          have tail := ih (front ++ first.toList)
            (fun other member => replaced other (List.mem_cons_of_mem _ member))
            (Nat.succ.inj count)
          have here := Text.slice_parts front first.toList (refill tokens more)
          rw [Text.byteLength_append, List.append_assoc] at tail here
          have kept : Directive.isShortcut { written with span := ⟨Text.byteLength front,
              Text.byteLength front + Text.byteLength first.toList⟩ } = false :=
            replaced written List.mem_cons_self
          rw [relocate, refill, spans_cons_of_not_isShortcut kept, List.map_cons, List.map_cons,
            here, tail]

/-- **A text whose blocks and regions are refilled is cut into the same tokens again.**
Every directive of the text is a block or a region with parameters, every dollar sign stands
in a call or a span that the lexer has accepted, and the opening call of a block stands on
one line. Then texts without a dollar sign may take the places of the spans: the result is
the text with its spans replaced, and its tokens are those of the text, each span moved to
where the new text stands. -/
theorem Token.ofText_refill {source : String} {tokens : List Token} {contents : List String}
    (result : Token.ofText source = .ok tokens)
    (bodies : ∀ directive ∈ Token.directives tokens,
      (directive.kind = .block ∨ directive.kind = .region) ∧ directive.params ≠ [])
    (held : ∀ before after, before ++ '$' :: after = source.toList →
      ∃ frame : Frame, Accepts source.toList frame.opener frame.found frame.last ∧
        frame.Holds (Text.byteLength before))
    (solid : ∀ frame : Frame, Accepts source.toList frame.opener frame.found frame.last →
      frame.opener.call.method = some "start" → '\n' ∉ frame.opener.text)
    (count : contents.length = (Token.directives tokens).length)
    (free : ∀ content ∈ contents, '$' ∉ content.toList) :
    let renewed := String.ofList (Token.refill tokens contents)
    renewed.toUTF8 =
        splice source.toUTF8 0 (Token.spans tokens) (contents.map String.toUTF8) ∧
      Token.ofText renewed = .ok (Token.relocate 0 tokens contents) ∧
      (Token.spans (Token.relocate 0 tokens contents)).map (Text.slice renewed.toList) =
        contents.map String.toList := by
  intro renewed
  have replaced : ∀ directive ∈ Token.directives tokens, directive.isShortcut = false := by
    intro directive member
    rcases (bodies directive member).1 with kind | kind <;> simp [Directive.isShortcut, kind]
  have frames : Held source.toList ([] ++ []) source.toList := by
    constructor
    · intro frame member
      have emitted : ∀ directive ∈ frame.found, directive ∈ Token.directives tokens := by
        intro directive found
        rw [directives_eq_frames result]
        exact List.mem_filterMap.2 ⟨frame, member, found⟩
      exact ⟨fun directive found => (bodies directive (emitted directive found)).1,
        fun directive found => (bodies directive (emitted directive found)).2,
        solid frame ((mem_framesFrom_iff result).1 member)⟩
    · intro before after whole
      obtain ⟨frame, accepted, holds⟩ := held before after whole
      exact ⟨frame, accepted.mem_framesFrom, holds⟩
  obtain ⟨text, refilled⟩ := frames.exists_refilled rfl rfl rfl rfl result count free
  refine ⟨?_, ?_, ?_⟩
  · have encoded := (cutting_of_ofText result).utf8Encode_refill replaced count
    rw [String.utf8Encode_toList] at encoded
    exact String.toByteArray_ofList.trans encoded
  · simp only [Token.ofText, renewed, String.toList_ofList]
    rw [refilled.text]
    exact refilled.again [] _ rfl
  · have slices := Token.slice_relocate [] replaced count
    rw [String.toList_ofList]
    exact slices

/-- A region that skips a byte on either side and has a call in its span, a block with a
dollar sign in its span, and a skipped region right behind the closing call of the block: the
region is emptied, and the block takes two lines. -/
theorem Token.ofText_refill_mixed :
    let source := "é $inline.open('x', 1)[old $inline('y')]$inline.close(1) $inline.start(`z`)\n" ++
      "old $5\n  $inline.end$inline.skipStart kept $inline.skipEnd b"
    let tokens : List Token := [.text "é $inline.open('x', 1)[",
      .directive ⟨.region, [.text "x", .number ⟨0x3ff0000000000000⟩], ⟨24, 40⟩⟩,
      .text "]$inline.close(1) $inline.start(`z`)\n", .directive ⟨.block, [.text "z"], ⟨77, 83⟩⟩,
      .text "\n  $inline.end$inline.skipStart kept $inline.skipEnd b"]
    let renewed := "é $inline.open('x', 1)[]$inline.close(1) $inline.start(`z`)\n" ++
      "two\nlines\n  $inline.end$inline.skipStart kept $inline.skipEnd b"
    Token.ofText source = .ok tokens ∧ Token.ofText renewed = .ok
      [.text "é $inline.open('x', 1)[",
        .directive ⟨.region, [.text "x", .number ⟨0x3ff0000000000000⟩], ⟨24, 24⟩⟩,
        .text "]$inline.close(1) $inline.start(`z`)\n",
        .directive ⟨.block, [.text "z"], ⟨61, 70⟩⟩,
        .text "\n  $inline.end$inline.skipStart kept $inline.skipEnd b"] := by
  intro source tokens renewed
  have result : Token.ofText source = .ok tokens := by decide +kernel
  have bodies : ∀ directive ∈ Token.directives tokens,
      (directive.kind = .block ∨ directive.kind = .region) ∧ directive.params ≠ [] := by
    decide +kernel
  have held : ∀ before after, before ++ '$' :: after = source.toList →
      ∃ frame : Frame, Accepts source.toList frame.opener frame.found frame.last ∧
        frame.Holds (Text.byteLength before) := by
    have checked : (List.range source.toList.length).all (fun index =>
        source.toList[index]? != some '$' ||
          (framesFrom (Text.byteLength source.toList) .start source.toList).any fun frame =>
            decide (frame.Holds (Text.byteLength (source.toList.take index)))) = true := by
      decide +kernel
    intro before after whole
    have dollar : source.toList[before.length]? = some '$' := by
      rw [← whole]
      simp
    have front : source.toList.take before.length = before := by
      rw [← whole, List.take_left]
    have inside : before.length < source.toList.length := by
      rw [← whole, List.length_append, List.length_cons]
      omega
    have here := List.all_eq_true.1 checked before.length (List.mem_range.2 inside)
    rw [dollar, front, bne_self_eq_false, Bool.false_or, List.any_eq_true] at here
    obtain ⟨frame, member, holds⟩ := here
    exact ⟨frame, (mem_framesFrom_iff result).1 member, of_decide_eq_true holds⟩
  have solid : ∀ frame : Frame, Accepts source.toList frame.opener frame.found frame.last →
      frame.opener.call.method = some "start" → '\n' ∉ frame.opener.text := by
    have checked : (framesFrom (Text.byteLength source.toList) .start source.toList).all
        (fun frame => frame.opener.call.method != some "start" ||
          !frame.opener.text.contains '\n') = true := by
      decide +kernel
    intro frame accepted method
    have here := List.all_eq_true.1 checked frame accepted.mem_framesFrom
    simpa [method] using here
  have again : Token.ofText (String.ofList (Token.refill tokens ["", "two\nlines"])) =
      .ok (Token.relocate 0 tokens ["", "two\nlines"]) :=
    (Token.ofText_refill result bodies held solid rfl (by decide +kernel)).2.1
  have written : String.ofList (Token.refill tokens ["", "two\nlines"]) = renewed := by
    decide +kernel
  rw [written] at again
  exact ⟨result, again⟩

end Transclusion
