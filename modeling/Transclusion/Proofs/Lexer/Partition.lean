import Transclusion.Proofs.Lexer.Cutting
import Mathlib.Control.Monad.Basic

/-!
# Tokens partition their text

A token covers a part of its text: a run of plain text covers itself, a
directive covers the characters of its span, and a declaration covers nothing.
The tokens of a text, taken in their order, cover it without gap or overlap
(`Partition`): the covered parts make up the text, spans lie in it one behind
the other and cut no character, no run of plain text is empty, and two runs are
never neighbours, a replaced span stands between them. `splice` is a text with
its spans replaced.

Each of the four facts is shown by induction on the derivation of the tokens,
for the part of the text that has not been emitted.
-/

set_option autoImplicit false

namespace Transclusion

namespace Token

/-- The part of a text that a token covers. -/
def covered (source : List Char) : Token → List Char
  | .text value => value.toList
  | .directive written => if written.isShortcut then [] else Text.slice source written.span

/-- The span that a token replaces, if it replaces one. -/
def replaced? : Token → Option Span
  | .text _ => none
  | .directive written => if written.isShortcut then none else some written.span

/-- The spans that some tokens replace, in the order of the tokens. -/
def spans (tokens : List Token) : List Span :=
  tokens.filterMap replaced?

end Token

/-- The bytes of a source from an offset on, with spans replaced by contents:
what stands between the spans is kept. -/
def splice (source : ByteArray) (start : Nat) : List Span → List ByteArray → ByteArray
  | span :: spans, content :: contents =>
      source.extract start span.start ++ content ++ splice source span.stop spans contents
  | _, _ => source.extract start source.size

theorem splice_nil (source : ByteArray) (start : Nat) (contents : List ByteArray) :
    splice source start [] contents = source.extract start source.size := by
  cases contents <;> rfl

/-- A span lies in a text: it is not turned around, and it begins and ends
between characters of the text. -/
structure Span.Within (source : List Char) (span : Span) : Prop where
  ordered : span.start ≤ span.stop
  starts : Text.IsBoundary source span.start
  stops : Text.IsBoundary source span.stop

/-- Between any two runs of plain text there is a directive that replaces a span. -/
def Token.Separated (tokens : List Token) : Prop :=
  ∀ (first second : Nat) (one other : String), first < second →
    tokens[first]? = some (.text one) → tokens[second]? = some (.text other) →
    ∃ between span, first < between ∧ between < second ∧
      tokens[between]?.bind Token.replaced? = some span

/-- Tokens partition a text. -/
structure Partition (source : List Char) (tokens : List Token) : Prop where
  /-- What the tokens cover makes up the text. -/
  whole : tokens.flatMap (Token.covered source) = source
  /-- Spans follow one another, each at or behind the end of the one before. -/
  increasing : (Token.spans tokens).Pairwise fun earlier later => earlier.stop ≤ later.start
  within : ∀ span ∈ Token.spans tokens, span.Within source
  nonempty : ∀ value, Token.text value ∈ tokens → value ≠ ""
  separated : Token.Separated tokens

/-! ## Plain text -/

namespace Token

theorem covered_ofPlain (source plain : List Char) :
    (ofPlain plain).flatMap (covered source) = plain := by
  unfold ofPlain
  split
  · next empty => simp [empty]
  · simp [covered]

@[simp] theorem spans_ofPlain (plain : List Char) : spans (ofPlain plain) = [] := by
  unfold ofPlain
  split <;> rfl

theorem spans_append (left right : List Token) :
    spans (left ++ right) = spans left ++ spans right :=
  List.filterMap_append

theorem spans_cons_of_isShortcut {directive : Directive} (shortcut : directive.isShortcut = true)
    (tokens : List Token) : spans (.directive directive :: tokens) = spans tokens := by
  simp [spans, replaced?, shortcut]

theorem spans_cons_of_not_isShortcut {directive : Directive}
    (shortcut : directive.isShortcut = false) (tokens : List Token) :
    spans (.directive directive :: tokens) = directive.span :: spans tokens := by
  simp [spans, replaced?, shortcut]

theorem ne_empty_of_mem_ofPlain {plain : List Char} {value : String}
    (member : Token.text value ∈ ofPlain plain) : value ≠ "" := by
  unfold ofPlain at member
  split at member
  · cases member
  · next nonempty =>
      simp only [List.mem_singleton, Token.text.injEq] at member
      rintro rfl
      exact nonempty (by simpa using congrArg String.toList member.symm)

/-! ## Runs of plain text are separated -/

theorem separated_ofPlain (plain : List Char) : Separated (ofPlain plain) := by
  intro first second one other before _ last
  unfold ofPlain at last
  split at last
  · simp at last
  · rw [List.getElem?_eq_none (by simpa using Nat.one_le_of_lt before)] at last
    cases last

/-- A directive in front leaves runs of plain text separated. -/
theorem Separated.directive_cons {tokens : List Token} (separated : Separated tokens)
    (directive : Directive) : Separated (.directive directive :: tokens) := by
  intro first second one other before start last
  match first, second with
  | 0, _ => simp at start
  | first + 1, 0 => omega
  | first + 1, second + 1 =>
      rw [List.getElem?_cons_succ] at start last
      obtain ⟨between, span, above, below, replaces⟩ :=
        separated first second one other (by omega) start last
      exact ⟨between + 1, span, by omega, by omega, by rwa [List.getElem?_cons_succ]⟩

/-- Plain text in front of a replaced span leaves runs of plain text separated. -/
theorem Separated.ofPlain_append {tokens : List Token} {directive : Directive}
    (separated : Separated (.directive directive :: tokens))
    (shortcut : directive.isShortcut = false) (plain : List Char) :
    Separated (ofPlain plain ++ .directive directive :: tokens) := by
  unfold ofPlain
  split
  · exact separated
  · intro first second one other before start last
    match first, second with
    | _, 0 => omega
    | 0, 1 => simp at last
    | 0, second + 2 => exact ⟨1, directive.span, by omega, by omega, by simp [replaced?, shortcut]⟩
    | first + 1, second + 1 =>
        rw [List.singleton_append, List.getElem?_cons_succ] at start last
        obtain ⟨between, span, above, below, replaces⟩ :=
          separated first second one other (by omega) start last
        refine ⟨between + 1, span, by omega, by omega, ?_⟩
        rwa [List.singleton_append, List.getElem?_cons_succ]

end Token

/-! ## Parts of a text -/

/-- The bytes of some characters are as many as their length says. -/
theorem Text.size_utf8Encode (text : List Char) : text.utf8Encode.size = byteLength text := by
  induction text with
  | nil => simp
  | cons char rest ih =>
      rw [List.utf8Encode_cons, ByteArray.size_append, ih, List.utf8Encode_singleton,
        List.size_toByteArray, String.length_utf8EncodeChar, byteLength_cons]

/-- The bytes between two places of a text, by the text's parts. -/
theorem Text.extract_utf8Encode (before inside after : List Char) :
    (before ++ inside ++ after).utf8Encode.extract (byteLength before)
      (byteLength (before ++ inside)) = inside.utf8Encode := by
  rw [List.utf8Encode_append, ← size_utf8Encode, ← size_utf8Encode,
    ByteArray.extract_append_size_left, List.utf8Encode_append,
    ByteArray.extract_append_eq_right rfl ByteArray.size_append]

/-- The characters between two places of a text, by the text's parts. -/
theorem Text.slice_parts (before inside after : List Char) :
    slice (before ++ inside ++ after) ⟨byteLength before, byteLength (before ++ inside)⟩ =
      inside := by
  simp only [slice]
  rw [List.append_assoc, onward_byteLength, byteLength_append, Nat.add_sub_cancel_left,
    upto_byteLength]

/-! ## Partitions by derivation -/

namespace Cutting

variable {source front passed : List Char} {tokens : List Token}

/-- With what was emitted before, what the tokens cover makes up the text. -/
theorem append_covered (cutting : Cutting source front passed tokens) :
    front ++ tokens.flatMap (Token.covered source) = source := by
  induction cutting with
  | done whole => rw [Token.covered_ofPlain, whole]
  | skip _ _ ih => exact ih
  | declare _ shortcut _ ih =>
      rw [List.flatMap_cons, Token.covered, if_pos shortcut]
      exact ih
  | @replace front plain replaced left _ _ _ _ directive tokens _ shortcut whole start stop _ ih =>
      have inside : Text.slice source directive.span = replaced := by
        have parts := Text.slice_parts (front ++ plain) replaced left
        rwa [whole, start, stop] at parts
      rw [List.flatMap_append, Token.covered_ofPlain, List.flatMap_cons, Token.covered,
        if_neg (by simp [shortcut]), inside, ← List.append_assoc, ← List.append_assoc]
      exact ih

/-- Spans lie in the text, behind what was emitted before. -/
theorem span_within (cutting : Cutting source front passed tokens) :
    ∀ span ∈ Token.spans tokens, Text.byteLength front ≤ span.start ∧ span.Within source := by
  induction cutting with
  | done => simp
  | skip _ _ ih => exact ih
  | declare _ shortcut _ ih =>
      rw [Token.spans_cons_of_isShortcut shortcut]
      exact ih
  | @replace front plain replaced left _ _ _ _ directive tokens _ shortcut whole start stop _ ih =>
      rw [Token.spans_append, Token.spans_ofPlain, List.nil_append,
        Token.spans_cons_of_not_isShortcut shortcut]
      rw [Text.byteLength_append] at start
      have longer := stop
      rw [Text.byteLength_append, Text.byteLength_append] at longer
      intro span member
      rcases List.mem_cons.1 member with rfl | later
      · refine ⟨by omega, by omega, ?_, ?_⟩
        · rw [← start, ← Text.byteLength_append, ← whole, List.append_assoc]
          exact Text.isBoundary_byteLength _ _
        · rw [← stop, ← whole]
          exact Text.isBoundary_byteLength _ _
      · obtain ⟨behind, inside⟩ := ih span later
        exact ⟨by omega, inside⟩

/-- Spans follow one another. -/
theorem spans_increasing (cutting : Cutting source front passed tokens) :
    (Token.spans tokens).Pairwise fun earlier later => earlier.stop ≤ later.start := by
  induction cutting with
  | done => simp
  | skip _ _ ih => exact ih
  | declare _ shortcut _ ih =>
      rw [Token.spans_cons_of_isShortcut shortcut]
      exact ih
  | replace _ shortcut _ _ stop others ih =>
      rw [Token.spans_append, Token.spans_ofPlain, List.nil_append,
        Token.spans_cons_of_not_isShortcut shortcut, List.pairwise_cons]
      exact ⟨fun span member => stop ▸ (others.span_within span member).1, ih⟩

/-- No run of plain text is empty. -/
theorem text_ne_empty (cutting : Cutting source front passed tokens) {value : String}
    (member : Token.text value ∈ tokens) : value ≠ "" := by
  induction cutting with
  | done => exact Token.ne_empty_of_mem_ofPlain member
  | skip _ _ ih => exact ih member
  | declare _ _ _ ih =>
      rcases List.mem_cons.1 member with same | later
      · cases same
      · exact ih later
  | replace _ _ _ _ _ _ ih =>
      rcases List.mem_append.1 member with plain | behind
      · exact Token.ne_empty_of_mem_ofPlain plain
      · rcases List.mem_cons.1 behind with same | later
        · cases same
        · exact ih later

/-- Runs of plain text are separated. -/
theorem separated (cutting : Cutting source front passed tokens) : Token.Separated tokens := by
  induction cutting with
  | done => exact Token.separated_ofPlain _
  | skip _ _ ih => exact ih
  | declare _ _ _ ih => exact ih.directive_cons _
  | replace _ shortcut _ _ _ _ ih => exact (ih.directive_cons _).ofPlain_append shortcut _

end Cutting

/-- **The tokens of a text partition it.** -/
theorem Token.ofText_partition {source : String} {tokens : List Token}
    (result : Token.ofText source = .ok tokens) : Partition source.toList tokens :=
  have cutting := cutting_of_ofText result
  { whole := cutting.append_covered
    increasing := cutting.spans_increasing
    within := fun span member => (cutting.span_within span member).2
    nonempty := fun _ member => cutting.text_ne_empty member
    separated := cutting.separated }

/-- A text with a declaration, a skipped region, a line, and a region whose
opening call skips a character of two bytes and whose span is empty. -/
theorem Token.ofText_partition_mixed :
    Partition
      ("$inline.shortcut('x','y')\nü$inline.skipStart$inline('no')$inline.skipEnd\n" ++
        "a $inline.line('b') c\n$inline.open('u',2)év$inline.close(1)").toList
      [.directive ⟨.shortcut, [.text "x", .text "y"], ⟨0, 25⟩⟩,
        .text "$inline.shortcut('x','y')\nü$inline.skipStart$inline('no')$inline.skipEnd\n",
        .directive ⟨.line, [.text "b"], ⟨74, 95⟩⟩,
        .text "\n$inline.open('u',2)é",
        .directive ⟨.region, [.text "u", .number ⟨0x4000000000000000⟩], ⟨117, 117⟩⟩,
        .text "v$inline.close(1)"] :=
  Token.ofText_partition (by decide +kernel)

end Transclusion
