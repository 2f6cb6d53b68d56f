import Transclusion.Proofs.Engine.Execution
import Transclusion.Proofs.Lexer.Partition

/-!
# A resolved text is its source with the spans replaced

The content of a node whose text was resolved is the text itself, byte for byte,
with the spans of its directives replaced by the contents of the node's
children, in order (`splice`). Declarations and skipped regions belong to the
text that is kept. A node is binary exactly if one of its children is.

The proof goes from tokens to parts: planning and resolving put one part in the
place of every token that is no declaration (`Fills`), and along the derivation
of the tokens the bytes of the parts are the splice of what is left of the text.
-/

set_option autoImplicit false

namespace Transclusion

/-! ## Bytes of contents -/

namespace Content

@[simp] theorem bytes_text (text : String) : (Content.text text).bytes = text.toByteArray := rfl

theorem concatBytes_cons (part : Content) (parts : List Content) :
    concatBytes (part :: parts) = part.bytes ++ concatBytes parts := by
  have shift : ∀ (rest : List Content) (joined : ByteArray),
      rest.foldl (fun joined part => joined ++ part.bytes) joined = joined ++ concatBytes rest := by
    intro rest
    induction rest with
    | nil => simp [concatBytes]
    | cons next rest ih =>
        intro joined
        simp only [concatBytes, List.foldl_cons]
        rw [ih, ih, ByteArray.empty_append, ByteArray.append_assoc]
  rw [concatBytes, List.foldl_cons, shift, ByteArray.empty_append]

theorem isBinary_join (parts : List Content) : (join parts).isBinary = parts.any isBinary := by
  unfold join
  split
  · next binary => rw [isBinary, binary]
  · next text => simpa [isBinary] using text

/-- Joining keeps the bytes, whether the parts are texts or not. -/
theorem bytes_join (parts : List Content) : (join parts).bytes = concatBytes parts := by
  have texts : ∀ parts : List Content, parts.any isBinary = false →
      (String.join (parts.map textOrEmpty)).toByteArray = concatBytes parts := by
    intro parts plain
    induction parts with
    | nil => rfl
    | cons part rest ih =>
        rw [List.any_cons, Bool.or_eq_false_iff] at plain
        rw [concatBytes_cons, ← ih plain.2, List.map_cons, String.join_cons,
          String.toByteArray_append]
        cases part with
        | text value => rfl
        | binary value => exact absurd plain.1 (by simp [isBinary])
  unfold join
  split
  · rfl
  · next plain => exact texts parts (by simpa using plain)

end Content

/-! ## The parts of a text -/

/-- Parts fill the places of tokens: a text for plain text, a node for a
directive that replaces its span, and nothing for a declaration. -/
inductive Fills : List Token → List Part → Prop
  | nil : Fills [] []
  | text {tokens : List Token} {parts : List Part} (value : String) (rest : Fills tokens parts) :
      Fills (.text value :: tokens) (.text value :: parts)
  | declare {directive : Directive} {tokens : List Token} {parts : List Part}
      (shortcut : directive.isShortcut = true) (rest : Fills tokens parts) :
      Fills (.directive directive :: tokens) parts
  | node {directive : Directive} {tokens : List Token} {parts : List Part}
      (shortcut : directive.isShortcut = false) (node : Node) (rest : Fills tokens parts) :
      Fills (.directive directive :: tokens) (.node node :: parts)

namespace Part

/-- The bytes of some parts, one after the other. -/
def bytes (parts : List Part) : ByteArray :=
  Content.concatBytes (parts.map content)

/-- The bytes of the nodes among some parts. -/
def nodeBytes (parts : List Part) : List ByteArray :=
  (parts.filterMap node?).map (·.content.bytes)

end Part

namespace Fills

/-- Where plain text stands in front, its bytes come first and no node is among
them. -/
theorem ofPlain_append {plain : List Char} {tokens : List Token} {parts : List Part}
    (fills : Fills (Token.ofPlain plain ++ tokens) parts) :
    ∃ others, Fills tokens others ∧ Part.bytes parts = plain.utf8Encode ++ Part.bytes others ∧
      parts.filterMap Part.node? = others.filterMap Part.node? := by
  unfold Token.ofPlain at fills
  split at fills
  · next empty =>
      subst empty
      exact ⟨parts, fills, by simp, rfl⟩
  · cases fills with
    | text value rest =>
        refine ⟨_, rest, ?_, rfl⟩
        rw [Part.bytes, List.map_cons, Content.concatBytes_cons]
        simp [Part.content, Part.bytes]

/-- There is one node for every span. -/
theorem length_nodes {tokens : List Token} {parts : List Part} (fills : Fills tokens parts) :
    (parts.filterMap Part.node?).length = (Token.spans tokens).length := by
  induction fills with
  | nil => rfl
  | text value _ ih => exact ih
  | declare shortcut _ ih =>
      rw [Token.spans_cons_of_isShortcut shortcut]
      exact ih
  | node shortcut node _ ih =>
      rw [Token.spans_cons_of_not_isShortcut shortcut, List.length_cons, ← ih]
      rfl

/-- A part is binary only if it is a node. -/
theorem any_isBinary {tokens : List Token} {parts : List Part} (fills : Fills tokens parts) :
    (parts.map Part.content).any Content.isBinary =
      (parts.filterMap Part.node?).any (·.content.isBinary) := by
  induction fills with
  | nil => rfl
  | text value _ ih => exact ih
  | declare _ _ ih => exact ih
  | node _ node _ ih =>
      rw [List.map_cons, List.any_cons, ih]
      rfl

end Fills

/-- Along the derivation of the tokens, the bytes of the parts are those of what
is left of the text, with the spans replaced by the nodes. -/
theorem Cutting.bytes_eq_splice {source front passed : List Char} {tokens : List Token}
    {parts : List Part} (cutting : Cutting source front passed tokens)
    (fills : Fills tokens parts) :
    Part.bytes parts =
      splice source.utf8Encode (Text.byteLength front) (Token.spans tokens)
        (Part.nodeBytes parts) := by
  induction cutting generalizing parts with
  | @done front unread _ _ whole =>
      rw [← List.append_nil (Token.ofPlain unread)] at fills
      obtain ⟨others, none, bytes, -⟩ := fills.ofPlain_append
      cases none
      have kept := Text.extract_utf8Encode front unread []
      rw [List.append_nil, whole, ← Text.size_utf8Encode source] at kept
      rw [bytes, Token.spans_ofPlain, splice_nil, kept]
      simp [Part.bytes, Content.concatBytes]
  | skip _ _ ih => exact ih fills
  | declare _ shortcut _ ih =>
      cases fills with
      | declare _ rest =>
          rw [Token.spans_cons_of_isShortcut shortcut]
          exact ih rest
      | node plain _ _ => simp [shortcut] at plain
  | @replace front plain replaced left _ _ _ _ directive _ _ shortcut whole start stop _ ih =>
      obtain ⟨others, rest, bytes, nodes⟩ := fills.ofPlain_append
      cases rest with
      | declare declared _ => simp [shortcut] at declared
      | @node _ _ others _ node rest =>
          have kept := Text.extract_utf8Encode front plain (replaced ++ left)
          rw [← List.append_assoc, whole, start] at kept
          rw [Token.spans_append, Token.spans_ofPlain, List.nil_append,
            Token.spans_cons_of_not_isShortcut shortcut, bytes, Part.nodeBytes, nodes]
          simp only [Part.bytes, List.map_cons, Content.concatBytes_cons]
          have tail := ih rest
          rw [stop] at tail
          rw [List.filterMap_cons, Part.node?, List.map_cons, splice, kept, ByteArray.append_assoc]
          exact congrArg _ (congrArg _ tail)

/-! ## Resolved texts -/

section Resolved

variable {m : Type → Type} [Monad m] {World : Type} [Runs m World]

/-- Planned and resolved without error, tokens are filled with parts. -/
theorem fills_of_resolvePieces {resolveInclusion : Inclusion → Resolution m Node}
    {defaultResource : String} {target : Target} {text : String} {scope : Scope}
    {tokens : List Token} {planned : List Piece} {parts : List Part}
    {state after : Cache × World}
    (plan : Plan.pieces defaultResource target text scope tokens = .ok planned)
    (resolved :
      (Engine.resolvePieces resolveInclusion planned).exec state = (.ok parts, after)) :
    Fills tokens parts := by
  fun_induction Plan.pieces defaultResource target text scope tokens
    generalizing planned parts state with
  | case1 =>
      cases plan
      rw [Engine.resolvePieces, Resolution.exec_pure] at resolved
      cases resolved
      exact .nil
  | case2 scope value rest ih =>
      obtain ⟨others, tail, rfl⟩ := Reading.eq_ok_of_map plan
      rw [Engine.resolvePieces] at resolved
      obtain ⟨filled, between, first, last⟩ := Resolution.exec_bind_eq_ok resolved
      rw [Resolution.exec_pure] at last
      cases last
      exact .text value (ih tail first)
  | case3 => cases plan
  | case4 scope directive rest shortcut declared _ ih => exact .declare shortcut (ih plan resolved)
  | case5 => cases plan
  | case6 scope directive rest shortcut inclusion _ ih =>
      obtain ⟨others, tail, rfl⟩ := Reading.eq_ok_of_map plan
      rw [Engine.resolvePieces] at resolved
      obtain ⟨node, reached, first, next⟩ := Resolution.exec_bind_eq_ok resolved
      obtain ⟨filled, between, second, last⟩ := Resolution.exec_bind_eq_ok next
      rw [Resolution.exec_pure] at last
      cases last
      exact .node (by simpa using shortcut) node (ih tail second)

/-- A text that was planned was cut into tokens. -/
theorem Plan.exists_tokens_of_ofText {defaultResource : String} {scope : Scope} {target : Target}
    {text : String} {planned : List Piece}
    (plan : Plan.ofText defaultResource scope target text = .ok planned) :
    ∃ tokens, Token.ofText text = .ok tokens ∧
      Plan.pieces defaultResource target text scope tokens = .ok planned := by
  unfold Plan.ofText at plan
  split at plan
  · cases plan
  · next tokens cut => exact ⟨tokens, cut, plan⟩

/-- **A resolved text is its source with the spans replaced.** Where the content
of a request is a text and the resolution succeeds, the node has one child for
every directive that replaces a span, its bytes are those of the text with the
spans replaced by the contents of the children, and it is binary if and only if
one of the children is. -/
theorem Engine.resolve_splice {engine : Engine m} {request : Request} {state : Cache × World}
    {target : Target} {text : String} {node : Node}
    (obtains : engine.Obtains request state target (.text text))
    (resolved : ((engine.resolve request).exec state).1 = .ok node) :
    ∃ tokens, Token.ofText text = .ok tokens ∧
      node.children.length = (Token.spans tokens).length ∧
      node.content.bytes =
        splice text.toUTF8 0 (Token.spans tokens) (node.children.map (·.content.bytes)) ∧
      (node.content.isBinary = true ↔ ∃ child ∈ node.children, child.content.isBinary = true) := by
  obtain ⟨below, located, content, between, -, place, read, rest⟩ :=
    exec_resolveWithin_eq_ok (Prod.ext resolved rfl)
  have same : located = target := Except.ok.inj (place.symm.trans obtains.located)
  subst same
  have isText : content = .text text := by
    have outcome := obtains.obtained
    rw [read] at outcome
    exact Except.ok.inj outcome
  subst isText
  obtain ⟨planned, parts, plan, pieces, rfl⟩ := exec_resolveContent_text_eq_ok rest
  obtain ⟨tokens, cut, tokenPlan⟩ := Plan.exists_tokens_of_ofText plan
  have fills := fills_of_resolvePieces tokenPlan pieces
  refine ⟨tokens, cut, fills.length_nodes, ?_, ?_⟩
  · have bytes := (cutting_of_ofText cut).bytes_eq_splice fills
    rw [String.utf8Encode_toList] at bytes
    exact (Content.bytes_join _).trans bytes
  · have binary : (Part.assemble located parts).content.isBinary = _ := Content.isBinary_join _
    rw [binary, fills.any_isBinary, List.any_eq_true]
    rfl

end Resolved

/-- A text with two inclusions, the second by a shortcut and of bytes that are
no text. -/
theorem Engine.resolve_splice_mixed :
    let text := "x$inline('b')\n$inline.shortcut('s','c')$inline('s')y"
    let engine := Engine.ofEntries
      [("a", .text text), ("b", .text "é"), ("c", .binary ⟨#[0xff]⟩)]
    ∃ node tokens,
      ((engine.resolve { target := ⟨"file", ["a"]⟩ }).exec (.empty, ())).1 = .ok node ∧
      node.content.isBinary = true ∧ Token.ofText text = .ok tokens ∧
      node.children.length = (Token.spans tokens).length ∧
      node.content.bytes =
        splice text.toUTF8 0 (Token.spans tokens) (node.children.map (·.content.bytes)) := by
  intro text engine
  have success : ((engine.resolve { target := ⟨"file", ["a"]⟩ }).exec (.empty, ())).1.toOption.map
      (·.content.isBinary) = some true := by decide +kernel
  obtain ⟨node, resolved, binary⟩ := exists_ok_of_toOption_map success
  obtain ⟨tokens, cut, children, bytes, -⟩ := Engine.resolve_splice ⟨rfl, rfl⟩ resolved
  exact ⟨node, tokens, resolved, binary, cut, children, bytes⟩

end Transclusion
