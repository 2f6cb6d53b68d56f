import Transclusion.Shortcut.Template
import Transclusion.Proofs.Text.Runs
import Mathlib.Data.List.TakeWhile
import Mathlib.Data.Nat.Digits.Defs

/-!
# The pieces of a template

A template falls into pieces: placeholders for one argument or for all of them, runs of
characters without a dollar sign, and dollar signs that stand for themselves. A piece is as
long as it can be, which is a condition on what follows it (`Piece.Leads`), and with it there
is exactly one way to take a template apart (`exists_decomposes`, `Decomposes.unique`).

Expanding a template replaces each piece by what it contributes and looks at nothing twice:
what an argument contributes is not taken apart again (`expandChars_of_decomposes`). So a
template may be expanded in two parts wherever it is divided, as long as no placeholder is
(`expand_pieces`). A number that is too large for a position is taken for zero, and
contributes what it would contribute to any list of arguments that is not too long itself
(`Piece.contribution_eq_image`).
-/

set_option autoImplicit false

namespace Transclusion.Template

open Text

/-! ## Pieces -/

/-- A piece of a template. -/
inductive Piece where
  /-- Characters without a dollar sign. -/
  | run (chars : List Char)
  /-- A dollar sign and an ampersand. -/
  | all
  /-- A dollar sign and decimal digits. -/
  | position (digits : List Char)
  /-- Any other dollar sign. -/
  | dollar
deriving DecidableEq, Repr

namespace Piece

/-- The characters of a piece. -/
def text : Piece → List Char
  | .run chars => chars
  | .all => ['$', '&']
  | .position digits => '$' :: digits
  | .dollar => ['$']

/-- Whether a piece stands for arguments. -/
def isPlaceholder : Piece → Bool
  | .all | .position _ => true
  | .run _ | .dollar => false

/-- The piece with which a text begins, when `rest` is what follows it. -/
inductive Leads (rest : List Char) : Piece → Prop
  | run {chars : List Char} (filled : chars ≠ []) (plain : '$' ∉ chars)
      (maximal : ∀ char ∈ rest.head?, char = '$') : Leads rest (.run chars)
  | all : Leads rest .all
  | position {digits : List Char} (filled : digits ≠ [])
      (decimal : ∀ digit ∈ digits, digit.isDigit = true)
      (maximal : ∀ char ∈ rest.head?, char.isDigit = false) : Leads rest (.position digits)
  | dollar (other : ∀ char ∈ rest.head?, char ≠ '&' ∧ char.isDigit = false) : Leads rest .dollar

/-- The number that decimal digits stand for, however many there are. -/
def numeral (digits : List Char) : Nat :=
  Nat.ofDigits 10 (digits.reverse.map fun digit => digit.toNat - '0'.toNat)

/-- What a piece contributes to the expansion. -/
def image (args : List String) : Piece → List Char
  | .run chars => chars
  | .all => (String.intercalate "," (args.map Pipe.escapeValue)).toList
  | .position digits =>
      if numeral digits = 0 then [] else (args.getD (numeral digits - 1) "").toList
  | .dollar => ['$']

end Piece

/-- The pieces of a text from left to right. -/
inductive Decomposes : List Char → List Piece → Prop
  | nil : Decomposes [] []
  | cons {piece : Piece} {rest : List Char} {others : List Piece} (leads : piece.Leads rest)
      (behind : Decomposes rest others) : Decomposes (piece.text ++ rest) (piece :: others)

/-! ## There is one decomposition -/

/-- The piece with which a text begins. -/
def lead : List Char → Piece
  | '$' :: '&' :: _ => .all
  | '$' :: rest =>
      if rest.takeWhile Char.isDigit = [] then .dollar
      else .position (rest.takeWhile Char.isDigit)
  | text => .run (text.takeWhile (· ≠ '$'))

theorem lead_dollar {rest : List Char} (other : rest.head? ≠ some '&') :
    lead ('$' :: rest) =
      if rest.takeWhile Char.isDigit = [] then .dollar
      else .position (rest.takeWhile Char.isDigit) := by
  rw [lead]
  rintro _ rfl
  exact other rfl

theorem lead_plain {char : Char} (plain : char ≠ '$') (rest : List Char) :
    lead (char :: rest) = .run ((char :: rest).takeWhile (· ≠ '$')) := by
  rw [lead]
  · simp [plain]
  · simp [plain]

namespace Piece

theorem text_ne_nil {piece : Piece} {rest : List Char} (leads : piece.Leads rest) :
    piece.text ≠ [] := by
  cases leads with
  | run filled => exact filled
  | all | position | dollar => exact List.cons_ne_nil _ _

/-- Digits are not taken for an ampersand. -/
theorem head?_ne_ampersand {digits : List Char} (filled : digits ≠ [])
    (decimal : ∀ digit ∈ digits, digit.isDigit = true) (rest : List Char) :
    (digits ++ rest).head? ≠ some '&' := by
  obtain ⟨digit, others, rfl⟩ := List.exists_cons_of_ne_nil filled
  rintro ⟨⟩
  cases decimal '&' List.mem_cons_self

/-- A piece that leads a text is the one that the text begins with. -/
theorem Leads.eq_lead {piece : Piece} {rest : List Char} (leads : piece.Leads rest) :
    lead (piece.text ++ rest) = piece := by
  cases leads with
  | @run chars filled plain maximal =>
      cases chars with
      | nil => exact absurd rfl filled
      | cons char chars =>
          have inside : ∀ other ∈ char :: chars, decide (other ≠ '$') = true := by
            intro other member
            exact decide_eq_true fun same => plain (same ▸ member)
          have stop : ∀ other ∈ rest.head?, decide (other ≠ '$') = false := by
            intro other member
            simpa using maximal other member
          rw [text, List.cons_append, lead_plain (by simpa using inside char List.mem_cons_self),
            ← List.cons_append, (takeWhile_append_of_stop inside stop).1]
  | all => rfl
  | @position digits filled decimal maximal =>
      rw [text, List.cons_append, lead_dollar (head?_ne_ampersand filled decimal rest),
        (takeWhile_append_of_stop decimal maximal).1, if_neg filled]
  | dollar other =>
      have none := (takeWhile_eq_nil_of_stop fun char member => (other char member).2).1
      rw [text, List.singleton_append, lead_dollar fun same => (other '&' same).1 rfl, if_pos none]

end Piece

/-- A text that is not empty begins with a piece. -/
theorem exists_leads {text : List Char} (nonempty : text ≠ []) :
    ∃ piece rest, Piece.Leads rest piece ∧ piece.text ++ rest = text := by
  cases text with
  | nil => exact absurd rfl nonempty
  | cons char rest =>
      by_cases plain : char = '$'
      · subst plain
        by_cases ampersand : rest.head? = some '&'
        · obtain ⟨tail, rfl⟩ := List.head?_eq_some_iff.1 ampersand
          exact ⟨.all, tail, .all, rfl⟩
        · have stop := stop_dropWhile Char.isDigit rest
          have whole := List.takeWhile_append_dropWhile (p := Char.isDigit) (l := rest)
          by_cases none : rest.takeWhile Char.isDigit = []
          · rw [none, List.nil_append] at whole
            rw [whole] at stop
            refine ⟨.dollar, rest, .dollar fun char member => ⟨?_, stop char member⟩, rfl⟩
            rintro rfl
            exact ampersand member
          · have decimal : ∀ digit ∈ rest.takeWhile Char.isDigit, digit.isDigit = true :=
              fun digit member => List.mem_takeWhile_imp member
            exact ⟨.position _, _, .position none decimal stop, congrArg ('$' :: ·) whole⟩
      · have stop := stop_dropWhile (· ≠ '$') (char :: rest)
        refine ⟨.run ((char :: rest).takeWhile (· ≠ '$')), (char :: rest).dropWhile (· ≠ '$'),
          .run ?_ ?_ ?_, List.takeWhile_append_dropWhile⟩
        · simp [plain]
        · intro member
          simpa using List.mem_takeWhile_imp member
        · intro other member
          simpa using stop other member

theorem exists_decomposes (template : List Char) : ∃ pieces, Decomposes template pieces := by
  by_cases nonempty : template = []
  · subst nonempty
    exact ⟨[], .nil⟩
  · obtain ⟨piece, rest, leads, whole⟩ := exists_leads nonempty
    have shorter : rest.length < template.length := by
      have := List.length_pos_iff.2 (Piece.text_ne_nil leads)
      rw [← whole, List.length_append]
      omega
    obtain ⟨others, behind⟩ := exists_decomposes rest
    exact ⟨piece :: others, whole ▸ .cons leads behind⟩
termination_by template.length

/-- **A template is taken apart in one way.** -/
theorem Decomposes.unique {template : List Char} {pieces others : List Piece}
    (first : Decomposes template pieces) (second : Decomposes template others) :
    pieces = others := by
  induction first generalizing others with
  | nil =>
      generalize empty : ([] : List Char) = text at second
      cases second with
      | nil => rfl
      | cons leads => exact absurd (List.append_eq_nil_iff.1 empty.symm).1 (Piece.text_ne_nil leads)
  | @cons piece rest pieces leads behind ih =>
      generalize same : piece.text ++ rest = text at second
      cases second with
      | nil => exact absurd (List.append_eq_nil_iff.1 same).1 (Piece.text_ne_nil leads)
      | @cons other left others leads' behind' =>
          have equal : piece = other := by rw [← leads.eq_lead, same, leads'.eq_lead]
          subst equal
          rw [List.append_cancel_left same] at ih
          rw [ih behind']

/-! ## Expanding piece by piece -/

theorem ofDigitChars_eq_numeral (digits : List Char) :
    Nat.ofDigitChars 10 digits 0 = Piece.numeral digits := by
  rw [Nat.ofDigitChars, Piece.numeral, Nat.ofDigits_eq_foldr, List.foldr_map,
    List.foldl_eq_foldr_reverse]
  congr 1
  funext digit number
  exact Nat.add_comm _ _

theorem argAt_eq (args : List String) (position : Nat) :
    argAt args position = if position = 0 then [] else (args.getD (position - 1) "").toList := by
  cases position with
  | zero => rfl
  | succ index => rw [argAt, if_neg (Nat.succ_ne_zero index), List.getD_eq_getElem?_getD]; rfl

/-- There is no argument at a position that is too large for the list. -/
theorem argAt_of_length_lt {args : List String} {position : Nat} (beyond : args.length < position) :
    argAt args position = [] := by
  cases position with
  | zero => rfl
  | succ index =>
      rw [argAt, List.getElem?_eq_none (Nat.le_of_lt_succ beyond)]
      rfl

namespace Piece

/-- What a piece contributes to the expansion, by the position that its digits give. -/
def contribution (args : List String) : Piece → List Char
  | .run chars => chars
  | .all => allArgs args
  | .position digits => argAt args (positionOf digits)
  | .dollar => ['$']

/-- **No number is too large for the lists of arguments that are not too long.** -/
theorem contribution_eq_image {args : List String} (short : args.length < positionLimit)
    {piece : Piece} {rest : List Char} (leads : piece.Leads rest) :
    piece.contribution args = piece.image args := by
  cases leads with
  | run | all | dollar => rfl
  | position =>
      rw [contribution, image, ← argAt_eq, ← ofDigitChars_eq_numeral, positionOf]
      split
      · rfl
      · next large => rw [argAt_of_length_lt (Nat.lt_of_lt_of_le short (Nat.le_of_not_lt large))]; rfl

end Piece

section Expanding

variable (args : List String)

theorem expandChars_nil : expandChars args [] = [] := by
  rw [expandChars]

/-- Characters without a dollar sign stand for themselves. -/
theorem expandChars_plain {chars : List Char} (plain : '$' ∉ chars) (rest : List Char) :
    expandChars args (chars ++ rest) = chars ++ expandChars args rest := by
  induction chars with
  | nil => rfl
  | cons char chars ih =>
      rw [List.mem_cons, not_or] at plain
      rw [List.cons_append, expandChars, ih plain.2, List.cons_append]
      · simp [Ne.symm plain.1]
      · simp [Ne.symm plain.1]

/-- **Expanding a template replaces the piece it begins with by what it contributes.** -/
theorem expandChars_text_append {piece : Piece} {rest : List Char} (leads : piece.Leads rest) :
    expandChars args (piece.text ++ rest) = piece.contribution args ++ expandChars args rest := by
  cases leads with
  | run filled plain => exact expandChars_plain args plain rest
  | all =>
      rw [Piece.text, List.cons_append, List.singleton_append, expandChars]
      rfl
  | @position digits filled decimal maximal =>
      obtain ⟨taken, dropped⟩ := takeWhile_append_of_stop decimal maximal
      rw [Piece.text, List.cons_append, expandChars]
      · simp only [taken, dropped, if_neg filled]
        rfl
      · rintro _ ampersand
        refine Piece.head?_ne_ampersand filled decimal rest ?_
        rw [ampersand]
        rfl
  | dollar other =>
      have none := (takeWhile_eq_nil_of_stop fun char member => (other char member).2).1
      rw [Piece.text, List.singleton_append, expandChars]
      · simp only [none, if_true]
        rfl
      · rintro _ rfl
        exact (other '&' rfl).1 rfl

/-- **The expansion of a template is the concatenation of the images of its pieces.** -/
theorem expandChars_of_decomposes (short : args.length < positionLimit) {template : List Char}
    {pieces : List Piece} (decomposes : Decomposes template pieces) :
    expandChars args template = pieces.flatMap (Piece.image args) := by
  induction decomposes with
  | nil => exact expandChars_nil args
  | cons leads behind ih =>
      rw [expandChars_text_append args leads, Piece.contribution_eq_image short leads, ih,
        List.flatMap_cons]

end Expanding

/-! ## Expanding in two parts -/

/-- A division behind a number of characters cuts a placeholder in two. -/
def Cuts (pieces : List Piece) (offset : Nat) : Prop :=
  ∃ index : Fin pieces.length, pieces[index].isPlaceholder = true ∧
    ((pieces.take index).flatMap Piece.text).length < offset ∧
    offset < ((pieces.take (index + 1)).flatMap Piece.text).length

instance (pieces : List Piece) (offset : Nat) : Decidable (Cuts pieces offset) :=
  inferInstanceAs (Decidable (∃ _ : Fin pieces.length, _))

theorem Cuts.cons {pieces : List Piece} {offset : Nat} (cuts : Cuts pieces offset) (piece : Piece) :
    Cuts (piece :: pieces) (piece.text.length + offset) := by
  obtain ⟨index, placeholder, after, before⟩ := cuts
  refine ⟨index.succ, placeholder, ?_, ?_⟩
  · simpa using after
  · simpa using before

/-- A division inside the first piece. -/
theorem cuts_first {piece : Piece} {offset : Nat} (placeholder : piece.isPlaceholder = true)
    (after : 0 < offset) (before : offset < piece.text.length) (pieces : List Piece) :
    Cuts (piece :: pieces) offset :=
  ⟨⟨0, by simp⟩, placeholder, by simpa using after, by simpa using before⟩

namespace Piece

/-- A piece that leads a text leads every shorter one. -/
theorem Leads.of_append {piece : Piece} {front back : List Char}
    (leads : piece.Leads (front ++ back)) : piece.Leads front := by
  have head : ∀ char ∈ front.head?, char ∈ (front ++ back).head? := by
    intro char member
    obtain ⟨others, rfl⟩ := List.head?_eq_some_iff.1 member
    rfl
  cases leads with
  | run filled plain maximal =>
      exact .run filled plain fun char member => maximal char (head char member)
  | all => exact .all
  | position filled decimal maximal =>
      exact .position filled decimal fun char member => maximal char (head char member)
  | dollar other => exact .dollar fun char member => other char (head char member)

end Piece

/-- A run is expanded in two parts. -/
theorem expandChars_run_append (args : List String) {left outer rest : List Char}
    (plain : '$' ∉ left ++ outer) :
    expandChars args (left ++ outer ++ rest) =
      expandChars args left ++ expandChars args (outer ++ rest) := by
  have inner : '$' ∉ left := fun member => plain (List.mem_append_left outer member)
  have alone := expandChars_plain args inner []
  rw [List.append_nil, expandChars_nil, List.append_nil] at alone
  rw [List.append_assoc, expandChars_plain args inner, alone]

/-- **A template may be expanded in two parts, unless a placeholder is cut.** -/
theorem expandChars_append (args : List String) {template left right : List Char}
    {pieces : List Piece} (decomposes : Decomposes template pieces)
    (whole : left ++ right = template) (uncut : ¬ Cuts pieces left.length) :
    expandChars args template = expandChars args left ++ expandChars args right := by
  induction decomposes generalizing left with
  | nil =>
      obtain ⟨rfl, rfl⟩ := List.append_eq_nil_iff.1 whole
      rw [expandChars_nil]
      rfl
  | @cons piece rest others leads behind ih =>
      have start : left <+: piece.text ++ rest := ⟨right, whole⟩
      by_cases long : piece.text.length ≤ left.length
      · -- the division lies behind the first piece
        obtain ⟨inner, rfl⟩ := List.prefix_of_prefix_length_le ⟨rest, rfl⟩ start long
        rw [List.append_assoc] at whole
        have divided := List.append_cancel_left whole
        have further : ¬ Cuts others inner.length := by
          intro cuts
          rw [List.length_append] at uncut
          exact uncut (cuts.cons piece)
        rw [expandChars_text_append args leads, ih divided further,
          expandChars_text_append args (divided ▸ leads).of_append, List.append_assoc]
      · rw [Nat.not_le] at long
        obtain ⟨outer, shape⟩ :=
          List.prefix_of_prefix_length_le start ⟨rest, rfl⟩ (Nat.le_of_lt long)
        rw [← shape, List.append_assoc] at whole
        have divided := List.append_cancel_left whole
        by_cases empty : left = []
        · subst empty
          rw [expandChars_nil, List.nil_append, divided, ← shape]
          rfl
        · -- only a run is long enough to be divided and no placeholder
          have filled := List.length_pos_iff.2 empty
          have literal : ¬ piece.isPlaceholder = true := fun placeholder =>
            uncut (cuts_first placeholder filled long others)
          cases leads with
          | run _ plain =>
              rw [Piece.text] at shape
              subst shape
              rw [divided]
              exact expandChars_run_append args plain
          | all | position => exact absurd rfl literal
          | dollar =>
              rw [Piece.text, List.length_singleton] at long
              omega

/-- **A template is expanded piece by piece, from left to right.** There is one way to take a
template apart into placeholders, runs without a dollar sign and other dollar signs, all of
them as long as they can be. Its expansion is the concatenation of what the pieces
contribute: a placeholder with digits the argument of that number, counted from one, and
nothing if there is none, a placeholder with an ampersand all arguments as they are written
in a pipe expression, and everything else itself. Numbers may be of any size, as long as the
arguments are not more than can be counted with 64 bits. So the two parts of a template may
be expanded on their own if no placeholder is cut. -/
theorem expand_pieces (template : String) :
    ∃ pieces, (∀ others, Decomposes template.toList others ↔ others = pieces) ∧
      (∀ args, args.length < positionLimit →
        expand template args = String.ofList (pieces.flatMap (Piece.image args))) ∧
      ∀ args left right, left ++ right = template → ¬ Cuts pieces left.toList.length →
        expand template args = expand left args ++ expand right args := by
  obtain ⟨pieces, decomposes⟩ := exists_decomposes template.toList
  refine ⟨pieces, fun others => ⟨fun other => other.unique decomposes, ?_⟩, ?_, ?_⟩
  · rintro rfl
    exact decomposes
  · intro args short
    rw [expand, expandChars_of_decomposes args short decomposes]
  · intro args left right whole uncut
    have chars : left.toList ++ right.toList = template.toList := by
      rw [← whole, String.toList_append]
    rw [expand, expandChars_append args decomposes chars uncut, String.ofList_append]
    rfl

/-- A template with two dollar signs in a row, leading zeros, a number that is far too large
and an argument that looks like a placeholder. -/
theorem expand_pieces_mixed :
    let template := "a$$2$&$18446744073709551617$01$"
    let pieces : List Piece := [.run ['a'], .dollar, .position ['2'], .all,
      .position "18446744073709551617".toList, .position ['0', '1'], .dollar]
    let args := ["$2", "x,y"]
    Decomposes template.toList pieces ∧
      expand template args = "a$x,y$2,x\\,y$2$" ∧
      expand template args = expand "a$$2" args ++ expand "$&$18446744073709551617$01$" args := by
  intro template pieces args
  have shape : template.toList = pieces.flatMap Piece.text ++ [] := by decide +kernel
  have decomposes : Decomposes template.toList pieces := by
    rw [shape]
    simp only [pieces, List.flatMap_cons, List.append_assoc]
    exact .cons (.run (by simp) (by simp) (by simp [Piece.text])) <|
      .cons (.dollar (by simp [Piece.text])) <|
      .cons (.position (by simp) (by simp) (by simp [Piece.text])) <| .cons .all <|
      .cons (.position (by simp) (List.all_eq_true.1 (by decide +kernel))
        (by simp [Piece.text])) <|
      .cons (.position (by simp) (by simp) (by simp [Piece.text])) <|
      .cons (.dollar (by simp)) .nil
  obtain ⟨found, unique, images, parts⟩ := expand_pieces template
  have same : pieces = found := (unique pieces).1 decomposes
  refine ⟨decomposes, ?_, ?_⟩
  · rw [images args (by decide +kernel), ← same]
    decide +kernel
  · exact parts args "a$$2" "$&$18446744073709551617$01$" (by decide +kernel)
      (same ▸ by decide +kernel)

end Transclusion.Template
