import Transclusion.Pipe
import Transclusion.Proofs.Text.Runs
import Mathlib.Data.List.DropRight

/-!
# Written pieces of a pipe expression

A name or an argument is written with a backslash before each of its
delimiters, and read by cutting the text at the first bare delimiter, dropping
the blanks around the part and then the backslashes. This module says what
becomes of one written piece, whatever text follows it.

Cutting and unescaping pass over a written piece as a whole, unless it ends in
a backslash and a delimiter follows (`cut_escape_append`,
`unescape_escape_append`). A piece that a delimiter follows is read back exactly
if it is settled: no blank stands at either end of it, and it does not end in a
backslash (`piece_cut_delimiter_iff`). A piece at the end of the text need only
be trimmed (`piece_escape_iff`).
-/

set_option autoImplicit false

namespace Transclusion

/-! ## Trimmed texts -/

namespace Text

/-- A text with no blank at either end. -/
structure Trimmed (text : List Char) : Prop where
  first : ∀ char ∈ text.head?, isBlank char = false
  last : ∀ char ∈ text.getLast?, isBlank char = false

theorem trimEnd_eq_rdropWhile (text : List Char) : trimEnd text = text.rdropWhile isBlank := rfl

/-- Trimming leaves no blank at either end. -/
theorem trimmed_trim (text : List Char) : Trimmed (trim text) := by
  rw [trim, trimEnd_eq_rdropWhile]
  refine ⟨?_, ?_⟩
  · intro char member
    obtain ⟨rest, whole⟩ := List.rdropWhile_prefix isBlank (l := trimStart text)
    obtain ⟨others, shape⟩ := List.head?_eq_some_iff.1 member
    have head : (trimStart text).head? = some char := by
      rw [← whole, shape]
      rfl
    exact stop_dropWhile isBlank text char head
  · intro char member
    obtain ⟨nonempty, last⟩ := List.mem_getLast?_eq_getLast member
    have solid := List.rdropWhile_last_not isBlank (trimStart text) nonempty
    rw [← last] at solid
    simpa using solid

/-- A trimmed text is what trimming leaves alone. -/
theorem trim_eq_self_iff {text : List Char} : trim text = text ↔ Trimmed text := by
  refine ⟨fun same => same ▸ trimmed_trim text, fun trimmed => ?_⟩
  have start : trimStart text = text := by
    cases text with
    | nil => rfl
    | cons char rest => exact List.dropWhile_cons_of_neg (by simp [trimmed.first char rfl])
  rw [trim, start, trimEnd_eq_rdropWhile, List.rdropWhile_eq_self_iff]
  intro nonempty
  simpa using trimmed.last _ (List.getLast?_eq_getLast_of_ne_nil nonempty)

/-- Trimming at the end keeps everything up to a character that is not blank. -/
theorem exists_trimEnd_append_cons (front rest : List Char) {solid : Char}
    (notBlank : isBlank solid = false) :
    ∃ kept, trimEnd (front ++ solid :: rest) = front ++ solid :: kept := by
  simp only [trimEnd_eq_rdropWhile]
  induction rest using List.reverseRecOn with
  | nil => exact ⟨[], List.rdropWhile_concat_neg isBlank front solid (by simp [notBlank])⟩
  | append_singleton rest char ih =>
      rw [← List.cons_append, ← List.append_assoc, List.rdropWhile_concat]
      split
      · exact ih
      · exact ⟨rest ++ [char], by simp⟩

/-- Trimming keeps everything up to a character that is not blank, if the text
does not begin with a blank. -/
theorem exists_trim_append_cons (front rest : List Char) {solid : Char}
    (first : ∀ char ∈ front.head?, isBlank char = false) (notBlank : isBlank solid = false) :
    ∃ kept, trim (front ++ solid :: rest) = front ++ solid :: kept := by
  have start : trimStart (front ++ solid :: rest) = front ++ solid :: rest := by
    cases front with
    | nil => exact List.dropWhile_cons_of_neg (by simp [notBlank])
    | cons char front => exact List.dropWhile_cons_of_neg (by simp [first char rfl])
  rw [trim, start]
  exact exists_trimEnd_append_cons front rest notBlank

end Text

namespace Pipe

/-! ## Delimiters -/

/-- Characters that may serve as delimiters: neither a backslash nor a blank is
among them. -/
structure Delimiting (delimiters : List Char) : Prop where
  backslash : '\\' ∉ delimiters
  notBlank : ∀ char ∈ delimiters, Text.isBlank char = false

theorem delimiting_nameDelimiters : Delimiting nameDelimiters := by
  refine ⟨by decide, ?_⟩
  intro char member
  rcases List.mem_pair.1 member with rfl | rfl <;> decide

theorem delimiting_valueDelimiters : Delimiting valueDelimiters := by
  refine ⟨by decide, ?_⟩
  intro char member
  rcases List.mem_pair.1 member with rfl | rfl <;> decide

variable {delimiters : List Char}

/-- A text that does not begin with a delimiter. -/
def Undelimited (delimiters text : List Char) : Prop :=
  ∀ char ∈ text.head?, char ∉ delimiters

/-! ## One character at a time -/

theorem escape_cons (char : Char) (rest : List Char) :
    escape delimiters (char :: rest) =
      (if char ∈ delimiters then ['\\', char] else [char]) ++ escape delimiters rest :=
  List.flatMap_cons

theorem escape_append (left right : List Char) :
    escape delimiters (left ++ right) = escape delimiters left ++ escape delimiters right :=
  List.flatMap_append

theorem unescape_cons_of_ne {char : Char} (plain : char ≠ '\\') (rest : List Char) :
    unescape delimiters (char :: rest) = char :: unescape delimiters rest := by
  rw [unescape]
  intro _ _ same
  exact absurd same plain

theorem unescape_backslash_cons {char : Char} (member : char ∈ delimiters) (rest : List Char) :
    unescape delimiters ('\\' :: char :: rest) = char :: unescape delimiters rest := by
  rw [unescape, if_pos member]

/-- A backslash before anything but a delimiter stands for itself. -/
theorem unescape_backslash {rest : List Char} (bare : Undelimited delimiters rest) :
    unescape delimiters ('\\' :: rest) = '\\' :: unescape delimiters rest := by
  cases rest with
  | nil => rfl
  | cons char rest => rw [unescape, if_neg (bare char rfl)]

theorem cut_cons_of_mem {char : Char} (plain : char ≠ '\\') (member : char ∈ delimiters)
    (rest : List Char) : cut delimiters (char :: rest) = ([], some (char, rest)) := by
  rw [cut, if_pos member]
  intro _ _ same
  exact absurd same plain

theorem cut_cons_of_not_mem {char : Char} (plain : char ≠ '\\') (absent : char ∉ delimiters)
    (rest : List Char) :
    cut delimiters (char :: rest) = (char :: (cut delimiters rest).1, (cut delimiters rest).2) := by
  rw [cut, if_neg absent]
  intro _ _ same
  exact absurd same plain

theorem cut_backslash_cons {char : Char} (member : char ∈ delimiters) (rest : List Char) :
    cut delimiters ('\\' :: char :: rest) =
      ('\\' :: char :: (cut delimiters rest).1, (cut delimiters rest).2) := by
  rw [cut, if_pos member]

theorem cut_backslash {rest : List Char} (absent : '\\' ∉ delimiters)
    (bare : Undelimited delimiters rest) :
    cut delimiters ('\\' :: rest) =
      ('\\' :: (cut delimiters rest).1, (cut delimiters rest).2) := by
  cases rest with
  | nil => simp [cut, absent]
  | cons char rest => rw [cut, if_neg (bare char rfl)]

/-! ## A written piece and what follows it -/

/-- A written piece does not begin with a delimiter. -/
theorem undelimited_escape_append (delimiting : Delimiting delimiters) {text : List Char}
    (nonempty : text ≠ []) (tail : List Char) :
    Undelimited delimiters (escape delimiters text ++ tail) := by
  cases text with
  | nil => exact absurd rfl nonempty
  | cons char rest =>
      intro first member
      rw [escape_cons] at member
      split at member
      · cases member
        exact delimiting.backslash
      · next absent =>
          cases member
          exact absent

/-- A piece that can be written before a text: each of its backslashes stands for
itself, since no delimiter comes behind it. -/
inductive Passable (delimiters tail : List Char) : List Char → Prop
  | nil : Passable delimiters tail []
  | delimiter {char : Char} {rest : List Char} (member : char ∈ delimiters)
      (others : Passable delimiters tail rest) : Passable delimiters tail (char :: rest)
  | backslash {rest : List Char} (bare : Undelimited delimiters (escape delimiters rest ++ tail))
      (others : Passable delimiters tail rest) : Passable delimiters tail ('\\' :: rest)
  | other {char : Char} {rest : List Char} (plain : char ≠ '\\') (absent : char ∉ delimiters)
      (others : Passable delimiters tail rest) : Passable delimiters tail (char :: rest)

/-- Only a backslash at the end of a piece meets what follows the piece. -/
theorem passable_of_getLast? (delimiting : Delimiting delimiters) {text tail : List Char}
    (calm : text.getLast? = some '\\' → Undelimited delimiters tail) :
    Passable delimiters tail text := by
  induction text with
  | nil => exact .nil
  | cons char rest ih =>
      have others : Passable delimiters tail rest := by
        refine ih fun last => calm ?_
        rw [List.getLast?_cons, last]
        rfl
      by_cases member : char ∈ delimiters
      · exact .delimiter member others
      · by_cases plain : char = '\\'
        · subst plain
          refine .backslash ?_ others
          by_cases empty : rest = []
          · subst empty
            exact calm rfl
          · exact undelimited_escape_append delimiting empty tail
        · exact .other plain member others

/-- Cutting passes over a written piece. -/
theorem cut_escape_append (delimiting : Delimiting delimiters) {text tail : List Char}
    (passable : Passable delimiters tail text) :
    cut delimiters (escape delimiters text ++ tail) =
      (escape delimiters text ++ (cut delimiters tail).1, (cut delimiters tail).2) := by
  induction passable with
  | nil => rfl
  | delimiter member _ ih =>
      rw [escape_cons, if_pos member, List.append_assoc, List.cons_append, List.singleton_append,
        cut_backslash_cons member, ih]
      rfl
  | backslash bare _ ih =>
      rw [escape_cons, if_neg delimiting.backslash, List.append_assoc, List.singleton_append,
        cut_backslash delimiting.backslash bare, ih]
      rfl
  | other plain absent _ ih =>
      rw [escape_cons, if_neg absent, List.append_assoc, List.singleton_append,
        cut_cons_of_not_mem plain absent, ih]
      rfl

/-- Unescaping a written piece gives the piece. -/
theorem unescape_escape_append (delimiting : Delimiting delimiters) {text tail : List Char}
    (passable : Passable delimiters tail text) :
    unescape delimiters (escape delimiters text ++ tail) = text ++ unescape delimiters tail := by
  induction passable with
  | nil => rfl
  | delimiter member _ ih =>
      rw [escape_cons, if_pos member, List.append_assoc, List.cons_append, List.singleton_append,
        unescape_backslash_cons member, ih]
      rfl
  | backslash bare _ ih =>
      rw [escape_cons, if_neg delimiting.backslash, List.append_assoc, List.singleton_append,
        unescape_backslash bare, ih]
      rfl
  | other plain absent _ ih =>
      rw [escape_cons, if_neg absent, List.append_assoc, List.singleton_append,
        unescape_cons_of_ne plain, ih]
      rfl

/-! ## Ends of pieces -/

/-- A piece that is not empty is written as a text that is not empty. -/
theorem escape_toList_ne_nil {text : String} (filled : text ≠ "") :
    escape delimiters text.toList ≠ [] := by
  rw [ne_eq, escape, List.flatMap_eq_nil_iff]
  intro empty
  refine filled (String.toList_eq_nil_iff.1 (List.eq_nil_iff_forall_not_mem.2 ?_))
  intro char member
  have nothing := empty char member
  split at nothing <;> cases nothing

/-- Escaping keeps the last character. -/
theorem getLast?_escape (text : List Char) :
    (escape delimiters text).getLast? = text.getLast? := by
  induction text with
  | nil => rfl
  | cons char rest ih =>
      rw [escape_cons, List.getLast?_append, ih, List.getLast?_cons]
      split <;> cases rest.getLast? <;> rfl

/-- Unescaping keeps the last character. -/
theorem getLast?_unescape (text : List Char) :
    (unescape delimiters text).getLast? = text.getLast? := by
  fun_induction unescape delimiters text with
  | case1 => rfl
  | case2 char rest member ih =>
      rw [List.getLast?_cons, ih, List.getLast?_cons, List.getLast?_cons]
      rfl
  | case3 char rest absent ih =>
      rw [List.getLast?_cons, ih]
      exact List.getLast?_cons.symm
  | case4 char rest _ ih => rw [List.getLast?_cons, ih, List.getLast?_cons]

/-- A trimmed piece is written without blanks at its ends. -/
theorem trimmed_escape {text : List Char} (trimmed : Text.Trimmed text) :
    Text.Trimmed (escape delimiters text) := by
  refine ⟨?_, ?_⟩
  · intro first member
    cases text with
    | nil => cases member
    | cons char rest =>
        rw [escape_cons] at member
        split at member
        · cases member
          decide
        · cases member
          exact trimmed.first _ rfl
  · rw [getLast?_escape]
    exact trimmed.last

/-- A trimmed part stands for a trimmed piece. -/
theorem trimmed_unescape (delimiting : Delimiting delimiters) {text : List Char}
    (trimmed : Text.Trimmed text) : Text.Trimmed (unescape delimiters text) := by
  refine ⟨?_, ?_⟩
  · intro first member
    unfold unescape at member
    split at member
    · cases member
    · split at member
      · next inside =>
          cases member
          exact delimiting.notBlank _ inside
      · cases member
        decide
    · cases member
      exact trimmed.first _ rfl
  · rw [getLast?_unescape]
    exact trimmed.last

/-! ## Reading one piece back -/

/-- A piece that is read back wherever a delimiter follows it. -/
structure Settled (piece : String) : Prop where
  trimmed : Text.Trimmed piece.toList
  noBackslash : piece.toList.getLast? ≠ some '\\'

theorem piece_eq_iff {part : List Char} {text : String} :
    piece delimiters part = text ↔ unescape delimiters (Text.trim part) = text.toList := by
  rw [piece, ← String.toList_inj, String.toList_ofList]

/-- Whatever is read is trimmed. -/
theorem trimmed_of_piece_eq (delimiting : Delimiting delimiters) {part : List Char} {text : String}
    (same : piece delimiters part = text) : Text.Trimmed text.toList := by
  rw [piece_eq_iff] at same
  rw [← same]
  exact trimmed_unescape delimiting (Text.trimmed_trim part)

/-- A trimmed piece is read back from its written form. -/
theorem piece_escape (delimiting : Delimiting delimiters) {text : String}
    (trimmed : Text.Trimmed text.toList) :
    piece delimiters (escape delimiters text.toList) = text := by
  have passable : Passable delimiters [] text.toList :=
    passable_of_getLast? delimiting fun _ _ member => nomatch member
  have read := unescape_escape_append delimiting passable
  rw [List.append_nil] at read
  rw [piece_eq_iff, Text.trim_eq_self_iff.2 (trimmed_escape trimmed), read]
  exact List.append_nil _

/-- A settled piece is cut off at the delimiter behind it. -/
theorem cut_escape_delimiter (delimiting : Delimiting delimiters) {text : List Char}
    {delimiter : Char} {tail : List Char} (member : delimiter ∈ delimiters)
    (noBackslash : text.getLast? ≠ some '\\') :
    cut delimiters (escape delimiters text ++ delimiter :: tail) =
      (escape delimiters text, some (delimiter, tail)) := by
  have passable : Passable delimiters (delimiter :: tail) text :=
    passable_of_getLast? delimiting fun last => absurd last noBackslash
  have plain : delimiter ≠ '\\' := fun same => delimiting.backslash (same ▸ member)
  rw [cut_escape_append delimiting passable, cut_cons_of_mem plain member, List.append_nil]

/-- A piece at the end of the text is cut off there. -/
theorem cut_escape (delimiting : Delimiting delimiters) (text : List Char) :
    cut delimiters (escape delimiters text) = (escape delimiters text, none) := by
  have passable : Passable delimiters [] text :=
    passable_of_getLast? delimiting fun _ _ member => nomatch member
  have whole := cut_escape_append delimiting passable
  rwa [List.append_nil, cut, List.append_nil] at whole

/-- A piece that ends in a backslash takes the delimiter behind it with it, and is
not read back. -/
theorem piece_cut_backslash_ne (delimiting : Delimiting delimiters) {text : List Char}
    {delimiter : Char} {tail : List Char} (member : delimiter ∈ delimiters)
    (trimmed : Text.Trimmed (text ++ ['\\'])) :
    unescape delimiters (Text.trim
      (cut delimiters (escape delimiters (text ++ ['\\']) ++ delimiter :: tail)).1) ≠
      text ++ ['\\'] := by
  have passable (rest : List Char) : Passable delimiters ('\\' :: rest) text := by
    refine passable_of_getLast? delimiting fun _ char first => ?_
    cases first
    exact delimiting.backslash
  have written : escape delimiters (text ++ ['\\']) = escape delimiters text ++ ['\\'] := by
    rw [escape_append, escape_cons, if_neg delimiting.backslash]
    rfl
  have first := (trimmed_escape trimmed : Text.Trimmed (escape delimiters (text ++ ['\\']))).first
  rw [written] at first
  rw [written, List.append_assoc, List.singleton_append, cut_escape_append delimiting (passable _),
    cut_backslash_cons member]
  obtain ⟨kept, trim⟩ := Text.exists_trim_append_cons (escape delimiters text ++ ['\\'])
    (cut delimiters tail).1 first (delimiting.notBlank delimiter member)
  simp only [List.append_assoc, List.singleton_append] at trim
  rw [trim, unescape_escape_append delimiting (passable _), unescape_backslash_cons member]
  intro same
  obtain ⟨rfl, -⟩ := List.cons.inj (List.append_cancel_left same)
  exact delimiting.backslash member

/-- **A piece that a delimiter follows is read back exactly if it is settled.** -/
theorem piece_cut_delimiter_iff (delimiting : Delimiting delimiters) {text : String}
    {delimiter : Char} {tail : List Char} (member : delimiter ∈ delimiters) :
    piece delimiters (cut delimiters (escape delimiters text.toList ++ delimiter :: tail)).1 =
      text ↔ Settled text := by
  constructor
  · intro same
    have trimmed := trimmed_of_piece_eq delimiting same
    refine ⟨trimmed, fun last => ?_⟩
    obtain ⟨front, shape⟩ := List.getLast?_eq_some_iff.1 last
    rw [piece_eq_iff, shape] at same
    rw [shape] at trimmed
    exact piece_cut_backslash_ne delimiting member trimmed same
  · intro settled
    rw [cut_escape_delimiter delimiting member settled.noBackslash]
    exact piece_escape delimiting settled.trimmed

/-- **A piece at the end of the text is read back exactly if it is trimmed.** -/
theorem piece_escape_iff (delimiting : Delimiting delimiters) {text : String} :
    piece delimiters (escape delimiters text.toList) = text ↔ Text.Trimmed text.toList :=
  ⟨trimmed_of_piece_eq delimiting, piece_escape delimiting⟩

end Pipe

end Transclusion
