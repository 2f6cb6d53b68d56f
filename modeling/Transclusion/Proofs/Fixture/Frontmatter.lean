import Transclusion.Fixture
import Transclusion.Proofs.Text.Runs
import Mathlib.Data.List.Basic

/-!
# The two parts of a fixture

A fixture is written as a line of dashes, the lines of its settings, another line of dashes
and its document, with the same ending behind every line (`written`). Reading it gives the
settings and the document back, whatever the document holds, whichever ending was used and
however many byte order marks stand in front (`split_written`).

There has to be a line of settings, though. The newline behind the opening dashes is taken
with them, and the closing dashes are looked for behind a newline, so dashes right below the
opening ones do not close anything: a fixture without settings is refused, for want of
closing dashes or, if the document has a line that begins with dashes, by the reader of
the settings, although that reader would take the empty text.

Of the reader of the settings only this is needed, that it refuses settings that begin with a
line of dashes (`RefusesDashes`). The reader of this library does (`refusesDashes_parse`).
-/

set_option autoImplicit false

namespace Transclusion.Fixture

/-! ## Written fixtures -/

/-- The dashes around the settings. -/
def dashes : List Char := ['-', '-', '-']

/-- How lines end. -/
inductive Ending where
  | feed
  | returnFeed
deriving DecidableEq, Repr

/-- The carriage returns of an ending. -/
def Ending.returns : Ending → List Char
  | .feed => []
  | .returnFeed => ['\r']

/-- The characters of an ending. -/
def Ending.text (ending : Ending) : List Char :=
  ending.returns ++ ['\n']

/-- A line of settings: it holds nothing that ends a line, and does not begin with
dashes. -/
structure SettingsLine where
  text : List Char
  unfed : '\n' ∉ text
  unreturned : '\r' ∉ text
  undashed : ¬ dashes <+: text

/-- The lines of some settings, each with its ending. -/
def linesText (ending : Ending) (lines : List SettingsLine) : List Char :=
  lines.flatMap fun line => line.text ++ ending.text

/-- The lines of some settings, with endings between them. -/
def joined (ending : Ending) (lines : List SettingsLine) : List Char :=
  List.intercalate ending.text (lines.map SettingsLine.text)

/-- A fixture as it is written, behind so many byte order marks. -/
def written (marks : Nat) (ending : Ending) (lines : List SettingsLine)
    (document : List Char) : List Char :=
  List.replicate marks '\ufeff' ++ (dashes ++ (ending.text ++ (linesText ending lines ++
    (dashes ++ (ending.text ++ document)))))

/-! ## Newlines and carriage returns -/

/-- An ending is a newline. -/
theorem skipNewline_text (ending : Ending) (rest : List Char) :
    Text.skipNewline (ending.text ++ rest) = rest := by
  cases ending <;> rfl

/-- Carriage returns are dropped up to another character. -/
theorem dropReturns_append {text : List Char} (solid : ∀ char ∈ text.getLast?, char ≠ '\r')
    (rest : List Char) : dropReturns (text ++ rest) = text ++ dropReturns rest := by
  have stop : ∀ char ∈ text.reverse.head?, decide (char = '\r') = false := by
    intro char first
    rw [List.head?_reverse] at first
    exact decide_eq_false (solid char first)
  have kept := (Text.takeWhile_eq_nil_of_stop stop).2
  rw [dropReturns, List.reverse_append, List.dropWhile_append]
  split
  · next nothing =>
      rw [List.isEmpty_iff] at nothing
      rw [kept, dropReturns, nothing, List.reverse_reverse, List.reverse_nil, List.append_nil]
  · rw [List.reverse_append, List.reverse_reverse, dropReturns]

theorem dropReturns_returns (ending : Ending) : dropReturns ending.returns = [] := by
  cases ending <;> decide

/-- What is left once carriage returns are dropped begins as before. -/
theorem mem_head?_of_dropReturns {text : List Char} {char : Char}
    (first : char ∈ (dropReturns text).head?) : char ∈ text.head? := by
  have begins : dropReturns text <+: text := by
    have ends := List.dropWhile_suffix (l := text.reverse) (decide <| · = '\r')
    rwa [← List.reverse_prefix, List.reverse_reverse] at ends
  obtain ⟨rest, whole⟩ := begins
  rw [← whole, List.head?_append, Option.mem_def.1 first]
  rfl

/-! ## Looking for the closing dashes -/

theorem cut_dashes (rest : List Char) : cut ('\n' :: (dashes ++ rest)) = some ([], rest) :=
  rfl

/-- Dashes are looked for behind a newline only. -/
theorem cut_cons {char : Char} {rest : List Char} (other : char ≠ '\n' ∨ ¬ dashes <+: rest) :
    cut (char :: rest) = (cut rest).map fun parts => (char :: parts.1, parts.2) := by
  rw [cut]
  rintro behind rfl rfl
  rcases other with other | other
  · exact other rfl
  · exact other ⟨behind, rfl⟩

/-- What stands before the dashes begins with the first character, if it is not empty. -/
theorem eq_of_mem_head?_cut {char first : Char} {rest front behind : List Char}
    (found : cut (char :: rest) = some (front, behind)) (begins : first ∈ front.head?) :
    first = char := by
  by_cases other : char ≠ '\n' ∨ ¬ dashes <+: rest
  · rw [cut_cons other] at found
    obtain ⟨parts, -, same⟩ := Option.map_eq_some_iff.1 found
    cases same
    exact (Option.some.inj begins).symm
  · rw [not_or, not_not, not_not] at other
    obtain ⟨rfl, rest, rfl⟩ := other
    cases (cut_dashes rest).symm.trans found
    cases begins

/-- What stands on one line is passed over. -/
theorem cut_line {line : List Char} (solid : '\n' ∉ line) (rest : List Char) :
    cut (line ++ rest) = (cut rest).map fun parts => (line ++ parts.1, parts.2) := by
  induction line with
  | nil => simp
  | cons char line ih =>
      rw [List.mem_cons, not_or] at solid
      rw [List.cons_append, cut_cons (.inl (Ne.symm solid.1)), ih solid.2, Option.map_map]
      rfl

/-- A line of settings does not begin with dashes together with its ending either. -/
theorem SettingsLine.undashed_append (line : SettingsLine) (ending : Ending) (rest : List Char) :
    ¬ dashes <+: line.text ++ (ending.text ++ rest) := by
  rintro ⟨tail, whole⟩
  rcases List.append_eq_append_iff.1 whole with ⟨between, longer, -⟩ | ⟨between, shorter, left⟩
  · exact line.undashed ⟨between, longer.symm⟩
  · cases between with
    | nil =>
        rw [List.append_nil] at shorter
        exact line.undashed ⟨[], shorter ▸ List.append_nil _⟩
    | cons char others =>
        have dash : char ∈ dashes := shorter ▸ List.mem_append_right _ List.mem_cons_self
        cases ending with
        | feed =>
            cases (List.cons.inj left).1
            revert dash
            decide
        | returnFeed =>
            cases (List.cons.inj left).1
            revert dash
            decide

theorem Ending.newline_notMem_returns (ending : Ending) : '\n' ∉ ending.returns := by
  cases ending <;> decide

/-- **The closing dashes are found behind the last line of the settings.** -/
theorem cut_linesText (ending : Ending) (first : SettingsLine) (others : List SettingsLine)
    (rest : List Char) :
    cut (linesText ending (first :: others) ++ (dashes ++ rest)) =
      some (joined ending (first :: others) ++ ending.returns, rest) := by
  induction others generalizing first with
  | nil =>
      have parts : linesText ending [first] ++ (dashes ++ rest) =
          first.text ++ (ending.returns ++ '\n' :: (dashes ++ rest)) := by
        simp [linesText, Ending.text]
      rw [parts, cut_line first.unfed, cut_line ending.newline_notMem_returns, cut_dashes]
      simp [joined]
  | cons second others ih =>
      have parts : linesText ending (first :: second :: others) ++ (dashes ++ rest) =
          first.text ++ (ending.returns ++
            '\n' :: (linesText ending (second :: others) ++ (dashes ++ rest))) := by
        simp [linesText, Ending.text]
      have plain : ¬ dashes <+: linesText ending (second :: others) ++ (dashes ++ rest) := by
        have := second.undashed_append ending (linesText ending others ++ (dashes ++ rest))
        simpa [linesText] using this
      rw [parts, cut_line first.unfed, cut_line ending.newline_notMem_returns,
        cut_cons (.inr plain), ih second]
      simp [joined, Ending.text, List.intercalate_cons_cons]

/-! ## Splitting -/

/-- Settings do not end with a carriage return. -/
theorem joined_getLast? (ending : Ending) (lines : List SettingsLine) :
    ∀ char ∈ (joined ending lines).getLast?, char ≠ '\r' := by
  induction lines with
  | nil => simp [joined]
  | cons first others ih =>
      cases others with
      | nil =>
          rintro char last rfl
          simp only [joined, List.map_cons, List.map_nil, List.intercalate_singleton] at last
          exact first.unreturned (List.mem_of_mem_getLast? last)
      | cons second others =>
          have parts : joined ending (first :: second :: others) =
              first.text ++ ending.returns ++ '\n' :: joined ending (second :: others) := by
            simp [joined, Ending.text, List.intercalate_cons_cons]
          rw [parts, List.getLast?_append, List.getLast?_cons]
          rintro char ⟨⟩
          cases last : (joined ending (second :: others)).getLast? with
          | none => decide
          | some final => exact ih final last

section Splitting

variable (marks : Nat) (ending : Ending) (lines : List SettingsLine) (document : List Char)

/-- What stands behind the byte order marks. -/
theorem dropWhile_written : (written marks ending lines document).dropWhile (· = '\ufeff') =
    '-' :: '-' :: '-' :: (ending.text ++ (linesText ending lines ++
      (dashes ++ (ending.text ++ document)))) := by
  rw [written, List.dropWhile_append_of_pos (by simp)]
  rfl

variable {marks ending lines document}

theorem split_of_cut {settings behind : List Char}
    (found : cut (linesText ending lines ++ (dashes ++ (ending.text ++ document))) =
      some (settings, behind)) :
    split (written marks ending lines document) =
      .ok (dropReturns settings, Text.skipNewline behind) := by
  simp only [split, dropWhile_written, skipNewline_text, found]

theorem split_of_cut_none
    (missing : cut (linesText ending lines ++ (dashes ++ (ending.text ++ document))) = none) :
    split (written marks ending lines document) = .error .noClosing := by
  simp only [split, dropWhile_written, skipNewline_text, missing]

/-- **A written fixture with settings is split into them and its document.** -/
theorem split_written (some : lines ≠ []) :
    split (written marks ending lines document) = .ok (joined ending lines, document) := by
  obtain ⟨first, others, rfl⟩ := List.exists_cons_of_ne_nil some
  rw [split_of_cut (cut_linesText ending first others _), skipNewline_text,
    dropReturns_append (joined_getLast? ending _), dropReturns_returns, List.append_nil]

/-- Without settings, the closing dashes are not seen, and what is taken for the settings begins
with them. -/
theorem split_written_nil :
    split (written marks ending [] document) = .error .noClosing ∨
      ∃ settings behind, split (written marks ending [] document) =
        .ok (dashes ++ settings, behind) ∧
          ∀ char ∈ settings.head?, char = '\n' ∨ char = '\r' := by
  have passed : cut (linesText ending [] ++ (dashes ++ (ending.text ++ document))) =
      (cut ('\n' :: document)).map fun parts =>
        (dashes ++ (ending.returns ++ parts.1), parts.2) := by
    rw [linesText, List.flatMap_nil, List.nil_append, cut_line (by decide), Ending.text,
      List.append_assoc, List.singleton_append, cut_line ending.newline_notMem_returns,
      Option.map_map]
    rfl
  cases found : cut ('\n' :: document) with
  | none =>
      rw [found] at passed
      exact .inl (split_of_cut_none passed)
  | some parts =>
      obtain ⟨front, behind⟩ := parts
      rw [found] at passed
      have solid : ∀ char ∈ dashes.getLast?, char ≠ '\r' := by
        rintro char ⟨⟩
        decide
      refine .inr ⟨dropReturns (ending.returns ++ front), Text.skipNewline behind, ?_, ?_⟩
      · rw [split_of_cut passed, dropReturns_append solid]
      · intro char first
        have begins := mem_head?_of_dropReturns first
        cases ending with
        | feed => exact .inl (eq_of_mem_head?_cut found begins)
        | returnFeed => exact .inr (Option.some.inj begins).symm

end Splitting

/-! ## Settings that begin with dashes -/

/-- A reader of settings that refuses those whose first line is made of dashes. -/
def RefusesDashes (parse : String → Option Toml.Entries) : Prop :=
  ∀ ⦃rest : List Char⦄, (∀ char ∈ rest.head?, char = '\n' ∨ char = '\r') →
    parse (String.ofList (dashes ++ rest)) = none

section Dashes

variable {rest : List Char}

/-- Dashes at the end of a line are a key. -/
theorem key_dashes (stop : ∀ char ∈ rest.head?, char = '\n' ∨ char = '\r') :
    Toml.key (dashes ++ rest) = some (([], "---"), rest) := by
  have outside {accept : Char → Bool} (feed : accept '\n' = false) (back : accept '\r' = false) :
      ∀ char ∈ rest.head?, accept char = false := by
    intro char first
    rcases stop char first with rfl | rfl
    · exact feed
    · exact back
  have inside : ∀ char ∈ dashes, Toml.isBareKeyChar char = true :=
    List.all_eq_true.1 (by decide)
  obtain ⟨taken, left⟩ := Text.takeWhile_append_of_stop inside (outside rfl rfl)
  have simple : Toml.simpleKey (dashes ++ rest) = some ("---", rest) := by
    have bare : Toml.simpleKey (dashes ++ rest) =
        if (dashes ++ rest).takeWhile Toml.isBareKeyChar = [] then none
        else some (String.ofList ((dashes ++ rest).takeWhile Toml.isBareKeyChar),
          (dashes ++ rest).dropWhile Toml.isBareKeyChar) := rfl
    rw [bare, taken, left]
    rfl
  have unspaced : Toml.skipSpace rest = rest :=
    (Text.takeWhile_eq_nil_of_stop (outside rfl rfl)).2
  have single : Toml.dottedKey Toml.keyLimit (dashes ++ rest) = some (["---"], rest) := by
    have front : Toml.skipSpace (dashes ++ rest) = dashes ++ rest := rfl
    rw [Toml.keyLimit, Toml.dottedKey, front, simple]
    simp only [unspaced]
    split
    · next behind =>
        exact absurd (stop '.' rfl) (by decide)
    · rfl
  rw [Toml.key, single]
  rfl

/-- No value follows dashes at the end of a line, so no line begins with them. -/
theorem line_dashes (stop : ∀ char ∈ rest.head?, char = '\n' ∨ char = '\r') (size : Nat)
    (draft : Toml.Draft) : draft.line size (dashes ++ rest) = none := by
  have valueless (element : Toml.ValueReader) :
      Toml.assignment element (dashes ++ rest) = none := by
    rw [Toml.assignment, key_dashes stop]
    cases rest with
    | nil => rfl
    | cons char others =>
        have other : char ≠ '=' := by
          rcases stop char rfl with rfl | rfl <;> decide
        simp [Toml.after?, other]
  have front : Toml.skipSpace (dashes ++ rest) = dashes ++ rest := rfl
  have unended : Toml.lineEnd? (dashes ++ rest) = none := rfl
  unfold Toml.Draft.line
  rw [front]
  split
  · next opened => cases opened
  · next opened => cases opened
  · rw [unended, valueless]
    rfl

end Dashes

/-- **Settings that begin with a line of dashes are no TOML document.** -/
theorem refusesDashes_parse : RefusesDashes Toml.parse := by
  intro rest stop
  have unread (size more : Nat) (draft : Toml.Draft) :
      Toml.Draft.lines size more draft (dashes ++ rest) = none := by
    cases more with
    | zero => rfl
    | succ more =>
        rw [Toml.Draft.lines, line_dashes stop]
        exact fun nothing => List.cons_ne_nil _ _ nothing
  rw [Toml.parse, String.toList_ofList]
  change (Toml.Draft.lines _ _ _ (dashes ++ rest)).bind _ = none
  rw [unread]
  rfl

/-! ## Reading a written fixture -/

section Reading

variable {parse : String → Option Toml.Entries}

theorem ofParts?_document {settings document : String} {fixture : Fixture}
    (read : ofParts? parse settings document = some fixture) : fixture.document = document := by
  simp only [ofParts?, bind, Option.bind_eq_some_iff] at read
  obtain ⟨entries, -, read⟩ := read
  split at read
  · simp only [Option.bind_eq_some_iff, pure, Option.some.injEq] at read
    obtain ⟨_, -, _, -, _, -, _, -, _, -, _, -, _, -, rfl⟩ := read
    rfl
  · cases read

theorem ofText_eq_ok_iff {text : String} {fixture : Fixture} :
    ofText parse text = .ok fixture ↔ ∃ settings document,
      split text.toList = .ok (settings, document) ∧
        ofParts? parse (String.ofList settings) (String.ofList document) = some fixture := by
  unfold ofText
  cases split text.toList with
  | error error => simp [bind, Except.bind]
  | ok parts =>
      obtain ⟨settings, document⟩ := parts
      simp only [bind, Except.bind]
      cases read : ofParts? parse (String.ofList settings) (String.ofList document) with
      | none => simp [read]
      | some fixture => simp [read]

/-- Without settings no fixture is read. -/
theorem ofText_written_nil (refuses : RefusesDashes parse) (marks : Nat) (ending : Ending)
    (document : List Char) (fixture : Fixture) :
    ofText parse (String.ofList (written marks ending [] document)) ≠ .ok fixture := by
  rw [ne_eq, ofText_eq_ok_iff, String.toList_ofList]
  rintro ⟨settings, other, parts, read⟩
  rcases split_written_nil with refused | ⟨taken, behind, cutOff, stop⟩
  · cases refused.symm.trans parts
  · cases cutOff.symm.trans parts
    rw [ofParts?, refuses stop] at read
    cases read

end Reading

/-- **A written fixture is split exactly if it has settings.** Then the settings that are read
are its lines with endings between them, and the document is the one that was written. It does
not matter how settings are read, if only those that begin with a line of dashes are refused. -/
theorem ofText_written {parse : String → Option Toml.Entries} (refuses : RefusesDashes parse)
    (marks : Nat) (ending : Ending) (lines : List SettingsLine) (document : List Char) :
    (split (written marks ending lines document) = .ok (joined ending lines, document) ↔
      lines ≠ []) ∧
    ∀ fixture, ofText parse (String.ofList (written marks ending lines document)) = .ok fixture ↔
      lines ≠ [] ∧ ofParts? parse (String.ofList (joined ending lines)) (String.ofList document) =
        some fixture ∧ fixture.document = String.ofList document := by
  constructor
  · refine ⟨?_, split_written⟩
    rintro parts rfl
    rcases split_written_nil with refused | ⟨taken, behind, cutOff, -⟩
    · cases refused.symm.trans parts
    · cases cutOff.symm.trans parts
  · intro fixture
    constructor
    · intro read
      have some : lines ≠ [] := by
        rintro rfl
        exact ofText_written_nil refuses marks ending document fixture read
      rw [ofText_eq_ok_iff, String.toList_ofList, split_written some] at read
      obtain ⟨settings, other, parts, read⟩ := read
      cases parts
      exact ⟨some, read, ofParts?_document read⟩
    · rintro ⟨some, read, -⟩
      rw [ofText_eq_ok_iff, String.toList_ofList]
      exact ⟨_, _, split_written some, read⟩

/-- Behind two byte order marks, one line of settings and a document that begins with dashes. -/
theorem ofText_written_marked :
    let line : SettingsLine := ⟨"max_depth = 3".toList, by decide, by decide, by decide⟩
    let text := "\ufeff\ufeff---\r\nmax_depth = 3\r\n---\r\n---\nhello"
    RefusesDashes Toml.parse ∧
      written 2 .returnFeed [line] "---\nhello".toList = text.toList ∧
      ofText Toml.parse text =
        .ok ⟨none, none, none, false, some 3, [], [], "---\nhello"⟩ := by
  intro line text
  have shape : written 2 .returnFeed [line] "---\nhello".toList = text.toList := by decide +kernel
  have reads := (ofText_written refusesDashes_parse 2 .returnFeed [line] "---\nhello".toList).2
    ⟨none, none, none, false, some 3, [], [], "---\nhello"⟩
  rw [shape, String.ofList_toList] at reads
  exact ⟨refusesDashes_parse, shape, reads.2 ⟨List.cons_ne_nil _ _, by decide +kernel, rfl⟩⟩

/-- A fixture without settings is refused, although its settings are well formed. -/
theorem ofText_without_settings :
    written 0 .feed [] "hello".toList = "---\n---\nhello".toList ∧
      ofText Toml.parse "---\n---\nhello" = .error .noClosing ∧
      joined .feed [] = [] ∧
      ofParts? Toml.parse "" "hello" = some ⟨none, none, none, false, none, [], [], "hello"⟩ := by
  decide +kernel

end Transclusion.Fixture
