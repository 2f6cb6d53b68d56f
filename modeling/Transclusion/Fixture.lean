import Transclusion.Settings
import Transclusion.Text.Blank
import Transclusion.Text.Infix
import Transclusion.Text.Newline

/-!
# Fixtures

A fixture is a text that says what resolving it should give. It opens with a
TOML document between two lines of dashes, and the text that follows is the
document to resolve. Files that it includes are given in the fixture itself.

`Fixture.split` finds the two parts, `Fixture.resolve` resolves the document
and `Fixture.mismatch?` compares what comes out with what was expected.
-/

set_option autoImplicit false

namespace Transclusion

/-- Why a text is not a fixture. -/
inductive FixtureError where
  | noOpening
  | noClosing
  | malformed
deriving DecidableEq, Repr

/-- The wording of the error. -/
def FixtureError.message : FixtureError → String
  | .noOpening => "missing opening --- frontmatter delimiter"
  | .noClosing => "missing closing --- frontmatter delimiter"
  | .malformed => Toml.refusal

/-- A document with what it needs and what is expected of it. -/
structure Fixture where
  description : Option String
  expectedOutput : Option String
  expectedError : Option String
  /-- Whether the document should not even be well formed. -/
  expectsMalformed : Bool
  maxDepth : Option Nat
  shortcuts : List ShortcutEntry
  files : List (String × String)
  document : String
deriving DecidableEq, Repr

namespace Fixture

/-! ## Reading a fixture -/

/-- The text up to the first line that begins with dashes, and what stands
behind the dashes. -/
def cut : List Char → Option (List Char × List Char)
  | [] => none
  | '\n' :: '-' :: '-' :: '-' :: rest => some ([], rest)
  | char :: rest => (cut rest).map fun (before, behind) => (char :: before, behind)

/-- The text without carriage returns at its end. -/
def dropReturns (text : List Char) : List Char :=
  (text.reverse.dropWhile (· = '\r')).reverse

/-- Splits a text into the settings between the lines of dashes and the
document behind them. Byte order marks may stand before the first line. -/
def split (text : List Char) : Except FixtureError (List Char × List Char) :=
  match text.dropWhile (· = '\ufeff') with
  | '-' :: '-' :: '-' :: rest =>
      match cut (Text.skipNewline rest) with
      | some (settings, behind) => .ok (dropReturns settings, Text.skipNewline behind)
      | none => .error .noClosing
  | _ => .error .noOpening

/-- The keys that may stand in a fixture. -/
def knownKeys : List String :=
  ["description", "expect_output", "expect_error", "expect_parse_error", "max_depth",
    "shortcuts", "files"]

/-- Reads the texts of a table. -/
def filesOfToml? (value : Toml.Value) : Option (List (String × String)) := do
  (← value.entries?).mapM fun (name, content) => return (name, ← content.text?)

/-- The fixture with some settings, read by a reader of TOML, and a document. -/
def ofParts? (parse : String → Option Toml.Entries) (settings document : String) :
    Option Fixture := do
  let entries ← parse settings
  if entries.hasOnly knownKeys then
    return {
      description := ← entries.optional "description" Toml.Value.text?
      expectedOutput := ← entries.optional "expect_output" Toml.Value.text?
      expectedError := ← entries.optional "expect_error" Toml.Value.text?
      expectsMalformed := (← entries.optional "expect_parse_error" Toml.Value.truth?).getD false
      maxDepth := ← entries.optional "max_depth" Toml.Value.count?
      shortcuts := ← ShortcutEntry.listOfToml? entries
      files := (← entries.optional "files" filesOfToml?).getD []
      document := document }
  else none

/-- Reads a fixture, and its settings by a reader of TOML. -/
def ofText (parse : String → Option Toml.Entries) (text : String) :
    Except FixtureError Fixture := do
  let (settings, document) ← split text.toList
  match ofParts? parse (String.ofList settings) (String.ofList document) with
  | some fixture => .ok fixture
  | none => .error .malformed

/-! ## Resolving and comparing -/

/-- The target under which the document is resolved. -/
def entry : Target := ⟨"file", ["main"]⟩

/-- The engine of a fixture: only the files of the fixture are there. -/
def engine (fixture : Fixture) : Engine Id :=
  let settings : Settings := { maxDepth := fixture.maxDepth, shortcuts := fixture.shortcuts }
  let files : Registry Content := fixture.files.foldl
    (fun table (name, content) => table.insert name (.text content)) .empty
  (settings.engine none fun _ => .error .notFound).addHandler (.table "file" files)

/-- What resolving the document gives. -/
def resolve (fixture : Fixture) : Except ResolveError Node :=
  (fixture.engine.resolve { target := entry, content := some (.text fixture.document) }
    |>.run.run .empty).1

/-- How an outcome differs from what was expected. -/
inductive Mismatch where
  | otherSyntaxError (expected : String) (actual : SyntaxError)
  | wellFormed (actual : ResolveError)
  | resolvedNotMalformed
  | otherError (expected : String) (actual : ResolveError)
  | resolvedNotError (expected : String)
  | unexpectedError (actual : ResolveError)
  | otherOutput (expected actual : String)

/-- The wording of the difference. -/
def Mismatch.message : Mismatch → String
  | .otherSyntaxError expected actual =>
      "expected parse error containing \"" ++ expected ++ "\", got: " ++ actual.display
  | .wellFormed actual => "expected parse error, got: " ++ actual.message
  | .resolvedNotMalformed => "expected parse error, but resolution succeeded"
  | .otherError expected actual =>
      "expected error containing \"" ++ expected ++ "\", got: " ++ actual.message
  | .resolvedNotError expected =>
      "expected error containing \"" ++ expected ++ "\", but resolution succeeded"
  | .unexpectedError actual => "unexpected error: " ++ actual.message
  | .otherOutput expected actual =>
      "output mismatch\n  expected: " ++ expected ++ "\n  actual:   " ++ actual

/-- Whether a text stands in a message. -/
def isIn (part message : String) : Bool :=
  Text.isInfixOf part.toList message.toList

/-- A text without the blanks around it. -/
def trimmed (text : String) : String :=
  String.ofList (Text.trim text.toList)

/-- How an error differs from what was expected, if it does. -/
def errorMismatch? (fixture : Fixture) (actual : ResolveError) : Option Mismatch :=
  if fixture.expectsMalformed then
    match actual with
    | .malformed _ _ inner =>
        match fixture.expectedError with
        | some expected =>
            if isIn expected inner.message then none
            else some (.otherSyntaxError expected inner)
        | none => none
    | _ => some (.wellFormed actual)
  else
    match fixture.expectedError with
    | some expected =>
        if isIn expected actual.message then none else some (.otherError expected actual)
    | none => some (.unexpectedError actual)

/-- How a resolved document differs from what was expected, if it does. Blanks
around the output do not matter. -/
def outputMismatch? (fixture : Fixture) (actual : Content) : Option Mismatch :=
  if fixture.expectsMalformed then some .resolvedNotMalformed
  else
    match fixture.expectedError, fixture.expectedOutput with
    | some expected, _ => some (.resolvedNotError expected)
    | none, some expected =>
        let expected := trimmed expected
        let actual := trimmed actual.display
        if actual = expected then none else some (.otherOutput expected actual)
    | none, none => none

/-- How an outcome differs from what was expected, if it does. -/
def mismatch? (fixture : Fixture) : Except ResolveError Node → Option Mismatch
  | .error error => fixture.errorMismatch? error
  | .ok node => fixture.outputMismatch? node.content

end Fixture

end Transclusion
