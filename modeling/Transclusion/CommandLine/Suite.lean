import Transclusion.CommandLine.Outcome
import Transclusion.Fixture

/-!
# Suites of fixtures

A suite is a single fixture file or all fixture files in a directory and the
directories below it. The directories in which they stand are the categories of
the suite. Categories and the files in them are taken in order, and a category
that is asked for brings along those below it.
-/

set_option autoImplicit false

namespace Transclusion.CommandLine.Suite

/-! ## Finding fixtures -/

/-- The end of the name of a fixture file. -/
def fileEnding : String := ".test.md"

/-- A fixture file: the directories that lead to it from the root of the suite,
its name, and the path by which it is read. -/
structure FixtureFile where
  directories : List String
  name : String
  path : String
deriving DecidableEq, Repr

namespace FixtureFile

/-- The names that lead to a file from the root of the suite. -/
def trail (file : FixtureFile) : List String :=
  file.directories ++ [file.name]

/-- The category of a file. Backslashes count as slashes. -/
def category (file : FixtureFile) : String :=
  (String.intercalate "/" file.directories).map fun char => if char = '\\' then '/' else char

end FixtureFile

/-- Whether a name is that of a fixture file. -/
def isFixtureName (name : String) : Bool :=
  fileEnding.toList.isSuffixOf name.toList

section Files

variable {m : Type → Type} [Monad m]

/-- The fixture files in a directory and those below it, down to a number of
levels. -/
def filesBelow (access : FileAccess m) :
    Nat → String → List String → m (List FixtureFile)
  | 0, _, _ => pure []
  | levels + 1, directory, names => do
      let found ← (← access.list directory).mapM fun name => do
        let path := Path.join directory name
        if ← access.isDirectory path then filesBelow access levels path (names ++ [name])
        else if isFixtureName name then return [⟨names, name, path⟩]
        else return []
      return found.flatten

/-- More levels than there can be: every level takes two bytes of a path, and a
longer path cannot be read. -/
def levelLimit : Nat := 2048

end Files

/-- A category and the paths of its files. -/
structure Category where
  name : String
  paths : List String
deriving DecidableEq, Repr

namespace Category

/-- The category as it is shown. -/
def label (category : Category) : String :=
  if category.name = "" then "(root)" else category.name

/-- The categories of some files, all in order. -/
def group (files : List FixtureFile) : List Category :=
  let names := (files.map FixtureFile.category).eraseDups.mergeSort fun left right =>
    decide (left ≤ right)
  names.map fun name =>
    let members := files.filter fun file => file.category = name
    let sorted := members.mergeSort fun left right => decide (¬ right.trail < left.trail)
    ⟨name, sorted.map FixtureFile.path⟩

end Category

/-- A text without the slashes around it. -/
def trimSlashes (text : String) : List Char :=
  let isSlash (char : Char) : Bool := char == '/'
  ((text.toList.dropWhile isSlash).reverse.dropWhile isSlash).reverse

/-- Whether a category is the one asked for or lies below it. -/
def isWithin (requested : List Char) (category : Category) : Bool :=
  category.name.toList == requested || (requested ++ ['/']).isPrefixOf category.name.toList

/-- The categories asked for, all if none is. -/
def select (all : List Category) (requested : List String) : List Category :=
  if requested = [] then all
  else all.filter fun category =>
    requested.any fun request => isWithin (trimSlashes request) category

/-- What is said of categories that were asked for and are not there. -/
def warnings (all : List Category) (requested : List String) : List String :=
  let missing := (requested.map trimSlashes).filter fun request =>
    !(all.any (isWithin request))
  missing.map fun request =>
    "warning: category '" ++ String.ofList request ++ "' not found (available: " ++
      String.intercalate ", " (all.map Category.label) ++ ")"

/-! ## Running fixtures -/

/-- Why a fixture failed. -/
inductive Failure where
  | unreadable (error : FileError)
  | notFixture (error : FixtureError)
  | mismatch (difference : Fixture.Mismatch)

/-- The wording of the failure. -/
def Failure.message : Failure → String
  | .unreadable error => "cannot read file: " ++ error.message
  | .notFixture error => "frontmatter error: " ++ error.message
  | .mismatch difference => difference.message

/-- What became of a fixture file. -/
structure Verdict where
  path : String
  description : Option String := none
  failure : Option Failure := none

namespace Verdict

/-- A name without all fixture endings. -/
def stem (name : String) : String :=
  String.ofList (strip name.length name.toList)
where
  /-- Takes away at most so many endings. -/
  strip : Nat → List Char → List Char
    | 0, name => name
    | more + 1, name =>
        if fileEnding.toList.isSuffixOf name then
          strip more (name.take (name.length - fileEnding.toList.length))
        else name

/-- The text under which a fixture is listed. -/
def label (verdict : Verdict) : String :=
  match verdict.description, Path.fileName? verdict.path with
  | some description, _ => description
  | none, some name => stem name
  | none, none => "?"

/-- The verdict on the text of a fixture. -/
def ofText (path text : String) : Verdict :=
  match Fixture.ofText Toml.parse text with
  | .error error => { path := path, failure := some (.notFixture error) }
  | .ok fixture =>
      { path := path
        description := fixture.description
        failure := (fixture.mismatch? fixture.resolve).map .mismatch }

/-- The verdict on a fixture file. -/
def ofFile {m : Type → Type} [Monad m] (access : FileAccess m) (path : String) : m Verdict := do
  match ← access.readText path with
  | .error error => return { path := path, failure := some (.unreadable error) }
  | .ok text => return ofText path text

end Verdict

/-! ## Reporting -/

/-- Puts a text into a colour, if colours are wanted. -/
def paint (noColor : Bool) (code text : String) : String :=
  if noColor then text else "\x1b[" ++ code ++ "m" ++ text ++ "\x1b[0m"

/-- The line that lists a verdict. -/
def verdictLine (noColor : Bool) (verdict : Verdict) : String :=
  let mark := match verdict.failure with
    | none => paint noColor "32" "PASS"
    | some _ => paint noColor "31" "FAIL"
  "  " ++ mark ++ "  " ++ verdict.label

/-- The lines that explain a failure. -/
def failureLines (verdict : Verdict) : List String :=
  match verdict.failure with
  | none => []
  | some failure =>
      ["", "  --- " ++ verdict.path ++ " ---"] ++
        (Text.lines failure.message.toList).map fun line => "  " ++ String.ofList line

/-- The lines that explain all failures. -/
def failureSection (verdicts : List Verdict) : List String :=
  match verdicts.flatMap failureLines with
  | [] => []
  | lines => ["", "failures:"] ++ lines

/-- The line that sums up, and the exit code. -/
def summary (noColor : Bool) (verdicts : List Verdict) : String × Nat :=
  let failed := (verdicts.filter fun verdict => verdict.failure.isSome).length
  let passed := verdicts.length - failed
  if failed = 0 then
    ("test result: " ++ paint noColor "32" "ok" ++ ". " ++ toString passed ++
      " passed, 0 failed", 0)
  else
    ("test result: " ++ paint noColor "31" "FAILED" ++ ". " ++ toString passed ++
      " passed, " ++ toString failed ++ " failed (of " ++ toString verdicts.length ++ ")", 1)

section Files

variable {m : Type → Type} [Monad m]

/-- The categories in a directory. -/
def categoriesIn (access : FileAccess m) (directory : String) : m (List Category) := do
  return Category.group (← filesBelow access levelLimit directory [])

/-- The line that says that there is nothing to run. -/
def nothingFound (path : String) : String :=
  "no " ++ fileEnding ++ " files found in " ++ path

/-- Runs the fixtures of a category: the lines that list them and the
verdicts. -/
def runCategory (access : FileAccess m) (noColor heading : Bool) (category : Category) :
    m (List String × List Verdict) := do
  let verdicts ← category.paths.mapM (Verdict.ofFile access)
  let opening := if heading then ["", paint noColor "1" category.label] else []
  return (opening ++ verdicts.map (verdictLine noColor), verdicts)

/-- Runs some categories, with lines in front of all others. -/
def runCategories (access : FileAccess m) (noColor heading : Bool) (front : List String)
    (categories : List Category) : m Outcome := do
  let results ← categories.mapM (runCategory access noColor heading)
  let verdicts := results.flatMap Prod.snd
  let (line, code) := summary noColor verdicts
  let lines := front ++ results.flatMap Prod.fst ++ failureSection verdicts ++ ["", line]
  return { code := code, stderr := written lines }

/-- Runs a suite, or the categories of it that are asked for. A single file has
no categories to choose from. -/
def run (access : FileAccess m) (path : String) (noColor : Bool) (requested : List String) :
    m Outcome := do
  if ← access.isFile path then
    runCategories access noColor false [] [⟨"", [path]⟩]
  else
    let all ← categoriesIn access path
    if all = [] then return .failed [nothingFound path]
    else
      let front := warnings all requested
      match select all requested with
      | [] => return .failed (front ++ ["no matching categories found"])
      | selected => runCategories access noColor true front selected

/-- Lists the categories of a suite. -/
def list (access : FileAccess m) (path : String) : m Outcome := do
  if ← access.isFile path then
    return { stderr := written ["(single file, no categories)"] }
  else
    match ← categoriesIn access path with
    | [] => return { stderr := written [nothingFound path] }
    | all =>
        let lines := all.map fun category =>
          "  " ++ category.label ++ " (" ++ toString category.paths.length ++ " tests)"
        return { stderr := written ("available categories:" :: lines) }

end Files

end Transclusion.CommandLine.Suite
