import Transclusion.CommandLine.DefaultCommand
import Transclusion.CommandLine.Invocation
import Transclusion.CommandLine.Suite
import Transclusion.Engine.Together
import Transclusion.Settings

/-!
# Carrying out a call

`run` resolves a file and writes what comes out, `tree` prints what was included
where, and `test` runs a suite of fixtures. All of it goes through a given
access to files. A resolution waits for every file that it reads, and the files that
one text includes are read side by side.
-/

set_option autoImplicit false

namespace Transclusion.CommandLine

variable {m : Type → Type} [Monad m]

/-- Resolves a file by the settings that count for it. -/
def resolveFile (access : FileAccess m) (invocation : Invocation) (file : String) :
    m (Except Outcome Node) := do
  match ← Settings.find access invocation.config file with
  | .error fault => return .error (.error fault.message)
  | .ok settings =>
      let engine := settings.engine invocation.maxDepth fun path => .await (access.read path)
      let (result, _) ← engine.resolveTogether { target := ⟨"file", [file]⟩ } .empty
      match result with
      | .ok node => return .ok node
      | .error error => return .error (.unresolved error)

/-- Writes a content to a file. -/
def writeOutput (access : FileAccess m) (path : String) (content : Content) : m Outcome := do
  match ← access.write path content.bytes with
  | .ok () => return {}
  | .error error => return .error ("cannot write '" ++ path ++ "': " ++ error.message)

/-- The line that shows a node of a resolved tree. -/
def treeLine (visit : Node.Visit) : String :=
  let kind := if visit.content.isBinary then ", binary" else ""
  String.join (List.replicate visit.depth "  ") ++ visit.target.display ++ " (" ++
    toString visit.content.size ++ " bytes" ++ kind ++ ")"

/-- Carries out a call that was understood. -/
def perform (access : FileAccess m) (invocation : Invocation) : m Outcome := do
  match invocation.command with
  | .run file output =>
      match ← resolveFile access invocation file, output with
      | .error outcome, _ => return outcome
      | .ok node, none => return { stdout := node.content.bytes }
      | .ok node, some path => writeOutput access path node.content
  | .tree file =>
      match ← resolveFile access invocation file with
      | .error outcome => return outcome
      | .ok node => return { stdout := (written (node.walk.map treeLine)).toUTF8 }
  | .test path categories listOnly =>
      if listOnly then Suite.list access path
      else Suite.run access path invocation.noColor categories

/-- Carries out a call, given its arguments without the name of the program. -/
def call (access : FileAccess m) (arguments : List String) : m (Except UsageError Outcome) := do
  match Invocation.ofArguments (insertCommand arguments) with
  | .error error => return .error error
  | .ok invocation => return .ok (← perform access invocation)

end Transclusion.CommandLine
