import Transclusion.Files.Access
import Transclusion.Path
import Transclusion.Resource.Loader

/-!
# The resources at hand

`file` serves files and takes a relative path relative to the including file,
`text` serves its own arguments, and a table serves entries kept in memory
under a name of its own.
-/

set_option autoImplicit false

namespace Transclusion.Handler

variable {m : Type → Type} [Monad m]

/-- The key of a target that is told from others by its first argument. -/
def firstArgKey (_ : Option Target) (target : Target) : Option String :=
  target.firstArg?

/-- A path taken relative to the file that includes it. Only a file has a
directory to start from. -/
def relocateFile (source target : Target) : Target :=
  if source.name = "file" then
    match source.firstArg?, target.args with
    | some base, path :: others => { target with args := Path.relocate base path :: others }
    | _, _ => target
  else target

/-- The files, read by a given operation. -/
def file (readFile : String → m (Except FileError ByteArray)) : Handler m where
  name := "file"
  read _ target :=
    match target.firstArg? with
    | none => pure (.error (.resourceFailed "file" "missing path argument"))
    | some path => do
        match ← readFile path with
        | .ok bytes => return .ok (.ofBytes bytes)
        | .error error =>
            return .error (.resourceFailed "file"
              ("cannot read '" ++ path ++ "': " ++ error.message))
  key := firstArgKey
  relocate := relocateFile

/-- The arguments themselves, with commas between them. -/
def text : Handler m where
  name := "text"
  read _ target := pure (.ok (.text (String.intercalate "," target.args)))

/-- The entries of a table, under a name. -/
def table (name : String) (entries : Registry Content) : Handler m where
  name := name
  read _ target :=
    let entry := target.firstArg?.getD ""
    match entries.find? entry with
    | some content => pure (.ok content)
    | none => pure (.error (.resourceFailed name ("no entry named '" ++ entry ++ "'")))
  key := firstArgKey

end Transclusion.Handler
