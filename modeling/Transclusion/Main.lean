import Transclusion.CommandLine.Session

/-!
# The program

The command line on the files of the system.
-/

set_option autoImplicit false

namespace Transclusion.Main

/-- The number of an error, which may also be given below zero. -/
def errorNumber (code : UInt32) : Nat :=
  if code.toNat < Nat.pow 2 31 then code.toNat else Nat.pow 2 32 - code.toNat

/-- The error with a number. -/
def numberedError (code : UInt32) (description : String) : FileError :=
  match errorNumber code with
  | 2 => .notFound
  | 13 => .system "Permission denied" 13
  | 20 => .notDirectory
  | 21 => .isDirectory
  | 36 => .nameTooLong
  | number => .system description number

/-- The error of a file operation. -/
def fileError : IO.Error → FileError
  | .noFileOrDirectory _ code details => numberedError code details
  | .inappropriateType _ code details => numberedError code details
  | .invalidArgument _ code details => numberedError code details
  | .permissionDenied _ code details => numberedError code details
  | other => .system (toString other) 5

/-- Runs a file operation on a path. -/
def attempt {α : Type} (path : String) (action : IO α) : IO (Except FileError α) := do
  if '\x00' ∈ path.toList then return .error .zeroInName
  try
    return .ok (← action)
  catch error =>
    return .error (fileError error)

/-- What stands at a path, if anything does. -/
def typeAt (path : String) : IO (Option IO.FS.FileType) := do
  let found ← attempt path do
    return (← ((← IO.currentDir) / path).metadata).type
  return found.toOption

/-- The files of the system. -/
def access : FileAccess IO where
  read path := attempt path (IO.FS.readBinFile path)
  write path bytes := attempt path (IO.FS.writeBinFile path bytes)
  isFile path := return (← typeAt path) == some .file
  isDirectory path := return (← typeAt path) == some .dir
  list path := do
    let found ← attempt path ((← IO.currentDir) / path).readDir
    match found with
    | .ok entries => return entries.toList.map fun entry => entry.fileName
    | .error _ => return []

/-- What is printed of a call that is not carried out. -/
def usage : String :=
  "Usage: inline [OPTIONS] <COMMAND>\n\nCommands:\n  run   FILE [-o PATH]\n  tree  FILE\n" ++
    "  test  PATH [-c CATEGORY]... [--list-categories]\n\nOptions:\n  --no-color\n" ++
    "  -v, --verbose\n  --config PATH\n  --max-depth N\n"

/-- Prints why a call is not carried out. -/
def explain (error : CommandLine.UsageError) : IO Unit :=
  match error with
  | .help => IO.print usage
  | .version => IO.print "inline 0.1.0\n"
  | _ => IO.eprint usage

end Transclusion.Main

/-- Carries out a call and hands over what it leaves behind. -/
def main (arguments : List String) : IO UInt32 := do
  match ← Transclusion.CommandLine.call Transclusion.Main.access arguments with
  | .error error =>
      Transclusion.Main.explain error
      return error.code.toUInt32
  | .ok outcome =>
      (← IO.getStdout).write outcome.stdout
      IO.eprint outcome.stderr
      return outcome.code.toUInt32
