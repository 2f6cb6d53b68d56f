/-!
# Access to files

What a resolution and the command line need of a file system, for any monad in
which its operations run, and the ways in which they fail.
-/

set_option autoImplicit false

namespace Transclusion

/-- Why an operation on a file failed. -/
inductive FileError where
  | notFound
  | notDirectory
  | isDirectory
  | nameTooLong
  | zeroInName
  | notText
  /-- Any other error of the system, with its number. -/
  | system (description : String) (number : Nat)
deriving DecidableEq, Repr

namespace FileError

/-- The description of a numbered error of the system. -/
def numbered (description : String) (number : Nat) : String :=
  description ++ " (os error " ++ toString number ++ ")"

/-- The wording of the error. -/
def message : FileError → String
  | .notFound => numbered "No such file or directory" 2
  | .notDirectory => numbered "Not a directory" 20
  | .isDirectory => numbered "Is a directory" 21
  | .nameTooLong => numbered "File name too long" 36
  | .zeroInName => "file name contained an unexpected NUL byte"
  | .notText => "stream did not contain valid UTF-8"
  | .system description number => numbered description number

end FileError

/-- The operations on files, in a monad. -/
structure FileAccess (m : Type → Type) where
  /-- The bytes of a file. -/
  read : String → m (Except FileError ByteArray)
  /-- Makes a file of some bytes, or puts them in the place of its own. -/
  write : String → ByteArray → m (Except FileError Unit)
  /-- Whether a path leads to a file. -/
  isFile : String → m Bool
  /-- Whether a path leads to a directory. -/
  isDirectory : String → m Bool
  /-- The names in a directory, in any order; nothing if it cannot be read. -/
  list : String → m (List String)

namespace FileAccess

variable {m : Type → Type} [Monad m]

/-- The text of a file. -/
def readText (access : FileAccess m) (path : String) : m (Except FileError String) := do
  match ← access.read path with
  | .error error => return .error error
  | .ok bytes =>
      match String.fromUTF8? bytes with
      | some text => return .ok text
      | none => return .error .notText

end FileAccess

end Transclusion
