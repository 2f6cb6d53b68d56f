/-!
# The default command

A call that names no command means `run`. The command is put in front of the
first argument that is neither an option nor the value of one.
-/

set_option autoImplicit false

namespace Transclusion.CommandLine

/-- The words that name a command. -/
def commandWords : List String := ["run", "tree", "test", "help"]

/-- The command of a call that names none. -/
def defaultCommand : String := "run"

/-- The options whose value is an argument of its own. -/
def valueOptions : List String := ["--config", "--max-depth"]

/-- Whether an argument has the form of an option. -/
def isDashed (argument : String) : Bool :=
  argument.toList.head? == some '-'

/-- The arguments of a call with the command in its place. -/
def insertCommand : List String → List String
  | [] => []
  | argument :: rest =>
      if argument ∈ valueOptions then
        match rest with
        | [] => [argument]
        | value :: others => argument :: value :: insertCommand others
      else if isDashed argument then argument :: insertCommand rest
      else if argument ∈ commandWords then argument :: rest
      else defaultCommand :: argument :: rest

/-- The whole call, the name of the program in front, with the command in its
place. -/
def withCommand : List String → List String
  | [] => []
  | program :: arguments => program :: insertCommand arguments

end Transclusion.CommandLine
