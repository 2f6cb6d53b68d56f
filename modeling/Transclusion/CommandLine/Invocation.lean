/-!
# Reading a call

A call is some options, a command, and the options and the operand of the
command. Options that count for every command may stand before or behind it.
Flags may be gathered in one argument, the value of an option may be attached
to it, and behind two dashes every argument is an operand.

A value that stands in an argument of its own is kept back and checked when the
next option or operand comes, or at the end. So of several faults the one that
is met first is reported, except that an argument nobody knows is reported
before a value that was kept back.
-/

set_option autoImplicit false

namespace Transclusion.CommandLine

/-- Why a call is not carried out. Asking for help or the version is one of the
reasons. -/
inductive UsageError where
  | unknownArgument
  | unknownCommand
  | missingCommand
  | missingOperand
  | emptyCall
  | repeated
  | badNumber
  | badValue
  | needlessValue
  | help
  | version
deriving DecidableEq, Repr

/-- The exit code of a call that is not carried out. -/
def UsageError.code : UsageError → Nat
  | .help => 0
  | .version => 0
  | _ => 2

/-- The commands. -/
inductive CommandName where
  | run
  | tree
  | test
deriving DecidableEq, Repr

/-- The command with a name. -/
def CommandName.ofWord? : String → Option CommandName
  | "run" => some .run
  | "tree" => some .tree
  | "test" => some .test
  | _ => none

/-- The options that are there or not. -/
inductive Flag where
  | noColor
  | verbose
  | listCategories
deriving DecidableEq, Repr

/-- The options with a value. -/
inductive ValueOption where
  | config
  | maxDepth
  | output
  | category
deriving DecidableEq, Repr

/-- What an option asks for. -/
inductive Switch where
  | flag (flag : Flag)
  | value (option : ValueOption)
  | help
  | version
deriving DecidableEq, Repr

/-- The option with a long name, before a command or behind one. -/
def Switch.ofName? (command : Option CommandName) (name : String) : Option Switch :=
  match name, command with
  | "no-color", _ => some (.flag .noColor)
  | "verbose", _ => some (.flag .verbose)
  | "config", _ => some (.value .config)
  | "max-depth", _ => some (.value .maxDepth)
  | "help", _ => some .help
  | "version", none => some .version
  | "output", some .run => some (.value .output)
  | "category", some .test => some (.value .category)
  | "list-categories", some .test => some (.flag .listCategories)
  | _, _ => none

/-- The option with a name of one letter, before a command or behind one. -/
def Switch.ofLetter? (command : Option CommandName) (letter : Char) : Option Switch :=
  match letter, command with
  | 'v', _ => some (.flag .verbose)
  | 'h', _ => some .help
  | 'V', none => some .version
  | 'o', some .run => some (.value .output)
  | 'c', some .test => some (.value .category)
  | _, _ => none

/-- An argument that is kept back: an option that waits for its value or has
it, or an operand. -/
inductive Pending where
  | awaiting (option : ValueOption)
  | given (option : ValueOption) (value : String)
  | operand (value : String)
deriving DecidableEq, Repr

/-- What was gathered before a command or behind it. -/
structure Gathered where
  noColor : Bool := false
  verbose : Bool := false
  listCategories : Bool := false
  config : Option String := none
  maxDepth : Option Nat := none
  output : Option String := none
  categories : List String := []
  operand : Option String := none
  pending : Option Pending := none
deriving DecidableEq, Repr

/-- Reads a number that fits into sixty-four bits, a plus sign in front
allowed. -/
def natural? (word : String) : Option Nat :=
  let digits := match word.toList with
    | '+' :: rest => rest
    | characters => characters
  if digits = [] ∨ ¬ digits.all Char.isDigit then none
  else
    let number := Nat.ofDigitChars 10 digits 0
    if number < Nat.pow 2 64 then some number else none

namespace Gathered

/-- An option may be set only once. -/
def once {α : Type} (present : Option α) : Except UsageError Unit :=
  if present.isSome then .error .repeated else .ok ()

/-- A path must not be empty. -/
def checkPath (value : String) : Except UsageError String :=
  if value = "" then .error .badValue else .ok value

/-- Takes the value of an option. -/
def accept (gathered : Gathered) (option : ValueOption) (value : String) :
    Except UsageError Gathered :=
  match option with
  | .config => do
      once gathered.config
      return { gathered with config := some (← checkPath value) }
  | .maxDepth => do
      once gathered.maxDepth
      match natural? value with
      | some number => return { gathered with maxDepth := some number }
      | none => .error .badNumber
  | .output => do
      once gathered.output
      return { gathered with output := some (← checkPath value) }
  | .category => .ok { gathered with categories := gathered.categories ++ [value] }

/-- Checks and takes what was kept back. -/
def settle (gathered : Gathered) : Except UsageError Gathered :=
  let settled := { gathered with pending := none }
  match gathered.pending with
  | none => .ok settled
  | some (.awaiting _) => .error .badValue
  | some (.given option value) => settled.accept option value
  | some (.operand value) => do
      return { settled with operand := some (← checkPath value) }

/-- Takes a flag, which may stand only once. -/
def raise (gathered : Gathered) (flag : Flag) : Except UsageError Gathered := do
  let settled ← gathered.settle
  match flag with
  | .noColor => if settled.noColor then .error .repeated else .ok { settled with noColor := true }
  | .verbose => if settled.verbose then .error .repeated else .ok { settled with verbose := true }
  | .listCategories =>
      if settled.listCategories then .error .repeated
      else .ok { settled with listCategories := true }

/-- Takes an option with the value attached to it, or waits for the value. -/
def start (gathered : Gathered) (option : ValueOption) (attached : Option String) :
    Except UsageError Gathered := do
  let settled ← gathered.settle
  match attached with
  | some value => settled.accept option value
  | none => .ok { settled with pending := some (.awaiting option) }

/-- Reports help or the version, unless something before it is at fault. -/
def answer (gathered : Gathered) (reason : UsageError) : Except UsageError Gathered := do
  let _ ← gathered.settle
  .error reason

/-- Takes an option by its long name. -/
def long (command : Option CommandName) (gathered : Gathered) (name : String)
    (attached : Option String) : Except UsageError Gathered :=
  match Switch.ofName? command name with
  | none => .error .unknownArgument
  | some (.value option) => gathered.start option attached
  | some switch =>
      if attached.isSome then .error .needlessValue
      else
        match switch with
        | .flag flag => gathered.raise flag
        | .version => gathered.answer .version
        | _ => gathered.answer .help

/-- Takes options by their letters. What follows an option with a value is its
value, an equals sign between them allowed. -/
def letters (command : Option CommandName) (gathered : Gathered) :
    List Char → Except UsageError Gathered
  | [] => .ok gathered
  | letter :: rest =>
      match Switch.ofLetter? command letter with
      | none => .error .unknownArgument
      | some (.flag flag) => do letters command (← gathered.raise flag) rest
      | some .help => gathered.answer .help
      | some .version => gathered.answer .version
      | some (.value option) =>
          match rest with
          | [] => gathered.start option none
          | '=' :: value => gathered.start option (some (String.ofList value))
          | value => gathered.start option (some (String.ofList value))

/-- Whether there is an operand already. -/
def hasOperand (gathered : Gathered) : Bool :=
  gathered.operand.isSome || gathered.pending matches some (.operand _)

/-- Takes an operand. Before a command there can be none. -/
def positional (command : Option CommandName) (gathered : Gathered) (argument : String) :
    Except UsageError Gathered :=
  if command = none then .error .unknownCommand
  else if gathered.hasOperand then .error .unknownArgument
  else do
    return { ← gathered.settle with pending := some (.operand argument) }

/-- The name of a long option and the value attached to it. -/
def nameAndValue (text : List Char) : String × Option String :=
  let name := text.takeWhile (· ≠ '=')
  (String.ofList name, (text.drop name.length).tail?.map String.ofList)

/-- Takes one argument that does not stand behind two dashes. -/
def argument (command : Option CommandName) (gathered : Gathered) (argument : String) :
    Except UsageError Gathered :=
  match argument.toList with
  | '-' :: '-' :: text =>
      let (name, attached) := nameAndValue text
      gathered.long command name attached
  | '-' :: letter :: rest => gathered.letters command (letter :: rest)
  | _ =>
      match gathered.pending with
      | some (.awaiting option) =>
          .ok { gathered with pending := some (.given option argument) }
      | _ => gathered.positional command argument

/-- Takes the arguments behind two dashes. -/
def operands (command : Option CommandName) (gathered : Gathered) (arguments : List String) :
    Except UsageError Gathered :=
  arguments.foldlM (positional command) gathered

/-- Takes all arguments behind a command. -/
def ofCommand (command : CommandName) (gathered : Gathered) :
    List String → Except UsageError Gathered
  | [] => gathered.settle
  | "--" :: rest => do (← gathered.operands (some command) rest).settle
  | first :: rest => do ofCommand command (← gathered.argument (some command) first) rest

/-- Whether anything was gathered. -/
def isEmpty (gathered : Gathered) : Bool :=
  gathered == {}

end Gathered

/-- What is to be done. -/
inductive Command where
  | run (file : String) (output : Option String)
  | tree (file : String)
  | test (path : String) (categories : List String) (listOnly : Bool)
deriving DecidableEq, Repr

/-- A call that can be carried out. -/
structure Invocation where
  command : Command
  noColor : Bool := false
  config : Option String := none
  maxDepth : Option Nat := none
deriving DecidableEq, Repr

namespace Invocation

/-- The command with what was gathered behind it. -/
def commandOf (name : CommandName) (operand : String) (gathered : Gathered) : Command :=
  match name with
  | .run => .run operand gathered.output
  | .tree => .tree operand
  | .test => .test operand gathered.categories gathered.listCategories

/-- The call of a command, given what was gathered before it and the arguments
behind it. Of an option that stands in both places the last one counts. -/
def ofCommand (before : Gathered) (name : CommandName) (arguments : List String) :
    Except UsageError Invocation := do
  let own ← Gathered.ofCommand name {} arguments
  match own.operand with
  | none => .error .missingOperand
  | some operand =>
      let common ← before.settle
      return {
        command := commandOf name operand own
        noColor := common.noColor || own.noColor
        config := own.config.or common.config
        maxDepth := own.maxDepth.or common.maxDepth }

/-- What asking for help on some words gives: at most one command is a topic. -/
def helpOn : List String → UsageError
  | [] => .help
  | [word] => if (CommandName.ofWord? word).isSome ∨ word = "help" then .help else .unknownCommand
  | _ => .unknownCommand

/-- The end of a call without a command. -/
def withoutCommand (before : Gathered) : Except UsageError Invocation := do
  let common ← before.settle
  .error (if common.isEmpty then .emptyCall else .missingCommand)

/-- The end of a call with two dashes before any command: no command can
follow. -/
def behindDashes (before : Gathered) : List String → Except UsageError Invocation
  | [] => withoutCommand before
  | word :: _ =>
      .error (if (CommandName.ofWord? word).isSome ∨ word = "help" then .unknownArgument
        else .unknownCommand)

/-- What a word means before a command. -/
inductive Word where
  | command (name : CommandName)
  | help
  | dashes
  | argument

/-- The meaning of a word. No command is seen where a value is awaited. -/
def wordAt (before : Gathered) (word : String) : Word :=
  if word = "--" then .dashes
  else if before.pending matches some (.awaiting _) then .argument
  else if word = "help" then .help
  else
    match CommandName.ofWord? word with
    | some name => .command name
    | none => .argument

/-- Reads a call from its arguments, given what was gathered so far. -/
def read (before : Gathered) : List String → Except UsageError Invocation
  | [] => withoutCommand before
  | word :: rest =>
      match wordAt before word with
      | .command name => ofCommand before name rest
      | .help => .error (helpOn rest)
      | .dashes => behindDashes before rest
      | .argument => do read (← before.argument none word) rest

/-- Reads a call from its arguments. -/
def ofArguments (arguments : List String) : Except UsageError Invocation :=
  read {} arguments

end Invocation

end Transclusion.CommandLine
