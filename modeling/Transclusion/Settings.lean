import Transclusion.Engine.Builtin
import Transclusion.Toml.Decode

/-!
# Settings

The settings file of a directory: a TOML document with the depth limit, the
default resource and shortcuts that count for every text. A setting that is not
made is left to the default.
-/

set_option autoImplicit false

namespace Transclusion

/-- A shortcut as it is written in a settings file. -/
structure ShortcutEntry where
  name : String
  template : String
deriving DecidableEq, Repr

namespace ShortcutEntry

/-- The shortcut that is written. -/
def shortcut (entry : ShortcutEntry) : Shortcut :=
  ⟨entry.name, .template entry.template⟩

/-- Reads a shortcut: a table with its name and its expansion, or an array that
begins with them. What else there is does not matter. -/
def ofToml? : Toml.Value → Option ShortcutEntry
  | .table _ entries =>
      return ⟨← Toml.Entries.required entries "name" Toml.Value.text?,
        ← Toml.Entries.required entries "expand" Toml.Value.text?⟩
  | .array (name :: template :: _) => return ⟨← name.text?, ← template.text?⟩
  | _ => none

/-- Reads the shortcuts of a document; there may be none. -/
def listOfToml? (entries : Toml.Entries) : Option (List ShortcutEntry) := do
  let found ← entries.optional "shortcuts" fun value => do
    (← value.items?).mapM ofToml?
  return found.getD []

end ShortcutEntry

/-- What a settings file may set. -/
structure Settings where
  maxDepth : Option Nat := none
  defaultResource : Option String := none
  shortcuts : List ShortcutEntry := []
deriving DecidableEq, Repr

namespace Settings

/-- The name of the file beside the input. -/
def fileName : String := "inline.toml"

/-- Reads the settings in a text. No other settings may be made. -/
def ofText? (text : String) : Option Settings := do
  let entries ← Toml.parse text
  if entries.hasOnly ["max_depth", "default_resource", "shortcuts"] then
    return {
      maxDepth := ← entries.optional "max_depth" Toml.Value.count?
      defaultResource := ← entries.optional "default_resource" Toml.Value.text?
      shortcuts := ← ShortcutEntry.listOfToml? entries }
  else none

/-- The options of an engine: a depth limit given on the way comes before the
one set. -/
def options (settings : Settings) (maxDepth : Option Nat) : Options :=
  let defaults : Options := {}
  { maxDepth := (maxDepth.or settings.maxDepth).getD defaults.maxDepth
    defaultResource := settings.defaultResource.getD defaults.defaultResource }

/-- The engine of the settings. -/
def engine {m : Type → Type} [Monad m] (settings : Settings) (maxDepth : Option Nat)
    (readFile : String → m (Except FileError ByteArray)) : Engine m :=
  .builtin (settings.options maxDepth) readFile (settings.shortcuts.map ShortcutEntry.shortcut)

/-- Why settings could not be had. -/
inductive Fault where
  | unreadable (path : String) (error : FileError)
  | malformed (path : String)
deriving DecidableEq, Repr

/-- The wording of the fault. -/
def Fault.message : Fault → String
  | .unreadable path error => "cannot read '" ++ path ++ "': " ++ error.message
  | .malformed path => path ++ ": " ++ Toml.refusal

section Files

variable {m : Type → Type} [Monad m]

/-- Reads a settings file. -/
def load (access : FileAccess m) (path : String) : m (Except Fault Settings) := do
  match ← access.readText path with
  | .error error => return .error (.unreadable path error)
  | .ok text =>
      match ofText? text with
      | some settings => return .ok settings
      | none => return .error (.malformed path)

/-- The settings file beside a path. -/
def beside (path : String) : String :=
  match Path.parent? path with
  | some directory => Path.join directory fileName
  | none => fileName

/-- The settings for an input: those of a file that is named, else those beside
the input, else none. -/
def find (access : FileAccess m) (named : Option String) (input : String) :
    m (Except Fault Settings) := do
  match named with
  | some path => load access path
  | none =>
      if ← access.isFile (beside input) then load access (beside input)
      else return .ok {}

end Files

end Settings

end Transclusion
