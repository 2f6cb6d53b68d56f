import Transclusion.Engine.Resolve
import Transclusion.Resource.Builtin
import Transclusion.Transform.Builtin

/-!
# The engine of the command line

An engine with the resources and transforms at hand, and shortcuts that count
for every text.
-/

set_option autoImplicit false

namespace Transclusion.Engine

variable {m : Type → Type} [Monad m]

/-- The engine with a handler registered. -/
def addHandler (engine : Engine m) (handler : Handler m) : Engine m :=
  { engine with handlers := engine.handlers.add handler }

/-- The engine with a transform registered. -/
def addTransform (engine : Engine m) (transform : Transform m) : Engine m :=
  { engine with transforms := engine.transforms.add transform }

/-- The engine with a shortcut for every text. -/
def addShortcut (engine : Engine m) (shortcut : Shortcut) : Engine m :=
  { engine with shortcuts := engine.shortcuts.add shortcut }

/-- An engine with the resources and transforms at hand, which reads files by a
given operation. -/
def builtin (options : Options) (readFile : String → m (Except FileError ByteArray))
    (shortcuts : List Shortcut) : Engine m :=
  let handled := [Handler.file readFile, Handler.text].foldl addHandler { options := options }
  let transformed := Transform.builtin.foldl addTransform handled
  shortcuts.foldl addShortcut transformed

end Transclusion.Engine
