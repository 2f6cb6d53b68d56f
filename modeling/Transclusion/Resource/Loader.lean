import Transclusion.Content
import Transclusion.Registry
import Transclusion.ResolveError

/-!
# Resources and the read cache

A handler serves the targets that bear its name. It reads a target, gives the
key under which the outcome of the read may be kept, and may take a target
relative to the one that includes it. Reads run in any monad, so a handler may
depend on state and change it.

`Handlers.read` reads through a cache. A read under a key is made once; its
outcome, content or error, answers every later read under that key, also when
another handler has been registered since. A read without a key is made every
time. Keys of different handlers are kept apart by the handler's name.
-/

set_option autoImplicit false

namespace Transclusion

/-- What serves the targets of one name. The including target is absent for
the entry of a resolution. -/
structure Handler (m : Type → Type) where
  name : String
  /-- Reads a target for an including target. -/
  read : Option Target → Target → m (Except ResolveError Content)
  /-- The key under which the outcome of a read is kept. -/
  key : Option Target → Target → Option String := fun _ _ => none
  /-- Takes the second target relative to the first, which includes it. -/
  relocate : Target → Target → Target := fun _ target => target

/-- The outcomes of reads under their keys. -/
abbrev Cache := Registry (Except ResolveError Content)

/-- The key of a handler's outcome among the outcomes of all handlers. -/
def Cache.key (name key : String) : String :=
  name ++ "\x00" ++ key

/-- The handlers under their names. -/
abbrev Handlers (m : Type → Type) := Registry (Handler m)

namespace Handlers

variable {m : Type → Type}

/-- Registers a handler under its name. -/
def add (handlers : Handlers m) (handler : Handler m) : Handlers m :=
  handlers.insert handler.name handler

/-- The handler of a target. -/
def handlerOf (handlers : Handlers m) (target : Target) : Except ResolveError (Handler m) :=
  match handlers.find? target.name with
  | some handler => .ok handler
  | none => .error (.unknownResource target.name)

/-- The target taken relative to the one that includes it, if any does. -/
def locate (handlers : Handlers m) (source : Option Target) (target : Target) :
    Except ResolveError Target :=
  match handlers.handlerOf target with
  | .error error => .error error
  | .ok handler =>
      match source with
      | some includer => .ok (handler.relocate includer target)
      | none => .ok target

/-- Reads a target through the cache. -/
def read [Monad m] (handlers : Handlers m) (source : Option Target) (target : Target) :
    StateT Cache m (Except ResolveError Content) := fun cache =>
  match handlers.handlerOf target with
  | .error error => pure (.error error, cache)
  | .ok handler =>
      match handler.key source target with
      | none => do
          let outcome ← handler.read source target
          return (outcome, cache)
      | some key =>
          let key := Cache.key target.name key
          match cache.find? key with
          | some outcome => pure (outcome, cache)
          | none => do
              let outcome ← handler.read source target
              return (outcome, cache.insert key outcome)

end Handlers

end Transclusion
