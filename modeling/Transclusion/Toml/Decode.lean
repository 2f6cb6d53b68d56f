import Transclusion.Toml.Document

/-!
# Typed values of a TOML document

Readings of a value at the type that is expected of it.
-/

set_option autoImplicit false

namespace Transclusion.Toml

namespace Value

/-- The text of a string. -/
def text? : Value → Option String
  | .string text => some text
  | _ => none

/-- The size of a whole number that is not negative. -/
def count? : Value → Option Nat
  | .integer number => number.toNat?
  | _ => none

/-- The truth of a truth value. -/
def truth? : Value → Option Bool
  | .boolean truth => some truth
  | _ => none

/-- The members of an array, or of a row of tables. -/
def items? : Value → Option (List Value)
  | .array items => some items
  | .tables items => some items
  | _ => none

/-- The key under which a point in time that is read as a table has its text. -/
def momentKey : String := "$__toml_private_datetime"

/-- The keys and values of a table. A point in time counts as a table of one
entry, its text. -/
def entries? : Value → Option Entries
  | .table _ entries => some entries
  | .moment instant => some [(momentKey, .string instant.display)]
  | _ => none

end Value

namespace Entries

/-- Whether a table has no keys but the given ones. -/
def hasOnly (entries : Entries) (known : List String) : Bool :=
  entries.all fun entry => known.contains entry.1

/-- The value under a key that may be missing; nothing if it is there and of
another type. -/
def optional {α : Type} (entries : Entries) (key : String) (decode : Value → Option α) :
    Option (Option α) :=
  match entries.lookup key with
  | none => some none
  | some value => (decode value).map some

/-- The value under a key that has to be there. -/
def required {α : Type} (entries : Entries) (key : String) (decode : Value → Option α) :
    Option α :=
  (entries.lookup key).bind decode

end Entries

/-- What is said of a document that cannot be read, or not as what is expected
of it. -/
def refusal : String := "TOML parse error:"

end Transclusion.Toml
