import Transclusion.Decimal.Binary64
import Transclusion.Toml.Moment

/-!
# Values of a TOML document

A document is a table of keys and values. Tables remember how they came to be,
because that decides whether more may be added to them: a table written with a
header or in braces is complete where it is written, while a table that only
lies on the way to another one can still be filled in.
-/

set_option autoImplicit false

namespace Transclusion.Toml

/-- How a table came to be. -/
inductive Origin where
  /-- Written with a header, or the document itself. -/
  | header
  /-- Written in braces. -/
  | braces
  /-- Lying on the way to a table with a header. -/
  | implied
  /-- Lying on the way to a dotted key. -/
  | dotted
deriving DecidableEq, Repr

/-- A value. -/
inductive Value where
  | string (text : String)
  | integer (number : Int)
  | float (number : Binary64)
  | boolean (truth : Bool)
  | moment (moment : Moment)
  | array (items : List Value)
  /-- The tables under one header in double brackets. -/
  | tables (items : List Value)
  | table (origin : Origin) (entries : List (String × Value))

/-- The keys and values of a table. -/
abbrev Entries := List (String × Value)

namespace Entries

/-- Puts a value in the place of the one under a key. -/
def replace (entries : Entries) (key : String) (value : Value) : Entries :=
  entries.map fun entry => if entry.1 = key then (key, value) else entry

/-- Follows a path of keys from a table and changes the table at its end,
which is given with its origin. Tables missing on the way are made; the last
table of a row of tables stands for the row. A dotted path does not lead
through a table that is complete. -/
def modifyAt (dotted : Bool) (change : Origin → Entries → Option Entries) :
    List String → Origin → Entries → Option Entries
  | [], origin, entries => change origin entries
  | key :: path, _, entries =>
      match entries.lookup key with
      | none => do
          let made : Origin := if dotted then .dotted else .implied
          let inner ← modifyAt dotted change path made []
          return entries ++ [(key, .table made inner)]
      | some (.table .braces _) => none
      | some (.table origin inner) =>
          if dotted ∧ origin = .header then none
          else do
            let changed ← modifyAt dotted change path origin inner
            return entries.replace key (.table origin changed)
      | some (.tables items) =>
          match items.getLast? with
          | some (.table origin inner) => do
              let changed ← modifyAt dotted change path origin inner
              return entries.replace key (.tables (items.dropLast ++ [.table origin changed]))
          | _ => none
      | some _ => none

/-- Adds a value under a dotted key to a table. The key must be new, and a
table that was not made by dotted keys cannot be reached by one. -/
def define (origin : Origin) (entries : Entries) (path : List String) (key : String)
    (value : Value) : Option Entries :=
  modifyAt true (fun reached inner =>
    if (reached = .dotted ↔ path = []) ∨ (inner.lookup key).isSome then none
    else some (inner ++ [(key, value)])) path origin entries

end Entries

end Transclusion.Toml
