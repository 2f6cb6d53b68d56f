import Transclusion.Toml.Number

/-!
# TOML documents

A document is read line by line. A header makes a table the current one, and a
line with a key and a value adds to the current table. The current table is kept
apart from the document until the next header or the end puts it into its place.

`Toml.parse` is the whole reader: the keys and values of a document, or nothing
if it is not well formed.
-/

set_option autoImplicit false

namespace Transclusion.Toml

/-! ## Values with parts -/

/-- How values are read inside an array or a table in braces. -/
abbrev ValueReader := List Char → Option (Value × List Char)

/-- Reads at most so many values of an array, up to its closing bracket. Spaces,
newlines and comments may stand between them, and a comma behind the last. -/
def arrayTail (element : ValueReader) : Nat → List Char → Option (List Value × List Char)
  | 0, _ => none
  | more + 1, input =>
      match Gap.skip .outside input with
      | ']' :: rest => some ([], rest)
      | start =>
          match element start with
          | none => none
          | some (item, behind) =>
              match Gap.skip .outside behind with
              | ']' :: rest => some ([item], rest)
              | ',' :: rest =>
                  (arrayTail element more rest).map fun (items, left) => (item :: items, left)
              | _ => none

/-- Reads a key, the equals sign and the value behind it. -/
def assignment (element : ValueReader) (input : List Char) :
    Option ((List String × String × Value) × List Char) := do
  let ((path, last), behindKey) ← key input
  let start ← after? '=' behindKey
  let (value, rest) ← element (skipSpace start)
  return ((path, last, value), rest)

/-- Reads at most so many entries of a table in braces, up to the closing one,
behind those that were read. All of it stands on one line, without a comma
behind the last entry. -/
def bracesTail (element : ValueReader) : Nat → Entries → List Char → Option (Entries × List Char)
  | 0, _, _ => none
  | more + 1, entries, input =>
      match assignment element input with
      | none => none
      | some ((path, last, value), behind) =>
          match entries.define .braces path last value with
          | none => none
          | some extended =>
              match skipSpace behind with
              | '\x7d' :: rest => some (extended, rest)
              | ',' :: rest => bracesTail element more extended rest
              | _ => none

/-- Reads a value in which arrays and tables have at most `size` parts and are
nested up to a number of levels. -/
def value (size : Nat) : Nat → ValueReader
  | levels, '[' :: rest =>
      match levels with
      | 0 => none
      | inner + 1 =>
          (arrayTail (value size inner) size rest).map fun (items, left) => (.array items, left)
  | levels, '\x7b' :: rest =>
      match levels with
      | 0 => none
      | inner + 1 =>
          match skipSpace rest with
          | '\x7d' :: behind => some (.table .braces [], behind)
          | _ =>
              (bracesTail (value size inner) size [] rest).map fun (entries, left) =>
                (.table .braces entries, left)
  | _, input => atom input

/-- The most levels of arrays and tables in one another. -/
def nestingLimit : Nat := 79

/-! ## Lines -/

/-- Where the current table belongs: the document itself, a table, or the end of
a row of tables. -/
inductive Place where
  | document
  | table (path : List String) (key : String)
  | row (path : List String) (key : String)

/-- What was read of a document: the tables in their places and the current
one. -/
structure Draft where
  placed : Entries := []
  place : Place := .document
  current : Entries := []

namespace Draft

/-- Puts the current table into its place. -/
def settle (draft : Draft) : Option Entries :=
  let finished : Value := .table .header draft.current
  match draft.place with
  | .document => some (draft.placed ++ draft.current)
  | .table path key =>
      Entries.modifyAt false (fun _ entries => some (entries ++ [(key, finished)]))
        path .header draft.placed
  | .row path key =>
      Entries.modifyAt false (fun _ entries =>
        match entries.lookup key with
        | none => some (entries ++ [(key, .tables [finished])])
        | some (.tables items) => some (entries.replace key (.tables (items ++ [finished])))
        | some _ => none) path .header draft.placed

/-- Follows a path to the table at its end, making those that are missing. -/
def reach (path : List String) (placed : Entries) : Option (Entries × Entries) := do
  let made ← Entries.modifyAt false (fun _ entries => some entries) path .header placed
  return (made, find path made)
where
  /-- The table at the end of a path. -/
  find : List String → Entries → Entries
    | [], entries => entries
    | key :: path, entries =>
        match entries.lookup key with
        | some (.table _ inner) => find path inner
        | some (.tables items) =>
            match items.getLast? with
            | some (.table _ inner) => find path inner
            | _ => []
        | _ => []

/-- Starts a table under a header. A table of that name must so far only lie on
the way to others; what it has is kept. -/
def openTable (draft : Draft) (path : List String) (key : String) : Option Draft := do
  let (placed, parent) ← reach path (← draft.settle)
  match parent.lookup key with
  | none => some ⟨placed, .table path key, []⟩
  | some (.table .implied inner) => do
      let freed ← Entries.modifyAt false (fun _ entries =>
        some (entries.filter fun entry => entry.1 ≠ key)) path .header placed
      return ⟨freed, .table path key, inner⟩
  | some _ => none

/-- Starts one more table of a row. -/
def openRow (draft : Draft) (path : List String) (key : String) : Option Draft := do
  let (placed, parent) ← reach path (← draft.settle)
  match parent.lookup key with
  | none => some ⟨placed, .row path key, []⟩
  | some (.tables _) => some ⟨placed, .row path key, []⟩
  | some _ => none

/-- Reads one line: a blank one, a header or a key with its value, whose parts
number at most `size`. -/
def line (size : Nat) (draft : Draft) (input : List Char) : Option (Draft × List Char) :=
  match skipSpace input with
  | '[' :: '[' :: header => do
      let ((path, last), behind) ← key header
      let rest ← after? ']' (← after? ']' behind)
      return (← draft.openRow path last, ← lineEnd? rest)
  | '[' :: header => do
      let ((path, last), behind) ← key header
      let rest ← after? ']' behind
      return (← draft.openTable path last, ← lineEnd? rest)
  | start =>
      match lineEnd? start with
      | some rest => some (draft, rest)
      | none => do
          let ((path, last, value), behind) ← assignment (value size nestingLimit) start
          let extended ← draft.current.define .header path last value
          return (⟨draft.placed, draft.place, extended⟩, ← lineEnd? behind)

/-- Reads all lines, at most so many. -/
def lines (size : Nat) : Nat → Draft → List Char → Option Draft
  | _, draft, [] => some draft
  | 0, _, _ => none
  | more + 1, draft, input =>
      match draft.line size input with
      | none => none
      | some (next, rest) => lines size more next rest

end Draft

/-- Reads a document, a byte order mark before it allowed: its keys and values.
Nothing in it has more parts, nor the document more lines, than it has
characters. -/
def parse (text : String) : Option Entries := do
  let input := match text.toList with
    | '\ufeff' :: rest => rest
    | characters => characters
  (← Draft.lines input.length input.length ⟨[], .document, []⟩ input).settle

end Transclusion.Toml
