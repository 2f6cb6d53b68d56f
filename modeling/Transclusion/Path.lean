/-!
# File paths

A path is a text whose components stand between slashes. Empty components and
components that consist of a single point mean nothing, except for a point in
front of a relative path, which is kept as a component of its own.

`tidy` brings a path into the form in which a relative target is read: no point
components, and two points only where nothing before them can be taken back. It
builds the text of the new path component by component. `relocate` takes a path
relative to the directory of another one.
-/

set_option autoImplicit false

namespace Transclusion

/-- A component of a path. -/
inductive PathComponent where
  | root
  | here
  | up
  | name (value : String)
deriving DecidableEq, Repr

namespace PathComponent

/-- The component as it is written. -/
def text : PathComponent → String
  | .root => "/"
  | .here => "."
  | .up => ".."
  | .name value => value

/-- The component that a piece between two slashes stands for, if any. -/
def ofPiece? (piece : List Char) : Option PathComponent :=
  if piece = [] ∨ piece = ['.'] then none
  else if piece = ['.', '.'] then some .up
  else some (.name (String.ofList piece))

end PathComponent

namespace Path

/-- The pieces of a text between slashes; there is always at least one. -/
def pieces : List Char → List (List Char)
  | [] => [[]]
  | char :: rest =>
      if char = '/' then [] :: pieces rest
      else
        match pieces rest with
        | [] => [[char]]
        | first :: others => (char :: first) :: others

/-- Whether a path begins at the root. -/
def isAbsolute (path : String) : Bool :=
  path.toList.head? == some '/'

/-- The part of a path that stands in front of its pieces: the slash of the
root, or the point of a relative path that begins with one. -/
def front (path : List Char) : List PathComponent × List Char :=
  match path with
  | '/' :: rest => ([.root], rest)
  | ['.'] => ([.here], [])
  | '.' :: '/' :: rest => ([.here], '/' :: rest)
  | _ => ([], path)

/-- The components of a path. -/
def components (path : String) : List PathComponent :=
  let (first, body) := front path.toList
  first ++ (pieces body).filterMap PathComponent.ofPiece?

/-- The last component, if it is a name. -/
def fileName? (path : String) : Option String :=
  match (components path).getLast? with
  | some (.name value) => some value
  | _ => none

/-- Whether a piece of a path means nothing. -/
def isVoid (piece : List Char) : Bool :=
  piece == [] || piece == ['.']

/-- Pieces without the void ones at the end. -/
def dropVoidEnd (list : List (List Char)) : List (List Char) :=
  (list.reverse.dropWhile isVoid).reverse

/-- The text of a path up to its last component; nothing for the root and for
the empty path. -/
def parent? (path : String) : Option String :=
  let (first, body) := front path.toList
  let opening := String.join (first.map PathComponent.text)
  match (dropVoidEnd (pieces body)).reverse with
  | _ :: others =>
      let kept := (dropVoidEnd others.reverse).map String.ofList
      some (opening ++ String.intercalate "/" kept)
  | [] => if first = [.here] then some "" else none

/-- A path inside a directory. -/
def join (directory path : String) : String :=
  if isAbsolute path ∨ directory = "" then path
  else if directory.toList.getLast? = some '/' then directory ++ path
  else directory ++ "/" ++ path

/-- A path with one more component behind it. A point adds nothing, and two
points take back a name. -/
def push (path : String) : PathComponent → String
  | .here => path
  | .up => if (fileName? path).isSome then (parent? path).getD path else join path ".."
  | component => join path component.text

/-- A path without points and with as few steps up as possible. -/
def tidy (path : String) : String :=
  (components path).foldl push ""

/-- A relative path taken relative to the directory that holds another one. An
absolute path stays as it is. -/
def relocate (base path : String) : String :=
  if isAbsolute path then path
  else tidy (join ((parent? base).getD "") path)

end Path

end Transclusion
