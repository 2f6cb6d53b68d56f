import Transclusion.Text.Blank

/-!
# Pipe expressions

A pipe expression is a chain of segments between bars. A segment is a name and,
behind a colon, a list of arguments between commas. A backslash takes the
meaning from the delimiter behind it: `:` and `|` in a name, `,` and `|` in an
argument. Before any other character it stands for itself. Blanks around names
and arguments are dropped, and the empty text is the empty chain.

Nothing is read behind the last delimiter of a text that ends in one: a colon,
a comma or a bar at the end opens no further piece.
-/

set_option autoImplicit false

namespace Transclusion

/-- One step of a pipe expression. -/
structure Segment where
  name : String
  args : List String
deriving DecidableEq, Repr, Inhabited

namespace Pipe

/-- The delimiters that may end a name. -/
def nameDelimiters : List Char := [':', '|']

/-- The delimiters that may end an argument. -/
def valueDelimiters : List Char := [',', '|']

/-! ## Escapes -/

/-- Puts a backslash before every delimiter. -/
def escape (delimiters : List Char) (text : List Char) : List Char :=
  text.flatMap fun char => if char ∈ delimiters then ['\\', char] else [char]

/-- Drops the backslash before every delimiter. -/
def unescape (delimiters : List Char) : List Char → List Char
  | [] => []
  | '\\' :: char :: rest =>
      if char ∈ delimiters then char :: unescape delimiters rest
      else '\\' :: unescape delimiters (char :: rest)
  | char :: rest => char :: unescape delimiters rest

/-- A name as it is written. -/
def escapeName (name : String) : String :=
  String.ofList (escape nameDelimiters name.toList)

/-- An argument as it is written. -/
def escapeValue (value : String) : String :=
  String.ofList (escape valueDelimiters value.toList)

/-! ## Reading -/

/-- Cuts a text at the first delimiter that no backslash precedes: the part
before it and, if there is one, the delimiter and the part behind it. -/
def cut (delimiters : List Char) : List Char → List Char × Option (Char × List Char)
  | [] => ([], none)
  | '\\' :: char :: rest =>
      if char ∈ delimiters then
        let (part, behind) := cut delimiters rest
        ('\\' :: char :: part, behind)
      else
        let (part, behind) := cut delimiters (char :: rest)
        ('\\' :: part, behind)
  | char :: rest =>
      if char ∈ delimiters then ([], some (char, rest))
      else
        let (part, behind) := cut delimiters rest
        (char :: part, behind)

/-- What stands behind a delimiter is shorter than the text. -/
theorem cut_length_lt {delimiters input part rest : List Char} {delimiter : Char}
    (result : cut delimiters input = (part, some (delimiter, rest))) :
    rest.length < input.length := by
  fun_induction cut delimiters input generalizing part with
  | case1 => simp at result
  | case2 char tail _ part' behind inner ih =>
      simp only [Prod.mk.injEq] at result
      have := ih (inner.trans (by rw [result.2]))
      simp only [List.length_cons]
      omega
  | case3 char tail _ part' behind inner ih =>
      simp only [Prod.mk.injEq] at result
      have := ih (inner.trans (by rw [result.2]))
      simp only [List.length_cons] at this ⊢
      omega
  | case4 char tail =>
      simp only [Prod.mk.injEq, Option.some.injEq] at result
      simp [result.2.2]
  | case5 char tail _ _ part' behind inner ih =>
      simp only [Prod.mk.injEq] at result
      have := ih (inner.trans (by rw [result.2]))
      simp only [List.length_cons]
      omega

/-- The name or argument that a part of a text stands for. -/
def piece (delimiters part : List Char) : String :=
  String.ofList (unescape delimiters (Text.trim part))

/-- Reads arguments up to a bar or the end, with what is left behind the bar. -/
def readArgs (input : List Char) : List String × List Char :=
  if input = [] then ([], [])
  else
    match _ : cut valueDelimiters input with
    | (part, none) => ([piece valueDelimiters part], [])
    | (part, some (delimiter, rest)) =>
        if delimiter = '|' then ([piece valueDelimiters part], rest)
        else
          let (others, behind) := readArgs rest
          (piece valueDelimiters part :: others, behind)
termination_by input.length
decreasing_by exact cut_length_lt ‹_›

theorem readArgs_length_le (input : List Char) : (readArgs input).2.length ≤ input.length := by
  fun_induction readArgs input with
  | case1 => simp
  | case2 => simp
  | case3 input _ part rest result => exact Nat.le_of_lt (cut_length_lt result)
  | case4 input _ part delimiter rest result _ others behind inner ih =>
      have := cut_length_lt result
      rw [inner] at ih
      simp only at ih ⊢
      omega

/-- Reads the segments of a text. -/
def readSegments (input : List Char) : List Segment :=
  if input = [] then []
  else
    match _ : cut nameDelimiters input with
    | (part, none) => [⟨piece nameDelimiters part, []⟩]
    | (part, some (delimiter, rest)) =>
        if delimiter = ':' then
          match _ : readArgs rest with
          | (args, behind) => ⟨piece nameDelimiters part, args⟩ :: readSegments behind
        else ⟨piece nameDelimiters part, []⟩ :: readSegments rest
termination_by input.length
decreasing_by
  · have shorter := cut_length_lt ‹_›
    have within := readArgs_length_le rest
    simp_all
    omega
  · exact cut_length_lt ‹_›

/-- The chain that a text denotes. -/
def parse (text : String) : List Segment :=
  readSegments text.toList

/-! ## Writing -/

/-- The text of a segment. -/
def renderSegment (segment : Segment) : String :=
  if segment.args = [] then escapeName segment.name
  else escapeName segment.name ++ ":" ++ String.intercalate "," (segment.args.map escapeValue)

/-- The text of a chain. -/
def render (segments : List Segment) : String :=
  String.intercalate "|" (segments.map renderSegment)

end Pipe

end Transclusion
