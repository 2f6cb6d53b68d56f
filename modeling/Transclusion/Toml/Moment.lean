import Transclusion.Toml.Text

/-!
# Points in time of TOML

A point in time is a date, a time of day, or both with or without a distance
from universal time. Dates have to exist in the calendar, and a minute may have
a leap second. Times are exact to a billionth of a second; further digits are
dropped.

`Moment.display` writes a point in time in its standard form: a letter `T`
between date and time, a letter `Z` for universal time, and no zeros at the end
of a fraction.
-/

set_option autoImplicit false

namespace Transclusion.Toml

/-- A day of the calendar. -/
structure Date where
  year : Nat
  month : Nat
  day : Nat
deriving DecidableEq, Repr

/-- A time of day. -/
structure TimeOfDay where
  hour : Nat
  minute : Nat
  second : Nat
  /-- The digits of the fraction of a second. -/
  fraction : List Char
deriving DecidableEq, Repr

/-- How a time relates to universal time. -/
inductive Zone where
  | universal
  | ahead (hours minutes : Nat)
  | behind (hours minutes : Nat)
deriving DecidableEq, Repr

/-- A point in time. -/
inductive Moment where
  | date (date : Date)
  | time (time : TimeOfDay)
  | both (date : Date) (time : TimeOfDay) (zone : Option Zone)
deriving DecidableEq, Repr

/-! ## Writing -/

/-- A number in decimal digits, with zeros in front up to a width. -/
def padded (width number : Nat) : String :=
  let digits := Nat.toDigits 10 number
  String.ofList (List.replicate (width - digits.length) '0' ++ digits)

/-- The date in digits, the year first. -/
def Date.display (date : Date) : String :=
  padded 4 date.year ++ "-" ++ padded 2 date.month ++ "-" ++ padded 2 date.day

namespace TimeOfDay

/-- The most digits of a fraction. -/
def precision : Nat := 9

/-- The digits of a fraction that count: no more than the precision allows, and
no zeros at the end. -/
def significant (digits : List Char) : List Char :=
  ((digits.take precision).reverse.dropWhile (· = '0')).reverse

/-- The time in digits, a fraction behind a point if there is one. -/
def display (time : TimeOfDay) : String :=
  padded 2 time.hour ++ ":" ++ padded 2 time.minute ++ ":" ++ padded 2 time.second ++
    if time.fraction = [] then "" else "." ++ String.ofList time.fraction

end TimeOfDay

/-- The letter of universal time, or the distance from it. No distance at all
counts as ahead. -/
def Zone.display : Zone → String
  | .universal => "Z"
  | .ahead hours minutes => "+" ++ padded 2 hours ++ ":" ++ padded 2 minutes
  | .behind hours minutes =>
      (if hours = 0 ∧ minutes = 0 then "+" else "-") ++ padded 2 hours ++ ":" ++ padded 2 minutes

/-- The standard form of a point in time. -/
def Moment.display : Moment → String
  | .date day => day.display
  | .time clock => clock.display
  | .both day clock zone => day.display ++ "T" ++ clock.display ++ zone.elim "" Zone.display

/-! ## Reading -/

/-- Reads a number of a given width that must lie between two bounds. -/
def field (width low high : Nat) (input : List Char) : Option (Nat × List Char) :=
  let digits := input.take width
  let number := Literal.natOfDigits 10 digits
  if digits.length = width ∧ digits.all Char.isDigit ∧ low ≤ number ∧ number ≤ high then
    some (number, input.drop width)
  else none

/-- A year with a twenty-ninth of February. -/
def isLeapYear (year : Nat) : Bool :=
  year % 4 == 0 && (year % 100 != 0 || year % 400 == 0)

/-- The number of days in a month. -/
def daysIn (year month : Nat) : Nat :=
  if month = 2 then if isLeapYear year then 29 else 28
  else if month ∈ [4, 6, 9, 11] then 30
  else 31

/-- Reads a date. -/
def date? (input : List Char) : Option (Date × List Char) := do
  let (year, rest) ← field 4 0 9999 input
  let (month, rest) ← field 2 1 12 (← after? '-' rest)
  let (day, rest) ← field 2 1 (daysIn year month) (← after? '-' rest)
  return (⟨year, month, day⟩, rest)

/-- Reads the fraction of a second, if there is one: its digits. -/
def secondFraction (input : List Char) : List Char × List Char :=
  match input with
  | '.' :: rest =>
      let digits := rest.takeWhile Char.isDigit
      if digits = [] then ([], input)
      else (TimeOfDay.significant digits, rest.dropWhile Char.isDigit)
  | _ => ([], input)

/-- Reads a time of day. -/
def time? (input : List Char) : Option (TimeOfDay × List Char) := do
  let (hour, rest) ← field 2 0 23 input
  let (minute, rest) ← field 2 0 59 (← after? ':' rest)
  let (second, rest) ← field 2 0 60 (← after? ':' rest)
  let (fraction, rest) := secondFraction rest
  return (⟨hour, minute, second, fraction⟩, rest)

/-- Reads the distance from universal time. -/
def zone? : List Char → Option (Zone × List Char)
  | [] => none
  | sign :: rest =>
      if sign = 'Z' ∨ sign = 'z' then some (.universal, rest)
      else if sign = '+' ∨ sign = '-' then do
        let (hours, rest) ← field 2 0 23 rest
        let (minutes, rest) ← field 2 0 59 (← after? ':' rest)
        return (if sign = '+' then .ahead hours minutes else .behind hours minutes, rest)
      else none

/-- Reads a time that follows a date, with its zone if there is one. -/
def timeBehindDate? : List Char → Option ((TimeOfDay × Option Zone) × List Char)
  | [] => none
  | mark :: input =>
      if mark = 'T' ∨ mark = 't' ∨ mark = ' ' then do
        let (time, behind) ← time? input
        match zone? behind with
        | some (zone, rest) => return ((time, some zone), rest)
        | none => return ((time, none), behind)
      else none

/-- Reads a date, a time of day or both. -/
def moment? (input : List Char) : Option (Moment × List Char) :=
  match date? input with
  | some (date, behind) =>
      match timeBehindDate? behind with
      | some ((time, zone), rest) => some (.both date time zone, rest)
      | none => some (.date date, behind)
  | none => (time? input).map fun (time, rest) => (.time time, rest)

end Transclusion.Toml
