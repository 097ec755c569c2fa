import FoldingProtocol.Text.Numeral

/-!
# Dates and times

A configuration file may hold dates, times of day and both together, with or
without an offset from universal time. They are carried through, compared and
written back, never computed with.
-/

namespace FoldingProtocol

/-- A day of the calendar. -/
structure Date where
  year : Nat
  month : Nat
  day : Nat
deriving DecidableEq, Repr

/-- A time of day, to the microsecond. -/
structure TimeOfDay where
  hour : Nat
  minute : Nat
  second : Nat
  microsecond : Nat
deriving DecidableEq, Repr

/-- A date, a time, or both; the offset is in minutes east of universal time. -/
inductive Moment where
  | date (day : Date)
  | time (clock : TimeOfDay)
  | dateTime (day : Date) (clock : TimeOfDay) (offset : Option Int)
deriving DecidableEq, Repr

/-- The days of a month, with the leap years of the calendar of 1582 carried
back to year one. -/
def Date.daysInMonth (year month : Nat) : Nat :=
  if month = 2 then
    if year % 4 = 0 ∧ (year % 100 ≠ 0 ∨ year % 400 = 0) then 29 else 28
  else if month = 4 ∨ month = 6 ∨ month = 9 ∨ month = 11 then 30
  else 31

/-- A day that the calendar has. -/
def Date.isValid (d : Date) : Bool :=
  1 ≤ d.year && 1 ≤ d.month && d.month ≤ 12 && 1 ≤ d.day &&
    d.day ≤ daysInMonth d.year d.month

namespace Moment

/-- A number with zeros before it up to a width. -/
def padded (width n : Nat) : List Char :=
  let digits := Numeral.ofNat n
  List.replicate (width - digits.length) '0' ++ digits

/-- A date as `1979-05-27`. -/
def dateText (d : Date) : List Char :=
  padded 4 d.year ++ '-' :: padded 2 d.month ++ '-' :: padded 2 d.day

/-- A time as `07:32:00`, with six places when it has a fraction. -/
def timeText (t : TimeOfDay) : List Char :=
  padded 2 t.hour ++ ':' :: padded 2 t.minute ++ ':' :: padded 2 t.second ++
    if t.microsecond = 0 then [] else '.' :: padded 6 t.microsecond

/-- An offset as `+01:30`. -/
def offsetText (minutes : Int) : List Char :=
  (if minutes < 0 then '-' else '+') ::
    padded 2 (minutes.natAbs / 60) ++ ':' :: padded 2 (minutes.natAbs % 60)

/-- The text of a moment, with a character of choice between date and time. -/
def render (between : Char) : Moment → List Char
  | .date d => dateText d
  | .time t => timeText t
  | .dateTime d t offset =>
    dateText d ++ between :: timeText t ++ (offset.map offsetText).getD []

/-- Numbers with commas between them. -/
def listed (ns : List Nat) : List Char :=
  [',', ' '].intercalate (ns.map Numeral.ofNat)

/-- The parts of a time that a message shows: trailing zero parts below the
minute are left out. -/
def shownParts (t : TimeOfDay) : List Nat :=
  [t.hour, t.minute] ++
    if t.microsecond ≠ 0 then [t.second, t.microsecond]
    else if t.second ≠ 0 then [t.second] else []

/-- An offset as a message shows it: whole days down, and seconds up from
there. -/
def offsetLiteral (minutes : Int) : List Char :=
  if minutes = 0 then "datetime.timezone.utc".toList
  else
    let span :=
      if minutes < 0 then
        "days=-1, seconds=".toList ++ Numeral.ofInt (86400 + 60 * minutes)
      else "seconds=".toList ++ Numeral.ofInt (60 * minutes)
    "datetime.timezone(datetime.timedelta(".toList ++ span ++ "))".toList

/-- A moment as a message shows it. -/
def literal : Moment → List Char
  | .date d => "datetime.date(".toList ++ listed [d.year, d.month, d.day] ++ [')']
  | .time t => "datetime.time(".toList ++ listed (shownParts t) ++ [')']
  | .dateTime d t offset =>
    "datetime.datetime(".toList ++ listed ([d.year, d.month, d.day] ++ shownParts t) ++
      (match offset with
        | none => []
        | some minutes => ", tzinfo=".toList ++ offsetLiteral minutes) ++ [')']

/-- The name of a moment's type in a message. -/
def typeName : Moment → String
  | .date _ => "date"
  | .time _ => "time"
  | .dateTime .. => "datetime"

end Moment

end FoldingProtocol
