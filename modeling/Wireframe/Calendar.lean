import Wireframe.Decimal.Numeral

/-!
# Dates and moments

A date is a day of the proleptic Gregorian calendar and a moment adds a time of
day with microseconds and, optionally, an offset from universal time in minutes.
Two moments with offsets are the same when they name the same instant.
-/

namespace Wireframe

structure Date where
  year : Nat
  month : Nat
  day : Nat
  deriving DecidableEq, Repr

structure Moment where
  date : Date
  hour : Nat
  minute : Nat
  second : Nat
  microsecond : Nat
  offset : Option Int
  deriving DecidableEq, Repr

/-- Why a date or a moment does not exist. -/
inductive CalendarError
  | year (year : Nat)
  | month
  | day
  | hour
  | minute
  | second
  | offset (minutes : Int)
  deriving DecidableEq, Repr

namespace Calendar

def isLeap (year : Nat) : Bool :=
  year % 4 == 0 && (year % 100 != 0 || year % 400 == 0)

def daysInMonth (year month : Nat) : Nat :=
  if month = 2 then if isLeap year then 29 else 28
  else if month = 4 ∨ month = 6 ∨ month = 9 ∨ month = 11 then 30
  else 31

def padded (width n : Nat) : String :=
  let digits := (toString n).toList
  String.ofList (List.replicate (width - digits.length) '0' ++ digits)

/-- A time span in minutes as days and the seconds of the last day begun. -/
def spanParts (minutes : Int) : Int × Int :=
  (Int.fdiv minutes 1440, Int.fmod minutes 1440 * 60)

def quoteSpan (minutes : Int) : String :=
  let (days, seconds) := spanParts minutes
  let parts := (if days = 0 then [] else [s!"days={days}"]) ++
    (if seconds = 0 then [] else [s!"seconds={seconds}"])
  "datetime.timedelta(" ++ (if parts.isEmpty then "0" else ", ".intercalate parts) ++ ")"

end Calendar

open Calendar

namespace CalendarError

def message : CalendarError → String
  | year y => s!"year {y} is out of range"
  | month => "month must be in 1..12"
  | day => "day is out of range for month"
  | hour => "hour must be in 0..23"
  | minute => "minute must be in 0..59"
  | second => "second must be in 0..59"
  | offset minutes =>
    "offset must be a timedelta strictly between -timedelta(hours=24) and " ++
      s!"timedelta(hours=24), not {quoteSpan minutes}."

end CalendarError

namespace Date

def of? (year month day : Nat) : Except CalendarError Date :=
  if year = 0 then .error (.year year)
  else if month = 0 ∨ 12 < month then .error .month
  else if day = 0 ∨ daysInMonth year month < day then .error .day
  else .ok ⟨year, month, day⟩

/-- The number of days before the date, counted from the first day of year one. -/
def daysBefore (d : Date) : Nat :=
  let y := d.year - 1
  y * 365 + y / 4 - y / 100 + y / 400 +
    ((List.range d.month).drop 1).foldl (fun days m => days + daysInMonth d.year m) 0 +
    (d.day - 1)

def render (d : Date) : String :=
  padded 4 d.year ++ "-" ++ padded 2 d.month ++ "-" ++ padded 2 d.day

/-- The source form, as a date shows inside a container. -/
def quote (d : Date) : String :=
  s!"datetime.date({d.year}, {d.month}, {d.day})"

end Date

namespace Moment

def of? (year month day hour minute second microsecond : Nat) (offset : Option Int) :
    Except CalendarError Moment := do
  let date ← Date.of? year month day
  if 23 < hour then .error .hour
  else if 59 < minute then .error .minute
  else if 59 < second then .error .second
  else .ok ⟨date, hour, minute, second, microsecond, offset⟩

/-- Microseconds since the start of year one on the moment's own clock. -/
def clock (m : Moment) : Int :=
  (((m.date.daysBefore * 24 + m.hour) * 60 + m.minute) * 60 + m.second : Nat) * 1000000 +
    m.microsecond

/-- What equal moments have in common. -/
def instant (m : Moment) : Bool × Int :=
  match m.offset with
  | none => (false, m.clock)
  | some minutes => (true, m.clock - minutes * 60000000)

/-- The text of a moment with the given character between date and time. -/
def renderWith (separator : String) (m : Moment) : String :=
  let zone := match m.offset with
    | none => ""
    | some minutes =>
      (if minutes < 0 then "-" else "+") ++ padded 2 (minutes.natAbs / 60) ++ ":" ++
        padded 2 (minutes.natAbs % 60)
  m.date.render ++ separator ++ padded 2 m.hour ++ ":" ++ padded 2 m.minute ++ ":" ++
    padded 2 m.second ++ (if m.microsecond = 0 then "" else "." ++ padded 6 m.microsecond) ++ zone

def render (m : Moment) : String := m.renderWith " "

/-- The source form, as a moment shows inside a container. -/
def quote (m : Moment) : String :=
  let tail :=
    if m.microsecond ≠ 0 then s!", {m.second}, {m.microsecond}"
    else if m.second ≠ 0 then s!", {m.second}"
    else ""
  let zone := match m.offset with
    | none => ""
    | some 0 => ", tzinfo=datetime.timezone.utc"
    | some minutes => s!", tzinfo=datetime.timezone({quoteSpan minutes})"
  let day := s!"{m.date.year}, {m.date.month}, {m.date.day}"
  s!"datetime.datetime({day}, {m.hour}, {m.minute}{tail}{zone})"

end Moment

end Wireframe
