import Wireframe.Calendar
import Wireframe.Decimal.Numeral

/-!
# Timestamps

A timestamp is a date, or a date and a time of day with an optional fraction of a second
and an optional offset from universal time.
-/

namespace Wireframe.Yaml

open Wireframe.Decimal

/-- The offset of a time of day. -/
inductive Zone
  | unknown
  | universal
  | offset (negative : Bool) (hours minutes : Nat)
  deriving DecidableEq, Repr

structure ClockTime where
  hour : Nat
  minute : Nat
  second : Nat
  fraction : List Char
  zone : Zone
  deriving DecidableEq, Repr

/-- The written parts of a timestamp, which need not name a day. -/
structure Timestamp where
  year : Nat
  month : Nat
  day : Nat
  /-- Month and day are written with two digits each. -/
  full : Bool
  clock : Option ClockTime
  deriving DecidableEq, Repr

namespace Timestamp

def takeNumber (least most : Nat) (s : List Char) : Option (Nat × List Char) :=
  let digits := (s.take most).takeWhile isDigit
  if digits.length < least then none else some (ofDigits digits, s.drop digits.length)

def skip (c : Char) : List Char → Option (List Char)
  | x :: s => if x = c then some s else none
  | [] => none

def isGap (c : Char) : Bool := c == ' ' || c == '\t'

def skipSeparator : List Char → Option (List Char)
  | c :: s =>
    if c = 'T' ∨ c = 't' then some s
    else if isGap c then some (s.dropWhile isGap)
    else none
  | [] => none

def takeFraction : List Char → List Char × List Char
  | '.' :: s => (s.takeWhile isDigit, s.dropWhile isDigit)
  | s => ([], s)

/-- The hours and minutes of an offset, which have to end the text. -/
def offset? (negative : Bool) (s : List Char) : Option Zone := do
  let (hours, s) ← takeNumber 1 2 s
  match s with
  | [] => some (.offset negative hours 0)
  | ':' :: s =>
    let (minutes, s) ← takeNumber 2 2 s
    if s.isEmpty then some (.offset negative hours minutes) else none
  | _ => none

def zone? (s : List Char) : Option Zone :=
  match s, s.dropWhile isGap with
  | [], _ => some .unknown
  | _, ['Z'] => some .universal
  | _, '-' :: s => offset? true s
  | _, '+' :: s => offset? false s
  | _, _ => none

def clock? (s : List Char) : Option ClockTime := do
  let (hour, s) ← takeNumber 1 2 (← skipSeparator s)
  let (minute, s) ← takeNumber 2 2 (← skip ':' s)
  let (second, s) ← takeNumber 2 2 (← skip ':' s)
  let (fraction, s) := takeFraction s
  let zone ← zone? s
  some ⟨hour, minute, second, fraction, zone⟩

def parse? (s : List Char) : Option Timestamp := do
  let (year, s) ← takeNumber 4 4 s
  let afterYear ← skip '-' s
  let (month, s) ← takeNumber 1 2 afterYear
  let afterMonth ← skip '-' s
  let (day, rest) ← takeNumber 1 2 afterMonth
  let full := afterYear.length = s.length + 2 ∧ afterMonth.length = rest.length + 2
  if rest.isEmpty then some ⟨year, month, day, full, none⟩
  else
    let clock ← clock? rest
    some ⟨year, month, day, full, some clock⟩

/-- Whether the text of a plain scalar is a timestamp: without a time of day, month and day
need two digits. -/
def isPlain (s : List Char) : Bool :=
  match parse? s with
  | some t => t.full || t.clock.isSome
  | none => false

/-- The first six digits of a fraction, with zeros behind them. -/
def microseconds (fraction : List Char) : Nat :=
  ofDigits (fraction.take 6) * Nat.pow 10 (6 - (fraction.take 6).length)

/-- The offset in minutes, which has to be shorter than a day. -/
def Zone.minutes : Zone → Except CalendarError (Option Int)
  | .unknown => .ok none
  | .universal => .ok (some 0)
  | .offset negative hours minutes =>
    let total : Int := hours * 60 + minutes
    let signed := if negative then -total else total
    if total < 1440 then .ok (some signed) else .error (.offset signed)

/-- The date or the moment that a timestamp names. -/
def resolve (t : Timestamp) : Except CalendarError (Date ⊕ Moment) :=
  match t.clock with
  | none => (Date.of? t.year t.month t.day).map Sum.inl
  | some c => do
    let offset ← Zone.minutes c.zone
    let m ← Moment.of? t.year t.month t.day c.hour c.minute c.second
      (microseconds c.fraction) offset
    .ok (.inr m)

end Timestamp

end Wireframe.Yaml
