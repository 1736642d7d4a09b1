/-!
# Days and moments

Days are those of the Gregorian calendar.  A moment is a day with a time, and
where its distance from universal time is known, it is a point in time.
-/

namespace RubySyntax

structure Day where
  year : Nat
  month : Nat
  day : Nat
deriving DecidableEq, Repr

/-- A day with a time and, where it is known, the distance from universal time in minutes. -/
structure Moment where
  day : Day
  hour : Nat
  minute : Nat
  second : Nat
  microsecond : Nat
  zone : Option Int
deriving DecidableEq, Repr

def isLeapYear (year : Nat) : Bool :=
  year % 4 == 0 && (year % 100 != 0 || year % 400 == 0)

def monthLength (year month : Nat) : Nat :=
  if month = 2 then (if isLeapYear year then 29 else 28)
  else if [4, 6, 9, 11].contains month then 30
  else 31

namespace Day

/-- The number of days in front of a day, from the first day of the year one on. -/
def number (day : Day) : Nat :=
  let years := day.year - 1
  let months := (List.range (day.month - 1)).map fun month => monthLength day.year (month + 1)
  years * 365 + years / 4 - years / 100 + years / 400 + months.foldr (· + ·) 0 + (day.day - 1)

end Day

namespace Moment

/-- The minutes in universal time up to a moment at a distance from it. -/
def universalMinutes (moment : Moment) (zone : Int) : Int :=
  ((moment.day.number * 1440 + moment.hour * 60 + moment.minute : Nat) : Int) - zone

/-- Whether two moments are one point in time; without zones, whether they are written alike. -/
def coincides (left right : Moment) : Bool :=
  match left.zone, right.zone with
  | none, none => left == right
  | some leftZone, some rightZone =>
    left.universalMinutes leftZone == right.universalMinutes rightZone &&
      left.second == right.second && left.microsecond == right.microsecond
  | _, _ => false

end Moment

end RubySyntax
