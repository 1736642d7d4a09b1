import RubySyntax.NumberText
import RubySyntax.Value

/-!
# Displayed values

A display writes a value on one line so that its kind and its content can be
told.  It is used in error messages and where a tree is made from a value that
is no text.
-/

namespace RubySyntax

def zeroPadded (width number : Nat) : String :=
  let digits := Nat.toDigits 10 number
  String.ofList (List.replicate (width - digits.length) '0' ++ digits)

namespace Day

/-- The year, month and day with hyphens between them. -/
def iso (day : Day) : String :=
  zeroPadded 4 day.year ++ "-" ++ zeroPadded 2 day.month ++ "-" ++ zeroPadded 2 day.day

/-- The constructor call that makes the day. -/
def display (day : Day) : String :=
  "datetime.date(" ++ toString day.year ++ ", " ++ toString day.month ++ ", " ++
    toString day.day ++ ")"

end Day

namespace Moment

/-- The distance from universal time with a sign. -/
def isoZone (minutes : Int) : String :=
  (if minutes < 0 then "-" else "+") ++ zeroPadded 2 (minutes.natAbs / 60) ++ ":" ++
    zeroPadded 2 (minutes.natAbs % 60)

/-- The day and the time with a blank between them. -/
def iso (moment : Moment) : String :=
  moment.day.iso ++ " " ++ zeroPadded 2 moment.hour ++ ":" ++ zeroPadded 2 moment.minute ++
    ":" ++ zeroPadded 2 moment.second ++
    (if moment.microsecond = 0 then "" else "." ++ zeroPadded 6 moment.microsecond) ++
    (match moment.zone with
      | some minutes => isoZone minutes
      | none => "")

/-- The constructor call that makes a distance in time, which counts days down to negative
ones and seconds up from there. -/
def displayDistance (minutes : Int) : String :=
  let days := Int.fdiv minutes 1440
  let seconds := Int.fmod minutes 1440 * 60
  let parts := (if days = 0 then [] else ["days=" ++ toString days]) ++
    (if seconds = 0 then [] else ["seconds=" ++ toString seconds])
  "datetime.timedelta(" ++ ", ".intercalate parts ++ ")"

/-- The constructor call that makes a zone. -/
def displayZone (minutes : Int) : String :=
  if minutes = 0 then "datetime.timezone.utc"
  else "datetime.timezone(" ++ displayDistance minutes ++ ")"

/-- The constructor call that makes the moment; seconds are left out if there are none. -/
def display (moment : Moment) : String :=
  let fields := [moment.day.year, moment.day.month, moment.day.day, moment.hour, moment.minute] ++
    (if moment.microsecond ≠ 0 then [moment.second, moment.microsecond]
     else if moment.second ≠ 0 then [moment.second] else [])
  let zone := match moment.zone with
    | some minutes => ["tzinfo=" ++ displayZone minutes]
    | none => []
  "datetime.datetime(" ++ ", ".intercalate (fields.map toString ++ zone) ++ ")"

end Moment

namespace Value

def boolWord (value : Bool) : String :=
  if value then "True" else "False"

mutual

def display : Value → String
  | null => "None"
  | bool value => boolWord value
  | int value => toString value
  | float value => floatText value
  | text value => quoted value
  | brokenText codePoints => quotedCodePoints codePoints
  | bytes content => quotedBytes content
  | day value => value.display
  | moment value => value.display
  | list items => "[" ++ displayItems items ++ "]"
  | pair first second => "(" ++ first.display ++ ", " ++ second.display ++ ")"
  | record entries => "\x7b" ++ displayEntries entries ++ "\x7d"
  | set [] => "set()"
  | set (member :: members) => "\x7b" ++ displayItems (member :: members) ++ "\x7d"
  | recurrence .list => "[...]"
  | recurrence .pair => "(...)"
  | recurrence .record => "\x7b...\x7d"

def displayItems : List Value → String
  | [] => ""
  | [item] => item.display
  | item :: next :: items => item.display ++ ", " ++ displayItems (next :: items)

def displayEntries : List (Value × Value) → String
  | [] => ""
  | [(key, value)] => key.display ++ ": " ++ value.display
  | (key, value) :: next :: entries =>
    key.display ++ ": " ++ value.display ++ ", " ++ displayEntries (next :: entries)

end

/-! ### Integers that are not displayed -/

/-- The least integer with more digits than can be displayed. -/
def hugeInteger : Nat :=
  Nat.pow 10 greatestDigitCount

mutual

/-- Whether a value holds an integer with more digits than can be displayed. -/
def holdsHugeInteger : Value → Bool
  | int value => hugeInteger ≤ value.natAbs
  | list items => anyHoldsHugeInteger items
  | pair first second => first.holdsHugeInteger || second.holdsHugeInteger
  | record entries => anyEntryHoldsHugeInteger entries
  | set members => anyHoldsHugeInteger members
  | _ => false

/-- Whether one of several values holds an integer with more digits than can be displayed. -/
def anyHoldsHugeInteger : List Value → Bool
  | [] => false
  | item :: items => item.holdsHugeInteger || anyHoldsHugeInteger items

/-- Whether an entry holds an integer with more digits than can be displayed. -/
def anyEntryHoldsHugeInteger : List (Value × Value) → Bool
  | [] => false
  | (key, value) :: entries =>
    key.holdsHugeInteger || value.holdsHugeInteger || anyEntryHoldsHugeInteger entries

end

/-- The text that a value stands for: a text itself, and all else as it is displayed. -/
def toText : Value → String
  | text value => value
  | day value => value.iso
  | moment value => value.iso
  | value => value.display

end Value

end RubySyntax
