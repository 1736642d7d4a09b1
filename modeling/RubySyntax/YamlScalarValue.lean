import RubySyntax.LetterCase
import RubySyntax.TreeInterchange
import RubySyntax.YamlCursor
import RubySyntax.YamlPlainScalar

/-!
# Values of YAML scalars

A scalar denotes a value of the kind that its tag names.  Numbers may have
underscores between their digits and may be sexagesimal; dates are checked
against the calendar; binary data is in base 64.
-/

namespace RubySyntax

namespace YamlScalarValue

def characters (content : List Nat) : List Char :=
  content.map Char.ofNat

def withoutUnderscores (content : List Nat) : List Nat :=
  content.filter (· != 0x5F)

/-- Whether a number is negative, and what follows its sign. -/
def splitSign : List Nat → Bool × List Nat
  | [] => (false, [])
  | first :: rest =>
    if first = 0x2D then (true, rest)
    else if first = 0x2B then (false, rest)
    else (false, first :: rest)

/-- The parts of a sexagesimal number between its colons. -/
def sexagesimalPlaces (content : List Nat) : List (List Nat) :=
  content.splitOn 0x3A

/-- The integer with the given sexagesimal places, the greatest first. -/
def sexagesimalInteger (places : List Int) : Int :=
  places.foldl (fun value place => value * 60 + place) 0

/-- The floating-point number nearest to an integer, unless that would be infinite. -/
def nearestFloat (number : Nat) : Except YamlFault Float :=
  let nearest := floatOfDecimal number 0
  if nearest.isInf then .error .numberTooGreat else .ok nearest

/-- The floating-point number with the given sexagesimal places, the greatest first, added up
from the least one. -/
def sexagesimalFloat (places : List Float) : Except YamlFault Float := do
  let (value, _) ← places.reverse.foldlM
    (fun (value, unit) place => do
      let factor ← nearestFloat unit
      return (value + place * factor, unit * 60))
    ((0.0 : Float), 1)
  return value

/-! ### Truth values and numbers -/

def boolWords : List (String × Bool) :=
  [("yes", true), ("no", false), ("true", true), ("false", false), ("on", true), ("off", false)]

def readBool (content : List Nat) : Except YamlFault Value :=
  let word := lowerCase content
  match boolWords.find? fun entry => entry.1.toList.map Char.toNat == word with
  | some (_, value) => .ok (.bool value)
  | none => .error (.unknownWord (quotedCodePoints word))

/-- An integer without a sign in a base. -/
def readMagnitude (base : Nat) (content : List Nat) : Except YamlFault Int :=
  match readInteger base (characters content) with
  | .ok value => .ok value
  | .error .malformed =>
    .error (.badValue (invalidIntegerMessage base (quotedCodePoints content)))
  | .error (.tooLong digits) => .error (.badValue (tooManyDigitsMessage digits))

/-- An integer without a sign, in the base that its beginning shows. -/
def readUnsigned (content : List Nat) : Except YamlFault Int :=
  match content with
  | [] => .error .missingDigits
  | [0x30] => .ok 0
  | 0x30 :: 0x62 :: digits => readMagnitude 2 digits
  | 0x30 :: 0x78 :: digits => readMagnitude 16 digits
  | 0x30 :: _ => readMagnitude 8 content
  | _ =>
    if content.contains 0x3A then do
      return sexagesimalInteger (← (sexagesimalPlaces content).mapM (readMagnitude 10))
    else readMagnitude 10 content

def readInt (content : List Nat) : Except YamlFault Value := do
  let (negative, digits) := splitSign (withoutUnderscores content)
  let magnitude ← readUnsigned digits
  return .int (if negative then -magnitude else magnitude)

def readFloatPart (content : List Nat) : Except YamlFault Float :=
  match readFloat? (characters content) with
  | some value => .ok value
  | none => .error (.badValue
      ("could not convert string to float: " ++ quotedCodePoints content))

def infinityWord : List Nat :=
  ".inf".toList.map Char.toNat

def notANumberWord : List Nat :=
  ".nan".toList.map Char.toNat

/-- The form in which a floating-point number is read: in lower case, without underscores. -/
def floatForm (content : List Nat) : List Nat :=
  lowerCase (withoutUnderscores content)

/-- Whether a scalar holds the word for no number, whatever its sign. -/
def isNotANumberWord (content : List Nat) : Bool :=
  (splitSign (floatForm content)).2 == notANumberWord

def readFloat (content : List Nat) : Except YamlFault Value := do
  let form := floatForm content
  if form.isEmpty then throw .missingDigits
  let (negative, digits) := splitSign form
  let magnitude : Float ←
    if digits = infinityWord then pure (1.0 / 0.0)
    else if digits = notANumberWord then pure (0.0 / 0.0)
    else if digits.contains 0x3A then do
      sexagesimalFloat (← (sexagesimalPlaces digits).mapM readFloatPart)
    else readFloatPart digits
  return .float (if negative then -magnitude else magnitude)

/-! ### Dates and times -/

/-- The number that ASCII digits write. -/
def digitsValue (digits : List Char) : Nat :=
  digits.foldl (fun value digit => value * 10 + (digit.toNat - 0x30)) 0

/-- A day that the calendar has. -/
def checkDay (day : Day) : Except YamlFault Day :=
  if day.year = 0 then .error (.badValue "year 0 is out of range")
  else if day.month < 1 ∨ 12 < day.month then .error (.badValue "month must be in 1..12")
  else if day.day < 1 ∨ monthLength day.year day.month < day.day then
    .error (.badValue "day is out of range for month")
  else .ok day

/-- The distance of a zone from universal time in minutes. -/
def zoneMinutes (sign : Char) (hours minutes : List Char) : Int :=
  let magnitude : Int := ((digitsValue hours * 60 + digitsValue minutes : Nat) : Int)
  if sign = '-' then -magnitude else magnitude

/-- A distance from universal time, which is less than a day. -/
def checkZone (minutes : Int) : Except YamlFault Int :=
  if -1440 < minutes ∧ minutes < 1440 then .ok minutes
  else .error (.badValue ("offset must be a timedelta strictly between -timedelta(hours=24) " ++
    "and timedelta(hours=24), not " ++ Moment.displayDistance minutes ++ "."))

def zoneOf (parts : TimestampParts) : Except YamlFault (Option Int) :=
  match parts.zone with
  | some (sign, hours, minutes) => some <$> checkZone (zoneMinutes sign hours minutes)
  | none => .ok (if parts.universal then some 0 else none)

/-- A time that a day has. -/
def checkTime (moment : Moment) : Except YamlFault Moment :=
  if 23 < moment.hour then .error (.badValue "hour must be in 0..23")
  else if 59 < moment.minute then .error (.badValue "minute must be in 0..59")
  else if 59 < moment.second then .error (.badValue "second must be in 0..59")
  else .ok moment

/-- The microseconds of the digits behind the point of a second. -/
def microseconds (fraction : List Char) : Nat :=
  let digits := fraction.take 6
  digitsValue (digits ++ List.replicate (6 - digits.length) '0')

def ofTimestampParts (parts : TimestampParts) : Except YamlFault Value := do
  let day : Day :=
    ⟨digitsValue parts.year, digitsValue parts.month, digitsValue parts.day⟩
  match parts.time with
  | none => return .day (← checkDay day)
  | some (hour, minute, second) =>
    let zone ← zoneOf parts
    let day ← checkDay day
    let moment ← checkTime
      ⟨day, digitsValue hour, digitsValue minute, digitsValue second,
        microseconds parts.fraction, zone⟩
    return .moment moment

/-- The day or moment of a scalar; a line feed may follow it. -/
def readTimestamp (content : List Nat) : Except YamlFault Value :=
  let text := characters content
  let text := if text.getLast? = some '\n' then text.dropLast else text
  match PlainScalar.readTimestamp? text with
  | some parts => ofTimestampParts parts
  | none => .error .unrecognized

/-! ### Binary data -/

def base64Value? (character : Char) : Option Nat :=
  if 'A' ≤ character ∧ character ≤ 'Z' then some (character.toNat - 0x41)
  else if 'a' ≤ character ∧ character ≤ 'z' then some (character.toNat - 0x61 + 26)
  else if '0' ≤ character ∧ character ≤ '9' then some (character.toNat - 0x30 + 52)
  else if character = '+' then some 62
  else if character = '/' then some 63
  else none

/-- The bytes of base 64.  `place` counts the characters of the current group, of which `carry`
holds the bits that no byte has yet, and `padding` counts the equals signs just read.  Other
characters are skipped, and a complete padding ends the data. -/
def decodeBase64 (place carry padding : Nat) : List Char → Except YamlFault (List Nat)
  | [] => if place = 0 then .ok [] else .error .malformed
  | character :: rest =>
    if character = '=' then
      if 2 ≤ place then
        if 4 ≤ place + padding + 1 then .ok [] else decodeBase64 place carry (padding + 1) rest
      else decodeBase64 place carry padding rest
    else
      match base64Value? character with
      | none => decodeBase64 place carry padding rest
      | some bits =>
        if place = 0 then decodeBase64 1 bits 0 rest
        else if place = 1 then
          ((carry * 4 + bits / 16) :: ·) <$> decodeBase64 2 (bits % 16) 0 rest
        else if place = 2 then
          ((carry * 16 + bits / 4) :: ·) <$> decodeBase64 3 (bits % 4) 0 rest
        else ((carry * 64 + bits) :: ·) <$> decodeBase64 0 0 0 rest

/-- The binary data of a scalar, which has to be ASCII. -/
def readBinary (content : List Nat) : Except YamlFault Value :=
  if content.any (0x7F < ·) then .error .malformed
  else .bytes <$> decodeBase64 0 0 0 (characters content)

def kinds : List (String × (List Nat → Except YamlFault Value)) :=
  [("null", fun _ => .ok .null), ("bool", readBool), ("int", readInt), ("float", readFloat),
    ("binary", readBinary), ("timestamp", readTimestamp),
    ("str", fun content => .ok (.ofCodePoints content))]

/-- How a scalar of the given kind is read, if there is such a kind. -/
def reader? (kind : String) : Option (List Nat → Except YamlFault Value) :=
  kinds.lookup kind

end YamlScalarValue

end RubySyntax
