import RubySyntax.YamlCharacter

/-!
# Plain scalars of YAML

A scalar without quotes and without a tag denotes the kind of value that its
text looks like.  The forms are those of version 1.1: several words for truth
values, octal and sexagesimal numbers, and dates with an optional time.
-/

namespace RubySyntax

inductive PlainKind where
  | bool
  | float
  | int
  /-- The key that merges other records. -/
  | merge
  | null
  | timestamp
  /-- The key of the default value of a record. -/
  | value
  /-- A lone indicator. -/
  | indicator
  | text
deriving DecidableEq, Repr

/-- The parts of a date with an optional time, as they are written. -/
structure TimestampParts where
  year : List Char
  month : List Char
  day : List Char
  /-- The hour, minute and second. -/
  time : Option (List Char × List Char × List Char)
  fraction : List Char
  /-- Whether a zone is given as universal time. -/
  universal : Bool
  /-- The sign, hours and minutes of a zone. -/
  zone : Option (Char × List Char × List Char)
deriving DecidableEq, Repr

namespace PlainScalar

def isNumeral (character : Char) : Bool :=
  character.isDigit || character == '_'

/-- Whether a text is not empty and all its characters pass a test. -/
def allOf (test : Char → Bool) (text : List Char) : Bool :=
  !text.isEmpty && text.all test

def unsigned : List Char → List Char
  | '-' :: rest => rest
  | '+' :: rest => rest
  | text => text

/-- A sexagesimal place: one digit, or two of which the first is at most five. -/
def isSexagesimalPlace : List Char → Bool
  | [unit] => unit.isDigit
  | [ten, unit] => '0' ≤ ten && ten ≤ '5' && unit.isDigit
  | _ => false

/-- Whether a text starts with a digit and goes on with digits and underscores. -/
def isNumerals : List Char → Bool
  | [] => false
  | first :: rest => first.isDigit && rest.all isNumeral

/-- Whether a text is a number with sexagesimal places behind colons. -/
def isSexagesimal (text : List Char) : Bool :=
  match text.splitOn ':' with
  | first :: place :: places =>
    isNumerals first && isSexagesimalPlace place && places.all isSexagesimalPlace
  | _ => false

def isHexNumeral (character : Char) : Bool :=
  isNumeral character || ('a' ≤ character && character ≤ 'f') ||
    ('A' ≤ character && character ≤ 'F')

def isUnsignedInteger (text : List Char) : Bool :=
  match text with
  | '0' :: 'b' :: digits => allOf (fun digit => digit == '0' || digit == '1' || digit == '_') digits
  | '0' :: 'x' :: digits => allOf isHexNumeral digits
  | '0' :: digits => digits.all fun digit => ('0' ≤ digit && digit ≤ '7') || digit == '_'
  | first :: rest => first.isDigit && (rest.all isNumeral || isSexagesimal text)
  | [] => false

def isInteger (text : List Char) : Bool :=
  isUnsignedInteger (unsigned text)

def isExponent : List Char → Bool
  | [] => true
  | letter :: sign :: digits =>
    (letter == 'e' || letter == 'E') && (sign == '+' || sign == '-') && allOf Char.isDigit digits
  | _ => false

/-- Whether a text is a number with a point behind its first digits. -/
def isPointedNumber (text : List Char) : Bool :=
  let whole := text.takeWhile isNumeral
  match text.drop whole.length with
  | '.' :: rest => isNumerals whole && isExponent (rest.dropWhile isNumeral)
  | _ => false

def isBareFraction : List Char → Bool
  | '.' :: digits =>
    isNumerals (digits.takeWhile isNumeral) && isExponent (digits.dropWhile isNumeral)
  | _ => false

def isPointedSexagesimal (text : List Char) : Bool :=
  let whole := text.takeWhile (· != '.')
  match text.drop whole.length with
  | '.' :: fraction => isSexagesimal whole && fraction.all isNumeral
  | _ => false

def isFloat (text : List Char) : Bool :=
  let word := String.ofList text
  isPointedNumber (unsigned text) || isBareFraction text ||
    isPointedSexagesimal (unsigned text) ||
    [".inf", ".Inf", ".INF"].contains (String.ofList (unsigned text)) ||
    [".nan", ".NaN", ".NAN"].contains word

def boolWords : List String :=
  ["yes", "Yes", "YES", "no", "No", "NO", "true", "True", "TRUE", "false", "False", "FALSE",
    "on", "On", "ON", "off", "Off", "OFF"]

def nullWords : List String :=
  ["", "~", "null", "Null", "NULL"]

/-- As many digits as asked for, and what follows them. -/
def takeDigits? (count : Nat) (text : List Char) : Option (List Char × List Char) :=
  let digits := text.take count
  if digits.length = count ∧ digits.all Char.isDigit then some (digits, text.drop count) else none

/-- One or two digits, and what follows them. -/
def takeOneOrTwo? (text : List Char) : Option (List Char × List Char) :=
  takeDigits? 2 text <|> takeDigits? 1 text

def after? (character : Char) : List Char → Option (List Char)
  | [] => none
  | first :: rest => if first = character then some rest else none

/-- What follows the mark between a date and a time. -/
def afterDate? : List Char → Option (List Char)
  | [] => none
  | first :: rest =>
    if first == 'T' || first == 't' then some rest
    else if YamlCharacter.isSpaceOrTab first then some (rest.dropWhile YamlCharacter.isSpaceOrTab)
    else none

def readZone? (text : List Char) : Option (Bool × Option (Char × List Char × List Char)) :=
  if text.isEmpty then some (false, none)
  else
    match text.dropWhile YamlCharacter.isSpaceOrTab with
    | ['Z'] => some (true, none)
    | sign :: rest =>
      if sign == '+' || sign == '-' then do
        let (hours, rest) ← takeOneOrTwo? rest
        if rest.isEmpty then return (false, some (sign, hours, []))
        let (minutes, rest) ← takeDigits? 2 (← after? ':' rest)
        if rest.isEmpty then return (false, some (sign, hours, minutes)) else none
      else none
    | [] => none

/-- The fraction of a second, and what follows it. -/
def spanFraction : List Char → List Char × List Char
  | '.' :: rest => (rest.takeWhile Char.isDigit, rest.dropWhile Char.isDigit)
  | text => ([], text)

def readTimestamp? (text : List Char) : Option TimestampParts := do
  let (year, rest) ← takeDigits? 4 text
  let (month, rest) ← takeOneOrTwo? (← after? '-' rest)
  let (day, rest) ← takeOneOrTwo? (← after? '-' rest)
  if rest.isEmpty then
    return { year, month, day, time := none, fraction := [], universal := false, zone := none }
  let (hour, rest) ← takeOneOrTwo? (← afterDate? rest)
  let (minute, rest) ← takeDigits? 2 (← after? ':' rest)
  let (second, rest) ← takeDigits? 2 (← after? ':' rest)
  let (fraction, rest) := spanFraction rest
  let (universal, zone) ← readZone? rest
  return { year, month, day, time := some (hour, minute, second), fraction, universal, zone }

/-- Whether a text is a timestamp; a date alone needs two digits for month and day. -/
def isTimestamp (text : List Char) : Bool :=
  match readTimestamp? text with
  | some parts => parts.time.isSome || (parts.month.length == 2 && parts.day.length == 2)
  | none => false

def kindOf (text : List Char) : PlainKind :=
  let word := String.ofList text
  if boolWords.contains word then .bool
  else if isFloat text then .float
  else if isInteger text then .int
  else if word == "<<" then .merge
  else if nullWords.contains word then .null
  else if isTimestamp text then .timestamp
  else if word == "=" then .value
  else if ["!", "&", "*"].contains word then .indicator
  else .text

/-- The kind of value that any text suggests.  A line feed at its end does not count, except in
a lone one. -/
def suggestedKind (text : List Char) : PlainKind :=
  if text.getLast? = some '\n' ∧ 1 < text.length then kindOf text.dropLast else kindOf text

end PlainScalar

end RubySyntax
