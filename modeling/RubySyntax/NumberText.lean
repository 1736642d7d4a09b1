import RubySyntax.BlankCharacters
import RubySyntax.FloatText
import RubySyntax.WordCharacters

/-!
# Numbers written as text

An integer is a run of digits of any script with single underscores between
them, behind an optional sign and between optional blanks.  A floating-point
number also has a point and an exponent, or is a word for infinity or for no
number.  Digits and blanks outside ASCII count as the ASCII ones.
-/

namespace RubySyntax

namespace NumberText

/-- An ASCII blank that may stand around a number; the information separators may not. -/
def isMargin (character : Char) : Bool :=
  character == ' ' || (0x09 ≤ character.toNat && character.toNat ≤ 0x0D)

/-- The ASCII character that a character counts as in a number; one that has no place in a
number counts as a question mark. -/
def asciiCounterpart (character : Char) : Char :=
  if character.toNat < 0x80 then character
  else if isBlank character then ' '
  else
    match digitValue? character with
    | some value => Char.ofNat (0x30 + value)
    | none => '?'

/-- The text without the blanks around a number. -/
def trimMargin (text : List Char) : List Char :=
  ((text.dropWhile isMargin).reverse.dropWhile isMargin).reverse

/-- The sign in front of a number, and what follows it. -/
def splitSign : List Char → Bool × List Char
  | '-' :: rest => (true, rest)
  | '+' :: rest => (false, rest)
  | text => (false, text)

/-- The value of a digit in a base; letters count on from ten. -/
def digitIn? (base : Nat) (character : Char) : Option Nat :=
  (hexDigitValue? character).filter (· < base)

/-- A digit in a base, or the underscore between digits. -/
def isNumeralPart (base : Nat) (character : Char) : Bool :=
  character == '_' || (digitIn? base character).isSome

/-- The values of the digits of a number; an underscore has to stand between two digits. -/
def digitValues? (base : Nat) : List Char → Option (List Nat)
  | [] => none
  | character :: rest =>
    match digitIn? base character, rest with
    | none, _ => none
    | some value, [] => some [value]
    | some value, '_' :: others => (digitValues? base others).map (value :: ·)
    | some value, others => (digitValues? base others).map (value :: ·)

/-- The number with the given digits in a base, the leading one first. -/
def ofDigits (base : Nat) (digits : List Nat) : Nat :=
  digits.foldl (fun number digit => number * base + digit) 0

def baseMark? : Nat → Option Char
  | 2 => some 'b'
  | 8 => some 'o'
  | 16 => some 'x'
  | _ => none

def dropBaseMark (base : Nat) (text : List Char) : List Char :=
  match text with
  | '0' :: letter :: rest =>
    if baseMark? base = some letter.toLower then
      match rest with
      | '_' :: digits => digits
      | digits => digits
    else text
  | _ => text

end NumberText

/-- The greatest number of decimal digits that an integer may have where it is read or shown. -/
def greatestDigitCount : Nat := 4300

inductive IntegerFault where
  | malformed
  | tooLong (digits : Nat)
deriving DecidableEq, Repr

/-- Whether the number of digits of an integer is limited, as it is unless the base is a power
of two. -/
def limitsDigits (base : Nat) : Bool :=
  !([2, 4, 8, 16, 32].contains base)

/-- The integer that an ASCII text writes in a base.  Too many digits count before what follows
them. -/
def readAsciiInteger (base : Nat) (text : List Char) : Except IntegerFault Int :=
  let (negative, unsigned) := NumberText.splitSign (text.dropWhile NumberText.isMargin)
  let unmarked := NumberText.dropBaseMark base unsigned
  let numeral := unmarked.takeWhile (NumberText.isNumeralPart base)
  match NumberText.digitValues? base numeral with
  | none => .error .malformed
  | some values =>
    if limitsDigits base && greatestDigitCount < values.length then
      .error (.tooLong values.length)
    else if !(unmarked.drop numeral.length).all NumberText.isMargin then .error .malformed
    else
      let magnitude : Int := (NumberText.ofDigits base values : Nat)
      .ok (if negative then -magnitude else magnitude)

def readInteger (base : Nat) (text : List Char) : Except IntegerFault Int :=
  readAsciiInteger base (text.map NumberText.asciiCounterpart)

namespace NumberText

/-- The digits at the start of an ASCII text, and what follows them. -/
def spanDigits (text : List Char) : List Nat × List Char :=
  ((text.takeWhile Char.isDigit).filterMap (digitIn? 10), text.dropWhile Char.isDigit)

/-- The exponent behind the digits of a floating-point number, which ends the text. -/
def readExponent? : List Char → Option Int
  | [] => some 0
  | letter :: rest =>
    if letter == 'e' || letter == 'E' then
      let (negative, text) := splitSign rest
      let (digits, rest) := spanDigits text
      if digits.isEmpty || !rest.isEmpty then none
      else
        let magnitude : Int := (ofDigits 10 digits : Nat)
        some (if negative then -magnitude else magnitude)
    else none

/-- A floating-point number without a sign, in ASCII. -/
def readMagnitude? (text : List Char) : Option Float :=
  let lower := String.ofList (text.map Char.toLower)
  if lower == "inf" || lower == "infinity" then some (1.0 / 0.0)
  else if lower == "nan" then some (0.0 / 0.0)
  else
    let (whole, rest) := spanDigits text
    let (fraction, rest) := match rest with
      | '.' :: rest => spanDigits rest
      | rest => ([], rest)
    if whole.isEmpty && fraction.isEmpty then none
    else
      (readExponent? rest).map fun exponent =>
        floatOfDecimal (ofDigits 10 (whole ++ fraction)) (exponent - (fraction.length : Int))

end NumberText

def readFloat? (text : List Char) : Option Float :=
  let ascii := text.map NumberText.asciiCounterpart
  let (negative, digits) := NumberText.splitSign (NumberText.trimMargin ascii)
  (NumberText.readMagnitude? digits).map fun number => if negative then -number else number

/-- The message for an integer that has too many digits to be shown. -/
def hugeIntegerMessage : String :=
  "Exceeds the limit (" ++ toString greatestDigitCount ++
    " digits) for integer string conversion; " ++
    "use sys.set_int_max_str_digits() to increase the limit"

def tooManyDigitsMessage (digits : Nat) : String :=
  "Exceeds the limit (" ++ toString greatestDigitCount ++
    " digits) for integer string conversion: value has " ++ toString digits ++
    " digits; use sys.set_int_max_str_digits() to increase the limit"

end RubySyntax
