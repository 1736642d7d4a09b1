import RubySyntax.ShortestDecimal

/-!
# Texts of floating-point numbers

A number is written with the fewest digits that read back.  It is positional if
its leading digit stands between the fifth-last place before and the sixteenth
place behind the point, and otherwise has an exponent of at least two digits.
-/

namespace RubySyntax

namespace FloatText

/-- The least exponent of the leading digit that is written positionally. -/
def leastPositional : Int := -4

/-- The greatest exponent of the leading digit that is written positionally. -/
def greatestPositional : Int := 15

def exponentDigits : Nat := 2

def significantDigits (decimal : Decimal) : List Char :=
  ((Nat.toDigits 10 decimal.digits).reverse.dropWhile (· == '0')).reverse

def leadingPlace (decimal : Decimal) : Int :=
  decimal.exponent + ((Nat.toDigits 10 decimal.digits).length : Int) - 1

def zeros (count : Int) : List Char :=
  List.replicate count.toNat '0'

/-- Digits with the point in its place and at least one digit on either side. -/
def positional (digits : List Char) (place : Int) : List Char :=
  if place < 0 then '0' :: '.' :: zeros (-place - 1) ++ digits
  else
    let whole := digits.take (place + 1).toNat
    let fraction := digits.drop (place + 1).toNat
    whole ++ zeros (place + 1 - digits.length) ++
      '.' :: (if fraction.isEmpty then ['0'] else fraction)

/-- Digits with a point behind the first one and an exponent. -/
def scientific (digits : List Char) (place : Int) : List Char :=
  let fraction := digits.drop 1
  let exponent := Nat.toDigits 10 place.natAbs
  digits.take 1 ++ (if fraction.isEmpty then [] else '.' :: fraction) ++
    'e' :: (if place < 0 then '-' else '+') ::
      (List.replicate (exponentDigits - exponent.length) '0' ++ exponent)

def ofFraction (number : BinaryFraction) : List Char :=
  let decimal := number.shortest
  let digits := significantDigits decimal
  let place := leadingPlace decimal
  if leastPositional ≤ place ∧ place ≤ greatestPositional then positional digits place
  else scientific digits place

/-- The number with the given fields of its format, which is not zero. -/
def fractionOfFields (biasedExponent significand : Nat) : BinaryFraction :=
  if biasedExponent = 0 then ⟨significand, -1074⟩
  else ⟨significand + Nat.pow 2 52, (biasedExponent : Int) - 1075⟩

def ofBits (bits : Nat) : String :=
  let significand := bits % Nat.pow 2 52
  let biasedExponent := bits / Nat.pow 2 52 % Nat.pow 2 11
  let sign := if bits / Nat.pow 2 63 = 1 then "-" else ""
  if biasedExponent = Nat.pow 2 11 - 1 then
    if significand = 0 then sign ++ "inf" else "nan"
  else if biasedExponent = 0 ∧ significand = 0 then sign ++ "0.0"
  else sign ++ String.ofList (ofFraction (fractionOfFields biasedExponent significand))

end FloatText

/-- The shortest text of a floating-point number that reads back. -/
def floatText (number : Float) : String :=
  FloatText.ofBits number.toBits.toNat

/-- The floating-point number nearest to `digits * 10 ^ exponent`. -/
def floatOfDecimal (digits : Nat) (exponent : Int) : Float :=
  let place := exponent + ((Nat.toDigits 10 digits).length : Int)
  if digits = 0 ∨ place < -400 then 0.0
  else if 400 < place then 1.0 / 0.0
  else Float.ofScientific digits (exponent < 0) exponent.natAbs

/-- Whether a floating-point number is an integer or infinite, and if so which integer. -/
inductive Truncation where
  | integer (value : Int)
  | infinite
  | notANumber
deriving DecidableEq, Repr

def truncationOfBits (bits : Nat) : Truncation :=
  let significand := bits % Nat.pow 2 52
  let biasedExponent := bits / Nat.pow 2 52 % Nat.pow 2 11
  if biasedExponent = Nat.pow 2 11 - 1 then
    if significand = 0 then .infinite else .notANumber
  else
    let number := FloatText.fractionOfFields biasedExponent significand
    let value := BinaryFraction.ratio number.significand 2 number.exponent
    let magnitude : Int := ((value.1 / value.2 : Nat) : Int)
    .integer (if bits / Nat.pow 2 63 = 1 then -magnitude else magnitude)

def truncateFloat (number : Float) : Truncation :=
  truncationOfBits number.toBits.toNat

end RubySyntax
