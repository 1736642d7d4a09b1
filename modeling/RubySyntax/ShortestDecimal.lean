/-!
# Shortest decimals

The shortest decimal of a positive binary fraction is the one with the fewest
digits among those that read back as the same floating-point number, and of
these the nearest one.  Everything is computed with natural numbers.
-/

namespace RubySyntax

/-- The positive number `significand * 2 ^ exponent` of a floating-point format. -/
structure BinaryFraction where
  significand : Nat
  exponent : Int
deriving DecidableEq, Repr

/-- The number `digits * 10 ^ exponent`. -/
structure Decimal where
  digits : Nat
  exponent : Int
deriving DecidableEq, Repr

namespace BinaryFraction

/-- The quotient of natural numbers that a multiple of a power is. -/
def ratio (factor base : Nat) (exponent : Int) : Nat × Nat :=
  if exponent < 0 then (factor, Nat.pow base (-exponent).toNat)
  else (factor * Nat.pow base exponent.toNat, 1)

/-- Whether `factor * 2 ^ exponent ≤ digits * 10 ^ power`. -/
def atMost (factor : Nat) (exponent : Int) (digits : Nat) (power : Int) : Bool :=
  let left := ratio factor 2 exponent
  let right := ratio digits 10 power
  left.1 * right.2 ≤ right.1 * left.2

/-- The lower end of the numbers that round to this one, in quarters of its unit.  Just
above a power of two the numbers below lie closer together. -/
def lowerEnd (number : BinaryFraction) : Nat :=
  if number.significand = Nat.pow 2 52 ∧ -1074 < number.exponent then 4 * number.significand - 1
  else 4 * number.significand - 2

/-- The upper end of the numbers that round to this one, in quarters of its unit. -/
def upperEnd (number : BinaryFraction) : Nat :=
  4 * number.significand + 2

/-- Whether a decimal reads back as this number.  The ends of the interval belong to it
if the significand is even. -/
def roundsFrom (number : BinaryFraction) (decimal : Decimal) : Bool :=
  let unit := number.exponent - 2
  let aboveLower := atMost number.lowerEnd unit decimal.digits decimal.exponent
  let atLower := aboveLower &&
    (let left := ratio number.lowerEnd 2 unit
     let right := ratio decimal.digits 10 decimal.exponent
     left.1 * right.2 == right.1 * left.2)
  let aboveUpper := !atMost number.upperEnd unit decimal.digits decimal.exponent
  let atUpper := !aboveUpper &&
    (let left := ratio number.upperEnd 2 unit
     let right := ratio decimal.digits 10 decimal.exponent
     left.1 * right.2 == right.1 * left.2)
  let inside := (aboveLower && !atLower) && aboveUpper
  inside || (number.significand % 2 == 0 && (atLower || atUpper))

/-- The exponent of the leading decimal digit, near a first guess. -/
def leadingExponentNear (number : BinaryFraction) (guess : Int) : Nat → Int
  | 0 => guess
  | steps + 1 =>
    if !atMost number.significand number.exponent 1 (guess + 1) ||
        (let left := ratio number.significand 2 number.exponent
         let right := ratio 1 10 (guess + 1)
         left.1 * right.2 == right.1 * left.2) then
      leadingExponentNear number (guess + 1) steps
    else guess

def leadingExponent (number : BinaryFraction) : Int :=
  let value := ratio number.significand 2 number.exponent
  let guess : Int := ((Nat.toDigits 10 value.1).length : Int) - (Nat.toDigits 10 value.2).length - 1
  number.leadingExponentNear guess 3

/-- The two neighbours of this number among the multiples of a power of ten, the lower one
first, and whether the lower one is strictly nearer, or as near and even. -/
def neighbours (number : BinaryFraction) (power : Int) : Decimal × Decimal × Bool :=
  let value := ratio number.significand 2 number.exponent
  let scale := ratio 1 10 power
  let numerator := value.1 * scale.2
  let denominator := value.2 * scale.1
  let lower := numerator / denominator
  let remainder := numerator % denominator
  let nearer := 2 * remainder < denominator || (2 * remainder == denominator && lower % 2 == 0)
  (⟨lower, power⟩, ⟨lower + 1, power⟩, nearer)

/-- A decimal on the grid of a power of ten that reads back, if there is one; the nearer
of two. -/
def onGrid? (number : BinaryFraction) (power : Int) : Option Decimal :=
  let (lower, upper, lowerIsNearer) := number.neighbours power
  match number.roundsFrom lower, number.roundsFrom upper with
  | true, true => some (if lowerIsNearer then lower else upper)
  | true, false => some lower
  | false, true => some upper
  | false, false => none

/-- The first hit on finer and finer grids; the last grid is exact enough for all numbers. -/
def firstOnGrid (number : BinaryFraction) (power : Int) : Nat → Decimal
  | 0 => (number.onGrid? power).getD ⟨0, 0⟩
  | finer + 1 =>
    match number.onGrid? power with
    | some decimal => decimal
    | none => firstOnGrid number (power - 1) finer

def shortest (number : BinaryFraction) : Decimal :=
  number.firstOnGrid number.leadingExponent 17

end BinaryFraction

end RubySyntax
