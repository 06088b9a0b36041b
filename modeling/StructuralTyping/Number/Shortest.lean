import StructuralTyping.Number

namespace StructuralTyping.Number

/-!
# Shortest decimals

Every finite number is the nearest one to a whole interval of reals. Its
shortest decimal is the decimal with the fewest digits inside that interval,
and among those the nearest to the number. The search runs over decimal grids
of one, two, ... digits and looks at the two grid points around the number.
-/

/--
A positive decimal: the digits of `digits` with a point after the first one,
times ten to the power `order`.
-/
structure Decimal where
  digits : Nat
  order : Int
  deriving Repr, DecidableEq

/-- A non-negative rational number. -/
structure Quotient where
  dividend : Nat
  divisor : Nat
  deriving Repr, DecidableEq

namespace Quotient

/-- `value * base ^ exponent` for an integer exponent. -/
def scaled
    (value : Nat)
    (base : Nat)
    (exponent : Int) :
    Quotient :=
  { dividend := value * Nat.pow base exponent.toNat
    divisor := Nat.pow base (-exponent).toNat }

/-- Whether the first quotient is at most the second. -/
def atMost
    (first second : Quotient) :
    Bool :=
  decide
    (first.dividend * second.divisor ≤
      second.dividend * first.divisor)

/-- Whether the first quotient is smaller than the second. -/
def below
    (first second : Quotient) :
    Bool :=
  !second.atMost first

/-- The decimal order of a positive quotient: that of its first digit. -/
def decimalOrder
    (value : Quotient) :
    Int :=
  if value.divisor ≤ value.dividend then
    (decimalLength (value.dividend / value.divisor) : Int) - 1
  else
    -(decimalLength
        ((value.divisor + value.dividend - 1) / value.dividend - 1) : Int)

end Quotient

/-- The reals that round to one finite number. -/
structure RoundingInterval where
  lower : Quotient
  upper : Quotient
  closed : Bool
  deriving Repr, DecidableEq

/-- The interval of reals whose nearest number is the given positive one. -/
def roundingInterval
    (number : Number) :
    RoundingInterval :=
  let significand := number.significand
  let scale := number.scale
  let lower :=
    if number.fraction = 0 ∧ 1 < number.exponentField then
      Quotient.scaled (4 * significand - 1) 2 (scale - 2)
    else
      Quotient.scaled (2 * significand - 1) 2 (scale - 1)
  { lower := lower
    upper := Quotient.scaled (2 * significand + 1) 2 (scale - 1)
    closed := significand % 2 = 0 }

/-- Whether a real lies in the interval. -/
def RoundingInterval.contains
    (interval : RoundingInterval)
    (value : Quotient) :
    Bool :=
  if interval.closed then
    interval.lower.atMost value && value.atMost interval.upper
  else
    interval.lower.below value && value.below interval.upper

/--
The grid point next to `value` on the grid of spacing `10 ^ spacing`, if one
of its two neighbours lies in the interval. The nearer one wins, and of two
equally near ones the even one.
-/
def gridPoint?
    (interval : RoundingInterval)
    (value : Quotient)
    (spacing : Int) :
    Option Nat :=
  let dividend := value.dividend * Nat.pow 10 (-spacing).toNat
  let divisor := value.divisor * Nat.pow 10 spacing.toNat
  let floor := dividend / divisor
  let nearest := divideToEven dividend divisor
  let other := if nearest = floor then floor + 1 else floor
  if interval.contains (Quotient.scaled nearest 10 spacing) then
    some nearest
  else if interval.contains (Quotient.scaled other 10 spacing) then
    some other
  else
    none

/-- Drop the trailing zeros of a digit string, at most `count` of them. -/
def dropTrailingZeros :
    (count : Nat) →
    (digits : Nat) →
    Nat
  | 0, digits => digits
  | count + 1, digits =>
      if digits % 10 = 0 then
        dropTrailingZeros count (digits / 10)
      else
        digits

/--
Search the grids of `length`, `length + 1`, ... digits, `attempts` of them.
A number of fifty-three bits is met by a grid of at most seventeen digits.
-/
def shortestFrom
    (interval : RoundingInterval)
    (value : Quotient)
    (order : Int) :
    (attempts : Nat) →
    (length : Nat) →
    Decimal
  | 0, _ => { digits := 0, order := 0 }
  | attempts + 1, length =>
      let spacing := order - (length : Int) + 1
      match gridPoint? interval value spacing with
      | some point =>
          { digits := dropTrailingZeros length point
            order := (decimalLength point : Int) - 1 + spacing }
      | none =>
          shortestFrom interval value order attempts (length + 1)

/-- The shortest decimal of a positive finite number. -/
def shortest
    (number : Number) :
    Decimal :=
  let value := Quotient.scaled number.significand 2 number.scale
  shortestFrom number.roundingInterval value value.decimalOrder 17 1

end StructuralTyping.Number
