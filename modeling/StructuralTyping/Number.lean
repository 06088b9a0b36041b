namespace StructuralTyping

/-!
# Numbers

A numeric literal denotes a 64-bit binary floating-point number. The number is
held as its bit pattern, so that every question about it is a question about
natural numbers. Literal comparison is arithmetic comparison: a value that is
not a number differs from everything, itself included, and the two zeros are
equal.
-/

/-- A 64-bit binary floating-point number, held as its bit pattern. -/
structure Number where
  bits : UInt64
  deriving Repr, DecidableEq

namespace Number

/-- The sign bit is set. -/
def isNegative
    (number : Number) :
    Bool :=
  decide (Nat.pow 2 63 ≤ number.bits.toNat)

/-- The eleven bits of the biased exponent. -/
def exponentField
    (number : Number) :
    Nat :=
  number.bits.toNat / Nat.pow 2 52 % Nat.pow 2 11

/-- The fifty-two stored bits of the significand. -/
def fraction
    (number : Number) :
    Nat :=
  number.bits.toNat % Nat.pow 2 52

/-- Not a number: the largest exponent with a non-zero fraction. -/
def isNaN
    (number : Number) :
    Bool :=
  number.exponentField == 2047 && number.fraction != 0

/-- An infinity: the largest exponent with a zero fraction. -/
def isInfinite
    (number : Number) :
    Bool :=
  number.exponentField == 2047 && number.fraction == 0

/-- One of the two zeros. -/
def isZero
    (number : Number) :
    Bool :=
  number.bits.toNat % Nat.pow 2 63 == 0

/--
Arithmetic equality. It is not reflexive on values that are not numbers, and
it identifies the two zeros.
-/
def equal
    (first second : Number) :
    Bool :=
  !first.isNaN && !second.isNaN &&
    (first == second || first.isZero && second.isZero)

/-- The significand of a finite number, with its hidden bit. -/
def significand
    (number : Number) :
    Nat :=
  if number.exponentField = 0 then
    number.fraction
  else
    Nat.pow 2 52 + number.fraction

/-- A finite number has magnitude `significand * 2 ^ scale`. -/
def scale
    (number : Number) :
    Int :=
  max (number.exponentField : Int) 1 - 1075

/-- Build a number from its sign and the sixty-three bits of its magnitude. -/
def ofMagnitude
    (negative : Bool)
    (magnitude : Nat) :
    Number :=
  ⟨UInt64.ofNat (magnitude + if negative then Nat.pow 2 63 else 0)⟩

/-- The infinity of the given sign. -/
def infinity
    (negative : Bool) :
    Number :=
  ofMagnitude negative (2047 * Nat.pow 2 52)

/-- The quiet value that is not a number. -/
def nan : Number :=
  ofMagnitude false (2047 * Nat.pow 2 52 + Nat.pow 2 51 + 1)

/-- Divide and round to the nearest integer, a half going to the even one. -/
def divideToEven
    (dividend divisor : Nat) :
    Nat :=
  let quotient := dividend / divisor
  let doubled := 2 * (dividend % divisor)
  if divisor < doubled ∨ doubled = divisor ∧ quotient % 2 = 1 then
    quotient + 1
  else
    quotient

/--
The number nearest to a quotient of natural numbers, a half going to the even
significand. Magnitudes past the largest finite number become infinite.
-/
def ofQuotient
    (negative : Bool)
    (dividend divisor : Nat) :
    Number :=
  if dividend = 0 then
    ofMagnitude negative 0
  else
    let guess : Int := (dividend.log2 : Int) - (divisor.log2 : Int)
    let reaches :=
      divisor * Nat.pow 2 guess.toNat ≤ dividend * Nat.pow 2 (-guess).toNat
    let order := if reaches then guess else guess - 1
    let scale := max (order - 52) (-1074)
    let rounded :=
      divideToEven
        (dividend * Nat.pow 2 (-scale).toNat)
        (divisor * Nat.pow 2 scale.toNat)
    let magnitude := (scale + 1074).toNat * Nat.pow 2 52 + rounded
    if 2047 * Nat.pow 2 52 ≤ magnitude then
      infinity negative
    else
      ofMagnitude negative magnitude

/-- How many decimal digits a natural number has; zero has none. -/
def decimalLength
    (value : Nat) :
    Nat :=
  if value = 0 then
    0
  else
    (Nat.toDigits 10 value).length

/--
The number nearest to `digits * 10 ^ exponent`. Exponents far outside the
range of finite numbers are answered without computing the power.
-/
def ofDecimal
    (negative : Bool)
    (digits : Nat)
    (exponent : Int) :
    Number :=
  let order := (decimalLength digits : Int) + exponent
  if digits = 0 ∨ order < -400 then
    ofMagnitude negative 0
  else if 400 < order then
    infinity negative
  else
    ofQuotient negative
      (digits * Nat.pow 10 exponent.toNat)
      (Nat.pow 10 (-exponent).toNat)

/-- The number equal or nearest to a natural number. -/
def ofNat
    (value : Nat) :
    Number :=
  ofQuotient false value 1

end Number

end StructuralTyping
