import StructuralTyping.Number.Shortest

namespace StructuralTyping.Number

/-!
# Written numbers

`text` writes a number with its shortest decimal, positionally for moderate
orders and in exponent form otherwise. `read?` reads the decimal and
hexadecimal notations, including digit separators and the names of the
infinities, and refuses magnitudes past the largest finite number.
-/

/-- The choices of a way to write decimals. -/
structure DecimalStyle where
  /-- Orders below this one are written in exponent form. -/
  lowestPositional : Int
  /-- Orders from this one on are written in exponent form. -/
  firstExponential : Int
  /-- The least number of exponent digits. -/
  exponentWidth : Nat
  deriving Repr, DecidableEq

/--
Literals are positional from four zeros after the point up to six digits
before it, and an exponent has a sign and at least two digits.
-/
def literalStyle : DecimalStyle :=
  { lowestPositional := -4
    firstExponential := 6
    exponentWidth := 2 }

/-- Pad a text on the left with zeros. -/
def padZeros
    (width : Nat)
    (digits : List Char) :
    List Char :=
  List.replicate (width - digits.length) '0' ++ digits

/-- A signed exponent mark. -/
def exponentMark
    (style : DecimalStyle)
    (order : Int) :
    List Char :=
  let sign := if order < 0 then '-' else '+'
  'e' :: sign ::
    padZeros style.exponentWidth (Nat.toDigits 10 order.natAbs)

/-- Digits after a point, or nothing when there are none. -/
def fractionPart
    (digits : List Char) :
    List Char :=
  if digits.isEmpty then
    []
  else
    '.' :: digits

/-- Write a decimal in the given notation. -/
def Decimal.write
    (style : DecimalStyle)
    (decimal : Decimal) :
    List Char :=
  let digits := Nat.toDigits 10 decimal.digits
  let order := decimal.order
  if order < style.lowestPositional ∨
      style.firstExponential ≤ order then
    digits.take 1 ++ fractionPart (digits.drop 1) ++
      exponentMark style order
  else if order < 0 then
    '0' :: fractionPart
      (List.replicate ((-order).toNat - 1) '0' ++ digits)
  else
    let whole := order.toNat + 1
    digits.take whole ++
      List.replicate (whole - digits.length) '0' ++
      fractionPart (digits.drop whole)

/-- The written form of a number. -/
def text
    (number : Number) :
    String :=
  let sign := if number.isNegative then "-" else ""
  if number.isNaN then
    "NaN"
  else if number.isInfinite then
    if number.isNegative then "-Inf" else "+Inf"
  else if number.isZero then
    sign ++ "0"
  else
    sign ++ String.ofList (number.shortest.write literalStyle)

/-- The lower-case form of an ASCII letter; every other character is kept. -/
def lowerAscii
    (letters : List Char) :
    List Char :=
  letters.map Char.toLower

/-- The value of a decimal or hexadecimal digit. -/
def digitValue?
    (base : Nat)
    (digit : Char) :
    Option Nat :=
  let value :=
    if '0' ≤ digit ∧ digit ≤ '9' then
      digit.toNat - '0'.toNat
    else if 'a' ≤ digit.toLower ∧ digit.toLower ≤ 'f' then
      digit.toLower.toNat - 'a'.toNat + 10
    else
      base
  if value < base then some value else none

/-- What a separator looks back on. -/
inductive SeparatorContext where
  | digit
  | separator
  | other
  deriving Repr, DecidableEq

/--
Separators stand between digits; the mark of the hexadecimal base counts as a
digit.
-/
def separatorsPlaced
    (base : Nat) :
    SeparatorContext →
    List Char →
    Bool
  | context, [] => context ≠ .separator
  | context, letter :: rest =>
      if (digitValue? base letter).isSome then
        separatorsPlaced base .digit rest
      else if letter = '_' then
        context = .digit && separatorsPlaced base .separator rest
      else
        context ≠ .separator && separatorsPlaced base .other rest

/-- The digits read so far of a significand. -/
structure Scanned where
  digits : Nat
  fractionDigits : Nat
  sawDigit : Bool
  sawPoint : Bool
  rest : List Char
  deriving Repr, DecidableEq

/-- Read digits, separators and at most one point. -/
def scanDigits
    (base : Nat)
    (digits fractionDigits : Nat)
    (sawDigit sawPoint : Bool) :
    List Char →
    Scanned
  | [] =>
      { digits, fractionDigits, sawDigit, sawPoint, rest := [] }
  | letter :: rest =>
      if letter = '_' then
        scanDigits base digits fractionDigits sawDigit sawPoint rest
      else if letter = '.' ∧ !sawPoint then
        scanDigits base digits fractionDigits sawDigit true rest
      else
        match digitValue? base letter with
        | some value =>
            scanDigits base
              (digits * base + value)
              (if sawPoint then fractionDigits + 1 else fractionDigits)
              true sawPoint rest
        | none =>
            { digits, fractionDigits, sawDigit, sawPoint
              rest := letter :: rest }

/--
Read the digits of an exponent that takes up the rest of the text. Exponents
stop growing once they are far out of range.
-/
def scanExponent
    (value : Nat) :
    List Char →
    Option Nat
  | [] => some value
  | letter :: rest =>
      if letter = '_' then
        scanExponent value rest
      else
        match digitValue? 10 letter with
        | some digit =>
            scanExponent
              (if value < 10000 then value * 10 + digit else value) rest
        | none => none

/-- Read a signed exponent: at least one digit right after the sign. -/
def readExponent?
    (letters : List Char) :
    Option Int :=
  let (negative, digits) :=
    match letters with
    | '+' :: rest => (false, rest)
    | '-' :: rest => (true, rest)
    | _ => (false, letters)
  match digits with
  | [] => none
  | first :: _ =>
      if (digitValue? 10 first).isSome then
        (scanExponent 0 digits).map fun value =>
          if negative then -(value : Int) else value
      else
        none

/-- A magnitude, given how its digits and exponent were read. -/
def ofScanned
    (negative : Bool)
    (base : Nat)
    (scanned : Scanned)
    (exponent : Int) :
    Number :=
  if base = 16 then
    let exponent := exponent - 4 * (scanned.fractionDigits : Int)
    let order := (scanned.digits.log2 : Int) + exponent
    if scanned.digits = 0 ∨ order < -1200 then
      ofMagnitude negative 0
    else if 1200 < order then
      infinity negative
    else
      ofQuotient negative
        (scanned.digits * Nat.pow 2 exponent.toNat)
        (Nat.pow 2 (-exponent).toNat)
  else
    ofDecimal negative scanned.digits
      (exponent - (scanned.fractionDigits : Int))

/-- Read an unsigned magnitude in the given base. -/
def readMagnitude?
    (negative : Bool)
    (base : Nat)
    (letters : List Char) :
    Option Number :=
  let scanned := scanDigits base 0 0 false false letters
  let mark := if base = 16 then 'p' else 'e'
  let context : SeparatorContext :=
    if base = 16 then .digit else .other
  if !scanned.sawDigit || !separatorsPlaced base context letters then
    none
  else
    let number :=
      match scanned.rest with
      | [] =>
          if base = 16 then
            none
          else
            some (ofScanned negative base scanned 0)
      | letter :: rest =>
          if letter.toLower = mark then
            (readExponent? rest).map
              (ofScanned negative base scanned)
          else
            none
    number.filter fun value => !value.isInfinite

/--
Read a number that takes up the whole text: a decimal or hexadecimal
magnitude with an optional sign, a signed infinity, or `nan`.
-/
def read?
    (text : String) :
    Option Number :=
  let letters := text.toList
  let (negative, unsigned) :=
    match letters with
    | '+' :: rest => (false, rest)
    | '-' :: rest => (true, rest)
    | _ => (false, letters)
  let name := lowerAscii unsigned
  if lowerAscii letters = "nan".toList then
    some nan
  else if name = "inf".toList ∨ name = "infinity".toList then
    some (infinity negative)
  else
    match unsigned with
    | '0' :: mark :: first :: rest =>
        if mark.toLower = 'x' then
          readMagnitude? negative 16 (first :: rest)
        else
          readMagnitude? negative 10 unsigned
    | _ => readMagnitude? negative 10 unsigned

end StructuralTyping.Number
