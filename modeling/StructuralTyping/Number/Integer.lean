import StructuralTyping.Number.Text

namespace StructuralTyping.Integer

/-!
# Written integers

Integers in the bases two, eight, ten and sixteen, with or without a mark of
the base, a sign and separators, and those that fit a word.
-/

/-- The value of digits in a base; none if a letter is no digit of it. -/
def valueFrom?
    (base : Nat)
    (value : Nat) :
    List Char →
    Option Nat
  | [] => some value
  | letter :: rest =>
      match Number.digitValue? base letter with
      | some digit => valueFrom? base (value * base + digit) rest
      | none => none

/--
The base of an unsigned integer, and what stands behind the mark of the base. A
leading zero marks an octal number, and the letters `b`, `o` and `x` after it
mark the bases two, eight and sixteen.
-/
def baseAndDigits
    (letters : List Char) :
    Nat × List Char :=
  match letters with
  | '0' :: mark :: first :: rest =>
      match mark.toLower with
      | 'b' => (2, first :: rest)
      | 'o' => (8, first :: rest)
      | 'x' => (16, first :: rest)
      | _ => (8, mark :: first :: rest)
  | '0' :: rest => (8, rest)
  | _ => (10, letters)

/-- The value of an unsigned integer with or without a mark of its base. -/
def marked?
    (letters : List Char) :
    Option Nat :=
  if letters.isEmpty then
    none
  else
    let (base, digits) := baseAndDigits letters
    valueFrom? base 0 digits

/-- The value of an integer, the magnitude of which is read as given. -/
def signed?
    (magnitude : List Char → Option Nat)
    (letters : List Char) :
    Option Int :=
  match letters with
  | '-' :: rest => (magnitude rest).map fun value => -(value : Int)
  | '+' :: rest => (magnitude rest).map Int.ofNat
  | _ => (magnitude letters).map Int.ofNat

/-- Whether an integer fits a signed word of 64 bits. -/
def fitsWord
    (value : Int) :
    Bool :=
  let limit : Int := Nat.pow 2 63
  decide (-limit ≤ value ∧ value < limit)

/-- Why letters are not an integer of one word. -/
inductive Fault where
  | malformed
  | outOfRange
  deriving Repr, DecidableEq

/--
The value of digits with separators among them. That the value is too large is
found out at the digit that makes it so, whatever follows.
-/
def separatedFrom
    (base : Nat)
    (value : Nat) :
    List Char →
    Except Fault Nat
  | [] => .ok value
  | letter :: rest =>
      if letter = '_' then
        separatedFrom base value rest
      else
        match Number.digitValue? base letter with
        | none => .error .malformed
        | some digit =>
            let value := value * base + digit
            if value < Nat.pow 2 64 then
              separatedFrom base value rest
            else
              .error .outOfRange

/-- Whether every separator stands between digits. -/
def separatorsFit
    (afterDigit : Bool) :
    List Char →
    Bool
  | [] => afterDigit
  | letter :: rest =>
      if letter = '_' then
        afterDigit && separatorsFit false rest
      else
        separatorsFit true rest

/--
The value of an unsigned integer with separators, which may also follow the
mark of the base.
-/
def separated
    (letters : List Char) :
    Except Fault Nat := do
  if letters.isEmpty then
    throw .malformed
  let (base, digits) := baseAndDigits letters
  let value ← separatedFrom base 0 digits
  let afterMark := base ≠ 10 && digits.length + 2 = letters.length
  let fits :=
    if afterMark then separatorsFit true digits else separatorsFit false letters
  if digits.contains '_' && !fits then
    throw .malformed
  return value

/-- The value of an integer that fits a word. -/
def word
    (letters : List Char) :
    Except Fault Int := do
  let value ←
    match letters with
    | '-' :: rest => (separated rest).map fun value => -(value : Int)
    | '+' :: rest => (separated rest).map Int.ofNat
    | _ => (separated letters).map Int.ofNat
  if fitsWord value then
    return value
  else
    throw .outOfRange

/-- Digits in a base, with at least one of them. -/
def digits?
    (base : Nat)
    (letters : List Char) :
    Option Nat :=
  if letters.isEmpty then none else valueFrom? base 0 letters

end StructuralTyping.Integer
