import StructuralTyping.Text.Printable

namespace StructuralTyping.Text

/-!
# Quoted text

A quoted text stands between double quotes on one line. Printable characters
stand for themselves, except that a double quote and a backslash are preceded
by a backslash. The seven control characters with a name have a one-letter
escape; every other character is written by its code point.
-/

/-- A code point in lower-case hexadecimal, with at least `width` digits. -/
def hexadecimal
    (width : Nat)
    (code : Nat) :
    List Char :=
  let digits := Nat.toDigits 16 code
  List.replicate (width - digits.length) '0' ++ digits

/-- The one-letter escape of a control character, where there is one. -/
def namedEscape? :
    Nat →
    Option Char
  | 7 => some 'a'
  | 8 => some 'b'
  | 9 => some 't'
  | 10 => some 'n'
  | 11 => some 'v'
  | 12 => some 'f'
  | 13 => some 'r'
  | _ => none

/-- The escape of a character that is not printable. -/
def escapeCode
    (code : Nat) :
    List Char :=
  match namedEscape? code with
  | some letter => ['\\', letter]
  | none =>
      if code < 0x20 ∨ code = 0x7f then
        '\\' :: 'x' :: hexadecimal 2 code
      else if code < 0x10000 then
        '\\' :: 'u' :: hexadecimal 4 code
      else
        '\\' :: 'U' :: hexadecimal 8 code

/-- One character inside double quotes. -/
def quoteLetter
    (letter : Char) :
    List Char :=
  if letter = '"' ∨ letter = '\\' then
    ['\\', letter]
  else if isPrintable letter then
    [letter]
  else
    escapeCode letter.toNat

/-- A text between double quotes. -/
def quoted
    (text : String) :
    String :=
  String.ofList ('"' :: text.toList.flatMap quoteLetter ++ ['"'])

/-- One character inside single quotes. -/
def quotedCharacter
    (letter : Char) :
    String :=
  let quote := Char.ofNat 39
  let written :=
    if letter = quote ∨ letter = '\\' then
      ['\\', letter]
    else if isPrintable letter then
      [letter]
    else
      escapeCode letter.toNat
  String.ofList (quote :: written ++ [quote])

end StructuralTyping.Text
