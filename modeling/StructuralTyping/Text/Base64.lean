import StructuralTyping.Text.Raw

namespace StructuralTyping.Text

/-!
# Base 64

Bytes that are written with sixty-four letters, four letters for three bytes.
Line ends between the letters do not count. The last four letters stand for
fewer bytes if they end in equals signs.
-/

/-- The six bits that a letter stands for. -/
def sixBits?
    (letter : Char) :
    Option Nat :=
  let code := letter.toNat
  if letter.isUpper then
    some (code - 'A'.toNat)
  else if letter.isLower then
    some (code - 'a'.toNat + 26)
  else if letter.isDigit then
    some (code - '0'.toNat + 52)
  else if letter = '+' then
    some 62
  else if letter = '/' then
    some 63
  else
    none

/-- The number that letters stand for, six bits each. -/
def bitsOf?
    (letters : List Char) :
    Option Nat := do
  return (← letters.mapM sixBits?).foldl
    (fun number bits => number * 64 + bits) 0

/-- The bytes that groups of four letters stand for. -/
def bytesOfGroups? :
    List Char →
    Option (List UInt8)
  | [] => some []
  | [first, second, '=', '='] => do
      let bits ← bitsOf? [first, second]
      return [UInt8.ofNat (bits / 16)]
  | [first, second, third, '='] => do
      let bits ← bitsOf? [first, second, third]
      return [UInt8.ofNat (bits / 1024), UInt8.ofNat (bits / 4)]
  | first :: second :: third :: fourth :: rest => do
      let bits ← bitsOf? [first, second, third, fourth]
      return UInt8.ofNat (bits / 65536) :: UInt8.ofNat (bits / 256) ::
        UInt8.ofNat bits :: (← bytesOfGroups? rest)
  | _ => none

/-- The text whose bytes are written with sixty-four letters. -/
def RawText.ofBase64?
    (text : String) :
    Option RawText :=
  (bytesOfGroups?
    (text.toList.filter fun letter => letter ≠ '\r' && letter ≠ '\n')).map
    RawText.ofBytes

end StructuralTyping.Text
