import StructuralTyping.Number.Text
import StructuralTyping.Text.Raw

namespace StructuralTyping.Text

/-!
# Reading quoted text

The text behind its quoted form. Every escape that quoting writes is read, and
beside them octal escapes of three digits. A hexadecimal escape of two digits
and an octal escape stand for one byte of the encoded text, the longer
hexadecimal escapes for a character.
-/

/-- The character of a one-letter escape, where there is one. -/
def namedEscapeValue? :
    Char →
    Option Char
  | 'a' => some (Char.ofNat 7)
  | 'b' => some (Char.ofNat 8)
  | 't' => some (Char.ofNat 9)
  | 'n' => some (Char.ofNat 10)
  | 'v' => some (Char.ofNat 11)
  | 'f' => some (Char.ofNat 12)
  | 'r' => some (Char.ofNat 13)
  | '"' => some '"'
  | '\\' => some '\\'
  | _ => none

/-- What the digits of an escape stand for. -/
inductive EscapeUnit where
  | byte
  | character
  deriving Repr, DecidableEq

/-- What has been read of an escape. -/
inductive EscapeState where
  /-- Not inside an escape. -/
  | outside
  /-- Right after the backslash. -/
  | opened
  /-- Among digits, of which at least one is missing. -/
  | digits (unit : EscapeUnit) (base missing value : Nat)
  deriving Repr, DecidableEq

/-- The character of a code point, where there is one. -/
def characterOf?
    (code : Nat) :
    Option Char :=
  if code.isValidChar then some (Char.ofNat code) else none

/-- The bytes that the digits of an escape stand for. -/
def escapeBytes? :
    EscapeUnit →
    (value : Nat) →
    Option (List UInt8)
  | .byte, value => if value < 256 then some [value.toUInt8] else none
  | .character, value => (characterOf? value).map String.utf8EncodeChar

/-- How the letter after a backslash goes on. -/
def openedEscape
    (letter : Char) :
    EscapeState :=
  match letter with
  | 'x' => .digits .byte 16 2 0
  | 'u' => .digits .character 16 4 0
  | 'U' => .digits .character 16 8 0
  | _ =>
      match Number.digitValue? 8 letter with
      | some value => .digits .byte 8 2 value
      | none => .opened

/--
Read the letters after the opening quote. The closing quote is the last letter,
and a line end may not stand among them.
-/
def unquotedBytes? :
    EscapeState →
    List Char →
    Option (List UInt8)
  | _, [] => none
  | .outside, letter :: rest =>
      if letter = '"' then
        if rest.isEmpty then some [] else none
      else if letter = '\\' then
        unquotedBytes? .opened rest
      else if letter = '\n' then
        none
      else
        (unquotedBytes? .outside rest).map
          (String.utf8EncodeChar letter ++ ·)
  | .opened, letter :: rest =>
      match namedEscapeValue? letter with
      | some value =>
          (unquotedBytes? .outside rest).map
            (String.utf8EncodeChar value ++ ·)
      | none =>
          match openedEscape letter with
          | .digits unit base missing value =>
              unquotedBytes? (.digits unit base missing value) rest
          | _ => none
  | .digits unit base missing value, letter :: rest =>
      match Number.digitValue? base letter with
      | none => none
      | some digit =>
          let value := value * base + digit
          if missing ≤ 1 then
            (escapeBytes? unit value).bind fun bytes =>
              (unquotedBytes? .outside rest).map (bytes ++ ·)
          else
            unquotedBytes? (.digits unit base (missing - 1) value) rest

/-- The text behind a quoted form, quotes included. -/
def unquoted?
    (text : String) :
    Option RawText :=
  match text.toList with
  | '"' :: rest => (unquotedBytes? .outside rest).map RawText.ofBytes
  | _ => none

end StructuralTyping.Text
