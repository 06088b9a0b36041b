import StructuralTyping.Text.Quoted

namespace StructuralTyping.Text

/-!
# Raw texts

A raw text is what a sequence of bytes stands for. Where the bytes encode
characters it is those characters; a byte that is part of no character stands
for itself. Texts that are equal as bytes are equal as raw texts.
-/

/-- A letter of a raw text. -/
inductive RawLetter where
  | character (value : Char)
  /-- A byte that is part of no character. -/
  | byte (value : UInt8)
  deriving Repr, DecidableEq

/-- A text whose bytes need not encode characters. -/
structure RawText where
  letters : List RawLetter
  deriving Repr, DecidableEq

/-- Whether a byte continues the encoding of a character. -/
def isContinuation
    (byte : UInt8) :
    Bool :=
  0x80 ≤ byte.toNat && byte.toNat ≤ 0xbf

/--
How many bytes follow the first one in the encoding of a character, and the
value of the first one; there is none if no encoding begins with it.
-/
def leadingByte?
    (byte : UInt8) :
    Option (Nat × Nat) :=
  let value := byte.toNat
  if value < 0x80 then
    some (0, value)
  else if 0xc2 ≤ value && value ≤ 0xdf then
    some (1, value - 0xc0)
  else if 0xe0 ≤ value && value ≤ 0xef then
    some (2, value - 0xe0)
  else if 0xf0 ≤ value && value ≤ 0xf4 then
    some (3, value - 0xf0)
  else
    none

/-- The least code point that is encoded with so many further bytes. -/
def leastCode :
    (following : Nat) →
    Nat
  | 0 => 0
  | 1 => 0x80
  | 2 => 0x800
  | _ => 0x10000

/-- The character that bytes begin with and the bytes behind it. -/
def decodeCharacter?
    (bytes : List UInt8) :
    Option (Char × List UInt8) :=
  match bytes with
  | [] => none
  | first :: rest => do
      let (following, leading) ← leadingByte? first
      let continuation := rest.take following
      let code :=
        continuation.foldl
          (fun code byte => code * 0x40 + (byte.toNat - 0x80)) leading
      if continuation.length = following && continuation.all isContinuation &&
          leastCode following ≤ code && code.isValidChar then
        return (Char.ofNat code, rest.drop following)
      else
        none

namespace RawText

/-- The raw letters of bytes, at most `fuel` of them. -/
def lettersOf :
    (fuel : Nat) →
    List UInt8 →
    List RawLetter
  | 0, _ => []
  | _ + 1, [] => []
  | fuel + 1, first :: rest =>
      match decodeCharacter? (first :: rest) with
      | some (character, rest) => .character character :: lettersOf fuel rest
      | none => .byte first :: lettersOf fuel rest

/-- What bytes stand for. -/
def ofBytes
    (bytes : List UInt8) :
    RawText :=
  ⟨lettersOf bytes.length bytes⟩

/-- A text as a raw text. -/
def ofString
    (text : String) :
    RawText :=
  ⟨text.toList.map .character⟩

/-- Whether there are no letters. -/
def isEmpty
    (text : RawText) :
    Bool :=
  text.letters.isEmpty

/-- The character of a letter; a byte has none. -/
def character? :
    RawLetter →
    Option Char
  | .character value => some value
  | .byte _ => none

/-- The text, if every byte is part of a character. -/
def string?
    (text : RawText) :
    Option String :=
  (text.letters.mapM character?).map String.ofList

/-- The text, with the replacement character for every other byte. -/
def replaced
    (text : RawText) :
    String :=
  String.ofList
    (text.letters.map fun letter =>
      (character? letter).getD (Char.ofNat 0xfffd))

/-- A letter between double quotes; a byte is written by its value. -/
def quoteRawLetter :
    RawLetter →
    List Char
  | .character value => quoteLetter value
  | .byte value => '\\' :: 'x' :: hexadecimal 2 value.toNat

/-- A raw text between double quotes. -/
def quoted
    (text : RawText) :
    String :=
  String.ofList ('"' :: text.letters.flatMap quoteRawLetter ++ ['"'])

end RawText

end StructuralTyping.Text
