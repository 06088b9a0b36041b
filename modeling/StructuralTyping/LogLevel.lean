import StructuralTyping.Number.Integer
import StructuralTyping.Text.Blank

namespace StructuralTyping

/-!
# Log levels

A log level is a number. The usual levels have names, which may be written in
any case and with blanks around them.
-/

/-- The names of log levels. -/
def LogLevel.named : List (String × Int) :=
  [ ("debug", -4), ("info", 0), ("warn", 4), ("warning", 4), ("error", 8) ]

/--
The lower-case form of the letters whose lower-case form is Latin without a
mark: beside the capital letters these are the capital i with a dot and the
sign of the kelvin.
-/
def LogLevel.lowerLatin
    (letter : Char) :
    Char :=
  match letter.toNat with
  | 0x130 => 'i'
  | 0x212a => 'k'
  | _ => letter.toLower

/-- Read a decimal integer of 64 bits with an optional sign. -/
def LogLevel.number?
    (text : String) :
    Option Int :=
  (Integer.signed? (Integer.digits? 10) text.toList).filter Integer.fitsWord

/-- The log level that a text names, or the given one. -/
def LogLevel.ofText
    (text : String)
    (otherwise : Int) :
    Int :=
  let name := (Text.trim text).map LogLevel.lowerLatin
  match LogLevel.named.lookup name with
  | some level => level
  | none => (LogLevel.number? name).getD otherwise

end StructuralTyping
