import StructuralTyping.Number.Text
import StructuralTyping.Text.Raw
import StructuralTyping.Yaml.Cursor

namespace StructuralTyping.Yaml

/-!
# Reading tags and directives

A tag names the kind of a node. It consists of a handle, which directives at the
head of a document abbreviate, and a suffix.
-/

/-- A tag as it is written. -/
structure Tag where
  /-- The handle; it is empty when the suffix is the whole tag. -/
  handle : String
  suffix : String
  deriving Repr, DecidableEq

/-- A directive at the head of a document. -/
inductive Directive where
  | version (major minor : Nat)
  /-- What a handle abbreviates. -/
  | abbreviation (handle expansion : String)
  deriving Repr, DecidableEq

/-- A letter that may stand in a tag, besides escapes. -/
def isTagLetter
    (letter : Char) :
    Bool :=
  isNameLetter letter || letter = singleQuote ||
    [';', '/', '?', ':', '@', '&', '=', '+', '$', ',', '.', '!', '~', '*', '(',
      ')', '[', ']'].contains letter

/-- Take a byte that is written with a percent sign and two digits. -/
def scanEscapedByte : Scan UInt8 := do
  Scan.need 3
  let mark ← Scan.next
  let first := Number.digitValue? 16 (← Scan.next)
  let second := Number.digitValue? 16 (← Scan.next)
  match mark, first, second with
  | '%', some first, some second => return (first * 16 + second).toUInt8
  | _, _, _ => failure

/-- Take the escaped bytes of one character. -/
def scanEscapedCharacter : Scan Char := do
  let first ← scanEscapedByte
  let value := first.toNat
  let following ←
    if value < 0x80 then pure 0
    else if value / 0x20 = 6 then pure 1
    else if value / 0x10 = 14 then pure 2
    else if value / 8 = 30 then pure 3
    else failure
  let rest ← (List.range following).mapM fun _ => scanEscapedByte
  Scan.require (rest.all Text.isContinuation)
  match Text.decodeCharacter? (first :: rest) with
  | some (character, _) => return character
  | none => return Char.ofNat 0xfffd

/-- Take the letters of a tag, which may have begun already. -/
def scanTagLetters
    (begun : List Char) :
    Scan (List Char) := do
  Scan.need 1
  Scan.repeating
    (fun written => do
      match ← Scan.letter? 0 with
      | none => return .inr written.reverse
      | some letter =>
          if letter = '%' then
            let character ← scanEscapedCharacter
            Scan.need 1
            return .inl (character :: written)
          else if isTagLetter letter then
            Scan.skip
            Scan.need 1
            return .inl (letter :: written)
          else
            return .inr written.reverse)
    begun.reverse

/-- Take the letters of a tag, of which there has to be one. -/
def scanSomeTagLetters : Scan (List Char) := do
  let letters ← scanTagLetters []
  Scan.require (!letters.isEmpty)
  return letters

/-- Take a handle: an exclamation mark, a name, and another mark if it ends. -/
def scanHandle : Scan (List Char) := do
  Scan.need 1
  Scan.require (← Scan.follows (· = '!'))
  Scan.skip
  let name ← Scan.takeWhile isNameLetter
  if ← Scan.follows (· = '!') then
    Scan.skip
    return '!' :: name ++ ['!']
  else
    return '!' :: name

/-- Whether letters are a handle that another mark ended. -/
def isFullHandle
    (letters : List Char) :
    Bool :=
  2 ≤ letters.length && letters.getLast? = some '!'

/-- Take a tag, given between angle brackets or with a handle. -/
def scanTagForm : Scan Tag := do
  Scan.need 2
  if (← Scan.letter? 1) = some '<' then
    Scan.skip
    Scan.skip
    let suffix ← scanSomeTagLetters
    Scan.require (← Scan.follows (· = '>'))
    Scan.skip
    return { handle := "", suffix := String.ofList suffix }
  else
    let handle ← scanHandle
    if isFullHandle handle then
      let suffix ← scanSomeTagLetters
      return {
        handle := String.ofList handle
        suffix := String.ofList suffix }
    else
      let suffix ← scanTagLetters (handle.drop 1)
      if suffix.isEmpty then
        return { handle := "", suffix := "!" }
      else
        return { handle := "!", suffix := String.ofList suffix }

/-- Read a tag, which a blank has to follow. -/
def scanTag : Scan Tag := do
  let tag ← scanTagForm
  Scan.need 1
  Scan.require ((← get).atGap 0)
  return tag

/-- Read a part of a version, which has one digit or two. -/
def scanVersionNumber : Scan Nat := do
  let digits ← Scan.takeWhile Char.isDigit
  Scan.require (!digits.isEmpty && digits.length ≤ 2)
  return digits.foldl
    (fun value digit => value * 10 + (digit.toNat - '0'.toNat)) 0

/-- Read the value of a directive. -/
def scanDirectiveValue
    (name : String) :
    Scan Directive := do
  match name with
  | "YAML" => do
      Scan.skipWhile isSpace
      let major ← scanVersionNumber
      Scan.require (← Scan.follows (· = '.'))
      Scan.skip
      return .version major (← scanVersionNumber)
  | "TAG" => do
      Scan.skipWhile isSpace
      let handle ← scanHandle
      Scan.require (handle = ['!'] || isFullHandle handle)
      Scan.need 1
      Scan.require (← Scan.follows isSpace)
      Scan.skipWhile isSpace
      let expansion ← scanSomeTagLetters
      Scan.need 1
      Scan.require ((← get).atGap 0)
      return .abbreviation (String.ofList handle) (String.ofList expansion)
  | _ => failure

/-- Read a directive and the rest of its line, which may hold a comment. -/
def scanDirective : Scan Directive := do
  Scan.skip
  let name ← Scan.takeWhile isNameLetter
  Scan.require (!name.isEmpty && (← get).atGap 0)
  let directive ← scanDirectiveValue (String.ofList name)
  Scan.skipWhile isSpace
  if ← Scan.follows (· = '#') then
    Scan.skipWhile fun letter => !isBreak letter
  Scan.require ((← get).atLineEnd 0)
  if ← Scan.follows isBreak then
    Scan.need 2
    Scan.skipLine
  return directive

end StructuralTyping.Yaml
