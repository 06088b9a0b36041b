import StructuralTyping.Text.Unquoted
import StructuralTyping.Yaml.Gap

namespace StructuralTyping.Yaml

/-!
# Reading quoted scalars

Between single quotes a doubled quote stands for one and nothing else has a
meaning. Between double quotes a backslash begins an escape. In both, lines are
folded, and a document mark may not begin a line.
-/

/-- The character that an escape of one letter stands for. -/
def escapedLetter?
    (letter : Char) :
    Option Char :=
  match letter with
  | '0' => some (Char.ofNat 0)
  | 'a' => some (Char.ofNat 7)
  | 'b' => some (Char.ofNat 8)
  | 't' => some '\t'
  | '\t' => some '\t'
  | 'n' => some '\n'
  | 'v' => some (Char.ofNat 11)
  | 'f' => some (Char.ofNat 12)
  | 'r' => some (Char.ofNat 13)
  | 'e' => some (Char.ofNat 27)
  | ' ' => some ' '
  | '"' => some '"'
  | '\\' => some '\\'
  | 'N' => some nextLine
  | '_' => some (Char.ofNat 0xa0)
  | 'L' => some lineSeparator
  | 'P' => some paragraphSeparator
  | _ => if letter = singleQuote then some letter else none

/-- How many digits an escape by code point has. -/
def escapeWidth? :
    Char →
    Option Nat
  | 'x' => some 2
  | 'u' => some 4
  | 'U' => some 8
  | _ => none

/-- Take the digits of a code point, which stands for a character. -/
def scanCodePoint
    (width : Nat) :
    Scan Char := do
  Scan.need width
  let code ←
    (List.range width).foldlM
      (fun code _ => do
        match Number.digitValue? 16 (← Scan.next) with
        | some digit => return code * 16 + digit
        | none => failure)
      0
  match Text.characterOf? code with
  | some character => return character
  | none => failure

/-- Take an escape from behind its backslash. -/
def scanEscape : Scan Char := do
  let letter ← Scan.next
  match escapedLetter? letter, escapeWidth? letter with
  | some value, _ => return value
  | none, some width => scanCodePoint width
  | none, none => failure

/-- What is read of a quoted scalar up to a blank or its end. -/
structure QuotedWord where
  /-- The letters so far, the latest first. -/
  written : List Char
  /-- Whether it ended with a line end that does not count. -/
  escaped : Bool := false
  deriving Repr, DecidableEq

/-- Take letters of a double-quoted scalar up to a blank or its end. -/
def scanDoubleWord
    (written : List Char) :
    Scan QuotedWord :=
  Scan.repeating
    (fun written => do
      let cursor ← get
      match cursor.letter? 0 with
      | none => return .inr { written }
      | some letter =>
          if cursor.atGap 0 || letter = '"' then
            return .inr { written }
          else if letter = '\\' then
            if cursor.at? 1 isBreak then
              Scan.need 3
              Scan.skip
              Scan.skipLine
              return .inr { written, escaped := true }
            else
              Scan.skip
              let value ← scanEscape
              Scan.need 2
              return .inl (value :: written)
          else
            Scan.skip
            Scan.need 2
            return .inl (letter :: written))
    written

/-- Take letters of a single-quoted scalar up to a blank or its end. -/
def scanSingleWord
    (written : List Char) :
    Scan QuotedWord :=
  Scan.repeating
    (fun written => do
      let cursor ← get
      match cursor.letter? 0 with
      | none => return .inr { written }
      | some letter =>
          if cursor.atGap 0 then
            return .inr { written }
          else if letter = singleQuote then
            if cursor.letter? 1 = some singleQuote then
              Scan.skip
              Scan.skip
              Scan.need 2
              return .inl (letter :: written)
            else
              return .inr { written }
          else
            Scan.skip
            Scan.need 2
            return .inl (letter :: written))
    written

/-- Read a quoted scalar, given how its words are read. -/
def scanQuoted
    (quote : Char)
    (scanWord : List Char → Scan QuotedWord) :
    Scan (List Char) := do
  Scan.skip
  let written ←
    Scan.repeating
      (fun written => do
        Scan.need 4
        let cursor ← get
        Scan.require (!cursor.atDocumentMark && (cursor.letter? 0).isSome)
        let word ← scanWord written
        Scan.need 1
        if ← Scan.follows (· = quote) then
          return .inr word.written
        else do
          let gap ←
            Scan.takeGap (fun _ _ => false) { escaped := word.escaped }
          return .inl (gap.folded.reverse ++ word.written))
      []
  Scan.skip
  return written.reverse

/-- Read a double-quoted scalar. -/
def scanDouble : Scan (List Char) :=
  scanQuoted '"' scanDoubleWord

/-- Read a single-quoted scalar. -/
def scanSingle : Scan (List Char) :=
  scanQuoted singleQuote scanSingleWord

end StructuralTyping.Yaml
