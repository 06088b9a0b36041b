import StructuralTyping.Number.Text
import StructuralTyping.Text.Quoted

namespace StructuralTyping.Text

/-!
# Templates

A template is a text with places for values. A place begins with a percent
sign; flags, a width and a precision may follow, and a letter says how the value
is written. A value that cannot be written as asked, a place without a value and
a value without a place all show up in the result, so filling in never fails.
-/

/-- A value for a place of a template. -/
inductive TemplateValue where
  /-- A text, with the name of its type. -/
  | text (type : String) (value : String)
  | integer (value : Int)
  /-- Named parts, with the name of their type and a written form. -/
  | record (type : String) (written : String)
      (parts : List (String × TemplateValue))
  deriving Repr

/-- The name of the type of a value. -/
def TemplateValue.type :
    TemplateValue →
    String
  | text type _ => type
  | integer _ => "int"
  | record type _ _ => type

/-- How the value at a place is laid out. -/
structure PlaceLayout where
  sharp : Bool := false
  zero : Bool := false
  plus : Bool := false
  minus : Bool := false
  space : Bool := false
  /-- Whether texts are quoted and types and parts are named. -/
  spelled : Bool := false
  /-- Whether parts are named. -/
  labelled : Bool := false
  width : Option Nat := none
  precision : Option Nat := none
  deriving Repr, DecidableEq

namespace PlaceLayout

/-- Blanks that fill up a field; zeros may only stand on the left. -/
def padding
    (layout : PlaceLayout)
    (count : Nat) :
    List Char :=
  List.replicate count (if layout.zero && !layout.minus then '0' else ' ')

/-- Letters filled up to the width of the field. -/
def pad
    (layout : PlaceLayout)
    (letters : List Char) :
    List Char :=
  let blanks := layout.padding (layout.width.getD 0 - letters.length)
  if layout.minus then letters ++ blanks else blanks ++ letters

/-- The letters of a text that the precision leaves. -/
def cut
    (layout : PlaceLayout)
    (letters : List Char) :
    List Char :=
  match layout.precision with
  | some count => letters.take count
  | none => letters

/-- A text as it is. -/
def plainText
    (layout : PlaceLayout)
    (text : String) :
    List Char :=
  layout.pad (layout.cut text.toList)

/-- Whether letters may stand between backquotes. -/
def mayBackquote
    (letters : List Char) :
    Bool :=
  letters.all fun letter =>
    letter = '\t' ||
      (0x20 ≤ letter.toNat && letter ≠ '\x60' && letter.toNat ≠ 0x7f &&
        letter.toNat ≠ 0xfeff)

/-- A letter between double quotes, where letters beyond ASCII are escaped. -/
def quoteAsciiLetter
    (letter : Char) :
    List Char :=
  if letter.toNat < 0x80 then quoteLetter letter else escapeCode letter.toNat

/-- A text between quotes. -/
def quotedText
    (layout : PlaceLayout)
    (text : String) :
    List Char :=
  let letters := layout.cut text.toList
  if layout.sharp && mayBackquote letters then
    layout.pad ('\x60' :: letters ++ ['\x60'])
  else
    let quote := if layout.plus then quoteAsciiLetter else quoteLetter
    layout.pad ('"' :: letters.flatMap quote ++ ['"'])

/-- Letters in upper case, if asked for. -/
def raised
    (upper : Bool)
    (letters : List Char) :
    List Char :=
  if upper then letters.map Char.toUpper else letters

/-- The bytes of a text in hexadecimal. -/
def hexText
    (layout : PlaceLayout)
    (upper : Bool)
    (text : String) :
    List Char :=
  let bytes := text.toUTF8.toList
  let bytes :=
    match layout.precision with
    | some count => bytes.take count
    | none => bytes
  let digits := bytes.map fun byte => hexadecimal 2 byte.toNat
  let mark := if layout.sharp then ['0', 'x'] else []
  let letters :=
    if digits.isEmpty then
      []
    else if layout.space then
      (digits.map (mark ++ ·)).intersperse [' '] |>.flatten
    else
      mark ++ digits.flatten
  layout.pad (raised upper letters)

/-- The sign before a number. -/
def sign
    (layout : PlaceLayout)
    (value : Int) :
    List Char :=
  if value < 0 then
    ['-']
  else if layout.plus then
    ['+']
  else if layout.space then
    [' ']
  else
    []

/-- The mark of a base before digits. -/
def baseMark
    (layout : PlaceLayout)
    (base : Nat)
    (marked : Bool)
    (digits : List Char) :
    List Char :=
  let mark :=
    if layout.sharp then
      if base = 2 then
        ['0', 'b']
      else if base = 8 then
        if digits.head? = some '0' then [] else ['0']
      else if base = 16 then
        ['0', 'x']
      else
        []
    else
      []
  if marked then '0' :: 'o' :: mark else mark

/--
An integer in a base. Zeros fill the field up behind the sign, unless a
precision gives the number of digits; a precision of zero leaves nothing of
zero. `marked` puts the mark of octal numbers in front.
-/
def number
    (layout : PlaceLayout)
    (base : Nat)
    (upper marked : Bool)
    (value : Int) :
    List Char :=
  let blank := { layout with zero := false }
  let sign := layout.sign value
  if layout.precision = some 0 && value = 0 then
    blank.padding (layout.width.getD 0)
  else
    let digits := Nat.toDigits base value.natAbs
    let least :=
      match layout.precision with
      | some count => count
      | none =>
          if layout.zero && !layout.minus then
            layout.width.getD 0 - sign.length
          else
            0
    let digits := List.replicate (least - digits.length) '0' ++ digits
    blank.pad
      (sign ++ raised upper (layout.baseMark base marked digits ++ digits))

/-- The code of a character, as a word of 64 bits. -/
def wordOf
    (value : Int) :
    Nat :=
  (value % (Nat.pow 2 64 : Int)).toNat

/-- The character of a code, or the replacement character. -/
def characterOrReplacement
    (code : Nat) :
    Char :=
  if code.isValidChar then Char.ofNat code else Char.ofNat 0xfffd

/-- An integer as the code of a character. -/
def codePoint
    (layout : PlaceLayout)
    (value : Int) :
    List Char :=
  let code := wordOf value
  let least := max 4 (layout.precision.getD 0)
  let letter := Char.ofNat code
  let quote := Char.ofNat 39
  let shown :=
    if layout.sharp && code.isValidChar && isPrintable letter then
      [' ', quote, letter, quote]
    else
      []
  { layout with zero := false }.pad
    ('U' :: '+' :: raised true (hexadecimal least code) ++ shown)

end PlaceLayout

namespace TemplateValue

open PlaceLayout

mutual

/-- A value as it is, with its parts. -/
def plain
    (layout : PlaceLayout) :
    TemplateValue →
    List Char
  | text _ value =>
      if layout.spelled then
        layout.quotedText value
      else
        layout.plainText value
  | integer value => layout.number 10 false false value
  | record type _ parts =>
      (if layout.spelled then type.toList else []) ++
        '\x7b' :: plainParts layout true parts ++ ['\x7d']

/-- The parts of a record as they are. -/
def plainParts
    (layout : PlaceLayout)
    (first : Bool) :
    List (String × TemplateValue) →
    List Char
  | [] => []
  | (name, value) :: rest =>
      let gap :=
        if first then [] else if layout.spelled then [',', ' '] else [' ']
      let label :=
        if layout.spelled || layout.labelled then
          name.toList ++ [':']
        else
          []
      gap ++ label ++ plain layout value ++ plainParts layout false rest

end

/-- A value that cannot be written as a letter asks. -/
def misfit
    (layout : PlaceLayout)
    (verb : Char)
    (value : TemplateValue) :
    List Char :=
  '%' :: '!' :: verb :: '(' :: value.type.toList ++
    '=' :: plain layout value ++ [')']

/-- A text as a letter asks. -/
def writtenText
    (layout : PlaceLayout)
    (verb : Char)
    (type value : String) :
    List Char :=
  match verb with
  | 'v' => plain layout (.text type value)
  | 's' => layout.plainText value
  | 'x' => layout.hexText false value
  | 'X' => layout.hexText true value
  | 'q' => layout.quotedText value
  | _ => misfit layout verb (.text type value)

/-- An integer as a letter asks. -/
def writtenInteger
    (layout : PlaceLayout)
    (verb : Char)
    (value : Int) :
    List Char :=
  match verb with
  | 'v' => layout.number 10 false false value
  | 'd' => layout.number 10 false false value
  | 'b' => layout.number 2 false false value
  | 'o' => layout.number 8 false false value
  | 'O' => layout.number 8 false true value
  | 'x' => layout.number 16 false false value
  | 'X' => layout.number 16 true false value
  | 'c' => layout.pad [characterOrReplacement (wordOf value)]
  | 'U' => layout.codePoint value
  | _ => misfit layout verb (.integer value)

mutual

/-- A value as a letter asks; a record may stand for its written form. -/
def written
    (layout : PlaceLayout)
    (verb : Char) :
    TemplateValue →
    List Char
  | text type value => writtenText layout verb type value
  | integer value => writtenInteger layout verb value
  | record type form parts =>
      if verb = 'v' && layout.spelled then
        plain layout (record type form parts)
      else if ['v', 's', 'x', 'X', 'q'].contains verb then
        writtenText layout verb type form
      else if verb = 'w' then
        misfit layout verb (record type form parts)
      else
        '\x7b' :: writtenParts layout verb true parts ++ ['\x7d']

/-- The parts of a record as a letter asks. -/
def writtenParts
    (layout : PlaceLayout)
    (verb : Char)
    (first : Bool) :
    List (String × TemplateValue) →
    List Char
  | [] => []
  | (_, value) :: rest =>
      (if first then [] else [' ']) ++ written layout verb value ++
        writtenParts layout verb false rest

end

/-- What stands at a place for a value. -/
def atPlace
    (layout : PlaceLayout)
    (verb : Char)
    (value : TemplateValue) :
    List Char :=
  match verb with
  | 'T' => layout.plainText value.type
  | 'p' => misfit layout verb value
  | 'v' =>
      written
        { layout with
          spelled := layout.sharp, sharp := false
          labelled := layout.plus, plus := false }
        verb value
  | 'w' =>
      written
        { layout with
          spelled := layout.sharp, sharp := false
          labelled := layout.plus, plus := false }
        verb value
  | _ => written layout verb value

end TemplateValue

/-- The state of reading a place. -/
structure PlaceReading where
  layout : PlaceLayout := {}
  /-- The letters of the template behind what was read. -/
  rest : List Char
  /-- The number of the next value. -/
  next : Nat
  /-- What was found to be wrong and shows up in the result. -/
  notices : List Char := []
  /-- Whether every value that was asked for by number exists. -/
  numbered : Bool := true
  /-- Whether a number of a value was just read. -/
  afterNumber : Bool := false
  /-- Whether values were asked for by number. -/
  reordered : Bool
  deriving Repr, DecidableEq

namespace PlaceReading

/-- The longest width or precision that is taken seriously. -/
def longestField : Nat :=
  1000000

/-- The number in front of letters, unless there is none or it is too large. -/
def numberOf?
    (value : Nat)
    (found : Bool) :
    List Char →
    Option Nat × List Char
  | [] => (if found then some value else none, [])
  | letter :: rest =>
      if letter.isDigit then
        if longestField < value then
          (none, [])
        else
          numberOf? (value * 10 + (letter.toNat - '0'.toNat)) true rest
      else
        (if found then some value else none, letter :: rest)

/-- Read the flags. -/
def readFlags
    (layout : PlaceLayout) :
    List Char →
    PlaceLayout × List Char
  | '#' :: rest => readFlags { layout with sharp := true } rest
  | '0' :: rest => readFlags { layout with zero := true } rest
  | '+' :: rest => readFlags { layout with plus := true } rest
  | '-' :: rest => readFlags { layout with minus := true } rest
  | ' ' :: rest => readFlags { layout with space := true } rest
  | rest => (layout, rest)

/-- Read the number of a value, if there is one between brackets. -/
def readNumber
    (reading : PlaceReading)
    (count : Nat) :
    PlaceReading :=
  match reading.rest with
  | '[' :: rest =>
      let reading := { reading with reordered := true, afterNumber := false }
      let bad := { reading with numbered := false }
      if rest.length < 2 || !rest.contains ']' then
        { bad with rest }
      else
        let behind := (rest.dropWhile (· ≠ ']')).drop 1
        match numberOf? 0 false (rest.takeWhile (· ≠ ']')) with
        | (some number, []) =>
            if 0 < number && number ≤ count then
              { reading with
                rest := behind
                next := number - 1
                afterNumber := true }
            else
              { bad with rest := behind, afterNumber := true }
        | _ => { bad with rest := behind }
  | _ => { reading with afterNumber := false }

/-- The integer at a number, if it may serve as a width. -/
def integerAt?
    (values : List TemplateValue)
    (next : Nat) :
    Option Int :=
  match values[next]? with
  | some (.integer value) =>
      if value.natAbs ≤ longestField then some value else none
  | _ => none

/-- The number behind the value that a star takes. -/
def afterStar
    (values : List TemplateValue)
    (next : Nat) :
    Nat :=
  if next < values.length then next + 1 else next

/-- Read the width. -/
def readWidth
    (reading : PlaceReading)
    (values : List TemplateValue) :
    PlaceReading :=
  match reading.rest with
  | '*' :: rest =>
      let width := integerAt? values reading.next
      let layout := { reading.layout with width := width.map Int.natAbs }
      { reading with
        rest
        next := afterStar values reading.next
        notices :=
          if width.isNone then "%!(BADWIDTH)".toList else []
        layout :=
          if width.any (· < 0) then
            { layout with minus := true, zero := false }
          else
            layout
        afterNumber := false }
  | letters =>
      let (width, rest) := numberOf? 0 false letters
      { reading with
        rest
        layout := { reading.layout with width }
        numbered := reading.numbered && !(reading.afterNumber && width.isSome) }

/-- Read the precision, which a point announces. -/
def readPrecision
    (reading : PlaceReading)
    (values : List TemplateValue) :
    PlaceReading :=
  match reading.rest with
  | '.' :: rest =>
      let reading :=
        { reading with
          rest
          numbered := reading.numbered && !reading.afterNumber }
      let reading := reading.readNumber values.length
      match reading.rest with
      | '*' :: rest =>
          let precision :=
            (integerAt? values reading.next).bind fun value =>
              if value < 0 then none else some value.natAbs
          { reading with
            rest
            next := afterStar values reading.next
            notices :=
              reading.notices ++
                if precision.isNone then "%!(BADPREC)".toList else []
            layout := { reading.layout with precision }
            afterNumber := false }
      | letters =>
          let (precision, rest) := numberOf? 0 false letters
          { reading with
            rest
            layout :=
              { reading.layout with precision := some (precision.getD 0) } }
  | _ => reading

/-- Read a place from behind its percent sign up to its letter. -/
def ofLetters
    (values : List TemplateValue)
    (next : Nat)
    (reordered : Bool)
    (letters : List Char) :
    PlaceReading :=
  let (layout, rest) := readFlags {} letters
  let reading : PlaceReading := { layout, rest, next, reordered }
  let reading :=
    ((reading.readNumber values.length).readWidth values).readPrecision values
  if reading.afterNumber then
    reading
  else
    reading.readNumber values.length

end PlaceReading

/-- The values without a place. -/
def leftover
    (values : List TemplateValue) :
    List Char :=
  let shown :=
    values.map fun value =>
      value.type.toList ++ '=' :: value.written {} 'v'
  "%!(EXTRA ".toList ++ (shown.intersperse [',', ' ']).flatten ++ [')']

/-- A place that no value belongs to, and why. -/
def vacant
    (verb : Char)
    (reason : String) :
    List Char :=
  '%' :: '!' :: verb :: '(' :: reason.toList ++ [')']

/--
Fill in values from a number on. Values that were asked for by number may be
left over.
-/
def fillFrom
    (values : List TemplateValue) :
    (fuel : Nat) →
    (next : Nat) →
    (reordered : Bool) →
    List Char →
    List Char
  | 0, _, _, letters => letters
  | fuel + 1, next, reordered, letters =>
      let before := letters.takeWhile (· ≠ '%')
      match letters.dropWhile (· ≠ '%') with
      | [] =>
          before ++
            if reordered || values.length ≤ next then
              []
            else
              leftover (values.drop next)
      | _ :: place =>
          let reading := PlaceReading.ofLetters values next reordered place
          let continued := fillFrom values fuel
          before ++ reading.notices ++
            match reading.rest with
            | [] =>
                "%!(NOVERB)".toList ++
                  continued reading.next reading.reordered []
            | verb :: rest =>
                if verb = '%' then
                  verb :: continued reading.next reading.reordered rest
                else if !reading.numbered then
                  vacant verb "BADINDEX" ++
                    continued reading.next reading.reordered rest
                else
                  match values[reading.next]? with
                  | none =>
                      vacant verb "MISSING" ++
                        continued reading.next reading.reordered rest
                  | some value =>
                      value.atPlace reading.layout verb ++
                        continued (reading.next + 1) reading.reordered rest

/-- Fill values into a template. -/
def fill
    (template : String)
    (values : List TemplateValue) :
    String :=
  let letters := template.toList
  String.ofList (fillFrom values (letters.length + 2) 0 false letters)

end StructuralTyping.Text
