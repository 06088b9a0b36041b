namespace StructuralTyping.Yaml

/-!
# Letters

The classes of letters that the notation tells apart, and the portions in which
a text is taken in. A text is taken in a portion at a time, and a portion with a
letter that may not stand in a text cannot be taken in at all. What stands
behind the part of a text that is looked at therefore does not matter.
-/

/-- A space or a tab. -/
def isSpace
    (letter : Char) :
    Bool :=
  letter = ' ' || letter = '\t'

/-- The next line character, which ends a line. -/
def nextLine : Char :=
  Char.ofNat 0x85

/-- The line separator, which ends a line and is kept in scalars. -/
def lineSeparator : Char :=
  Char.ofNat 0x2028

/-- The paragraph separator, which ends a line and is kept in scalars. -/
def paragraphSeparator : Char :=
  Char.ofNat 0x2029

/-- A line end of more than one byte. -/
def isWideBreak
    (letter : Char) :
    Bool :=
  letter = nextLine || letter = lineSeparator || letter = paragraphSeparator

/-- A letter that ends a line. -/
def isBreak
    (letter : Char) :
    Bool :=
  letter = '\n' || letter = '\r' || isWideBreak letter

/-- What a line end stands for in a scalar. -/
def breakValue
    (letter : Char) :
    Char :=
  if letter = lineSeparator || letter = paragraphSeparator then
    letter
  else
    '\n'

/-- The mark that a text may begin with to show its encoding. -/
def byteOrderMark : Char :=
  Char.ofNat 0xfeff

/-- A letter of the name of an anchor, a directive or a handle. -/
def isNameLetter
    (letter : Char) :
    Bool :=
  letter.isAlphanum || letter = '_' || letter = '-'

/-- The quote of single-quoted scalars. -/
def singleQuote : Char :=
  Char.ofNat 39

/-- Whether a letter may stand in a text at all. -/
def isAdmitted
    (letter : Char) :
    Bool :=
  let code := letter.toNat
  letter = '\t' || letter = '\n' || letter = '\r' ||
    (0x20 ≤ code && code ≤ 0x7e) || code = 0x85 ||
    (0xa0 ≤ code && code ≤ 0xfffd) || 0x10000 ≤ code

/-- How many bytes a portion has at most. -/
def portionSize : Nat :=
  512

/-- The letters of a text and the portions they are taken in. -/
structure Supply where
  letters : Array Char
  /-- How many letters stand before the end of each portion. -/
  portions : List Nat
  /-- Whether a portion follows that cannot be taken in. -/
  broken : Bool
  deriving Repr, DecidableEq

/--
The ends of portions, given how many letters stand before the first of the
letters and how many bytes of its portion are used. A letter is not divided
between portions.
-/
def portionEnds
    (count used : Nat) :
    List Char →
    List Nat × Bool
  | [] => ([count], false)
  | letter :: rest =>
      let size := letter.utf8Size
      let starts := portionSize < used + size
      let used := if starts then 0 else used
      if isAdmitted letter then
        let (ends, broken) := portionEnds (count + 1) (used + size) rest
        (if starts then count :: ends else ends, broken)
      else
        (if starts then [count] else [], true)

/--
The letters of a text. An encoding mark at the beginning is no letter but takes
room, and an empty text counts as an empty line.
-/
def Supply.ofText
    (text : String) :
    Supply :=
  let supply := fun (letters : List Char) (used : Nat) =>
    let (portions, broken) := portionEnds 0 used letters
    { letters := letters.toArray, portions, broken : Supply }
  match text.toList with
  | [] => supply ['\n'] 0
  | first :: rest =>
      if first = byteOrderMark then
        supply rest byteOrderMark.utf8Size
      else
        supply (first :: rest) 0

end StructuralTyping.Yaml
