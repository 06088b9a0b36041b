namespace StructuralTyping.Text

/-!
# Blank characters

The characters of the Unicode property White_Space, and texts without them at
either end.
-/

/-- The ranges of blank characters, by code point, in order. -/
def blankRanges : List (Nat × Nat) :=
  [ (0x09, 0x0d), (0x20, 0x20), (0x85, 0x85), (0xa0, 0xa0),
    (0x1680, 0x1680), (0x2000, 0x200a), (0x2028, 0x2029),
    (0x202f, 0x202f), (0x205f, 0x205f), (0x3000, 0x3000) ]

/-- Whether a character is blank. -/
def isBlank
    (letter : Char) :
    Bool :=
  blankRanges.any fun (first, last) =>
    first ≤ letter.toNat && letter.toNat ≤ last

/-- Letters without blanks at either end. -/
def trimLetters
    (letters : List Char) :
    List Char :=
  ((letters.dropWhile isBlank).reverse.dropWhile isBlank).reverse

/-- A text without blanks at either end. -/
def trim
    (text : String) :
    String :=
  String.ofList (trimLetters text.toList)

end StructuralTyping.Text
