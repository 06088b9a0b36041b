import StructuralTyping.Text.Printable

namespace StructuralTyping.Text

/-!
# Width on a screen

How many columns a text takes up. Control characters and marks that combine
with the letter before them take up none, ideographs and the like two, and
everything else one. Sequences that set colours are not shown at all.
-/

/-- Ranges of characters that are not shown. -/
def invisibleRanges : List CodeRange :=
  [ ⟨0x0, 0x1f⟩, ⟨0x7f, 0x9f⟩, ⟨0xad, 0xad⟩, ⟨0x70f, 0x70f⟩, ⟨0x180b, 0x180e⟩, ⟨0x200b, 0x200f⟩,
    ⟨0x2028, 0x202e⟩, ⟨0x206a, 0x206f⟩, ⟨0xfeff, 0xfeff⟩, ⟨0xfff9, 0xfffb⟩, ⟨0xfffe, 0xffff⟩ ]

/-- Ranges of marks that combine with the letter before them. -/
def combiningRanges : List CodeRange :=
  [ ⟨0x300, 0x36f⟩, ⟨0x483, 0x487⟩, ⟨0x7eb, 0x7f3⟩, ⟨0xc00, 0xc00⟩, ⟨0xc04, 0xc04⟩,
    ⟨0xd00, 0xd01⟩, ⟨0x135d, 0x135f⟩, ⟨0x1a7f, 0x1a7f⟩, ⟨0x1ab0, 0x1ace⟩, ⟨0x1b6b, 0x1b73⟩,
    ⟨0x1dc0, 0x1dff⟩, ⟨0x20d0, 0x20f0⟩, ⟨0x2cef, 0x2cf1⟩, ⟨0x2de0, 0x2dff⟩, ⟨0x3099, 0x309a⟩,
    ⟨0xa66f, 0xa672⟩, ⟨0xa674, 0xa67d⟩, ⟨0xa69e, 0xa69f⟩, ⟨0xa6f0, 0xa6f1⟩, ⟨0xa8e0, 0xa8f1⟩,
    ⟨0xfe20, 0xfe2f⟩, ⟨0x101fd, 0x101fd⟩, ⟨0x10376, 0x1037a⟩, ⟨0x10eab, 0x10eac⟩,
    ⟨0x10f46, 0x10f50⟩, ⟨0x10f82, 0x10f85⟩, ⟨0x11300, 0x11301⟩, ⟨0x1133b, 0x1133c⟩,
    ⟨0x11366, 0x1136c⟩, ⟨0x11370, 0x11374⟩, ⟨0x16af0, 0x16af4⟩, ⟨0x1cf00, 0x1cf2d⟩,
    ⟨0x1cf30, 0x1cf46⟩, ⟨0x1d165, 0x1d169⟩, ⟨0x1d16d, 0x1d172⟩, ⟨0x1d17b, 0x1d182⟩,
    ⟨0x1d185, 0x1d18b⟩, ⟨0x1d1aa, 0x1d1ad⟩, ⟨0x1d242, 0x1d244⟩, ⟨0x1e000, 0x1e006⟩,
    ⟨0x1e008, 0x1e018⟩, ⟨0x1e01b, 0x1e021⟩, ⟨0x1e023, 0x1e024⟩, ⟨0x1e026, 0x1e02a⟩,
    ⟨0x1e08f, 0x1e08f⟩, ⟨0x1e8d0, 0x1e8d6⟩ ]

/-- Ranges of characters that take up two columns. -/
def wideRanges : List CodeRange :=
  [ ⟨0x1100, 0x115f⟩, ⟨0x231a, 0x231b⟩, ⟨0x2329, 0x232a⟩, ⟨0x23e9, 0x23ec⟩, ⟨0x23f0, 0x23f0⟩,
    ⟨0x23f3, 0x23f3⟩, ⟨0x25fd, 0x25fe⟩, ⟨0x2614, 0x2615⟩, ⟨0x2648, 0x2653⟩, ⟨0x267f, 0x267f⟩,
    ⟨0x2693, 0x2693⟩, ⟨0x26a1, 0x26a1⟩, ⟨0x26aa, 0x26ab⟩, ⟨0x26bd, 0x26be⟩, ⟨0x26c4, 0x26c5⟩,
    ⟨0x26ce, 0x26ce⟩, ⟨0x26d4, 0x26d4⟩, ⟨0x26ea, 0x26ea⟩, ⟨0x26f2, 0x26f3⟩, ⟨0x26f5, 0x26f5⟩,
    ⟨0x26fa, 0x26fa⟩, ⟨0x26fd, 0x26fd⟩, ⟨0x2705, 0x2705⟩, ⟨0x270a, 0x270b⟩, ⟨0x2728, 0x2728⟩,
    ⟨0x274c, 0x274c⟩, ⟨0x274e, 0x274e⟩, ⟨0x2753, 0x2755⟩, ⟨0x2757, 0x2757⟩, ⟨0x2795, 0x2797⟩,
    ⟨0x27b0, 0x27b0⟩, ⟨0x27bf, 0x27bf⟩, ⟨0x2b1b, 0x2b1c⟩, ⟨0x2b50, 0x2b50⟩, ⟨0x2b55, 0x2b55⟩,
    ⟨0x2e80, 0x303e⟩, ⟨0x3041, 0x3247⟩, ⟨0x3250, 0x4dbf⟩, ⟨0x4e00, 0xa4c6⟩, ⟨0xa960, 0xa97c⟩,
    ⟨0xac00, 0xd7a3⟩, ⟨0xf900, 0xfad9⟩, ⟨0xfe10, 0xfe19⟩, ⟨0xfe30, 0xfe6b⟩, ⟨0xff01, 0xff60⟩,
    ⟨0xffe0, 0xffe6⟩, ⟨0x16fe0, 0x1b2fb⟩, ⟨0x1f004, 0x1f004⟩, ⟨0x1f0cf, 0x1f0cf⟩,
    ⟨0x1f18e, 0x1f18e⟩, ⟨0x1f191, 0x1f19a⟩, ⟨0x1f200, 0x1f320⟩, ⟨0x1f32d, 0x1f335⟩,
    ⟨0x1f337, 0x1f37c⟩, ⟨0x1f37e, 0x1f393⟩, ⟨0x1f3a0, 0x1f3ca⟩, ⟨0x1f3cf, 0x1f3d3⟩,
    ⟨0x1f3e0, 0x1f3f0⟩, ⟨0x1f3f4, 0x1f3f4⟩, ⟨0x1f3f8, 0x1f43e⟩, ⟨0x1f440, 0x1f440⟩,
    ⟨0x1f442, 0x1f4fc⟩, ⟨0x1f4ff, 0x1f53d⟩, ⟨0x1f54b, 0x1f54e⟩, ⟨0x1f550, 0x1f567⟩,
    ⟨0x1f57a, 0x1f57a⟩, ⟨0x1f595, 0x1f596⟩, ⟨0x1f5a4, 0x1f5a4⟩, ⟨0x1f5fb, 0x1f64f⟩,
    ⟨0x1f680, 0x1f6c5⟩, ⟨0x1f6cc, 0x1f6cc⟩, ⟨0x1f6d0, 0x1f6d2⟩, ⟨0x1f6d5, 0x1f6df⟩,
    ⟨0x1f6eb, 0x1f6ec⟩, ⟨0x1f6f4, 0x1f6fc⟩, ⟨0x1f7e0, 0x1f7f0⟩, ⟨0x1f90c, 0x1f93a⟩,
    ⟨0x1f93c, 0x1f945⟩, ⟨0x1f947, 0x1f9ff⟩, ⟨0x1fa70, 0x1faf6⟩, ⟨0x20000, 0x2fffd⟩,
    ⟨0x30000, 0x3fffd⟩ ]

/-- The columns that a character takes up. -/
def letterWidth
    (letter : Char) :
    Nat :=
  let lies := fun (ranges : List CodeRange) =>
    ranges.any (CodeRange.contains · letter.toNat)
  if lies invisibleRanges || lies combiningRanges then
    0
  else if lies wideRanges then
    2
  else
    1

/-- What has been read of a sequence that sets colours. -/
inductive ColourState where
  /-- Right after the escape character. -/
  | escape
  /-- Right after the bracket. -/
  | bracket
  /-- Behind some digits of a number. -/
  | digits (count : Nat)
  /-- Behind a semicolon, which a number has to follow. -/
  | separator
  deriving Repr, DecidableEq

/--
The letters behind a sequence that sets colours or erases a line, if there is
one. Its numbers have at most three digits.
-/
def afterColour? :
    ColourState →
    List Char →
    Option (List Char)
  | _, [] => none
  | .escape, letter :: rest =>
      if letter = '[' then afterColour? .bracket rest else none
  | .bracket, letter :: rest =>
      if letter.isDigit then
        afterColour? (.digits 1) rest
      else if letter = 'm' || letter = '|' || letter = 'K' then
        some rest
      else
        none
  | .digits count, letter :: rest =>
      if letter.isDigit then
        if count < 3 then afterColour? (.digits (count + 1)) rest else none
      else if letter = ';' then
        afterColour? .separator rest
      else if letter = 'm' || letter = '|' || letter = 'K' then
        some rest
      else
        none
  | .separator, letter :: rest =>
      if letter.isDigit then afterColour? (.digits 1) rest else none

/-- Letters without the sequences that set colours. -/
def withoutColours :
    (fuel : Nat) →
    List Char →
    List Char
  | 0, letters => letters
  | _ + 1, [] => []
  | fuel + 1, letter :: rest =>
      let behind :=
        if letter.toNat = 0x1b then afterColour? .escape rest else none
      match behind with
      | some behind => withoutColours fuel behind
      | none => letter :: withoutColours fuel rest

/-- The columns that a text takes up. -/
def displayWidth
    (text : String) :
    Nat :=
  let letters := text.toList
  (withoutColours (letters.length + 1) letters).foldl
    (fun width letter => width + letterWidth letter) 0

end StructuralTyping.Text
