import StructuralTyping.Yaml.Letter

namespace StructuralTyping.Yaml

/-!
# Moving over letters

A cursor is a place in the letters of a text together with what has been taken
in so far. Computations that move it fail when they ask for letters that cannot
be taken in, or when the letters are malformed.
-/

/-- A place in a text: lines count from one, columns from zero. -/
structure Mark where
  index : Nat := 0
  line : Nat := 1
  column : Nat := 0
  deriving Repr, DecidableEq

/-- The state of moving over letters. -/
structure Cursor where
  letters : Array Char
  /-- The ends of the portions that have not been taken in. -/
  portions : List Nat
  /-- Whether a portion that cannot be taken in follows those. -/
  broken : Bool
  /-- How many letters were taken in, with the ends of the text met so far. -/
  taken : Nat := 0
  /-- The first of the letters that are still at hand. -/
  oldest : Nat := 0
  mark : Mark := {}
  /-- How many lines have ended since the last letter that is not blank. -/
  newlines : Nat := 0
  deriving Repr, DecidableEq

namespace Cursor

/-- A cursor at the beginning of a text. -/
def ofSupply
    (supply : Supply) :
    Cursor :=
  { letters := supply.letters
    portions := supply.portions
    broken := supply.broken }

/-- The letter at a distance from the place; there is none at the end. -/
def letter?
    (cursor : Cursor)
    (distance : Nat) :
    Option Char :=
  cursor.letters[cursor.mark.index + distance]?

/-- Whether a letter at a distance is of a class. -/
def at?
    (cursor : Cursor)
    (distance : Nat)
    (accepts : Char → Bool) :
    Bool :=
  (cursor.letter? distance).any accepts

/-- Whether a blank, a line end or the end stands at a distance. -/
def atGap
    (cursor : Cursor)
    (distance : Nat) :
    Bool :=
  (cursor.letter? distance).all fun letter => isSpace letter || isBreak letter

/-- Whether a line end or the end stands at a distance. -/
def atLineEnd
    (cursor : Cursor)
    (distance : Nat) :
    Bool :=
  (cursor.letter? distance).all isBreak

/-- Whether a line begins here with three equal letters and a blank. -/
def atTriple
    (cursor : Cursor)
    (letter : Char) :
    Bool :=
  cursor.mark.column = 0 &&
    [0, 1, 2].all (fun distance => cursor.letter? distance = some letter) &&
    cursor.atGap 3

/-- Whether a mark between documents stands here. -/
def atDocumentMark
    (cursor : Cursor) :
    Bool :=
  cursor.atTriple '-' || cursor.atTriple '.'

/--
Take in portions until enough letters follow the place. Letters before it are
given up then. At the end of the text its end is taken in once more.
-/
def supplied?
    (cursor : Cursor)
    (count : Nat) :
    Option Cursor :=
  let wanted := cursor.mark.index + count
  if wanted ≤ cursor.taken then
    some cursor
  else
    let cursor := { cursor with oldest := cursor.mark.index }
    match cursor.portions.dropWhile (· < wanted) with
    | taken :: portions => some { cursor with taken, portions }
    | [] =>
        if cursor.broken then
          none
        else
          some
            { cursor with
              taken := max cursor.taken cursor.letters.size + 1
              portions := [] }

/-- The cursor behind a letter of the current line. -/
def advanced
    (cursor : Cursor) :
    Cursor :=
  let { index, line, column } := cursor.mark
  { cursor with
    mark := { index := index + 1, line, column := column + 1 }
    newlines := if cursor.at? 0 isSpace then cursor.newlines else 0 }

/-- Whether a carriage return and a line feed, which end one line, follow. -/
def atPairedBreak
    (cursor : Cursor) :
    Bool :=
  cursor.letter? 0 = some '\r' && cursor.letter? 1 = some '\n'

/-- The cursor behind a line end, if one stands here. -/
def nextLine
    (cursor : Cursor) :
    Cursor :=
  if cursor.at? 0 isBreak then
    let length := if cursor.atPairedBreak then 2 else 1
    let { index, line, .. } := cursor.mark
    { cursor with
      mark := { index := index + length, line := line + 1, column := 0 }
      newlines := cursor.newlines + 1 }
  else
    cursor

end Cursor

/-- A computation that moves over letters. -/
abbrev Scan :=
  StateT Cursor Option

namespace Scan

/-- Ask for letters behind the place. -/
def need
    (count : Nat) :
    Scan Unit := do
  match (← get).supplied? count with
  | some cursor => set cursor
  | none => failure

/-- The place. -/
def mark : Scan Mark := do
  return (← get).mark

/-- The letter at a distance. -/
def letter?
    (distance : Nat) :
    Scan (Option Char) := do
  return (← get).letter? distance

/-- Whether the letter here is of a class. -/
def follows
    (accepts : Char → Bool) :
    Scan Bool := do
  return (← get).at? 0 accepts

/-- Leave a letter behind. -/
def skip : Scan Unit :=
  modify Cursor.advanced

/-- Leave a line end behind. -/
def skipLine : Scan Unit :=
  modify Cursor.nextLine

/-- Take the letter here. -/
def next : Scan Char := do
  match ← letter? 0 with
  | some letter => do
      skip
      return letter
  | none => failure

/-- Take what the line end here stands for; at the end there is none. -/
def nextBreak : Scan (Option Char) := do
  let letter ← letter? 0
  skipLine
  return (letter.filter isBreak).map breakValue

/-- Refuse the letters unless a condition holds. -/
def require
    (condition : Bool) :
    Scan Unit :=
  if condition then return () else failure

/-- Repeat a step until it gives a result, at most `fuel` times. -/
def iterate
    (step : σ → Scan (σ ⊕ α)) :
    (fuel : Nat) →
    σ →
    Scan α
  | 0, _ => failure
  | fuel + 1, state => do
      match ← step state with
      | .inl state => iterate step fuel state
      | .inr result => return result

/--
Repeat a step until it gives a result. Every step but the last one moves over a
letter, so there are fewer steps than letters and one more.
-/
def repeating
    (step : σ → Scan (σ ⊕ α))
    (state : σ) :
    Scan α := do
  iterate step ((← get).letters.size + 3) state

/-- Leave letters of a class behind. -/
def skipWhile
    (accepts : Char → Bool) :
    Scan Unit := do
  need 1
  repeating
    (fun _ => do
      if ← follows accepts then
        skip
        need 1
        return .inl ()
      else
        return .inr ())
    ()

/-- Take letters of a class. -/
def takeWhile
    (accepts : Char → Bool) :
    Scan (List Char) := do
  need 1
  repeating
    (fun written => do
      if ← follows accepts then
        let letter ← next
        need 1
        return .inl (letter :: written)
      else
        return .inr written.reverse)
    []

end Scan

end StructuralTyping.Yaml
