import StructuralTyping.Yaml.Comment

namespace StructuralTyping.Yaml

/-!
# Reading block scalars

A block scalar is written on lines of its own below its head. The head says
whether line ends are kept or folded, how far the lines are indented, and what
becomes of the line ends after the last line.
-/

/-- What becomes of the line ends after the last line of a block scalar. -/
inductive Chomping where
  /-- The first of them is kept. -/
  | clip
  | strip
  | keep
  deriving Repr, DecidableEq

/-- The head of a block scalar. -/
structure BlockHead where
  chomping : Chomping := .clip
  /-- How far the lines are indented beyond the block around them. -/
  increment : Option Nat := none
  deriving Repr, DecidableEq

/-- Read how line ends at the end are treated, if that is said here. -/
def scanChomping : Scan (Option Chomping) := do
  Scan.need 1
  match ← Scan.letter? 0 with
  | some '+' => do
      Scan.skip
      return some .keep
  | some '-' => do
      Scan.skip
      return some .strip
  | _ => return none

/-- Read how far lines are indented, if that is said here. -/
def scanIncrement : Scan (Option Nat) := do
  Scan.need 1
  match (← Scan.letter? 0).filter Char.isDigit with
  | some letter => do
      Scan.require (letter ≠ '0')
      Scan.skip
      return some (letter.toNat - '0'.toNat)
  | none => return none

/-- Read the head of a block scalar, in which the parts have any order. -/
def scanBlockHead : Scan BlockHead := do
  Scan.skip
  match ← scanChomping with
  | some chomping => return { chomping, increment := ← scanIncrement }
  | none =>
      match ← scanIncrement with
      | some increment =>
          return { chomping := (← scanChomping).getD .clip, increment }
      | none => return {}

/-- Leave the rest of a head line behind, which may hold a comment. -/
def skipHeadLine : Scan Unit := do
  Scan.skipWhile isSpace
  if ← Scan.follows (· = '#') then
    Scan.skipLineComment
    Scan.skipWhile fun letter => !isBreak letter
  Scan.require ((← get).atLineEnd 0)
  if ← Scan.follows isBreak then
    Scan.need 2
    Scan.skipLine

/-- Indentation and empty lines in front of a line of a block scalar. -/
structure BlockMargin where
  /-- The empty lines, the latest first. -/
  breaks : List Char := []
  /-- The widest indentation. -/
  widest : Nat := 0
  deriving Repr, DecidableEq

/--
Leave indentation and empty lines behind. While the indentation is not known,
all spaces belong to it; a tab may not stand among them.
-/
def scanMargin
    (indent : Option Nat) :
    Scan BlockMargin :=
  Scan.repeating
    (fun margin => do
      Scan.need 1
      let isInside (mark : Mark) : Bool := indent.all (mark.column < ·)
      Scan.repeating
        (fun _ => do
          if isInside (← Scan.mark) && (← Scan.follows (· = ' ')) then
            Scan.skip
            Scan.need 1
            return .inl ()
          else
            return .inr ())
        ()
      let mark ← Scan.mark
      let margin := { margin with widest := max margin.widest mark.column }
      Scan.require (!(isInside mark && (← Scan.follows (· = '\t'))))
      if ← Scan.follows isBreak then
        Scan.need 2
        let ending ← Scan.nextBreak
        return .inl { margin with breaks := ending.toList ++ margin.breaks }
      else
        return .inr margin)
    ({} : BlockMargin)

/-- The state of reading the lines of a block scalar. -/
structure BlockLines where
  /-- The letters so far, the latest first. -/
  written : List Char := []
  /-- The line end after the latest line. -/
  ending : Option Char := none
  /-- The empty lines after it, the latest first. -/
  breaks : List Char
  /-- Whether the latest line began with a blank. -/
  indented : Bool := false
  deriving Repr, DecidableEq

/-- What stands between two lines; lines that begin with blanks stay apart. -/
def BlockLines.joint
    (lines : BlockLines)
    (literal : Bool)
    (indented : Bool) :
    List Char :=
  let ending :=
    if !literal && !lines.indented && !indented && lines.ending = some '\n' then
      if lines.breaks.isEmpty then [' '] else []
    else
      lines.ending.toList
  lines.breaks ++ ending

/-- Read the lines of a block scalar. -/
def scanBlockLines
    (literal : Bool)
    (indent : Nat)
    (breaks : List Char) :
    Scan BlockLines :=
  Scan.repeating
    (fun lines => do
      let cursor ← get
      if cursor.mark.column = indent && (cursor.letter? 0).isSome then
        let indented := cursor.at? 0 isSpace
        let joint := lines.joint literal indented
        let line ← Scan.takeWhile fun letter => !isBreak letter
        Scan.need 2
        let ending ← Scan.nextBreak
        let margin ← scanMargin (some indent)
        return .inl
          { written := line.reverse ++ joint ++ lines.written
            ending
            breaks := margin.breaks
            indented }
      else
        return .inr lines)
    { breaks : BlockLines }

/--
Read a block scalar inside a block of the given column. The indentation of its
lines is that of the first one, unless the head gives it.
-/
def scanBlock
    (literal : Bool)
    (around : Option Nat) :
    Scan (List Char) := do
  let head ← scanBlockHead
  skipHeadLine
  let given := head.increment.map (around.getD 0 + ·)
  let margin ← scanMargin given
  let least := around.elim 0 (· + 1)
  let indent := given.getD (max (max margin.widest least) 1)
  Scan.need 1
  let lines ← scanBlockLines literal indent margin.breaks
  let kept :=
    match head.chomping with
    | .clip => lines.ending.toList
    | .strip => []
    | .keep => lines.breaks ++ lines.ending.toList
  return (kept ++ lines.written).reverse

end StructuralTyping.Yaml
