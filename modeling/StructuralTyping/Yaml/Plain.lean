import StructuralTyping.Yaml.Gap

namespace StructuralTyping.Yaml

/-!
# Reading plain scalars

A plain scalar has no marks of its own. It ends before a comment, a colon that
a blank follows, a letter with a meaning inside brackets, or a line that is not
indented enough.
-/

/-- Where a plain scalar is read. -/
structure PlainContext where
  /-- Whether brackets or braces are open. -/
  flow : Bool
  /-- How far the further lines have to be indented. -/
  indent : Nat
  deriving Repr, DecidableEq

/-- A plain scalar that was read. -/
structure PlainScalar where
  letters : List Char
  /-- Whether a line ended after the scalar. -/
  endedLine : Bool
  deriving Repr, DecidableEq

/-- A letter that cannot stand in a plain scalar between brackets. -/
def isFlowMark
    (letter : Char) :
    Bool :=
  letter = ',' || letter = '?' || letter = '[' || letter = ']' ||
    letter = '\x7b' || letter = '\x7d'

/-- Whether a letter that is not blank ends a plain scalar. -/
def PlainContext.endsAt
    (context : PlainContext)
    (cursor : Cursor)
    (letter : Char) :
    Bool :=
  (letter = ':' && cursor.atGap 1) || (context.flow && isFlowMark letter)

/-- Take letters up to a blank or the end of a plain scalar. -/
def scanPlainWord
    (context : PlainContext)
    (written : List Char)
    (gap : Gap) :
    Scan (List Char × Gap) :=
  Scan.repeating
    (fun (written, gap) => do
      let cursor ← get
      match cursor.letter? 0 with
      | none => return .inr (written, gap)
      | some letter =>
          if cursor.atGap 0 || context.endsAt cursor letter then
            return .inr (written, gap)
          else do
            Scan.skip
            Scan.need 2
            return .inl (letter :: (gap.folded.reverse ++ written), {}))
    (written, gap)

/--
Read a plain scalar with the blanks after it. A tab may not indent a further
line.
-/
def scanPlain
    (context : PlainContext) :
    Scan PlainScalar :=
  Scan.repeating
    (fun (written, gap) => do
      let ended (written : List Char) (gap : Gap) : PlainScalar :=
        { letters := written.reverse, endedLine := gap.spansLines }
      Scan.need 4
      let cursor ← get
      if cursor.atDocumentMark || cursor.at? 0 (· = '#') then
        return .inr (ended written gap)
      else do
        let (written, gap) ← scanPlainWord context written gap
        if ← Scan.follows fun letter => isSpace letter || isBreak letter then
          let gap ←
            Scan.takeGap
              (fun gap mark => gap.spansLines && mark.column < context.indent)
              gap
          if !context.flow && (← Scan.mark).column < context.indent then
            return .inr (ended written gap)
          else
            return .inl (written, gap)
        else
          return .inr (ended written gap))
    (([], {}) : List Char × Gap)

end StructuralTyping.Yaml
