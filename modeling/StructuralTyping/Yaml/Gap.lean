import StructuralTyping.Yaml.Cursor

namespace StructuralTyping.Yaml

/-!
# Gaps

The blanks between two letters of a scalar, and what they contribute to it.
-/

/-- Blanks between two letters of a scalar, the latest first. -/
structure Gap where
  /-- The spaces and tabs before the first line end. -/
  spaces : List Char := []
  breaks : List Char := []
  /-- Whether the gap began with a line end that does not count. -/
  escaped : Bool := false
  deriving Repr, DecidableEq

namespace Gap

/-- Whether there is no blank. -/
def isEmpty
    (gap : Gap) :
    Bool :=
  gap.spaces.isEmpty && gap.breaks.isEmpty && !gap.escaped

/-- Whether the letters around the gap stand on different lines. -/
def spansLines
    (gap : Gap) :
    Bool :=
  gap.escaped || !gap.breaks.isEmpty

/-- Add a space or a tab, which counts only before the first line end. -/
def addSpace
    (gap : Gap)
    (letter : Char) :
    Gap :=
  if gap.spansLines then
    gap
  else
    { gap with spaces := letter :: gap.spaces }

/-- Add a line end; the spaces before it do not count. -/
def addBreak
    (gap : Gap)
    (letter : Char) :
    Gap :=
  { gap with spaces := [], breaks := letter :: gap.breaks }

/--
What a gap contributes to the scalar. A single line end counts as a space, and
of several the first one is dropped.
-/
def folded
    (gap : Gap) :
    List Char :=
  match gap.breaks.reverse with
  | [] => gap.spaces.reverse
  | first :: rest =>
      if gap.escaped || first ≠ '\n' then
        first :: rest
      else if rest.isEmpty then
        [' ']
      else
        rest

end Gap

namespace Scan

/-- Take the blanks here; a tab is refused where the condition says so. -/
def takeGap
    (refusesTab : Gap → Mark → Bool)
    (gap : Gap) :
    Scan Gap := do
  need 1
  repeating
    (fun gap => do
      match ← letter? 0 with
      | none => return .inr gap
      | some letter =>
          if isSpace letter then
            require (!(letter = '\t' && refusesTab gap (← mark)))
            skip
            need 1
            return .inl (gap.addSpace letter)
          else if isBreak letter then
            need 2
            skipLine
            need 1
            return .inl (gap.addBreak (breakValue letter))
          else
            return .inr gap)
    gap

end Scan

end StructuralTyping.Yaml
