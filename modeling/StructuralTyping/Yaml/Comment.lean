import StructuralTyping.Yaml.Cursor

namespace StructuralTyping.Yaml

/-!
# Comments

Comments between tokens. Lines of comments that belong together form one
comment; where it stands decides on which line the block collections before it
end. A comment that stands less indented than the block, or that an empty line
divides from what follows, belongs to what comes before it.
-/

/-- Where comments are looked for. -/
structure CommentContext where
  /-- Whether brackets or braces are open. -/
  flow : Bool
  /-- The column of the innermost block collection. -/
  indent : Nat
  /-- Whether the token before is the colon of an entry. -/
  afterValue : Bool
  deriving Repr, DecidableEq

/-- A comment that was found. -/
structure Comment where
  /-- Where the search for it began. -/
  searched : Nat
  /-- Where it begins; here columns count from one. -/
  start : Mark
  stop : Nat
  deriving Repr, DecidableEq

/-- How far comments are looked for without moving on. -/
def commentReach : Nat :=
  512

namespace Scan

/-- Move to a place and to the end of its line. -/
def skipComment
    (place : Nat) :
    Scan Unit :=
  repeating
    (fun _ => do
      need 1
      let cursor ← get
      if cursor.atLineEnd 0 then
        if place ≤ cursor.mark.index then
          return .inr ()
        else
          need 2
          skipLine
          return .inl ()
      else
        skip
        return .inl ())
    ()

/-- Leave behind a comment on the line of the token before it. -/
def skipLineComment : Scan Unit := do
  if (← get).newlines = 0 then
    iterate
      (fun distance => do
        if distance < commentReach then
          need (distance + 1)
          let cursor ← get
          if cursor.at? distance isSpace then
            return .inl (distance + 1)
          else if cursor.letter? distance = some '#' then
            skipComment (cursor.mark.index + distance)
            return .inr ()
          else
            return .inr ()
        else
          return .inr ())
      (commentReach + 1) 0

end Scan

/-- The state of looking for comments. -/
structure CommentSearch where
  /-- How far from the place the search has come. -/
  distance : Nat := 0
  line : Nat
  column : Nat
  /-- Whether the search has stopped inside a line end of several bytes. -/
  divided : Bool := false
  /-- Whether the line before was empty. -/
  afterEmpty : Bool := false
  /-- Whether no line has been empty so far. -/
  unbroken : Bool
  /-- Where the comment that is being collected begins. -/
  begun : Option Mark := none
  /-- Where the search for that comment began. -/
  searched : Nat
  /-- The comments so far, the latest first. -/
  found : List Comment := []
  deriving Repr, DecidableEq

namespace CommentSearch

/-- Complete the comment that is being collected. -/
def complete
    (search : CommentSearch)
    (stop : Nat) :
    CommentSearch :=
  match search.begun with
  | none => search
  | some start =>
      let comment : Comment := { searched := search.searched, start, stop }
      { search with
        begun := none
        searched := stop
        found := comment :: search.found }

/-- Whether a comment belongs to what stands before it. -/
def belongsBefore
    (search : CommentSearch)
    (context : CommentContext)
    (footLine : Option Nat) :
    Bool :=
  search.unbroken &&
    search.begun.any fun start =>
      (footLine = some start.line && !context.afterValue) ||
        start.column ≤ context.indent

/-- Go on behind a letter. -/
def advance
    (search : CommentSearch) :
    CommentSearch :=
  { search with distance := search.distance + 1 }

end CommentSearch

/-- Where a comment has to begin to belong to the content before it. -/
def footLine?
    (cursor : Cursor)
    (searched : Mark) :
    Option Nat :=
  if searched.column = 0 then
    none
  else
    let line := cursor.mark.line - cursor.newlines + 1
    if cursor.newlines = 0 && 1 < cursor.mark.column then
      some (line + 1)
    else
      some line

/-- Take a line of comment, and search on from its end. -/
def takeCommentLine
    (search : CommentSearch) :
    Scan CommentSearch := do
  let cursor ← get
  let place := cursor.mark.index + search.distance
  let start : Mark :=
    { index := place, line := search.line, column := search.column }
  Scan.skipComment place
  let cursor ← get
  return { search with
    begun := some (search.begun.getD start)
    afterEmpty := false
    distance := 1
    column := 0
    line := cursor.mark.line
    divided := cursor.at? 0 isWideBreak }

/-- One step of a search for comments; it gives a result when it ends. -/
def commentStep
    (context : CommentContext)
    (footLine : Option Nat)
    (search : CommentSearch) :
    Scan (CommentSearch ⊕ CommentSearch) := do
  if commentReach ≤ search.distance then
    return .inr search
  else
    Scan.need (search.distance + 1)
    let cursor ← get
    let letter :=
      if search.divided then
        some (Char.ofNat 0)
      else
        cursor.letter? search.distance
    let search := { search with column := search.column + 1 }
    let stop := cursor.mark.index + search.distance
    let closes :=
      context.flow &&
        letter.any fun letter => letter = ']' || letter = '\x7d'
    if letter.any isSpace then
      return .inl search.advance
    else if closes || letter.all isBreak then
      let search :=
        if closes ||
            (!search.afterEmpty && search.belongsBefore context footLine) then
          search.complete stop
        else
          search
      if letter.any isBreak then
        return .inl
          { search.advance with
            unbroken := false
            afterEmpty := true
            column := 0
            line := search.line + 1
            divided := letter.any isWideBreak }
      else
        return .inr search
    else
      let apart :=
        search.begun.any fun start =>
          search.column ≤ context.indent && search.column ≠ start.column
      let search := if apart then search.complete stop else search
      if letter = some '#' then
        return .inl (← takeCommentLine search)
      else
        return .inr search

/-- Leave comments behind and give those found, the latest first. -/
def scanComments
    (context : CommentContext)
    (searched : Mark) :
    Scan (List Comment) := do
  let cursor ← get
  let search : CommentSearch :=
    { line := cursor.mark.line
      column := cursor.mark.column
      unbroken := cursor.newlines ≤ 1
      searched := searched.index }
  let search ←
    Scan.iterate (commentStep context (footLine? cursor searched))
      (cursor.letters.size + commentReach + 3) search
  let cursor ← get
  return (search.complete (cursor.mark.index + search.distance - 1)).found

/-- What was found on the way to a token. -/
structure Approach where
  keyAllowed : Bool
  /-- The comments on the way, the latest first. -/
  comments : List Comment := []
  deriving Repr, DecidableEq

/--
Leave blanks, line ends and comments behind. A new line allows a key outside
brackets, and where a key is allowed tabs are not blanks. When the oldest letter
at hand is an encoding mark, the first letter of a line is left out.
-/
def scanApproach
    (context : CommentContext)
    (keyAllowed : Bool) :
    Scan Approach := do
  let searched ← Scan.mark
  Scan.repeating
    (fun approach => do
      Scan.need 1
      let cursor ← get
      if cursor.mark.column = 0 &&
          cursor.letters[cursor.oldest]? = some byteOrderMark then
        Scan.skip
      Scan.skipWhile fun letter =>
        letter = ' ' ||
          (letter = '\t' && (context.flow || !approach.keyAllowed))
      let comments ←
        if ← Scan.follows (· = '#') then
          scanComments context searched
        else
          pure []
      let approach :=
        { approach with comments := comments ++ approach.comments }
      if ← Scan.follows isBreak then
        Scan.need 2
        Scan.skipLine
        return .inl
          { approach with keyAllowed := approach.keyAllowed || !context.flow }
      else
        return .inr approach)
    { keyAllowed : Approach }

end StructuralTyping.Yaml
