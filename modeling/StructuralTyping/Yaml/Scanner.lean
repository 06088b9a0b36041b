import StructuralTyping.Yaml.BlockScalar
import StructuralTyping.Yaml.Plain
import StructuralTyping.Yaml.Quoted
import StructuralTyping.Yaml.Token

namespace StructuralTyping.Yaml

/-!
# Reading tokens

Tokens are read as far as they are asked for. That a scalar or a bracketed
collection is a key is known only at the colon behind it; until then its place
among the tokens is kept as a candidate, and the key token is put there
afterwards. So no token is handed out as long as it may turn out to begin a key.
-/

/-- A place among the tokens at which a key may begin. -/
structure KeyCandidate where
  /-- Whether a key may still begin there. -/
  live : Bool := false
  /-- Whether only a key can stand there. -/
  required : Bool := false
  /-- The number of the token that would be the key. -/
  number : Nat := 0
  mark : Mark := {}
  deriving Repr, DecidableEq, Inhabited

/-- The state of reading tokens. -/
structure Scanner where
  cursor : Cursor
  tokens : Array Token := #[]
  /-- How many tokens were handed out. -/
  used : Nat := 0
  /-- The columns of the open block collections, innermost first. -/
  indents : List Nat := []
  /-- A candidate outside the brackets and one inside every open bracket. -/
  candidates : Array KeyCandidate := #[{}]
  /-- The bracket levels of the candidates that tokens have to wait for. -/
  waiting : Array (Option Nat) := #[]
  keyAllowed : Bool := true
  deriving Repr, DecidableEq

namespace Scanner

/-- How many brackets and braces are open. -/
def level
    (scanner : Scanner) :
    Nat :=
  scanner.candidates.size - 1

/-- Whether brackets or braces are open. -/
def inFlow
    (scanner : Scanner) :
    Bool :=
  0 < scanner.level

/-- The column of the innermost block collection, if there is one. -/
def indent?
    (scanner : Scanner) :
    Option Nat :=
  scanner.indents.head?

/-- The candidate at a level. -/
def candidateAt
    (scanner : Scanner)
    (level : Nat) :
    KeyCandidate :=
  scanner.candidates.getD level {}

/-- Replace the candidate at a level. -/
def setCandidate
    (scanner : Scanner)
    (level : Nat)
    (candidate : KeyCandidate) :
    Scanner :=
  { scanner with
    candidates := scanner.candidates.setIfInBounds level candidate }

/-- Add a token at the end. -/
def push
    (scanner : Scanner)
    (kind : TokenKind)
    (line : Nat) :
    Scanner :=
  { scanner with tokens := scanner.tokens.push { kind, line } }

/-- Put a token at a number, or at the end if that was handed out already. -/
def insert
    (scanner : Scanner)
    (number : Nat)
    (kind : TokenKind)
    (line : Nat) :
    Scanner :=
  if number < scanner.used then
    scanner.push kind line
  else
    { scanner with
      tokens := scanner.tokens.insertIdxIfInBounds number { kind, line } }

/-- Let the token of a number no longer wait. -/
def release
    (scanner : Scanner)
    (number : Nat) :
    Scanner :=
  { scanner with waiting := scanner.waiting.setIfInBounds number none }

/-- Let the token of a number wait for the candidate at a level. -/
def await
    (scanner : Scanner)
    (number level : Nat) :
    Scanner :=
  let padding := Array.replicate (number + 1 - scanner.waiting.size) none
  { scanner with
    waiting :=
      (scanner.waiting ++ padding).setIfInBounds number (some level) }

end Scanner

/-- A computation that reads tokens. -/
abbrev Fetch :=
  StateT Scanner Option

namespace Fetch

/-- Move over letters. -/
def onLetters
    (scan : Scan α) :
    Fetch α := do
  let scanner ← get
  match scan.run scanner.cursor with
  | some (result, cursor) => do
      set { scanner with cursor }
      return result
  | none => failure

/-- The place. -/
def mark : Fetch Mark := do
  return (← get).cursor.mark

/-- Add a token that begins at a place. -/
def push
    (kind : TokenKind)
    (mark : Mark) :
    Fetch Unit :=
  modify fun scanner => scanner.push kind mark.line

/-- Add a token that takes up some letters. -/
def take
    (count : Nat)
    (kind : TokenKind) :
    Fetch Unit := do
  push kind (← mark)
  onLetters ((List.range count).forM fun _ => Scan.skip)

/-- Say whether a key may follow. -/
def allowKey
    (keyAllowed : Bool) :
    Fetch Unit :=
  modify fun scanner => { scanner with keyAllowed }

/-- How deep brackets or blocks may be nested. -/
def deepest : Nat :=
  10000

/--
Begin a block collection if the column is deeper than the open ones, with a
token at a number or at the end.
-/
def beginBlock
    (kind : TokenKind)
    (number : Option Nat)
    (mark : Mark) :
    Fetch Unit := do
  let scanner ← get
  if scanner.inFlow || scanner.indent?.any (mark.column ≤ ·) then
    return ()
  else if scanner.indents.length < deepest then
    let scanner :=
      { scanner with indents := mark.column :: scanner.indents }
    set (scanner.insert (number.getD scanner.tokens.size) kind mark.line)
  else
    failure

/-- Where a block collection ends, given the comments behind it. -/
def blockEnd
    (indent : Nat)
    (place : Mark)
    (stop : Nat) :
    List Comment →
    Mark
  | [] => place
  | comment :: rest =>
      if comment.stop < stop then
        place
      else
        let place :=
          if comment.start.column = indent + 1 then comment.start else place
        blockEnd indent place comment.searched rest

/-- The tokens that end block collections, the innermost first. -/
def blockEnds
    (comments : List Comment)
    (place : Mark) :
    (indents : List Nat) →
    List Token
  | [] => []
  | indent :: rest =>
      let place := blockEnd indent place place.index comments
      { kind := .endBlock, line := place.line } ::
        blockEnds comments place rest

/-- End the block collections that are deeper than a column. -/
def endBlocks
    (isDeeper : Nat → Bool)
    (place : Mark)
    (comments : List Comment) :
    Fetch Unit :=
  modify fun scanner =>
    if scanner.inFlow then
      scanner
    else
      let place := { place with index := place.index - 1 }
      let ends :=
        blockEnds comments place (scanner.indents.takeWhile isDeeper)
      { scanner with
        indents := scanner.indents.dropWhile isDeeper
        tokens := scanner.tokens ++ ends }

/-- Give up the candidate; a required one may not be given up. -/
def dropCandidate : Fetch Unit := do
  let scanner ← get
  let candidate := scanner.candidateAt scanner.level
  if candidate.live then
    if candidate.required then
      failure
    else
      let scanner :=
        scanner.setCandidate scanner.level { candidate with live := false }
      set (scanner.release candidate.number)

/-- Take note that a key may begin here. -/
def noteCandidate : Fetch Unit := do
  if (← get).keyAllowed then
    let { cursor, .. } ← get
    dropCandidate
    let scanner ← get
    let number := scanner.tokens.size
    let candidate : KeyCandidate :=
      { live := true
        required :=
          !scanner.inFlow && scanner.indent? = some cursor.mark.column
        number
        mark := cursor.mark }
    set ((scanner.setCandidate scanner.level candidate).await number
      scanner.level)

/-- How many letters a key may have. -/
def longestKey : Nat :=
  1024

/--
Whether the candidate at a level can still be a key: it has to be on the same
line and not too far back. A required candidate may not expire.
-/
def isLive
    (level : Nat) :
    Fetch Bool := do
  let scanner ← get
  let candidate := scanner.candidateAt level
  let mark := scanner.cursor.mark
  if candidate.live then
    if candidate.mark.line < mark.line ||
        candidate.mark.index + longestKey < mark.index then
      if candidate.required then
        failure
      else
        set (scanner.setCandidate level { candidate with live := false })
        return false
    else
      return true
  else
    return false

/-- Read a colon that follows a key. -/
def takeValue : Fetch Unit := do
  let level := (← get).level
  if ← isLive level then
    let scanner ← get
    let candidate := scanner.candidateAt level
    set (scanner.insert candidate.number .key candidate.mark.line)
    beginBlock .beginMapping (some candidate.number) candidate.mark
    modify fun scanner =>
      (scanner.setCandidate level { candidate with live := false }).release
        candidate.number
    allowKey false
  else
    let scanner ← get
    if scanner.inFlow then
      allowKey false
    else if scanner.keyAllowed then
      beginBlock .beginMapping none scanner.cursor.mark
      allowKey true
    else
      failure
  take 1 .value

/-- Read a question mark, which announces a key. -/
def takeKey : Fetch Unit := do
  let scanner ← get
  if !scanner.inFlow then
    if scanner.keyAllowed then
      beginBlock .beginMapping none scanner.cursor.mark
    else
      failure
  dropCandidate
  allowKey (!scanner.inFlow)
  take 1 .key

/-- Read the dash of a block sequence. -/
def takeItem : Fetch Unit := do
  let scanner ← get
  if !scanner.inFlow then
    if scanner.keyAllowed then
      beginBlock .beginSequence none scanner.cursor.mark
    else
      failure
  dropCandidate
  allowKey true
  take 1 .item

/-- Read an opening bracket or brace. -/
def takeOpening
    (kind : TokenKind) :
    Fetch Unit := do
  noteCandidate
  let scanner ← get
  if scanner.level < deepest then
    let candidate : KeyCandidate :=
      { number := scanner.tokens.size, mark := scanner.cursor.mark }
    set { scanner with candidates := scanner.candidates.push candidate }
    allowKey true
    take 1 kind
  else
    failure

/-- Read a closing bracket or brace. -/
def takeClosing
    (kind : TokenKind) :
    Fetch Unit := do
  dropCandidate
  modify fun scanner =>
    if scanner.inFlow then
      let candidate := scanner.candidateAt scanner.level
      { scanner.release candidate.number with
        candidates := scanner.candidates.pop }
    else
      scanner
  allowKey false
  take 1 kind

/-- Read a comma between entries. -/
def takeSeparator : Fetch Unit := do
  dropCandidate
  allowKey true
  take 1 .separator

/-- Whether the name of an anchor may end here. -/
def endsName
    (cursor : Cursor) :
    Bool :=
  cursor.atGap 0 ||
    cursor.at? 0
      ['?', ':', ',', ']', '\x7d', '%', '@', '\x60'].contains

/-- Read the name of an anchor from behind its mark. -/
def scanName : Scan String := do
  Scan.skip
  let name ← Scan.takeWhile isNameLetter
  Scan.require (!name.isEmpty && endsName (← get))
  return String.ofList name

/-- Read a token that may begin a key. -/
def takeContent
    (scan : Scan TokenKind) :
    Fetch Unit := do
  noteCandidate
  allowKey false
  let mark ← mark
  push (← onLetters scan) mark

/-- Read a block scalar. -/
def takeBlock
    (literal : Bool) :
    Fetch Unit := do
  dropCandidate
  allowKey true
  let mark ← mark
  let letters ← onLetters (scanBlock literal (← get).indent?)
  push (.scalar false (String.ofList letters)) mark

/-- Read a plain scalar; when a line ended after it a key may follow. -/
def takePlain : Fetch Unit := do
  noteCandidate
  allowKey false
  let scanner ← get
  let context : PlainContext :=
    { flow := scanner.inFlow
      indent := ((scanner.indent?).map (· + 1)).getD 0 }
  let scalar ← onLetters (scanPlain context)
  push (.scalar true (String.ofList scalar.letters)) scanner.cursor.mark
  if scalar.endedLine then
    allowKey true

/-- End everything that is open before a document mark or the end. -/
def closeDocument
    (comments : List Comment) :
    Fetch Unit := do
  endBlocks (fun _ => true) (← mark) comments
  dropCandidate
  allowKey false

/-- Read the end of the text, which begins a new line. -/
def takeFinish
    (comments : List Comment) :
    Fetch Unit := do
  modify fun scanner =>
    let mark := scanner.cursor.mark
    if mark.column = 0 then
      scanner
    else
      { scanner with
        cursor :=
          { scanner.cursor with
            mark := { mark with line := mark.line + 1, column := 0 } } }
  closeDocument comments
  push .finish (← mark)

/-- A letter that no plain scalar begins with. -/
def isIndicator
    (letter : Char) :
    Bool :=
  ['-', '?', ':', ',', '[', ']', '\x7b', '\x7d', '#', '&', '*', '!', '|',
    '>', singleQuote, '"', '%', '@', '\x60'].contains letter

/-- Whether a plain scalar begins with a letter. -/
def beginsPlain
    (scanner : Scanner)
    (letter : Char) :
    Bool :=
  let cursor := scanner.cursor
  !(isIndicator letter || isSpace letter || isBreak letter) ||
    (letter = '-' && !cursor.at? 1 isSpace) ||
    (!scanner.inFlow && (letter = '?' || letter = ':') && !cursor.atGap 1)

/-- Read the token that begins with a letter. -/
def takeToken
    (letter : Char) :
    Fetch Unit := do
  let scanner ← get
  let apart := scanner.cursor.atGap 1
  if letter = '[' then
    takeOpening .openSequence
  else if letter = '\x7b' then
    takeOpening .openMapping
  else if letter = ']' then
    takeClosing .closeSequence
  else if letter = '\x7d' then
    takeClosing .closeMapping
  else if letter = ',' then
    takeSeparator
  else if letter = '-' && apart then
    takeItem
  else if letter = '?' && (scanner.inFlow || apart) then
    takeKey
  else if letter = ':' && (scanner.inFlow || apart) then
    takeValue
  else if letter = '*' then
    takeContent (return .aliasOf (← scanName))
  else if letter = '&' then
    takeContent (return .anchor (← scanName))
  else if letter = '!' then
    takeContent (return .tag (← scanTag))
  else if letter = '|' && !scanner.inFlow then
    takeBlock true
  else if letter = '>' && !scanner.inFlow then
    takeBlock false
  else if letter = singleQuote then
    takeContent (return .scalar false (String.ofList (← scanSingle)))
  else if letter = '"' then
    takeContent (return .scalar false (String.ofList (← scanDouble)))
  else if beginsPlain scanner letter then
    takePlain
  else
    failure

/-- Move to the next token; the comments on the way, the latest first. -/
def approach : Fetch (List Comment) := do
  let scanner ← get
  let context : CommentContext :=
    { flow := scanner.inFlow
      indent := scanner.indent?.getD 0
      afterValue := scanner.tokens.back?.any fun token => token.kind = .value }
  let approach ← onLetters (scanApproach context scanner.keyAllowed)
  allowKey approach.keyAllowed
  endBlocks ((← mark).column < ·) scanner.cursor.mark approach.comments
  return approach.comments

/-- Leave behind a comment on the line of the latest token, if it has one. -/
def skipTokenComment : Fetch Unit := do
  if (← get).tokens.back?.any fun token => token.kind = .item then
    return ()
  else
    onLetters Scan.skipLineComment

/-- Read a token behind the beginning of the text. -/
def readToken : Fetch Unit := do
  let comments ← approach
  onLetters (Scan.need 4)
  let cursor := (← get).cursor
  match cursor.letter? 0 with
  | none => takeFinish comments
  | some letter =>
      if cursor.mark.column = 0 && letter = '%' then
        closeDocument comments
        push (.directive (← onLetters scanDirective)) cursor.mark
      else if cursor.atDocumentMark then
        closeDocument comments
        take 3 (if letter = '-' then .documentStart else .documentEnd)
      else
        takeToken letter
        skipTokenComment

/-- Read one more token. -/
def more : Fetch Unit := do
  onLetters (Scan.need 1)
  if (← get).tokens.isEmpty then
    push .start (← mark)
  else
    readToken

/-- How many tokens have to follow one that is handed out. -/
def lookahead : Nat :=
  2

/-- Whether the next token can be handed out. -/
def isReady : Fetch Bool := do
  let scanner ← get
  if scanner.used + lookahead < scanner.tokens.size then
    match scanner.waiting.getD scanner.used none with
    | none => return true
    | some level => return !(← isLive level)
  else
    return false

/-- Read tokens until the next one can be handed out, at most `fuel` times. -/
def prepare :
    (fuel : Nat) →
    Fetch Unit
  | 0 => failure
  | fuel + 1 => do
      if ← isReady then
        return ()
      else
        more
        prepare fuel

/-- The next token. -/
def peek : Fetch Token := do
  prepare ((← get).cursor.letters.size + 8)
  let scanner ← get
  match scanner.tokens[scanner.used]? with
  | some token => return token
  | none => failure

/-- Hand out the next token. -/
def skip : Fetch Unit :=
  modify fun scanner => { scanner with used := scanner.used + 1 }

end Fetch

end StructuralTyping.Yaml
