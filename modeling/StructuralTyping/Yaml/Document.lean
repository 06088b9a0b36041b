import StructuralTyping.Yaml.Node
import StructuralTyping.Yaml.Scanner

namespace StructuralTyping.Yaml

/-!
# Reading documents

The tree behind the tokens of a text. Only the first document of a text is read
and the token behind it; what stands further back is not looked at. An alias
stands for the latest node with an anchor of its name.
-/

/-- The tokens still to be read and what the document has defined so far. -/
structure Reading where
  scanner : Scanner
  /-- The anchored nodes; one has no content while it is being read. -/
  anchors : Array (String × Option Node) := #[]
  /-- What the handles of tags abbreviate. -/
  handles : List (String × String) := []
  deriving Repr

/-- A reader; `none` means that the text is malformed. -/
abbrev Read :=
  StateT Reading Option

namespace Read

/-- Read tokens. -/
def onTokens
    (fetch : Fetch α) :
    Read α := do
  let reading ← get
  match fetch.run reading.scanner with
  | some (result, scanner) => do
      set { reading with scanner }
      return result
  | none => failure

/-- The next token. -/
def peek : Read Token :=
  onTokens Fetch.peek

/-- Leave the next token behind. -/
def skip : Read Unit :=
  onTokens Fetch.skip

/-- The next token, which is left behind. -/
def next : Read Token := do
  let token ← peek
  skip
  return token

/-- Whether the next token is one of some kinds. -/
def peekIs
    (kinds : List TokenKind) :
    Read Bool := do
  return kinds.contains (← peek).kind

/-- Take note of an anchor, and return its place. -/
def openAnchor
    (name : String) :
    Read Nat := do
  let reading ← get
  set { reading with anchors := reading.anchors.push (name, none) }
  return reading.anchors.size

/-- Set the node behind an anchor, also for the aliases inside the node. -/
def closeAnchor
    (place : Nat)
    (name : String)
    (node : Node) :
    Read Node := do
  let node := node.complete name node
  modify fun reading =>
    { reading with
      anchors := reading.anchors.setIfInBounds place (name, some node) }
  return node

/-- The node that an alias stands for. -/
def resolve
    (name : String) :
    Read (Option Node) := do
  match (← get).anchors.toList.reverse.lookup name with
  | some target => return target
  | none => failure

/-- What stands in front of a node: an anchor and a tag, in any order. -/
structure Properties where
  line : Nat
  anchor : Option String := none
  tag : Option String := none
  deriving Repr, DecidableEq

/-- Whether there is an anchor or a tag. -/
def Properties.isPresent
    (properties : Properties) :
    Bool :=
  properties.anchor.isSome || properties.tag.isSome

/-- The heading of a collection behind an anchor and a tag. -/
def Properties.heading
    (properties : Properties) :
    Heading :=
  { line := properties.line
    isNull := properties.tag.bind ScalarKind.ofTag? = some .null }

/-- The full form of a tag, whose handle has to be known. -/
def fullTag
    (tag : Tag) :
    Read String := do
  if tag.handle.isEmpty then
    return tag.suffix
  else
    match (← get).handles.lookup tag.handle with
    | some expansion => return expansion ++ tag.suffix
    | none => failure

/-- Read an anchor, if there is one. -/
def anchor? : Read (Option String) := do
  match (← peek).kind with
  | .anchor name => do
      skip
      return some name
  | _ => return none

/-- Read a tag, if there is one. -/
def tag? : Read (Option Tag) := do
  match (← peek).kind with
  | .tag tag => do
      skip
      return some tag
  | _ => return none

/-- Read what stands in front of a node. -/
def properties : Read Properties := do
  let { line, .. } ← peek
  match ← anchor? with
  | some name => do
      let tag ← tag?
      let _ ← peek
      return { line, anchor := some name, tag := ← tag.mapM fullTag }
  | none => do
      match ← tag? with
      | some tag => do
          let anchor ← anchor?
          let _ ← peek
          return { line, anchor, tag := some (← fullTag tag) }
      | none => return { line }

/-- The tokens that cannot begin a value inside a block mapping. -/
def mappingEnds : List TokenKind :=
  [.key, .value, .endBlock]

/-- The tokens that cannot begin a value between braces. -/
def bracedEnds : List TokenKind :=
  [.separator, .closeMapping]

/-- The tokens that cannot begin a value between brackets. -/
def bracketedEnds : List TokenKind :=
  [.separator, .closeSequence]

/-- No content, which only a node with an anchor or a tag may have. -/
def absent
    (properties : Properties) :
    Read Node :=
  if properties.isPresent then
    return .scalar properties.line
      (.ofScalar properties.tag true "") ""
  else
    failure

/--
The token that begins an entry or closes the collection. Entries after the
first one follow a comma.
-/
def separated
    (first : Bool)
    (closing : TokenKind) :
    Read Token := do
  let token ← peek
  if first || token.kind = closing then
    return token
  else if token.kind = .separator then do
    skip
    peek
  else
    failure

mutual

/--
Read a node. `block` says whether block collections may stand here, and
`indentless` whether the items of a sequence may stand here on their own.
-/
def node :
    (fuel : Nat) →
    (block indentless : Bool) →
    Read Node
  | 0, _, _ => failure
  | fuel + 1, block, indentless => do
      let token ← peek
      match token.kind with
      | .aliasOf name => do
          skip
          return .aliasOf token.line name (← resolve name)
      | _ => do
          let properties ← properties
          match properties.anchor with
          | some name => do
              let place ← openAnchor name
              let node ← content fuel block indentless properties
              closeAnchor place name node
          | none => content fuel block indentless properties

/-- Read a node after its anchor and tag. -/
def content :
    (fuel : Nat) →
    (block indentless : Bool) →
    (properties : Properties) →
    Read Node
  | 0, _, _, _ => failure
  | fuel + 1, block, indentless, properties => do
      let heading := properties.heading
      match (← peek).kind with
      | .scalar plain text => do
          skip
          return .scalar heading.line (.ofScalar properties.tag plain text) text
      | .openSequence => do
          skip
          return .sequence heading (← bracketedItems fuel true)
      | .openMapping => do
          skip
          return .mapping heading (← bracedEntries fuel true)
      | .beginSequence => do
          if block then
            skip
            return .sequence heading (← blockItems fuel)
          else
            absent properties
      | .beginMapping => do
          if block then
            skip
            return .mapping heading (← blockEntries fuel)
          else
            absent properties
      | .item => do
          if indentless then
            return .sequence heading (← indentlessItems fuel)
          else
            absent properties
      | _ => absent properties

/-- Read the items of a block sequence and its end. -/
def blockItems :
    (fuel : Nat) →
    Read (List Node)
  | 0 => failure
  | fuel + 1 => do
      let token ← next
      match token.kind with
      | .item => do
          let item ←
            if ← peekIs [.item, .endBlock] then
              pure (.empty token.line)
            else
              node fuel true false
          return item :: (← blockItems fuel)
      | .endBlock => return []
      | _ => failure

/-- Read the items of a sequence that is not indented. -/
def indentlessItems :
    (fuel : Nat) →
    Read (List Node)
  | 0 => failure
  | fuel + 1 => do
      let token ← peek
      if token.kind = .item then do
        skip
        let item ←
          if ← peekIs (.item :: mappingEnds) then
            pure (.empty token.line)
          else
            node fuel true false
        return item :: (← indentlessItems fuel)
      else
        return []

/-- Read the entries of a block mapping and its end. -/
def blockEntries :
    (fuel : Nat) →
    Read (List (Node × Node))
  | 0 => failure
  | fuel + 1 => do
      let token ← next
      match token.kind with
      | .key => do
          let key ←
            if ← peekIs mappingEnds then
              pure (.empty token.line)
            else
              node fuel true true
          let value ← blockValue fuel
          return (key, value) :: (← blockEntries fuel)
      | .endBlock => return []
      | _ => failure

/-- Read the value of an entry of a block mapping. -/
def blockValue :
    (fuel : Nat) →
    Read Node
  | 0 => failure
  | fuel + 1 => do
      let token ← peek
      if token.kind = .value then do
        skip
        if ← peekIs mappingEnds then
          return .empty token.line
        else
          node fuel true true
      else
        return .empty token.line

/-- Read the items between brackets and the closing bracket. -/
def bracketedItems :
    (fuel : Nat) →
    (first : Bool) →
    Read (List Node)
  | 0, _ => failure
  | fuel + 1, first => do
      let token ← separated first .closeSequence
      match token.kind with
      | .closeSequence => do
          skip
          return []
      | .key => do
          skip
          let key ←
            if ← peekIs (.value :: bracketedEnds) then
              pure (.empty (← next).line)
            else
              node fuel false false
          let value ← pairValue fuel
          let item := .mapping { line := token.line } [(key, value)]
          return item :: (← bracketedItems fuel false)
      | _ => do
          let item ← node fuel false false
          return item :: (← bracketedItems fuel false)

/-- Read the entries between braces and the closing brace. -/
def bracedEntries :
    (fuel : Nat) →
    (first : Bool) →
    Read (List (Node × Node))
  | 0, _ => failure
  | fuel + 1, first => do
      let token ← separated first .closeMapping
      match token.kind with
      | .closeMapping => do
          skip
          return []
      | .key => do
          skip
          let key ←
            if ← peekIs (.value :: bracedEnds) then
              pure (.empty (← peek).line)
            else
              node fuel false false
          let value ← bracedValue fuel
          return (key, value) :: (← bracedEntries fuel false)
      | _ => do
          let key ← node fuel false false
          let value := .empty (← peek).line
          return (key, value) :: (← bracedEntries fuel false)

/-- Read the value of an entry between braces. -/
def bracedValue :
    (fuel : Nat) →
    Read Node
  | 0 => failure
  | fuel + 1 => do
      if ← peekIs [.value] then do
        skip
        if ← peekIs bracedEnds then
          return .empty (← peek).line
        else
          node fuel false false
      else
        return .empty (← peek).line

/--
Read the value of a pair between brackets. Where none is written, its line is
that of the colon.
-/
def pairValue :
    (fuel : Nat) →
    Read Node
  | 0 => failure
  | fuel + 1 => do
      let token ← peek
      if token.kind = .value then do
        skip
        if ← peekIs bracketedEnds then
          return .empty token.line
        else
          node fuel false false
      else
        return .empty token.line

end

/-- The handles that every document knows. -/
def standardHandles : List (String × String) :=
  [("!", "!"), ("!!", standardTags)]

/-- The version of the notation that a document may ask for. -/
def admittedVersion : Directive :=
  .version 1 1

/-- Take note of a directive, which may not be repeated. -/
def takeDirective
    (directive : Directive)
    (versioned : Bool) :
    Read Bool := do
  match directive with
  | .version _ _ =>
      if versioned || directive ≠ admittedVersion then
        failure
      else
        return true
  | .abbreviation handle expansion => do
      let reading ← get
      if (reading.handles.lookup handle).isSome then
        failure
      else
        set
          { reading with
            handles := reading.handles ++ [(handle, expansion)] }
        return versioned

/-- Read the directives of a document. -/
def directives :
    (fuel : Nat) →
    (versioned : Bool) →
    Read Unit
  | 0, _ => failure
  | fuel + 1, versioned => do
      match (← peek).kind with
      | .directive directive => do
          let versioned ← takeDirective directive versioned
          skip
          directives fuel versioned
      | _ => return ()

/-- Make the handles known that no directive has defined. -/
def addStandardHandles : Read Unit :=
  modify fun reading =>
    { reading with handles := reading.handles ++ standardHandles }

/-- Whether a token cannot begin the content of a document. -/
def endsDocument :
    TokenKind →
    Bool
  | .directive _ => true
  | .documentStart => true
  | .documentEnd => true
  | .finish => true
  | _ => false

/-- Read a document behind the mark that begins it. -/
def markedDocument
    (fuel : Nat) :
    Read Node := do
  directives fuel false
  addStandardHandles
  if ← peekIs [.documentStart] then
    skip
    let token ← peek
    if endsDocument token.kind then
      return .empty token.line
    else
      node fuel true false
  else
    failure

/--
Read the first document; a text without one is an empty scalar. A document is
complete once the token behind it was seen.
-/
def document
    (fuel : Nat) :
    Read Node := do
  let _ ← next
  let token ← peek
  match token.kind with
  | .finish => return .empty token.line
  | kind => do
      let root ←
        if endsDocument kind && kind ≠ .documentEnd then
          markedDocument fuel
        else do
          addStandardHandles
          node fuel true false
      let _ ← peek
      return root

end Read

/-- The document in a text; there is none if the text is malformed. -/
def Node.read?
    (text : String) :
    Option Node :=
  let cursor := Cursor.ofSupply (.ofText text)
  let fuel := 8 * cursor.letters.size + 64
  ((Read.document fuel).run { scanner := { cursor } }).map Prod.fst

end StructuralTyping.Yaml
