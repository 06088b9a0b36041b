import StructuralTyping.Yaml.Tag

namespace StructuralTyping.Yaml

/-!
# Tokens

The tokens of a text. Indentation shows as tokens that begin and end block
collections.
-/

/-- The kinds of tokens. -/
inductive TokenKind where
  /-- The beginning of the text. -/
  | start
  /-- The end of the text. -/
  | finish
  | directive (content : Directive)
  | documentStart
  | documentEnd
  | openSequence
  | closeSequence
  | openMapping
  | closeMapping
  | separator
  | item
  | key
  | value
  | beginSequence
  | beginMapping
  | endBlock
  | anchor (name : String)
  | aliasOf (name : String)
  | tag (content : Tag)
  /-- A scalar; a plain one is written without marks of its own. -/
  | scalar (plain : Bool) (text : String)
  deriving Repr, DecidableEq

/-- A token and the line it begins on. -/
structure Token where
  kind : TokenKind
  line : Nat
  deriving Repr, DecidableEq

end StructuralTyping.Yaml
