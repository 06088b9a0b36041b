import StructuralTyping.Yaml.Scalar

namespace StructuralTyping.Yaml

/-!
# Documents as trees

A document is a tree of scalars, sequences and mappings. Mappings keep their
entries in written order, repeated keys included. An alias keeps its name and
the node it stands for. Every node knows the line it begins on.
-/

/-- Where a collection begins and what its tag says about it. -/
structure Heading where
  line : Nat
  /-- Whether the collection is tagged as nothing. -/
  isNull : Bool := false
  deriving Repr, DecidableEq

/-- A node of a document. -/
inductive Node where
  | scalar (line : Nat) (kind : ScalarKind) (text : String)
  | sequence (heading : Heading) (items : List Node)
  | mapping (heading : Heading) (entries : List (Node × Node))
  /--
  An alias and what it stands for. Where an alias stands inside the node that it
  stands for, that node is given once more, and the alias in it has no target.
  -/
  | aliasOf (line : Nat) (name : String) (target : Option Node)
  deriving Repr

namespace Node

/-- The empty scalar. -/
def empty
    (line : Nat) :
    Node :=
  .scalar line .null ""

instance : Inhabited Node :=
  ⟨.empty 0⟩

/-- The line a node begins on. -/
def line :
    Node →
    Nat
  | scalar line _ _ => line
  | sequence heading _ => heading.line
  | mapping heading _ => heading.line
  | aliasOf line _ _ => line

/-- The text of a scalar or the name of an alias; collections have none. -/
def text :
    Node →
    String
  | scalar _ _ text => text
  | aliasOf _ name _ => name
  | _ => ""

/-- The entries of a mapping; other nodes have none. -/
def entries :
    Node →
    List (Node × Node)
  | mapping _ entries => entries
  | _ => []

/-- Whether a collection is tagged as nothing; other nodes are not. -/
def isNullCollection :
    Node →
    Bool
  | sequence heading _ => heading.isNull
  | mapping heading _ => heading.isNull
  | _ => false

/-- Whether a node is a scalar that stands for nothing. -/
def isNull :
    Node →
    Bool
  | scalar _ .null _ => true
  | _ => false

/-- The value of the first entry whose key has the given text. -/
def entry?
    (entries : List (Node × Node))
    (key : String) :
    Option Node :=
  (entries.find? fun entry => entry.1.text == key).map Prod.snd

mutual

/-- Set the target of the aliases of a name that have none. -/
def complete
    (name : String)
    (target : Node) :
    Node →
    Node
  | aliasOf line other none =>
      aliasOf line other (if other == name then some target else none)
  | sequence heading items =>
      sequence heading (completeItems name target items)
  | mapping heading entries =>
      mapping heading (completeEntries name target entries)
  | node => node

/-- Set the targets of aliases in the items of a sequence. -/
def completeItems
    (name : String)
    (target : Node) :
    List Node →
    List Node
  | [] => []
  | item :: rest =>
      complete name target item :: completeItems name target rest

/-- Set the targets of aliases in the entries of a mapping. -/
def completeEntries
    (name : String)
    (target : Node) :
    List (Node × Node) →
    List (Node × Node)
  | [] => []
  | (key, value) :: rest =>
      (complete name target key, complete name target value) ::
        completeEntries name target rest

end

end Node

end StructuralTyping.Yaml
