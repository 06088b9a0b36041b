import StructuralTyping.Suite.Record

namespace StructuralTyping.Yaml

/-!
# Expansion of aliases

A few aliases of aliases may stand for a huge document. So the nodes that are
read are counted, those behind aliases in particular, and a document is refused
once nearly all of it is the expansion of aliases. Short documents are admitted
in any case, and parts that are kept as nodes are not expanded.
-/

/-- The form in which a part of a document is read. -/
inductive Form where
  /-- A node, which is kept as it was written. -/
  | node
  /-- A text or a truth value. -/
  | scalar
  /-- A list of parts of one form. -/
  | list (item : Form)
  /-- Texts under texts. -/
  | texts
  /-- A record with its known fields. -/
  | record (fields : List (String × Form))
  deriving Repr

/-- The form of the value under a key of a mapping, if it is read. -/
def Form.field?
    (form : Form)
    (name : String) :
    Option Form :=
  match form with
  | texts => some scalar
  | record fields => fields.lookup name
  | _ => none

/-- Whether a mapping may have this form. -/
def Form.isMapping :
    Form →
    Bool
  | texts => true
  | record _ => true
  | _ => false

/-- How many nodes were read, and how many of them behind an alias. -/
structure Expansion where
  nodes : Nat := 0
  aliased : Nat := 0
  deriving Repr, DecidableEq

namespace Expansion

/-- The numbers of nodes between which the admitted share shrinks. -/
def shareStart : Nat :=
  400000

/-- The number of nodes from which on the admitted share is a tenth. -/
def shareEnd : Nat :=
  4000000

/-- The share of nodes behind aliases that is admitted, as a fraction. -/
def admittedShare
    (nodes : Nat) :
    Nat × Nat :=
  if nodes ≤ shareStart then
    (99, 100)
  else if shareEnd ≤ nodes then
    (10, 100)
  else
    (99 * (shareEnd - shareStart) - 89 * (nodes - shareStart),
      100 * (shareEnd - shareStart))

/-- Whether too much of what was read is behind aliases. -/
def isExcessive
    (expansion : Expansion) :
    Bool :=
  let (part, whole) := admittedShare expansion.nodes
  100 < expansion.aliased && 1000 < expansion.nodes &&
    part * expansion.nodes < expansion.aliased * whole

end Expansion

/-- A visit of nodes that are read; `none` means that they are refused. -/
abbrev Visit :=
  StateT Expansion Option

namespace Visit

/-- Count a node. -/
def count
    (aliased : Bool) :
    Visit Unit := do
  let before ← get
  let expansion : Expansion :=
    { nodes := before.nodes + 1
      aliased := before.aliased + (if aliased then 1 else 0) }
  if expansion.isExcessive then
    failure
  else
    set expansion

/-- Count the keys of a mapping. -/
def countKeys
    (aliased : Bool)
    (entries : List (Node × Node)) :
    Visit Unit :=
  entries.forM fun (key, _) => do
    count aliased
    match key with
    | .aliasOf _ _ _ => count true
    | _ => return ()

/-- The names of fields that are not to be taken over, if there are any yet. -/
abbrev Taken :=
  Option (List String)

/-- The name of a key, unless its field is not to be taken over. -/
def freeName?
    (taken : Taken)
    (key : Node) :
    Option String :=
  match Record.optionalText? key with
  | some (some name) =>
      if (taken.getD []).contains name then none else some name
  | _ => none

/-- The names after a field was taken over. -/
def Taken.add
    (taken : Taken)
    (name : String) :
    Taken :=
  taken.map (name :: ·)

/--
The names of the fields that a mapping does not take over: its own, unless it is
itself taken over.
-/
def takenNames
    (aliased : Bool)
    (taken : Taken)
    (entries : List (Node × Node)) :
    Visit (List String) := do
  match taken with
  | some names => return names
  | none => do
      countKeys aliased entries
      return Record.textKeys entries

mutual

/--
Visit a node that is read in some form. `merged` says whether it stands behind
a merge key, where a list is as good as its items.
-/
def node
    (form : Form)
    (merged aliased : Bool)
    (taken : Taken) :
    Node →
    Visit Taken
  | .scalar _ _ _ => do
      count aliased
      return taken
  | .aliasOf _ _ none => do
      count aliased
      return taken
  | .aliasOf _ _ (some target) => do
      count aliased
      match form with
      | .node => return taken
      | _ => node form false true taken target
  | .sequence _ list => do
      if merged then
        mergedItems form aliased taken list
      else do
        count aliased
        match form with
        | .list item => items item aliased list
        | _ => pure ()
        return taken
  | .mapping _ list => do
      count aliased
      let keys := list.map fun entry => Record.keyForm entry.1
      if form.isMapping && Record.allDiffer keys then do
        let taken ← entries form aliased taken list
        merge form aliased taken list list
      else
        return taken

/-- Visit the items of a list. -/
def items
    (form : Form)
    (aliased : Bool) :
    List Node →
    Visit Unit
  | [] => return ()
  | item :: rest => do
      let _ ← node form false aliased none item
      items form aliased rest

/-- Visit the entries of a mapping, besides the one that is taken over. -/
def entries
    (form : Form)
    (aliased : Bool)
    (taken : Taken) :
    List (Node × Node) →
    Visit Taken
  | [] => return taken
  | (key, value) :: rest => do
      if key.isMergeKey then
        entries form aliased taken rest
      else
        let _ ← node .scalar false aliased none key
        match freeName? taken key with
        | none => entries form aliased taken rest
        | some name =>
            let taken := Taken.add taken name
            match form.field? name with
            | none => entries form aliased taken rest
            | some part => do
                let _ ← node part false aliased none value
                entries form aliased taken rest

/-- Visit what the merge key among the entries of a mapping stands for. -/
def merge
    (form : Form)
    (aliased : Bool)
    (taken : Taken)
    (all : List (Node × Node)) :
    List (Node × Node) →
    Visit Taken
  | [] => return taken
  | (key, value) :: rest => do
      if key.isMergeKey then do
        let names ← takenNames aliased taken all
        let after ← node form true aliased (some names) value
        return if taken.isSome then after else none
      else
        merge form aliased taken all rest

/-- Visit mappings that are taken over, in order. -/
def mergedItems
    (form : Form)
    (aliased : Bool)
    (taken : Taken) :
    List Node →
    Visit Taken
  | [] => return taken
  | item :: rest => do
      let taken ← node form false aliased taken item
      mergedItems form aliased taken rest

end

end Visit

/--
Whether a node that is read in some form is not mostly the expansion of
aliases, after some nodes around it were counted.
-/
def Form.admits
    (form : Form)
    (before : Expansion)
    (root : Node) :
    Bool :=
  ((Visit.node form false false none root).run before).isSome

end StructuralTyping.Yaml
