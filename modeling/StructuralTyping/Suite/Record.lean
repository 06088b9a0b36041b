import StructuralTyping.Yaml.Node

namespace StructuralTyping.Yaml

/-!
# Records

A record is a mapping whose keys are the names of fields with a fixed form.
Fields that nobody asks for are ignored, but no key may be repeated. Nothing at
all is a record without fields. Aliases stand for their targets here.

The value of a merge key is a mapping or a list of mappings. Their fields are
taken over unless the record, or a mapping before them, has a field of that
name.
-/

/-- The node that an alias stands for, or the node itself. -/
def Node.target? :
    Node →
    Option Node
  | .aliasOf _ _ target => target
  | node => some node

/-- What a scalar stands for, or the scalar behind an alias. -/
def Node.value?
    (node : Node) :
    Option ScalarValue :=
  match node.target? with
  | some (.scalar _ kind text) => kind.value? text
  | _ => none

/-- Whether a node is the key of an entry that is taken over. -/
def Node.isMergeKey :
    Node →
    Bool
  | .scalar _ .merge text => text == mergeKey
  | _ => false

/-- The fields of a record. -/
abbrev Record :=
  List (String × Node)

namespace Record

/-- The text of a scalar; there is none in an empty one. -/
def optionalText?
    (node : Node) :
    Option (Option String) :=
  match node.value? with
  | none => none
  | some .null => some none
  | some (.text text) => some (some text)
  | some _ => some (node.target?.map Node.text)

/-- Whether a key is an alias, and its text: what tells keys apart. -/
def keyForm
    (key : Node) :
    Bool × String :=
  match key with
  | .aliasOf _ name _ => (true, name)
  | _ => (false, key.text)

/-- Whether all members of a list differ. -/
def allDiffer
    [BEq α] :
    List α →
    Bool
  | [] => true
  | first :: rest => !rest.contains first && allDiffer rest

/-- The entries of a mapping itself that have a key. -/
def ownFields?
    (entries : List (Node × Node)) :
    Option Record :=
  if allDiffer (entries.map fun entry => keyForm entry.1) then do
    let own := entries.filter fun entry => !entry.1.isMergeKey
    let named ← own.mapM fun (key, value) => do
      return (← optionalText? key).map fun name => (name, value)
    return named.filterMap id
  else
    none

/-- The keys of a mapping that are texts. -/
def textKeys
    (entries : List (Node × Node)) :
    List String :=
  entries.filterMap fun (key, _) =>
    match key.value? with
    | some (.text text) => some text
    | _ => none

/-- Fields that are taken over, besides the names that are taken already. -/
structure Takeover where
  fields : Record := []
  names : List String
  deriving Repr

/-- Take over a field, unless its name is taken. -/
def Takeover.add
    (takeover : Takeover)
    (field : String × Node) :
    Takeover :=
  if takeover.names.contains field.1 then
    takeover
  else
    { fields := takeover.fields ++ [field]
      names := field.1 :: takeover.names }

mutual

/-- Take over what the merge key among the entries of a mapping stands for. -/
def mergeEntries?
    (takeover : Takeover) :
    List (Node × Node) →
    Option Takeover
  | [] => some takeover
  | (key, value) :: rest =>
      if key.isMergeKey then
        mergeValue? takeover value
      else
        mergeEntries? takeover rest

/-- Take over the fields of a mapping or of a list of mappings. -/
def mergeValue?
    (takeover : Takeover) :
    Node →
    Option Takeover
  | .mapping _ entries => do
      let fields ← ownFields? entries
      mergeEntries? (fields.foldl Takeover.add takeover) entries
  | .aliasOf _ _ (some (.mapping _ entries)) => do
      let fields ← ownFields? entries
      mergeEntries? (fields.foldl Takeover.add takeover) entries
  | .sequence _ items => mergeItems? takeover items
  | _ => none

/-- Take over the fields of mappings, in order. -/
def mergeItems?
    (takeover : Takeover) :
    List Node →
    Option Takeover
  | [] => some takeover
  | .mapping _ entries :: rest => do
      let fields ← ownFields? entries
      let takeover ←
        mergeEntries? (fields.foldl Takeover.add takeover) entries
      mergeItems? takeover rest
  | .aliasOf _ _ (some (.mapping _ entries)) :: rest => do
      let fields ← ownFields? entries
      let takeover ←
        mergeEntries? (fields.foldl Takeover.add takeover) entries
      mergeItems? takeover rest
  | _ => none

end

/-- The fields that a mapping takes over. -/
def takenFields?
    (entries : List (Node × Node)) :
    Option Record :=
  (mergeEntries? { names := textKeys entries } entries).map Takeover.fields

/-- The record that a node stands for; its known fields are not repeated. -/
def ofNode?
    (known : List String)
    (node : Node) :
    Option Record :=
  match node.target? with
  | some (.mapping _ entries) => do
      let own ← ownFields? entries
      let names := (own.map Prod.fst).filter known.contains
      if allDiffer names then
        return own ++ (← takenFields? entries)
      else
        none
  | _ => if node.value? = some .null then some [] else none

/-- A field as it was written. -/
def node?
    (record : Record)
    (name : String) :
    Option Node :=
  record.lookup name

/-- A field that is a text; it is empty where nothing is written. -/
def text?
    (record : Record)
    (name : String) :
    Option String :=
  match record.lookup name with
  | none => some ""
  | some node => (optionalText? node).map (·.getD "")

/-- A field that is a text or nothing. -/
def maybeText?
    (record : Record)
    (name : String) :
    Option (Option String) :=
  match record.lookup name with
  | none => some none
  | some node => optionalText? node

/-- The spellings of truth values among texts. -/
def spelledFlags : List (String × Bool) :=
  [ ("y", true), ("Y", true), ("yes", true), ("Yes", true), ("YES", true),
    ("on", true), ("On", true), ("ON", true),
    ("n", false), ("N", false), ("no", false), ("No", false), ("NO", false),
    ("off", false), ("Off", false), ("OFF", false) ]

/-- The truth value of a node, or nothing. -/
def flagOf?
    (node : Node) :
    Option (Option Bool) :=
  match node.value? with
  | some .null => some none
  | some (.boolean value) => some (some value)
  | some (.text text) => (spelledFlags.lookup text).map some
  | _ => none

/-- A field that is a truth value or nothing. -/
def maybeFlag?
    (record : Record)
    (name : String) :
    Option (Option Bool) :=
  match record.lookup name with
  | none => some none
  | some node => flagOf? node

/-- A field that is a list of nodes or nothing. -/
def maybeItems?
    (record : Record)
    (name : String) :
    Option (Option (List Node)) :=
  match record.lookup name with
  | none => some none
  | some node =>
      match node.target? with
      | some (.sequence _ items) => some (some items)
      | _ => if node.value? = some .null then some none else none

/-- A field that is a list of texts or nothing; empty items are dropped. -/
def maybeTexts?
    (record : Record)
    (name : String) :
    Option (Option (List String)) := do
  match ← record.maybeItems? name with
  | none => return none
  | some items =>
      return some ((← items.mapM optionalText?).filterMap id)

/-- Set a text under a key; the latest one comes first. -/
def setText
    (texts : List (String × String))
    (key : String)
    (text : Option String) :
    List (String × String) :=
  match text with
  | some text => (key, text) :: texts
  | none => if (texts.lookup key).isSome then texts else (key, "") :: texts

/-- The texts under the keys of a mapping; the first one under a key counts. -/
def textsOf?
    (entries : List (Node × Node)) :
    Option (List (String × String)) := do
  let own ← (← ownFields? entries).mapM fun (key, value) => do
    return (key, (← optionalText? value).getD "")
  let taken ← (← takenFields? entries).mapM fun (key, value) => do
    return (key, ← optionalText? value)
  return taken.foldl (fun texts (key, text) => setText texts key text)
    own.reverse

/-- A field that maps texts to texts; the first one under a key counts. -/
def texts?
    (record : Record)
    (name : String) :
    Option (List (String × String)) :=
  match record.lookup name with
  | none => some []
  | some node =>
      match node.target? with
      | some (.mapping _ entries) => textsOf? entries
      | _ => if node.value? = some .null then some [] else none

end Record

end StructuralTyping.Yaml
