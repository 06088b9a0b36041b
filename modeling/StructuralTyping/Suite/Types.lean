import StructuralTyping.Suite.Decode
import StructuralTyping.Text.Blank
import StructuralTyping.Text.Unquoted

namespace StructuralTyping.Decode

open Yaml

/-!
# Decoding types

A scalar is a constant, a quoted text, a primitive or a declared name. A mapping
has a key that selects what the type is built from; where several are present
the order of the cases below decides.
-/

/-- The type of a scalar that is a text. -/
def textType
    (arena : Arena)
    (line : Nat)
    (text : String) :
    Decode Ty :=
  let letters := text.toList
  if 2 ≤ letters.length ∧ letters.head? = some '"' ∧
      letters.getLast? = some '"' then
    match Text.unquoted? text with
    | some value => do
        return .literal (← occurrence) (.string value)
    | none => fault line (.badText text)
  else
    match Primitive.ofName? text, arena.reference? text with
    | some kind, _ => return .primitive kind
    | none, some reference => return .named reference
    | none, none => fault line (.unknownType text)

/-- The type of a scalar. -/
def scalarType
    (arena : Arena)
    (line : Nat)
    (kind : ScalarKind)
    (text : String) :
    Decode Ty :=
  let constant : Decode Ty := do
    let value ← scalarLiteral line kind text
    return .literal (← occurrence) value
  match kind with
  | .null => return .null
  | .integer => constant
  | .decimal => constant
  | .boolean => constant
  | _ => textType arena line (Text.trim text)

/-- The name, optional mark and readonly mark in the key of a property. -/
def propertyName
    (key : String) :
    String × Bool × Bool :=
  let mark := "readonly ".toList
  let letters := key.toList
  let isReadonly := mark.isPrefixOf letters
  let name :=
    if isReadonly then Text.trimLetters (letters.drop mark.length) else letters
  let isOptional := name.getLast? = some '?'
  let name := if isOptional then name.dropLast else name
  (String.ofList name, isOptional, isReadonly)

/-- The text under a key, or the empty text. -/
def textAt
    (entries : List (Node × Node))
    (key : String) :
    String :=
  ((Node.entry? entries key).map Node.text).getD ""

/-- Whether the value under a key is written `true`. -/
def flagAt
    (entries : List (Node × Node))
    (key : String) :
    Bool :=
  textAt entries key == "true"

/-- Whether a key is present. -/
def hasKey
    (entries : List (Node × Node))
    (key : String) :
    Bool :=
  (Node.entry? entries key).isSome

mutual

/-- The type that a node stands for. -/
def type
    (arena : Arena) :
    Node →
    Decode Ty
  | .scalar line kind text => scalarType arena line kind text
  | .sequence heading _ => fault heading.line .sequenceAsType
  | .aliasOf line _ _ => fault line .unsupportedNode
  | .mapping heading entries =>
      let isReadonly := flagAt entries "readonly"
      if hasKey entries "literal" then do
        let value ← literal ((Node.entry? entries "literal").getD default)
        return .literal (← occurrence) value
      else if hasKey entries "object" || hasKey entries "index" then do
        let properties ← objectAt arena entries
        let index ← indexAt arena entries
        return .object (← occurrence) { properties, index }
      else if hasKey entries "array" then do
        let element ← typeAt arena "array" entries
        return .array (← occurrence) element isReadonly
      else if hasKey entries "tuple" then do
        let elements ← typesAt arena "tuple" entries
        return .tuple (← occurrence) elements isReadonly
      else if hasKey entries "union" then do
        let members ← typesAt arena "union" entries
        return .union (← occurrence) members
      else if hasKey entries "intersection" then do
        let members ← typesAt arena "intersection" entries
        return .intersection (← occurrence) members
      else if hasKey entries "function" then
        functionAt arena entries
      else if hasKey entries "apply" then
        applyAt arena entries
      else
        fault heading.line .unknownConstructor

/-- The type under a key, which has to be there. -/
def typeAt
    (arena : Arena)
    (key : String) :
    List (Node × Node) →
    Decode Ty
  | [] => stop .missingType
  | (name, value) :: rest =>
      if name.text == key then type arena value else typeAt arena key rest

/-- The type under a key, `absent` if it is not there. -/
def optionalTypeAt
    (arena : Arena)
    (key : String) :
    List (Node × Node) →
    Decode Ty
  | [] => return .absent
  | (name, value) :: rest =>
      if name.text == key then
        type arena value
      else
        optionalTypeAt arena key rest

/-- The types of a list of nodes. -/
def types
    (arena : Arena) :
    List Node →
    Decode (List Ty)
  | [] => return []
  | node :: rest => do
      let first ← type arena node
      return first :: (← types arena rest)

/-- The list of types under a key; there is none without the key. -/
def typesAt
    (arena : Arena)
    (key : String) :
    List (Node × Node) →
    Decode (List Ty)
  | [] => return []
  | (name, value) :: rest =>
      if name.text == key then
        match value with
        | .sequence _ items => types arena items
        | node => fault node.line .typeListExpected
      else
        typesAt arena key rest

/-- The properties under the key of an object; a scalar has none. -/
def objectAt
    (arena : Arena) :
    List (Node × Node) →
    Decode (List (Property Ty))
  | [] => return []
  | (name, value) :: rest =>
      if name.text == "object" then
        match value with
        | .scalar _ _ _ => return []
        | .mapping _ entries => properties arena entries
        | node => fault node.line .mappingExpected
      else
        objectAt arena rest

/-- The properties of an object type, in written order. -/
def properties
    (arena : Arena) :
    List (Node × Node) →
    Decode (List (Property Ty))
  | [] => return []
  | (key, value) :: rest => do
      let (name, optional, readonly) := propertyName key.text
      let type ← within (.property name) (type arena value)
      let first := { name, type, optional, readonly }
      return first :: (← properties arena rest)

/-- The index signature of an object type, if it has one. -/
def indexAt
    (arena : Arena) :
    List (Node × Node) →
    Decode (Option (IndexSignature Ty))
  | [] => return none
  | (name, value) :: rest =>
      if name.text == "index" then
        match value with
        | .mapping _ entries => do
            let key ← within .indexKey (typeAt arena "key" entries)
            let value ← within .indexValue (typeAt arena "value" entries)
            return some { key, value }
        | _ => within .indexKey (stop .missingType)
      else
        indexAt arena rest

/-- The function type under its key; other nodes than mappings add nothing. -/
def functionAt
    (arena : Arena) :
    List (Node × Node) →
    Decode Ty
  | [] => stop .missingType
  | (name, value) :: rest =>
      if name.text == "function" then
        match value with
        | .mapping _ entries => do
            let parameters ← parametersAt arena entries
            let rest ← within .rest (optionalTypeAt arena "rest" entries)
            let result ← within .result (optionalTypeAt arena "return" entries)
            let method := flagAt entries "method"
            return .function (← occurrence) { parameters, rest, result, method }
        | _ => do
            let signature :=
              { parameters := [], rest := .absent, result := .absent }
            return .function (← occurrence) signature
      else
        functionAt arena rest

/-- The parameters of a function type. -/
def parametersAt
    (arena : Arena) :
    List (Node × Node) →
    Decode (List (Parameter Ty))
  | [] => return []
  | (name, value) :: rest =>
      if name.text == "params" then
        match value with
        | .sequence _ items => parameters arena 0 items
        | node => fault node.line .parameterListExpected
      else
        parametersAt arena rest

/-- Parameters, the first of which has the given position. -/
def parameters
    (arena : Arena)
    (index : Nat) :
    List Node →
    Decode (List (Parameter Ty))
  | [] => return []
  | .mapping _ entries :: rest => do
      let type ← within (.parameterAt index) (typeAt arena "type" entries)
      let first :=
        { name := textAt entries "name"
          type
          optional := flagAt entries "optional" }
      return first :: (← parameters arena (index + 1) rest)
  | _ :: _ => within (.parameterAt index) (stop .missingType)

/-- The utility application under its key. -/
def applyAt
    (arena : Arena) :
    List (Node × Node) →
    Decode Ty
  | [] => stop .missingType
  | (name, value) :: rest =>
      if name.text == "apply" then
        match value with
        | .mapping heading entries =>
            if hasKey entries "utility" then do
              let utility := textAt entries "utility"
              let base ←
                within (.utilityBase utility) (typeAt arena "base" entries)
              let arguments ← typesAt arena "args" entries
              return .generic (← occurrence) { utility, base, arguments }
            else
              fault heading.line .utilityMissing
        | node => fault node.line .utilityMissing
      else
        applyAt arena rest

end

/-- The type of a node that may be missing. -/
def requiredType
    (arena : Arena) :
    Option Node →
    Decode Ty
  | none => stop .missingType
  | some node => type arena node

end StructuralTyping.Decode
