import StructuralTyping.Narrowing.Statement
import StructuralTyping.Suite.Expressions

namespace StructuralTyping.Decode

open Yaml

/-!
# Decoding statements

A statement is a mapping with exactly one key, which says what it does. A body
is a list of statements; nothing at all is an empty body.
-/

/-- The widening policy under a key; without one bindings are mutable. -/
def policyAt
    (entries : List (Node × Node))
    (key : String) :
    Decode WideningPolicy :=
  match Node.entry? entries key with
  | none => return .mutable
  | some node => policy node

/-- The labels of a clause, each a written node of its own. -/
def labels
    (node : Option Node) :
    Decode (List CaseLabel) := do
  (← literals node).mapM fun value => do
    return { occurrence := ← occurrence, value }

/-- The declaration that a node describes. -/
def declaration
    (arena : Arena) :
    Node →
    Decode Statement
  | .mapping heading entries => do
      if hasKey entries "name" then
        let ascription ← optionalTypeAt arena "type" entries
        let initial ← optionalExpressionAt arena entries "init"
        let policy ← policyAt entries "policy"
        return .declare (textAt entries "name") ascription initial policy
      else
        fault heading.line .declaredNameMissing
  | node => fault node.line .declaredNameMissing

/-- The value that a node returns; nothing at all returns `undefined`. -/
def returned
    (arena : Arena)
    (node : Node) :
    Decode Statement := do
  if node.isNull then
    return .return none
  else
    return .return (some (← expression arena node))

/-- The inspection that a node describes. -/
def inspection
    (arena : Arena) :
    Node →
    Decode Statement
  | .mapping heading entries => do
      if hasKey entries "label" then
        let inspected ← expressionAt arena "expr" entries
        return .inspect (textAt entries "label") inspected
      else
        fault heading.line .labelMissing
  | node => fault node.line .labelMissing

mutual

/-- The statement that a node stands for. -/
def statement
    (arena : Arena) :
    Node →
    Decode Statement
  | .mapping _ [(key, value)] =>
      match key.text with
      | "let" => declaration arena value
      | "if" =>
          match value with
          | .mapping _ entries => do
              let guard ← expressionAt arena "cond" entries
              let positive ← bodyAt arena "then" entries
              let negative ← bodyAt arena "else" entries
              return .choose guard positive negative
          | _ => stop .missingExpression
      | "switch" =>
          match value with
          | .mapping _ entries => do
              let subject ← expressionAt arena "subject" entries
              let clauses ← clausesAt arena entries
              let otherwise ← optionalBodyAt arena "default" entries
              return .switch subject clauses otherwise
          | _ => stop .missingExpression
      | "return" => returned arena value
      | "inspect" => inspection arena value
      | name => fault key.line (.unknownStatement name)
  | .mapping heading _ => fault heading.line .statementKeys
  | node => fault node.line .mappingExpected

/-- The statements of a list of nodes. -/
def statements
    (arena : Arena) :
    List Node →
    Decode (List Statement)
  | [] => return []
  | node :: rest => do
      let first ← statement arena node
      return first :: (← statements arena rest)

/-- The body that a node stands for. -/
def body
    (arena : Arena) :
    Node →
    Decode (List Statement)
  | .scalar _ .null _ => return []
  | .sequence heading items =>
      if heading.isNull then return [] else statements arena items
  | node =>
      if node.isNullCollection then
        return []
      else
        fault node.line .statementListExpected

/-- The body under a key, if it is there. -/
def optionalBodyAt
    (arena : Arena)
    (key : String) :
    List (Node × Node) →
    Decode (Option (List Statement))
  | [] => return none
  | (name, value) :: rest =>
      if name.text == key then do
        return some (← body arena value)
      else
        optionalBodyAt arena key rest

/-- The body under a key; it is empty without the key. -/
def bodyAt
    (arena : Arena)
    (key : String) :
    List (Node × Node) →
    Decode (List Statement)
  | [] => return []
  | (name, value) :: rest =>
      if name.text == key then body arena value else bodyAt arena key rest

/-- The clauses under their key: the parts of whatever node is there. -/
def clausesAt
    (arena : Arena) :
    List (Node × Node) →
    Decode (List (Clause Statement))
  | [] => return []
  | (name, value) :: rest =>
      if name.text == "cases" then
        match value with
        | .sequence _ items => clauses arena items
        | .mapping _ entries => clausesOfEntries arena entries
        | _ => return []
      else
        clausesAt arena rest

/-- The clauses of a list of nodes. -/
def clauses
    (arena : Arena) :
    List Node →
    Decode (List (Clause Statement))
  | [] => return []
  | node :: rest => do
      let first ← clause arena node
      return first :: (← clauses arena rest)

/-- The clauses of the keys and values of a mapping. -/
def clausesOfEntries
    (arena : Arena) :
    List (Node × Node) →
    Decode (List (Clause Statement))
  | [] => return []
  | (key, value) :: rest => do
      let first ← clause arena key
      let second ← clause arena value
      return first :: second :: (← clausesOfEntries arena rest)

/-- The clause that a node describes; only mappings say anything. -/
def clause
    (arena : Arena) :
    Node →
    Decode (Clause Statement)
  | .mapping _ entries => do
      let labels ← labels (Node.entry? entries "values")
      let body ← bodyAt arena "body" entries
      return { labels, body }
  | _ => return { labels := [], body := [] }

end

/-- The named types of a mapping, each inside a part of the suite. -/
def namedTypes
    (arena : Arena)
    (place : String → Place) :
    Node →
    Decode (List (String × Ty))
  | .mapping _ entries =>
      entries.mapM fun (key, value) => do
        return (key.text, ← within (place key.text) (type arena value))
  | node => fault node.line .mappingExpected

/-- The function body that a node describes. -/
def functionBody
    (arena : Arena)
    (node : Node) :
    Decode FunctionBody := do
  let entries := node.entries
  let parameters ←
    match Node.entry? entries "params" with
    | none => pure []
    | some node => namedTypes arena .parameter node
  let result ← within .result (optionalTypeAt arena "return" entries)
  let body ← bodyAt arena "body" entries
  return { name := textAt entries "name", parameters, result, body }

end StructuralTyping.Decode
