import StructuralTyping.Suite.Types

namespace StructuralTyping.Decode

open Yaml

/-!
# Decoding expressions

A scalar is the name of a binding. A mapping has exactly one key: the name of a
form, or the sign of an operator over a list of two operands.
-/

mutual

/-- The expression that a node stands for. -/
def expression
    (arena : Arena) :
    Node →
    Decode Expression
  | .scalar _ _ text => return .name text
  | .mapping _ [(key, value)] =>
      match key.text with
      | "const" => return .constant (← type arena value)
      | "typeof" => return .typeof (← expression arena value)
      | "isArray" => return .isArray (← expression arena value)
      | "not" => return .not (← expression arena value)
      | "instanceof" =>
          match value with
          | .mapping _ entries => do
              let operand ← expressionAt arena "x" entries
              return .instanceOf operand (← typeAt arena "class" entries)
          | _ => stop .missingExpression
      | "member" => member arena false value
      | "optional" => member arena true value
      | "cond" =>
          match value with
          | .mapping _ entries => do
              let test ← expressionAt arena "test" entries
              let positive ← expressionAt arena "then" entries
              let negative ← expressionAt arena "else" entries
              return .conditional test positive negative
          | _ => stop .missingExpression
      | sign =>
          match Operator.ofSign? sign with
          | none => fault key.line (.unknownExpression sign)
          | some operator =>
              match value with
              | .sequence _ [left, right] => do
                  let left ← expression arena left
                  return .binary operator left (← expression arena right)
              | node => fault node.line (.operandsExpected operator)
  | .mapping heading _ => fault heading.line .expressionKeys
  | node => fault node.line .mappingExpected

/-- The expression under a key, which has to be there. -/
def expressionAt
    (arena : Arena)
    (key : String) :
    List (Node × Node) →
    Decode Expression
  | [] => stop .missingExpression
  | (name, value) :: rest =>
      if name.text == key then
        expression arena value
      else
        expressionAt arena key rest

/-- The access to a property that a node describes. -/
def member
    (arena : Arena)
    (optional : Bool) :
    Node →
    Decode Expression
  | .mapping heading entries => do
      let operand ← expressionAt arena "x" entries
      if hasKey entries "name" then
        return .member operand (textAt entries "name") optional
      else
        fault heading.line .memberNameMissing
  | _ => stop .missingExpression

end

/-- The expression of a node that may be missing. -/
def requiredExpression
    (arena : Arena) :
    Option Node →
    Decode Expression
  | none => stop .missingExpression
  | some node => expression arena node

/-- The expression under a key, if it is there. -/
def optionalExpressionAt
    (arena : Arena)
    (entries : List (Node × Node))
    (key : String) :
    Decode (Option Expression) :=
  match Node.entry? entries key with
  | none => return none
  | some node => return some (← expression arena node)

end StructuralTyping.Decode
