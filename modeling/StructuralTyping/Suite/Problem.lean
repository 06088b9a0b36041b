import StructuralTyping.Arena
import StructuralTyping.Narrowing.Expression

namespace StructuralTyping

/-!
# Problems of suites

Why a document is not a suite: the fault, the line it was found on, and the
parts of the suite around it. Reading a suite stops at its first problem.
-/

/-- A fault with a line of its own. -/
inductive Fault where
  | mappingExpected
  | typeListExpected
  | sequenceAsType
  | unsupportedNode
  | unknownConstructor
  | unknownType (name : String)
  | badText (text : String)
  | badNumber (text : String)
  | badTruth (text : String)
  | literalNotScalar
  | literalListExpected
  | parameterListExpected
  | utilityMissing
  | expressionKeys
  | unknownExpression (key : String)
  | operandsExpected (operator : Operator)
  | memberNameMissing
  | statementListExpected
  | statementKeys
  | unknownStatement (key : String)
  | declaredNameMissing
  | labelMissing
  | unknownPolicy (name : String)
  | bindingNameMissing
  | expectationNotScalar
  deriving Repr, DecidableEq

/-- The wording of a fault. -/
def Fault.message :
    Fault →
    String
  | mappingExpected => "expected a mapping"
  | typeListExpected => "expected a list of types"
  | sequenceAsType => "a type cannot be a sequence; use union or tuple"
  | unsupportedNode => "unsupported node"
  | unknownConstructor => "unknown type constructor"
  | unknownType name => "unknown type " ++ Text.quoted name
  | badText text => "bad string literal " ++ text
  | badNumber text => "bad number " ++ Text.quoted text
  | badTruth text => "bad boolean " ++ Text.quoted text
  | literalNotScalar => "literal must be a scalar"
  | literalListExpected => "expected a list of literals"
  | parameterListExpected => "params must be a list"
  | utilityMissing => "apply needs a utility"
  | expressionKeys => "an expression mapping must have exactly one key"
  | unknownExpression key => "unknown expression " ++ Text.quoted key
  | operandsExpected operator =>
      "operator " ++ operator.sign ++ " takes two operands"
  | memberNameMissing => "member needs a name"
  | statementListExpected => "expected a list of statements"
  | statementKeys => "a statement mapping must have exactly one key"
  | unknownStatement key => "unknown statement " ++ Text.quoted key
  | declaredNameMissing => "let needs a name"
  | labelMissing => "inspect needs a label"
  | unknownPolicy name => "unknown widening policy " ++ Text.quoted name
  | bindingNameMissing => "binding needs a name"
  | expectationNotScalar => "expect must be a scalar"

/-- A part of a suite that a problem may lie in. -/
inductive Place where
  | definition (name : String)
  | property (name : String)
  | parameterAt (index : Nat)
  | parameter (name : String)
  | rest
  | result
  | indexKey
  | indexValue
  | utilityBase (utility : String)
  | source
  | target
  | base
  | arguments
  | handled
  | binding (name : String)
  | guard
  | scope (name : String)
  | expression
  | check (label : String)
  deriving Repr, DecidableEq

/-- The wording of a place. -/
def Place.message :
    Place →
    String
  | definition name => "type " ++ name
  | property name => "property " ++ name
  | parameterAt index => "parameter " ++ toString index
  | parameter name => "parameter " ++ name
  | rest => "rest"
  | result => "return"
  | indexKey => "index key"
  | indexValue => "index value"
  | utilityBase utility => utility ++ " base"
  | source => "source"
  | target => "target"
  | base => "base"
  | arguments => "args"
  | handled => "handled"
  | binding name => "binding " ++ name
  | guard => "guard"
  | scope name => "scope " ++ name
  | expression => "expr"
  | check label => "check " ++ label

/-- Why a document is not a suite. -/
inductive Problem where
  /-- The text is no document. -/
  | malformedText
  /-- A part with a fixed form has another one. -/
  | malformedPart
  | located (line : Nat) (fault : Fault)
  | missingType
  | missingExpression
  | missingBinding
  | missingFunction
  | missingAnswer
  | unknownKind (name : String)
  | undefinable (error : ArenaError)
  | undefinedNames (names : List String)
  | within (place : Place) (problem : Problem)
  deriving Repr, DecidableEq

/-- The wording of a problem. -/
def Problem.message :
    Problem →
    String
  | malformedText => "yaml: the text cannot be read"
  | malformedPart => "yaml: a part of the document has the wrong form"
  | located line fault => "line " ++ toString line ++ ": " ++ fault.message
  | missingType => "missing type"
  | missingExpression => "missing expression"
  | missingBinding => "narrow checks need a binding"
  | missingFunction => "function checks need a function"
  | missingAnswer => "assignable checks expect true or false"
  | unknownKind name => "unknown check kind " ++ Text.quoted name
  | undefinable error => error.message
  | undefinedNames names =>
      "types declared but not defined: [" ++ " ".intercalate names ++ "]"
  | within place problem => place.message ++ ": " ++ problem.message

end StructuralTyping
