import StructuralTyping.Suite.Expansion
import StructuralTyping.Suite.Statements

namespace StructuralTyping

/-!
# Questions and expectations

A check of a suite puts a question to the checker and states what it expects of
the answer. Which fields of the check matter depends on the kind of question.
-/

/-- What a check asks. -/
inductive Question where
  /-- Whether a type is assignable to another one. -/
  | assignable (source target : Ty) (expected : Bool)
  /-- What a type is normalized to. -/
  | normalize (type : Ty)
  /-- What a utility application yields. -/
  | utility (application : Application Ty)
  /-- Whether constants cover a type, and what they leave over. -/
  | exhaustive (type : Ty) (handled : List Literal)
  /-- What a binding is narrowed to on a branch. -/
  | narrow (binding : Binding) (guard : Expression) (branch : Bool)
  /-- The type of an expression. -/
  | typeof (scope : List (String × Ty)) (expression : Expression)
  /-- What the statements of a function observe. -/
  | function (body : FunctionBody)
  deriving Repr

/-- The name of a kind of question. -/
def Question.kind :
    Question →
    String
  | assignable _ _ _ => "assignable"
  | normalize _ => "normalize"
  | utility _ => "utility"
  | exhaustive _ _ => "exhaustive"
  | narrow _ _ _ => "narrow"
  | typeof _ _ => "typeof"
  | function _ => "function"

/-- What a check expects beyond its question. -/
structure Expectation where
  /-- An expected truth value. -/
  flag : Option Bool := none
  /-- The expected form of a type; empty if none is stated. -/
  type : String := ""
  /-- The code of an expected failure; empty if none is expected. -/
  error : String := ""
  residual : Option String := none
  /-- The codes of all diagnostics, if they are stated. -/
  codes : Option (List String) := none
  /-- The expected types by label. -/
  observed : List (String × String) := []
  deriving Repr, DecidableEq

/-- A check of a suite. -/
structure SuiteCheck where
  name : String
  line : Nat
  question : Question
  expectation : Expectation
  deriving Repr

/-- The fields of a check as they were written. -/
structure CheckFields where
  name : String
  kind : String
  utility : String
  error : String
  branch : Option Bool
  residual : Option String
  codes : Option (List String)
  observed : List (String × String)
  /-- The fields that are decoded by the kind of question. -/
  nodes : Yaml.Record
  deriving Repr

/-- The names of the fields of a check and their forms. -/
def CheckFields.forms : List (String × Yaml.Form) :=
  [ ("name", .scalar), ("kind", .scalar), ("source", .node),
    ("target", .node), ("type", .node), ("utility", .scalar),
    ("base", .node), ("args", .node), ("handled", .node),
    ("binding", .node), ("guard", .node), ("branch", .scalar),
    ("scope", .node), ("expr", .node), ("function", .node),
    ("expect", .node), ("error", .scalar), ("residual", .scalar),
    ("codes", .list .scalar), ("observed", .texts) ]

/-- The fields of a check, if those with a fixed form have it. -/
def CheckFields.ofNode?
    (node : Yaml.Node) :
    Option CheckFields := do
  guard ((Yaml.Form.record forms).admits {} node)
  let nodes ← Yaml.Record.ofNode? (forms.map Prod.fst) node
  let fields : CheckFields :=
    { name := ← nodes.text? "name"
      kind := ← nodes.text? "kind"
      utility := ← nodes.text? "utility"
      error := ← nodes.text? "error"
      branch := ← nodes.maybeFlag? "branch"
      residual := ← nodes.maybeText? "residual"
      codes := ← nodes.maybeTexts? "codes"
      observed := ← nodes.texts? "observed"
      nodes }
  return fields

namespace Decode

/-- What a check expects. -/
def expectation
    (fields : CheckFields) :
    Decode Expectation :=
  let stated : Expectation :=
    { error := fields.error
      residual := fields.residual
      codes := fields.codes
      observed := fields.observed }
  match fields.nodes.node? "expect" with
  | none => return stated
  | some (.scalar _ .boolean text) =>
      match Yaml.truthValues.lookup text with
      | some value => return { stated with flag := some value }
      | none => stop .malformedPart
  | some (.scalar _ _ text) => return { stated with type := text }
  | some node => fault node.line .expectationNotScalar

/-- The binding that a node describes. -/
def binding
    (arena : Arena) :
    Option Yaml.Node →
    Decode Binding
  | none => stop .missingBinding
  | some node => do
      let entries := node.entries
      if hasKey entries "name" then
        let name := textAt entries "name"
        let type ← within (.binding name) (typeAt arena "type" entries)
        match Yaml.Node.entry? entries "policy" with
        | none => return { name, declared := type }
        | some node => return .inferred arena name type (← policy node)
      else
        fault node.line .bindingNameMissing

/-- The question of a check, given an expected truth value. -/
def question
    (arena : Arena)
    (fields : CheckFields)
    (flag : Option Bool) :
    Decode Question :=
  let node? := fields.nodes.node?
  match fields.kind with
  | "assignable" => do
      let source ← within .source (requiredType arena (node? "source"))
      let target ← within .target (requiredType arena (node? "target"))
      match flag with
      | some expected => return .assignable source target expected
      | none => stop .missingAnswer
  | "normalize" => return .normalize (← requiredType arena (node? "type"))
  | "utility" => do
      let base ← within .base (requiredType arena (node? "base"))
      let arguments ←
        match node? "args" with
        | none => pure []
        | some (.sequence _ items) => within .arguments (types arena items)
        | some node =>
            within .arguments (fault node.line .typeListExpected)
      return .utility { utility := fields.utility, base, arguments }
  | "exhaustive" => do
      let type ← requiredType arena (node? "type")
      return .exhaustive type (← within .handled (literals (node? "handled")))
  | "narrow" => do
      let binding ← binding arena (node? "binding")
      let guard ← within .guard (requiredExpression arena (node? "guard"))
      return .narrow binding guard (fields.branch.getD true)
  | "typeof" => do
      let scope ←
        match node? "scope" with
        | none => pure []
        | some node => namedTypes arena .scope node
      let expression ←
        within .expression (requiredExpression arena (node? "expr"))
      return .typeof scope expression
  | "function" => do
      match node? "function" with
      | none => stop .missingFunction
      | some node => return .function (← functionBody arena node)
  | kind => stop (.unknownKind kind)

/-- The check at a position of a suite, the first one being number one. -/
def check
    (arena : Arena)
    (position : Nat)
    (node : Yaml.Node) :
    Decode SuiteCheck :=
  match CheckFields.ofNode? node with
  | none => within (.check (toString position)) (stop .malformedPart)
  | some fields =>
      let label :=
        if fields.name.isEmpty then toString position else fields.name
      within (.check label) do
        let expectation ← expectation fields
        let question ← question arena fields expectation.flag
        let name :=
          if fields.name.isEmpty then
            question.kind ++ "#" ++ toString position
          else
            fields.name
        return { name, line := node.line, question, expectation }

end Decode

end StructuralTyping
