import StructuralTyping.Narrowing.Typing

namespace StructuralTyping

/-!
# Function bodies

A function body is walked statement by statement. Conditionals and switches
narrow bindings in their branches, and what they rule out stays narrowed after
them where the other branches return. Results are checked against the declared
result type, and a body that can end without returning is reported when that
type excludes `undefined`.
-/

/-- A value that a clause of a switch matches. -/
structure CaseLabel where
  occurrence : Occurrence
  value : Literal
  deriving Repr, DecidableEq

/-- A clause of a switch; clauses do not fall through. -/
structure Clause (Body : Type) where
  labels : List CaseLabel
  body : List Body
  deriving Repr, DecidableEq

/-- A statement. -/
inductive Statement where
  /-- Declare a binding, with or without a type ascription. -/
  | declare
      (name : String)
      (ascription : Ty)
      (initial : Option Expression)
      (policy : WideningPolicy)
  /-- Choose between two bodies. -/
  | choose (guard : Expression) (positive negative : List Statement)
  /-- Choose a clause by the value of a subject. -/
  | switch
      (subject : Expression)
      (clauses : List (Clause Statement))
      (otherwise : Option (List Statement))
  /-- Return a value, or `undefined`. -/
  | return (value : Option Expression)
  /-- Record the type of an expression. -/
  | inspect (label : String) (expression : Expression)
  deriving Repr

/-- A function body to check; an absent result type accepts anything. -/
structure FunctionBody where
  name : String
  parameters : List (String × Ty)
  result : Ty
  body : List Statement
  deriving Repr

/-- A type recorded by an inspecting statement. -/
structure Observation where
  label : String
  type : Ty
  deriving Repr, DecidableEq

/-- What checking a function body found, diagnostics aside. -/
structure FunctionReport where
  observations : List Observation
  fallsThrough : Bool
  deriving Repr, DecidableEq

/-- The type recorded for a label; the last one wins. -/
def FunctionReport.observed?
    (report : FunctionReport)
    (label : String) :
    Option Ty :=
  (report.observations.reverse.find? fun observation =>
    observation.label == label).map Observation.type

/-- What the walk through a body carries along. -/
structure Walk where
  observations : List Observation := []
  /-- What the switch that was walked last leaves unhandled. -/
  pending : Option Exhaustiveness := none
  deriving Repr, DecidableEq

/-- A walk through statements. -/
abbrev Walking :=
  StateT Walk Narrowing

/-- Chain comparisons of a subject with labels by an operator. -/
def compareLabels
    (comparison chain : Operator)
    (subject : Expression)
    (labels : List CaseLabel) :
    Option Expression :=
  let compare (label : CaseLabel) : Expression :=
    .binary comparison subject
      (.constant (.literal label.occurrence label.value))
  match labels with
  | [] => none
  | first :: rest =>
      some
        (rest.foldl
          (fun guard label => .binary chain guard (compare label))
          (compare first))

/-- The guard that a subject equals one of some labels. -/
def anyLabel
    (subject : Expression)
    (labels : List CaseLabel) :
    Option Expression :=
  compareLabels .strictEqual .or subject labels

/-- The guard that a subject equals none of some labels. -/
def noLabel
    (subject : Expression)
    (labels : List CaseLabel) :
    Option Expression :=
  compareLabels .strictNotEqual .and subject labels

/-- Add a binding to the table. -/
def BindingTable.add
    (binding : Binding) :
    Narrowing BindingId := do
  let table ← get
  set (table ++ [binding])
  return table.length

namespace Checker

variable (checker : Checker)

/-- Report when a source is not assignable to a target. -/
def expectAssignable
    (source target : Ty) :
    Check Unit := do
  match ← checker.assign source target with
  | none => return ()
  | some mismatch => Check.report mismatch.diagnostic

/-- The type of an optional expression; a missing one is `undefined`. -/
def typeOfOptional
    (scope : Scope)
    (expression : Option Expression) :
    Narrowing Ty :=
  match expression with
  | none => return .undefined
  | some expression => checker.typeOf scope expression

/-- Declare a binding in a scope. -/
def walkDeclaration
    (scope : Scope)
    (name : String)
    (ascription : Ty)
    (initial : Option Expression)
    (policy : WideningPolicy) :
    Narrowing Scope := do
  let type ← checker.typeOfOptional scope initial
  let binding ←
    if ascription.isAbsent then
      pure (Binding.inferred checker.arena name type policy)
    else do
      checker.expectAssignable type ascription
      pure { name, declared := ascription }
  return scope.declare name (← BindingTable.add binding)

/-- Check a returned value against the declared result type. -/
def walkReturn
    (scope : Scope)
    (result : Ty)
    (value : Option Expression) :
    Narrowing Unit := do
  let type ← checker.typeOfOptional scope value
  unless result.isAbsent do
    checker.expectAssignable type result

/--
Start coverage for the subject of a switch: a property of a union discriminated
by it, or a union of literals.
-/
def switchCoverage?
    (scope : Scope)
    (subject : Expression)
    (subjectType : Ty) :
    Narrowing (Option Coverage) := do
  match subject with
  | .member (.name name) property _ =>
      match (scope.view (← get)).lookup name with
      | none => return none
      | some type => checker.coverageOn? type property
  | .member _ _ _ => return none
  | _ =>
      return (← checker.coverage? subjectType).filter fun coverage =>
        coverage.discriminator.isEmpty

/-- What a switch without default leaves unhandled. -/
def switchResidual
    (coverage : Coverage) :
    Check Exhaustiveness := do
  let exhaustive ← coverage.exhaustive checker
  let residual ← coverage.residual checker
  return { exhaustive, residual, discriminator := coverage.discriminator }

/-- Record what the last switch leaves unhandled. -/
def setPending
    (pending : Option Exhaustiveness) :
    Walking Unit :=
  modify fun walk => { walk with pending }

/-- Run a walk with bindings narrowed by facts. -/
def walkWithFacts
    (scope : Scope)
    (facts : Facts)
    (body : Walking α) :
    Walking α :=
  fun walk => withFacts scope facts (body walk)

/-- Run a walk on a branch of a guard; without a guard nothing is narrowed. -/
def walkBranch
    (scope : Scope)
    (guard : Option Expression)
    (branch : Bool)
    (body : Walking α) :
    Walking α :=
  match guard with
  | none => body
  | some guard => fun walk => checker.onBranch scope guard branch (body walk)

/-- How a statement ends. -/
inductive StatementOutcome where
  /-- Every path through the statement returns. -/
  | returned
  /-- The next statement sees a scope, and facts hold until the block ends. -/
  | continued (scope : Scope) (facts : Facts)
  deriving Repr, DecidableEq

/-- The outcome of a conditional, by which of its bodies return. -/
def finishChoice
    (scope : Scope)
    (guard : Expression)
    (positiveReturns negativeReturns : Bool) :
    Walking StatementOutcome := do
  setPending none
  if positiveReturns && negativeReturns then
    return .returned
  else if positiveReturns || negativeReturns then
    let facts ← checker.refineScope scope guard negativeReturns
    return .continued scope facts
  else
    return .continued scope {}

/-- The outcome of a switch with a default, by which of its bodies return. -/
def finishTotalSwitch
    (scope : Scope)
    (allReturn : Bool) :
    Walking StatementOutcome := do
  setPending none
  return if allReturn then .returned else .continued scope {}

/--
The outcome of a switch without default. It returns on every path when nothing
is left unhandled and all clauses return. When all clauses return but something
is left, the subject equals no label afterwards.
-/
def finishSwitch
    (scope : Scope)
    (coverage : Option Coverage)
    (noneMatched : Option Expression)
    (allReturn : Bool) :
    Walking StatementOutcome := do
  let residual : Option Exhaustiveness ←
    match coverage with
    | none => pure none
    | some coverage => pure (some (← checker.switchResidual coverage))
  if residual.any Exhaustiveness.exhaustive then
    setPending none
    return if allReturn then .returned else .continued scope {}
  else
    setPending residual
    match allReturn, noneMatched with
    | true, some guard =>
        return .continued scope (← checker.refineScope scope guard true)
    | _, _ => return .continued scope {}

/-- All labels of the clauses of a switch, in order. -/
def allLabels
    (clauses : List (Clause Statement)) :
    List CaseLabel :=
  clauses.flatMap Clause.labels

/-- The coverage of a switch with all its labels handled. -/
def handledCoverage
    (coverage : Option Coverage)
    (labels : List CaseLabel) :
    Option Coverage :=
  coverage.map fun coverage =>
    coverage.handleAll (labels.map CaseLabel.value)

mutual

/-- Walk one statement. -/
def walkStatement
    (result : Ty)
    (scope : Scope) :
    Statement →
    Walking StatementOutcome
  | .declare name ascription initial policy => do
      let scope ←
        checker.walkDeclaration scope name ascription initial policy
      return .continued scope {}
  | .inspect label expression => do
      let type ← checker.typeOf scope expression
      modify fun walk =>
        { walk with observations := walk.observations ++ [{ label, type }] }
      return .continued scope {}
  | .return value => do
      checker.walkReturn scope result value
      return .returned
  | .choose guard positive negative => do
      let positiveReturns ←
        checker.walkBranch scope (some guard) true
          (walkBlock result ([] :: scope) positive)
      let negativeReturns ←
        checker.walkBranch scope (some guard) false
          (walkBlock result ([] :: scope) negative)
      checker.finishChoice scope guard positiveReturns negativeReturns
  | .switch subject clauses otherwise => do
      let subjectType ← checker.typeOf scope subject
      let coverage ← checker.switchCoverage? scope subject subjectType
      let allReturn ← walkClauses result scope subject clauses
      let labels := allLabels clauses
      let noneMatched := noLabel subject labels
      match otherwise with
      | some body =>
          let returns ←
            checker.walkBranch scope noneMatched true
              (walkBlock result ([] :: scope) body)
          finishTotalSwitch scope (allReturn && returns)
      | none =>
          checker.finishSwitch scope (handledCoverage coverage labels)
            noneMatched allReturn

/--
Walk the statements of a block. The answer says whether every path through them
returns. Facts learned from a statement hold until the block ends.
-/
def walkBlock
    (result : Ty)
    (scope : Scope) :
    List Statement →
    Walking Bool
  | [] => return false
  | statement :: rest => do
      setPending none
      match ← walkStatement result scope statement with
      | .returned => return true
      | .continued scope facts =>
          walkWithFacts scope facts (walkBlock result scope rest)

/-- Walk the clauses of a switch. The answer says whether all of them return. -/
def walkClauses
    (result : Ty)
    (scope : Scope)
    (subject : Expression) :
    List (Clause Statement) →
    Walking Bool
  | [] => return true
  | clause :: rest => do
      let returns ←
        match anyLabel subject clause.labels with
        | none => pure true
        | some guard =>
            checker.walkBranch scope (some guard) true
              (walkBlock result ([] :: scope) clause.body)
      let restReturn ← walkClauses result scope subject rest
      return returns && restReturn

end

/-- The diagnostic that a function can end without returning. -/
def missingReturnDiagnostic
    (function : FunctionBody) :
    Diagnostic :=
  { stage := .exhaustive
    severity := .error
    code := .missingReturn
    message :=
      "function " ++ function.name ++
        " lacks an ending return statement and its return type " ++
        function.result.shown ++ " does not include undefined" }

/-- Report a body that can end without returning, where that is an error. -/
def reportFallOff
    (function : FunctionBody)
    (pending : Option Exhaustiveness) :
    Check Unit := do
  unless function.result.isAbsent do
    unless ← checker.isAssignable .undefined function.result do
      let reported ←
        match pending with
        | none => pure false
        | some result => checker.reportNonExhaustive result function.result {}
      unless reported do
        Check.report (missingReturnDiagnostic function)

/-- Check a function body. -/
def checkFunction
    (function : FunctionBody) :
    Check FunctionReport := do
  let (table, scope) := Scope.ofTypes function.parameters
  let walk :=
    checker.walkBlock function.result ([] :: scope) function.body
  let ((returns, walk), _) ← (walk.run {}).run table
  unless returns do
    checker.reportFallOff function walk.pending
  return { observations := walk.observations, fallsThrough := !returns }

end Checker

end StructuralTyping
