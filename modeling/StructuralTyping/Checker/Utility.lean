import StructuralTyping.Checker.Normalize

namespace StructuralTyping

/-!
# References and utilities

Names are followed to their definitions and utility applications are evaluated
until a structural type is reached. A utility maps its base to a new type:
`Pick`, `Omit`, `Partial`, `Required` and `Readonly` work on objects,
`ReturnType` and `Parameters` on functions, `NonNullable` on any type.
-/

/-- The utilities that can be applied. -/
inductive Utility where
  | pickKeys
  | omitKeys
  | allOptional
  | allRequired
  | allReadonly
  | returnType
  | parameters
  | nonNullable
  deriving Repr, DecidableEq

namespace Utility

/-- The name a utility is written with. -/
def name :
    Utility →
    String
  | pickKeys => "Pick"
  | omitKeys => "Omit"
  | allOptional => "Partial"
  | allRequired => "Required"
  | allReadonly => "Readonly"
  | returnType => "ReturnType"
  | parameters => "Parameters"
  | nonNullable => "NonNullable"

/-- Every utility. -/
def all : List Utility :=
  [pickKeys, omitKeys, allOptional, allRequired, allReadonly, returnType, parameters,
    nonNullable]

/-- The utility of the given name. -/
def ofName?
    (name : String) :
    Option Utility :=
  all.find? fun utility => utility.name == name

end Utility

/-- The properties named by some keys, in their own order. -/
def Shape.pick
    (shape : Shape Ty)
    (keys : List String) :
    Shape Ty :=
  { properties :=
      shape.properties.filter fun property => keys.contains property.name }

/-- All but the properties named by some keys, with the index signature. -/
def Shape.without
    (shape : Shape Ty)
    (keys : List String) :
    Shape Ty :=
  { shape with
    properties :=
      shape.properties.filter fun property => !keys.contains property.name }

/-- Change every property of a shape. -/
def Shape.mapProperties
    (shape : Shape Ty)
    (change : Property Ty → Property Ty) :
    Shape Ty :=
  { shape with properties := shape.properties.map change }

/-- The parameter types of a signature; optional ones include `undefined`. -/
def Signature.parameterTypes
    (signature : Signature Ty) :
    List Ty :=
  signature.parameters.map fun parameter =>
    if parameter.optional then parameter.type.optional else parameter.type

/-- What evaluation of references works with. -/
structure Evaluation where
  checker : Checker
  /-- How nested utility applications are evaluated. -/
  evaluate : Evaluator
  /-- The budget of each normalization. -/
  budget : Nat

namespace Evaluation

variable (evaluation : Evaluation)

/-- Normalize a type met at a depth, evaluating applications. -/
def normalizeAt
    (depth : Nat)
    (type : Ty) :
    Check Ty :=
  normalizeIn
    { checker := evaluation.checker
      evaluate := evaluation.evaluate
      keepReferences := false }
    evaluation.budget depth type

/-- Normalize a type met at a depth, leaving applications unevaluated. -/
def normalizeOperand
    (depth : Nat)
    (type : Ty) :
    Check Ty :=
  normalizeIn
    { checker := evaluation.checker
      evaluate := evaluation.evaluate
      keepReferences := true }
    evaluation.budget depth type

/--
Follow names and evaluate applications until neither is left. `remaining` is
the distance to the depth bound.
-/
def resolveWithin :
    (remaining depth : Nat) →
    Ty →
    Evaluate Ty
  | 0, _, type => evaluation.checker.failTooComplex type
  | remaining + 1, depth, .named reference =>
      match evaluation.checker.arena.definition reference with
      | .absent =>
          throw { utility := "", cause := .undefinedName reference.name }
      | type => resolveWithin remaining (depth + 1) type
  | remaining + 1, depth, .generic _ application => do
      let type ← evaluation.evaluate application (depth + 1)
      resolveWithin remaining (depth + 1) type
  | _ + 1, _, type => return type

/-- The number of steps from a depth until the bound is exceeded. -/
def remainingFrom
    (depth : Nat) :
    Nat :=
  evaluation.checker.options.maxDepth + 1 - depth

/-- Follow names and evaluate applications until neither is left. -/
def resolve
    (depth : Nat)
    (type : Ty) :
    Evaluate Ty :=
  evaluation.resolveWithin (evaluation.remainingFrom depth) depth type

/--
Expand the references among the members of an intersection and normalize the
result. There is none when no member could be expanded.
-/
def mergeMembers
    (depth : Nat)
    (members : List Ty) :
    Check (Option Ty) := do
  if members.any Ty.isReference then
    let expand (member : Ty) : Evaluate Ty :=
      if member.isReference then
        evaluation.resolve depth member
      else
        return member
    match ← (members.mapM expand).run with
    | .error _ => return none
    | .ok members =>
        return some
          (← evaluation.normalizeAt (depth + 1) (.ofIntersection members))
  else
    return none

/--
Normalize a union or an intersection met at a depth; an intersection of
references is merged by expanding its members one level.
-/
def normalizeMerged
    (depth : Nat)
    (type : Ty) :
    Check Ty := do
  match ← evaluation.normalizeAt depth type with
  | .intersection occurrence members =>
      match ← evaluation.mergeMembers depth members with
      | some merged => return merged
      | none => return .intersection occurrence members
  | type => return type

/-- The structural type behind a type. `remaining` is as in `resolveWithin`. -/
def structuralWithin :
    (remaining depth : Nat) →
    Ty →
    Evaluate Ty
  | remaining, depth, type => do
      let type ← evaluation.resolve depth type
      match type with
      | .union _ _ | .intersection _ _ =>
          let type ← evaluation.normalizeMerged (depth + 1) type
          if type.isReference then
            match remaining with
            | 0 => Check.exhausted
            | remaining + 1 => structuralWithin remaining (depth + 1) type
          else
            return type
      | _ => return type

/--
The structural type behind a type: references are followed, and unions and
intersections are normalized.
-/
def structural
    (depth : Nat)
    (type : Ty) :
    Evaluate Ty :=
  evaluation.structuralWithin (evaluation.remainingFrom depth) depth type

/-- Fail with a cause that belongs to a utility. -/
def failUtility
    (utility : String)
    (cause : UtilityCause) :
    Evaluate α :=
  throw { utility, cause }

/-- The object behind the base of a utility. -/
def objectBase
    (utility : String)
    (depth : Nat)
    (base : Ty) :
    Evaluate (Shape Ty) := do
  match ← evaluation.structural (depth + 1) base with
  | .object _ shape => return shape
  | _ => failUtility utility (.notObject base)

/-- The function behind the base of a utility. -/
def functionBase
    (utility : String)
    (depth : Nat)
    (base : Ty) :
    Evaluate (Signature Ty) := do
  match ← evaluation.structural (depth + 1) base with
  | .function _ signature => return signature
  | _ => failUtility utility (.notFunction base)

/-- One key of a key set: a string literal. -/
def keyOf
    (utility : String)
    (key : Ty) :
    Evaluate Text.RawText :=
  match key with
  | .literal _ (.string text) => return text
  | _ => failUtility utility (.notStringKey key)

/-- The keys of a key set: a string literal, a union of them, or `never`. -/
def keySet
    (utility : String)
    (keys : Ty) :
    Evaluate (List Text.RawText) :=
  if keys.isNever then
    return []
  else
    match keys with
    | .named reference =>
        match evaluation.checker.arena.resolve keys Arena.defaultHops with
        | .resolved keys => keys.members.mapM (keyOf utility)
        | .unresolved _ => failUtility utility (.unresolvedKeySet reference)
    | _ => keys.members.mapM (keyOf utility)

/-- Read the base and the keys of `Pick` and `Omit`. -/
def keyedBase
    (application : Application Ty)
    (depth : Nat) :
    Evaluate (Shape Ty × List Text.RawText) := do
  match application.arguments with
  | [keys] =>
      let shape ←
        evaluation.objectBase application.utility depth application.base
      let keys ← evaluation.keySet application.utility keys
      return (shape, keys)
  | arguments =>
      failUtility application.utility (.keySetExpected (arguments.length + 1))

/-- Refuse arguments besides the base. -/
def expectNoArguments
    (application : Application Ty) :
    Evaluate Unit :=
  if application.arguments.isEmpty then
    return ()
  else
    failUtility application.utility
      (.singleArgumentExpected (application.arguments.length + 1))

/-- Apply `Pick`: every key has to name a property. -/
def applyPick
    (application : Application Ty)
    (depth : Nat) :
    Evaluate Ty := do
  let (shape, keys) ← evaluation.keyedBase application depth
  match keys.find? fun key => (key.string?.bind shape.property?).isNone with
  | some key =>
      failUtility Utility.pickKeys.name (.unknownKey key (.ofShape shape))
  | none => return .ofShape (shape.pick (keys.filterMap Text.RawText.string?))

/-- Apply `Omit`. -/
def applyOmit
    (application : Application Ty)
    (depth : Nat) :
    Evaluate Ty := do
  let (shape, keys) ← evaluation.keyedBase application depth
  return .ofShape (shape.without (keys.filterMap Text.RawText.string?))

/-- Apply `Partial` or `Required`. -/
def applyOptional
    (application : Application Ty)
    (optional : Bool)
    (depth : Nat) :
    Evaluate Ty := do
  expectNoArguments application
  let shape ←
    evaluation.objectBase application.utility depth application.base
  return .ofShape
    (shape.mapProperties fun property => { property with optional })

/-- Apply `Readonly`. -/
def applyReadonly
    (application : Application Ty)
    (depth : Nat) :
    Evaluate Ty := do
  expectNoArguments application
  match ← evaluation.structural (depth + 1) application.base with
  | .array _ element _ => return .array none element true
  | .tuple _ elements _ => return .tuple none elements true
  | .object _ shape =>
      return .ofShape
        (shape.mapProperties fun property =>
          { property with readonly := true })
  | _ => failUtility application.utility (.notContainer application.base)

/-- Apply `ReturnType`. -/
def applyReturnType
    (application : Application Ty)
    (depth : Nat) :
    Evaluate Ty := do
  expectNoArguments application
  let signature ←
    evaluation.functionBase application.utility depth application.base
  return signature.result.orElse .void

/-- Apply `Parameters`. -/
def applyParameters
    (application : Application Ty)
    (depth : Nat) :
    Evaluate Ty := do
  expectNoArguments application
  let signature ←
    evaluation.functionBase application.utility depth application.base
  return .tuple none signature.parameterTypes false

/-- Apply `NonNullable`. -/
def applyNonNullable
    (application : Application Ty)
    (depth : Nat) :
    Evaluate Ty := do
  expectNoArguments application
  let type ← evaluation.structural (depth + 1) application.base
  evaluation.normalizeAt (depth + 1) type.nonNullable

/-- Apply a utility by name. -/
def apply
    (application : Application Ty)
    (depth : Nat) :
    Evaluate Ty :=
  if application.base.isAbsent then
    failUtility application.utility .missingBase
  else if evaluation.checker.options.maxDepth < depth then
    evaluation.checker.failTooComplex (.generic none application)
  else
    match Utility.ofName? application.utility with
    | some .pickKeys => evaluation.applyPick application depth
    | some .omitKeys => evaluation.applyOmit application depth
    | some .allOptional => evaluation.applyOptional application true depth
    | some .allRequired => evaluation.applyOptional application false depth
    | some .allReadonly => evaluation.applyReadonly application depth
    | some .returnType => evaluation.applyReturnType application depth
    | some .parameters => evaluation.applyParameters application depth
    | some .nonNullable => evaluation.applyNonNullable application depth
    | none =>
        failUtility application.utility
          (.unrecognised application.utility)

end Evaluation

namespace Checker

/--
Evaluate a utility application met at a depth. Each nested evaluation works
with one unit of budget less.
-/
def evaluateWithin
    (checker : Checker) :
    (budget : Nat) →
    Evaluator
  | 0, _, _ => Check.exhausted
  | budget + 1, application, depth =>
      Evaluation.apply
        { checker, evaluate := evaluateWithin checker budget, budget }
        application depth

/-- The evaluation of references with the whole budget of a checker. -/
def evaluation
    (checker : Checker) :
    Evaluation :=
  { checker
    evaluate := checker.evaluateWithin checker.budget
    budget := checker.budget }

/-- The canonical form of a type. -/
def normalize
    (checker : Checker)
    (type : Ty) :
    Check Ty :=
  checker.evaluation.normalizeAt 0 type

/-- The structural type behind a type met at a depth. -/
def structural
    (checker : Checker)
    (depth : Nat)
    (type : Ty) :
    Check (Except UtilityError Ty) :=
  (checker.evaluation.structural depth type).run

/--
Resolve the references in a type and normalize it. A type that cannot be
resolved is returned as it is.
-/
def expand
    (checker : Checker)
    (type : Ty) :
    Check Ty := do
  match ← checker.structural 0 type with
  | .ok expanded => return expanded
  | .error _ => return type

/-- Apply a utility to a base and arguments. Failures are reported too. -/
def applyUtility
    (checker : Checker)
    (application : Application Ty) :
    Check (Except UtilityError Ty) := do
  match ← (checker.evaluation.evaluate application 0).run with
  | .ok type => return .ok type
  | .error error =>
      reportFailure error
      return .error error

end Checker

end StructuralTyping
