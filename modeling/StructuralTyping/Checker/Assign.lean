import StructuralTyping.Checker.Member
import StructuralTyping.Checker.Reason

namespace StructuralTyping

/-!
# Assignability

A source type is assignable to a target type when every value of the source may
be used where the target is expected. The comparison follows both types side by
side. Pairs of references and of objects that are under comparison already
close a cycle and are assumed to hold. A comparison that nests deeper than the
bound of the checker fails and is reported once.
-/

/-- The pairs under comparison. -/
structure Assumptions where
  references : List (Ty × Ty) := []
  objects : List (Ty × Ty) := []
  deriving Repr, DecidableEq

/-- What a comparison leaves behind: reasons, and whether it went too deep. -/
structure Findings where
  /-- The reasons of failed comparisons, innermost first. -/
  reasons : List Reason := []
  tooComplex : Bool := false
  deriving Repr, DecidableEq

/-- A comparison that collects its findings. -/
abbrev Relating :=
  StateT Findings Check

namespace Relating

/-- Fail for a reason. -/
def fail
    (reason : Reason) :
    Relating Bool := do
  modify fun findings =>
    { findings with reasons := findings.reasons ++ [reason] }
  return false

/-- Explain a failed comparison by one more reason. -/
def orFail
    (comparison : Relating Bool)
    (reason : Reason) :
    Relating Bool := do
  if ← comparison then
    return true
  else
    fail reason

/-- Drop all reasons but the first few. -/
def keepReasons
    (count : Nat) :
    Relating Unit :=
  modify fun findings =>
    { findings with reasons := findings.reasons.take count }

/-- Run a comparison and drop its reasons when it succeeds. -/
def attempt
    (comparison : Relating Bool) :
    Relating Bool := do
  let mark := (← get).reasons.length
  let holds ← comparison
  if holds then
    keepReasons mark
  return holds

/-- Run a comparison and drop its reasons, whether it succeeds or fails. -/
def silently
    (comparison : Relating Bool) :
    Relating Bool := do
  let mark := (← get).reasons.length
  let holds ← comparison
  keepReasons mark
  return holds

/-- Every comparison of a list succeeds; the first failure ends the run. -/
def allOf :
    List (Relating Bool) →
    Relating Bool
  | [] => return true
  | comparison :: rest => do
      if ← comparison then
        allOf rest
      else
        return false

/-- Some comparison of a list succeeds; failures leave no reasons. -/
def anyOf :
    List (Relating Bool) →
    Relating Bool
  | [] => return false
  | comparison :: rest => do
      if ← silently comparison then
        return true
      else
        anyOf rest

end Relating

/-- Compares a source with a target under some assumptions. -/
abbrev Comparison :=
  Assumptions → (source target : Ty) → Relating Bool

/-- One level of the comparison, in terms of the comparison of parts. -/
structure RelationStep where
  checker : Checker
  /-- The nesting depth of the parts. -/
  depth : Nat
  /-- How parts are compared. -/
  compare : Comparison

namespace RelationStep

open Relating

variable (step : RelationStep)

/-- What a reference stands for. -/
def expandReference
    (type : Ty) :
    Relating (Except Reason Ty) :=
  match type with
  | .named reference =>
      match step.checker.arena.definition reference with
      | .absent => return .error (.undefinedName reference.name)
      | definition => return .ok definition
  | .generic _ application => do
      match ← (step.checker.evaluation.evaluate application step.depth).run with
      | .ok type => return .ok type
      | .error error => return .error (.failedEvaluation error)
  | _ => return .ok type

/--
Compare what two references stand for. The pair is under comparison meanwhile;
pairs are recognized by structural identity.
-/
def viaReference
    (assumptions : Assumptions)
    (source target : Ty) :
    Relating Bool := do
  let identical := step.checker.arena.identical
  if identical source target then
    return true
  else if assumptions.references.any fun (first, second) =>
      identical first source && identical second target then
    return true
  else
    let assumptions :=
      { assumptions with
        references := assumptions.references ++ [(source, target)] }
    match ← step.expandReference source with
    | .error reason => fail reason
    | .ok expandedSource =>
        match ← step.expandReference target with
        | .error reason => fail reason
        | .ok expandedTarget =>
            step.compare assumptions expandedSource expandedTarget

/-- Every member of a source union has to be assignable. -/
def fromUnion
    (assumptions : Assumptions)
    (source target : Ty) :
    Relating Bool := do
  match ← step.checker.evaluation.normalizeOperand step.depth source with
  | .union _ members =>
      allOf (members.map fun member =>
        orFail (step.compare assumptions member target)
          (.unionMember member target))
  | normalized => step.compare assumptions normalized target

/-- Some member of a target union has to accept the source. -/
def toUnion
    (assumptions : Assumptions)
    (source target : Ty) :
    Relating Bool := do
  match ← step.checker.evaluation.normalizeOperand step.depth target with
  | .union _ members =>
      orFail
        (anyOf (members.map fun member =>
          step.compare assumptions source member))
        (.noUnionMember source target)
  | normalized => step.compare assumptions source normalized

/-- Every member of a target intersection has to accept the source. -/
def toIntersection
    (assumptions : Assumptions)
    (source target : Ty) :
    Relating Bool := do
  match ← step.checker.evaluation.normalizeOperand step.depth target with
  | .intersection _ members =>
      allOf (members.map fun member =>
        orFail (step.compare assumptions source member)
          (.intersectionMember member))
  | normalized => step.compare assumptions source normalized

/--
Some member of a source intersection has to be assignable, or the merged
members together.
-/
def fromIntersection
    (assumptions : Assumptions)
    (source target : Ty) :
    Relating Bool := do
  match ← step.checker.evaluation.normalizeOperand step.depth source with
  | .intersection _ members =>
      if ← anyOf (members.map fun member =>
          step.compare assumptions member target) then
        return true
      else
        match ← step.checker.evaluation.mergeMembers step.depth members with
        | some merged => step.compare assumptions merged target
        | none => fail (.noIntersectionMember source target)
  | normalized => step.compare assumptions normalized target

/-- Compare with a primitive target. -/
def toPrimitive
    (source : Ty)
    (kind : Primitive) :
    Relating Bool :=
  let accepted : Bool :=
    match source with
    | .primitive actual =>
        actual == kind || kind == .void && actual == .undefined
    | .literal _ value => value.base == kind
    | _ => false
  if accepted then
    return true
  else
    fail (.notAssignable source (.primitive kind))

/-- Compare with a literal target. -/
def toLiteral
    (source target : Ty)
    (value : Literal) :
    Relating Bool :=
  let accepted : Bool :=
    match source with
    | .literal _ actual => actual.equal value
    | _ => false
  if accepted then
    return true
  else
    fail (.notTheLiteral source target)

/-- Compare one property of the target with the members of the source. -/
def toProperty
    (assumptions : Assumptions)
    (source target : Ty)
    (members : Shape Ty)
    (property : Property Ty) :
    Relating Bool :=
  match members.property? property.name with
  | none =>
      if property.optional then
        return true
      else
        fail (.missingProperty property.name source)
  | some actual =>
      if actual.optional && !property.optional then
        fail (.optionalProperty property.name source target)
      else
        let expected :=
          if property.optional then
            property.type.optional
          else
            property.type
        orFail (step.compare assumptions actual.type expected)
          (.inProperty property.name)

/-- Compare the members of the source with the index signature of the target. -/
def toIndex
    (assumptions : Assumptions)
    (members : Shape Ty)
    (index : IndexSignature Ty) :
    Relating Bool := do
  let governed :=
    members.properties.filter fun property =>
      indexApplies index.key property.name
  let propertiesFit ←
    allOf (governed.map fun property =>
      orFail (step.compare assumptions property.type index.value)
        (.outsideIndex property.name index.value))
  if propertiesFit then
    match members.index with
    | none => return true
    | some actual =>
        orFail (step.compare assumptions actual.value index.value)
          (.indexValue actual.value index.value)
  else
    return false

/-- Compare the members of the source with an object shape. -/
def toMembers
    (assumptions : Assumptions)
    (source target : Ty)
    (members shape : Shape Ty) :
    Relating Bool := do
  let propertiesFit ←
    allOf (shape.properties.map
      (step.toProperty assumptions source target members))
  if propertiesFit then
    match shape.index with
    | none => return true
    | some index => step.toIndex assumptions members index
  else
    return false

/-- Whether a type is an object type. -/
def isObject :
    Ty →
    Bool
  | .object _ _ => true
  | _ => false

/-- Whether a pair of objects is under comparison. -/
def underComparison
    (assumptions : Assumptions)
    (source target : Ty) :
    Bool :=
  assumptions.objects.any fun (first, second) =>
    first.sameNode source && second.sameNode target

/-- Compare with an object target. -/
def toObject
    (assumptions : Assumptions)
    (source target : Ty)
    (shape : Shape Ty) :
    Relating Bool := do
  if source.isNullish || source.isPrimitive .void then
    fail (.notAnObject source)
  else if shape.isEmpty then
    return true
  else
    match ← step.checker.apparent source with
    | none => fail (.noProperties source)
    | some members =>
        if isObject source then
          if underComparison assumptions source target then
            return true
          else
            let assumptions :=
              { assumptions with
                objects := (source, target) :: assumptions.objects }
            step.toMembers assumptions source target members shape
        else
          step.toMembers assumptions source target members shape

/-- Compare the elements of a sequence with one element type. -/
def elementsTo
    (assumptions : Assumptions)
    (element : Ty) :
    (position : Nat) →
    List Ty →
    List (Relating Bool)
  | _, [] => []
  | position, type :: rest =>
      orFail (step.compare assumptions type element)
          (.inTupleElement position) ::
        elementsTo assumptions element (position + 1) rest

/-- Compare with an array target. Elements are compared covariantly. -/
def toArray
    (assumptions : Assumptions)
    (source target : Ty)
    (element : Ty)
    (readonly : Bool) :
    Relating Bool :=
  match source with
  | .array _ actual actualReadonly =>
      if actualReadonly && !readonly then
        fail (.readonlySource source target)
      else
        orFail (step.compare assumptions actual element) .inArrayElement
  | .tuple _ elements actualReadonly =>
      if actualReadonly && !readonly then
        fail (.readonlySource source target)
      else
        allOf (step.elementsTo assumptions element 0 elements)
  | _ => fail (.notAnArray source)

/-- Compare the elements of two tuples position by position. -/
def elementPairs
    (assumptions : Assumptions) :
    (position : Nat) →
    List Ty →
    List Ty →
    List (Relating Bool)
  | position, first :: firstRest, second :: secondRest =>
      orFail (step.compare assumptions first second)
          (.inTupleElement position) ::
        elementPairs assumptions (position + 1) firstRest secondRest
  | _, _, _ => []

/-- Compare with a tuple target. -/
def toTuple
    (assumptions : Assumptions)
    (source target : Ty)
    (elements : List Ty)
    (readonly : Bool) :
    Relating Bool :=
  match source with
  | .tuple _ actual actualReadonly =>
      if actualReadonly && !readonly then
        fail (.readonlySource source target)
      else if actual.length ≠ elements.length then
        fail (.tupleLength actual.length elements.length)
      else
        allOf (step.elementPairs assumptions 0 actual elements)
  | _ => fail (.notATuple source)

/--
Compare a parameter with the argument it will be given. Plain functions are
contravariant, method signatures accept either direction.
-/
def toArgument
    (assumptions : Assumptions)
    (bivariant : Bool)
    (parameter argument : Ty) :
    Relating Bool := do
  if bivariant then
    if ← attempt (step.compare assumptions argument parameter) then
      return true
    else
      step.compare assumptions parameter argument
  else
    step.compare assumptions argument parameter

/-- Compare the parameters of a source with those that the target supplies. -/
def suppliedParameters
    (assumptions : Assumptions)
    (bivariant : Bool)
    (target : Signature Ty) :
    (position : Nat) →
    List (Parameter Ty) →
    List (Relating Bool)
  | _, [] => []
  | position, parameter :: rest =>
      let supplied : Option Ty :=
        match target.parameters[position]? with
        | some other => some other.type
        | none =>
            if target.rest.isAbsent then none else some target.rest
      let comparison : Relating Bool :=
        match supplied with
        | some argument =>
            orFail
              (step.toArgument assumptions bivariant parameter.type argument)
              (.inParameter position)
        | none =>
            if parameter.optional then
              return true
            else
              fail (.unsuppliedParameter position target.parameters.length)
      comparison ::
        suppliedParameters assumptions bivariant target (position + 1) rest

/-- Compare a rest parameter with the supplied parameters from a position on. -/
def restParameters
    (assumptions : Assumptions)
    (bivariant : Bool)
    (rest : Ty) :
    (position : Nat) →
    List (Parameter Ty) →
    List (Relating Bool)
  | _, [] => []
  | position, parameter :: others =>
      orFail (step.toArgument assumptions bivariant rest parameter.type)
          (.inRestParameterAt position) ::
        restParameters assumptions bivariant rest (position + 1) others

/-- Compare the rest parameter of a source, if it has one. -/
def restTo
    (assumptions : Assumptions)
    (bivariant : Bool)
    (source target : Signature Ty) :
    List (Relating Bool) :=
  if source.rest.isAbsent then
    []
  else
    let count := source.parameters.length
    let positions :=
      step.restParameters assumptions bivariant source.rest count
        (target.parameters.drop count)
    let rests :=
      if target.rest.isAbsent then
        []
      else
        [orFail
          (step.toArgument assumptions bivariant source.rest target.rest)
          .inRestParameter]
    positions ++ rests

/-- Compare results. A target without result accepts every source. -/
def resultTo
    (assumptions : Assumptions)
    (source target : Ty) :
    Relating Bool :=
  if target.isAbsent || target.isPrimitive .void then
    return true
  else
    orFail (step.compare assumptions (source.orElse .void) target)
      .inReturnType

/-- Compare with a function target. -/
def toFunction
    (assumptions : Assumptions)
    (source : Ty)
    (target : Signature Ty) :
    Relating Bool :=
  match source with
  | .function _ signature =>
      let bivariant := signature.method || target.method
      allOf
        (step.suppliedParameters assumptions bivariant target 0
            signature.parameters ++
          step.restTo assumptions bivariant signature target ++
          [step.resultTo assumptions signature.result target.result])
  | _ => fail (.notCallable source)

/-- Compare two structural types that are no unions or intersections. -/
def compareShapes
    (assumptions : Assumptions)
    (source target : Ty) :
    Relating Bool :=
  match target with
  | .primitive kind => toPrimitive source kind
  | .literal _ value => toLiteral source target value
  | .object _ shape => step.toObject assumptions source target shape
  | .array _ element readonly =>
      step.toArray assumptions source target element readonly
  | .tuple _ elements readonly =>
      step.toTuple assumptions source target elements readonly
  | .function _ signature => step.toFunction assumptions source signature
  | _ => fail (.notAssignable source target)

/-- Whether a type is an intersection. -/
def isIntersection :
    Ty →
    Bool
  | .intersection _ _ => true
  | _ => false

/-- Compare two types below the depth bound. -/
def relate
    (assumptions : Assumptions)
    (source target : Ty) :
    Relating Bool :=
  if source.isPrimitive .any || target.isPrimitive .any then
    return true
  else if target.isPrimitive .unknown || source.isPrimitive .never then
    return true
  else if source.isReference || target.isReference then
    step.viaReference assumptions source target
  else if source.isPrimitive .unknown then
    fail .unknownSource
  else if target.isPrimitive .never then
    fail .neverTarget
  else if !step.checker.options.strictNullChecks && source.isNullish then
    return true
  else if source.isUnion then
    step.fromUnion assumptions source target
  else if target.isUnion then
    step.toUnion assumptions source target
  else if isIntersection target then
    step.toIntersection assumptions source target
  else if isIntersection source then
    step.fromIntersection assumptions source target
  else
    step.compareShapes assumptions source target

end RelationStep

namespace Checker

/-- Fail because of the depth bound, and report the first such failure. -/
def failAtBound
    (checker : Checker)
    (target : Ty) :
    Relating Bool := do
  unless (← get).tooComplex do
    modify fun findings => { findings with tooComplex := true }
    checker.reportTooComplex .assign target
  Relating.fail (.depthBound checker.options.maxDepth)

/--
Compare a source with a target. `remaining` is the distance to the depth
bound. A type left out counts as `unknown`.
-/
def compareWithin
    (checker : Checker) :
    (remaining : Nat) →
    Comparison
  | remaining, assumptions, source, target =>
      let source := source.orElse .unknown
      let target := target.orElse .unknown
      if source.sameNode target then
        return true
      else
        match remaining with
        | 0 => checker.failAtBound target
        | remaining + 1 =>
            RelationStep.relate
              { checker
                depth := checker.options.maxDepth - remaining
                compare := compareWithin checker remaining }
              assumptions source target

/-- Compare two types from scratch. -/
def compare
    (checker : Checker)
    (source target : Ty) :
    Check (Bool × Findings) :=
  (checker.compareWithin checker.options.maxDepth {} source target).run {}

/--
Whether a value of the source type may be used where the target type is
expected. Types that cannot be resolved or nest too deep are not assignable.
-/
def isAssignable
    (checker : Checker)
    (source target : Ty) :
    Check Bool := do
  return (← checker.compare source target).1

/-- Assignability with an explanation of the failure. -/
def assign
    (checker : Checker)
    (source target : Ty) :
    Check (Option Mismatch) := do
  let (holds, findings) ← checker.compare source target
  if holds then
    return none
  else
    return some { source, target, reasons := findings.reasons.reverse }

end Checker

end StructuralTyping
