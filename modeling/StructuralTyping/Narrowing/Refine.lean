import StructuralTyping.Narrowing.Expression
import StructuralTyping.Narrowing.Facts
import StructuralTyping.Narrowing.Predicate

namespace StructuralTyping.Checker

/-!
# Refinement

What a guard proves about names on each of its branches. The right operand of a
logical operator is analysed under the facts of the left one, so that narrowing
composes in evaluation order.
-/

variable (checker : Checker)

/-- Narrow the type of a name that the view knows. -/
def refineName
    (view : View)
    (name : String)
    (narrow : Ty → Check Ty) :
    Check Facts := do
  match view.typeOf? name with
  | none => return {}
  | some type => return .single name (← narrow type)

/--
Whether a member of an object's type survives a test on one of its properties.
Members without the property survive; nullish ones read as `undefined` under
optional access and do not survive otherwise.
-/
def memberSurvives
    (property : String)
    (optional : Bool)
    (test : Ty → Check Ty)
    (member : Ty) :
    Check Bool := do
  let survives (type : Ty) : Check Bool := do
    return !(← checker.normalize (← test type)).isNever
  if isNullishOrVoid member then
    if optional then survives .undefined else return false
  else if isAnyOrUnknown member then
    return true
  else
    match ← checker.propertyOf member property with
    | none => return true
    | some type => survives type

/-- Narrow a name to the members whose property survives a test. -/
def refineProperty
    (view : View)
    (operand : Expression)
    (property : String)
    (optional : Bool)
    (test : Ty → Check Ty) :
    Check Facts :=
  match operand with
  | .name name =>
      refineName view name fun type => do
        let members ← checker.membersOf type
        let kept ←
          members.filterM (checker.memberSurvives property optional test)
        checker.normalize (.ofUnion kept)
  | _ => return {}

/--
The facts of comparing a subject with a constant. There are none when the two
have no form that narrows.
-/
def refineEquality?
    (view : View)
    (subject value : Expression)
    (equal loose : Bool) :
    Check (Option Facts) := do
  match value with
  | .constant type =>
      if type.isAbsent then
        return none
      else
        match subject, type with
        | .typeof (.name name), .literal _ (.string tag) =>
            return some
              (← refineName view name (checker.narrowTypeof tag.replaced equal))
        | .name name, _ =>
            return some
              (← refineName view name (checker.narrowEqual type equal loose))
        | .member operand property optional, _ =>
            return some
              (← checker.refineProperty view operand property optional
                (checker.narrowEqual type equal loose))
        | _, _ => return none
  | _ => return none

/-- The facts of a comparison, with either operand as its subject. -/
def refineComparison
    (view : View)
    (left right : Expression)
    (equal loose : Bool) :
    Check Facts := do
  match ← checker.refineEquality? view left right equal loose with
  | some facts => return facts
  | none =>
      return (← checker.refineEquality? view right left equal loose).getD {}

/--
The facts that hold on both of two paths. A name with a fact on only one of
them has none afterwards.
-/
def joinFacts
    (first second : Facts) :
    Check Facts := do
  let joined ← first.entries.filterMapM fun (name, type) => do
    match second.find? name with
    | none => return none
    | some other =>
        return some (name, ← checker.normalize (.ofUnion [type, other]))
  return { entries := joined }

/-- Whether an expression is a constant that is never truthy. -/
def neverTruthy
    (expression : Expression) :
    Check Bool := do
  match expression with
  | .constant type =>
      if type.isAbsent then
        return false
      else
        return (← checker.truthy type).isNever
  | _ => return false

/-- The facts that a guard proves on one of its branches. -/
def refine
    (checker : Checker)
    (view : View) :
    (guard : Expression) →
    (branch : Bool) →
    Check Facts
  | .name name, branch =>
      refineName view name (checker.truthiness branch)
  | .member operand property optional, branch =>
      checker.refineProperty view operand property optional
        (checker.truthiness branch)
  | .not operand, branch => checker.refine view operand (!branch)
  | .isArray (.name name), branch =>
      refineName view name (checker.narrowArray branch)
  | .instanceOf (.name name) instanceType, true =>
      refineName view name (checker.narrowInstance instanceType)
  | .binary .and left right, branch => do
      let positive ← checker.refine view left true
      if branch then
        return positive.overlay
          (← checker.refine (view.withFacts positive) right true)
      else
        let short ← checker.refine view left false
        let long ← checker.refine (view.withFacts positive) right false
        checker.joinFacts short (positive.overlay long)
  | .binary .or left right, branch => do
      let negative ← checker.refine view left false
      if branch then
        let short ← checker.refine view left true
        let long ← checker.refine (view.withFacts negative) right true
        checker.joinFacts short (negative.overlay long)
      else
        return negative.overlay
          (← checker.refine (view.withFacts negative) right false)
  | .binary .coalesce left right, branch => do
      if branch then
        if ← checker.neverTruthy right then
          checker.refine view left true
        else
          return {}
      else
        checker.refine view left false
  | .binary .strictEqual left right, branch =>
      checker.refineComparison view left right branch false
  | .binary .strictNotEqual left right, branch =>
      checker.refineComparison view left right (!branch) false
  | .binary .equal left right, branch =>
      checker.refineComparison view left right branch true
  | .binary .notEqual left right, branch =>
      checker.refineComparison view left right (!branch) true
  | .conditional test positive negative, branch => do
      let onTrue ← checker.refine view test true
      let onFalse ← checker.refine view test false
      let first ← checker.refine (view.withFacts onTrue) positive branch
      let second ← checker.refine (view.withFacts onFalse) negative branch
      checker.joinFacts (onTrue.overlay first) (onFalse.overlay second)
  | _, _ => return {}

end StructuralTyping.Checker
