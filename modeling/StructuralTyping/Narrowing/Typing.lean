import StructuralTyping.Narrowing.Binding
import StructuralTyping.Narrowing.Refine

namespace StructuralTyping

/-!
# Typing of expressions

The static type of an expression in a scope. Operands that are only evaluated
on one branch of a guard are typed with the bindings narrowed for that branch;
the frames pushed for it are dropped again afterwards.
-/

/-- A computation that may narrow bindings for a while. -/
abbrev Narrowing :=
  StateT BindingTable Check

namespace Checker

variable (checker : Checker)

/-- The facts that a guard proves about the bindings of a scope. -/
def refineScope
    (scope : Scope)
    (guard : Expression)
    (branch : Bool) :
    Narrowing Facts := do
  checker.refine (scope.view (← get)) guard branch

/-- The type of a binding on a branch of a guard; other names are unknown. -/
def narrow
    (binding : Binding)
    (guard : Expression)
    (branch : Bool) :
    Check Ty := do
  let facts ← checker.refine binding.view guard branch
  return (facts.find? binding.name).getD binding.current

/-- Run a body with bindings narrowed by facts. -/
def withFacts
    (scope : Scope)
    (facts : Facts)
    (body : Narrowing α) :
    Narrowing α := do
  let (frames, table) := (← get).pushFacts scope facts
  set table
  let result ← body
  modify fun table => BindingTable.restoreAll table frames
  return result

/-- Run a body with bindings narrowed for one branch of a guard. -/
def onBranch
    (scope : Scope)
    (guard : Expression)
    (branch : Bool)
    (body : Narrowing α) :
    Narrowing α := do
  withFacts scope (← checker.refineScope scope guard branch) body

/-- Report a finding of the narrowing stage. -/
def reportNarrowing
    (code : Code)
    (message : String) :
    Check Unit :=
  Check.report { stage := .narrow, severity := .error, code, message }

/-- The type of a name in a scope. -/
def typeOfName
    (scope : Scope)
    (name : String) :
    Narrowing Ty := do
  match (scope.view (← get)).lookup name with
  | some type => return type
  | none =>
      reportNarrowing .undefinedBinding
        ("cannot find name " ++ Text.quoted name)
      return .unknown

/-- The type of reading a property; one that does not exist is reported. -/
def readProperty
    (type : Ty)
    (property : String) :
    Check Ty := do
  match ← checker.propertyOf type property with
  | some found => return found
  | none =>
      reportNarrowing .unknownProperty
        ("property " ++ Text.quoted property ++ " does not exist on type " ++
          type.shown)
      return .unknown

/-- The type of a property access on a value of a type. -/
def memberType
    (type : Ty)
    (property : String)
    (optional : Bool) :
    Check Ty := do
  if optional then
    let present ← checker.normalize type.nonNullable
    if present.isNever then
      return .undefined
    else
      checker.normalize (← checker.readProperty present property).optional
  else
    checker.readProperty type property

/-- The static type of an expression in a scope. -/
def typeOf
    (checker : Checker)
    (scope : Scope) :
    Expression →
    Narrowing Ty
  | .name name => typeOfName scope name
  | .constant type => return type.orElse .unknown
  | .typeof operand => do
      checker.typeofResult (← checker.typeOf scope operand)
  | .instanceOf _ _ => return .boolean
  | .isArray _ => return .boolean
  | .not _ => return .boolean
  | .member operand property optional => do
      checker.memberType (← checker.typeOf scope operand) property optional
  | .binary .and left right => do
      let leftType ← checker.typeOf scope left
      let rightType ←
        checker.onBranch scope left true (checker.typeOf scope right)
      checker.normalize (.ofUnion [rightType, ← checker.falsy leftType])
  | .binary .or left right => do
      let leftType ← checker.typeOf scope left
      let rightType ←
        checker.onBranch scope left false (checker.typeOf scope right)
      checker.normalize (.ofUnion [← checker.truthy leftType, rightType])
  | .binary .coalesce left right => do
      let leftType ← checker.normalize (← checker.typeOf scope left)
      let rightType ← checker.typeOf scope right
      checker.coalesced leftType rightType
  | .binary _ left right => do
      let _ ← checker.typeOf scope left
      let _ ← checker.typeOf scope right
      return .boolean
  | .conditional test positive negative => do
      let first ←
        checker.onBranch scope test true (checker.typeOf scope positive)
      let second ←
        checker.onBranch scope test false (checker.typeOf scope negative)
      checker.normalize (.ofUnion [first, second])

end Checker

end StructuralTyping
