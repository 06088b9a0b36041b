import StructuralTyping.Checker.Coverage
import StructuralTyping.Ty.Typeof

namespace StructuralTyping.Checker

/-!
# Narrowing of a single type

What remains of a type once a test on its value is known to succeed or to fail.
Each test is applied to the members of the type one by one.
-/

variable (checker : Checker)

/-- The normalized members of a type; a reference to a union is expanded. -/
def membersOf
    (type : Ty) :
    Check (List Ty) := do
  let normalized ← checker.normalize type
  if normalized.isReference then
    match ← checker.expand normalized with
    | .union _ members => return members
    | _ => return [normalized]
  else
    return normalized.members

/--
Narrow one member of a type. `boolean` is narrowed as its two constants and
stays whole when both of them do.
-/
def narrowMember
    (narrow : Ty → Check Ty)
    (member : Ty) :
    Check (List Ty) := do
  if member.isPrimitive .boolean then
    let constant (value : Bool) : Ty := .ofLiteral (.boolean value)
    let positive ← narrow (constant true)
    let negative ← narrow (constant false)
    if positive = constant true ∧ negative = constant false then
      return [.boolean]
    else
      return [positive, negative]
  else
    return [← narrow member]

/--
Narrow every member of a type and normalize the union of what remains. A
member is dropped by narrowing it to `absent`.
-/
def narrowMembers
    (type : Ty)
    (narrow : Ty → Check Ty) :
    Check Ty := do
  let members ← checker.membersOf type
  let narrowed ← members.mapM (narrowMember narrow)
  checker.normalize
    (.ofUnion (narrowed.flatten.filter fun member => !member.isAbsent))

/-- The member itself, or `absent` when it is dropped. -/
def keepIf
    (keep : Bool)
    (member : Ty) :
    Ty :=
  if keep then member else .absent

/-- `null`, `undefined` or `void`. -/
def isNullishOrVoid
    (type : Ty) :
    Bool :=
  type.isNullish || type.isPrimitive .void

/-- `any` or `unknown`. -/
def isAnyOrUnknown
    (type : Ty) :
    Bool :=
  type.isPrimitive .any || type.isPrimitive .unknown

/-- Whether every value of a member fails a condition. -/
def alwaysFalsy :
    Ty →
    Bool
  | .primitive .null => true
  | .primitive .undefined => true
  | .primitive .void => true
  | .literal _ value => value.falsy
  | _ => false

/-- What remains of a type whose value satisfies a condition. -/
def truthy
    (type : Ty) :
    Check Ty :=
  checker.narrowMembers type fun member =>
    return keepIf (!alwaysFalsy member) member

/-- The falsy part of a member. Objects, sequences and functions have none. -/
def falsyMember
    (member : Ty) :
    Check Ty :=
  match member with
  | .primitive .string => return .ofLiteral (.string (.ofString ""))
  | .primitive .number => return .ofLiteral (.number (Number.ofNat 0))
  | .primitive _ => return member
  | .literal _ value => return keepIf value.falsy member
  | .named _ => do
      return keepIf (!(← checker.expand member).isObjectLike) member
  | _ => return keepIf (!member.isObjectLike) member

/-- What remains of a type whose value fails a condition. -/
def falsy
    (type : Ty) :
    Check Ty :=
  checker.narrowMembers type checker.falsyMember

/-- What remains of a type used as a condition. -/
def truthiness
    (branch : Bool)
    (type : Ty) :
    Check Ty :=
  if branch then checker.truthy type else checker.falsy type

/-- The primitive type that a type tag stands for. -/
def tagPrimitive? :
    String →
    Option Ty
  | "string" => some .string
  | "number" => some .number
  | "boolean" => some .boolean
  | "undefined" => some .undefined
  | _ => none

/-- Narrow a member by its tag; one without a single tag stays. -/
def typeofMember
    (tag : String)
    (branch : Bool)
    (member : Ty) :
    Check Ty := do
  if isAnyOrUnknown member then
    if branch then
      return (tagPrimitive? tag).getD member
    else
      return member
  else
    match checker.arena.typeofTag? (← checker.expand member) with
    | none => return member
    | some actual => return keepIf ((actual == tag) == branch) member

/-- What remains of a type whose tag is, or is not, the given one. -/
def narrowTypeof
    (tag : String)
    (branch : Bool)
    (type : Ty) :
    Check Ty :=
  checker.narrowMembers type (checker.typeofMember tag branch)

/-- Whether a type is an array or a tuple. -/
def isSequence :
    Ty →
    Bool
  | .array _ _ _ => true
  | .tuple _ _ _ => true
  | _ => false

/-- Narrow a member to its arrays, or to all else. -/
def arrayMember
    (branch : Bool)
    (member : Ty) :
    Check Ty := do
  if isAnyOrUnknown member then
    return if branch then .array none .any false else member
  else
    return keepIf (isSequence (← checker.expand member) == branch) member

/-- What remains of a type whose value is, or is not, an array. -/
def narrowArray
    (branch : Bool)
    (type : Ty) :
    Check Ty :=
  checker.narrowMembers type (checker.arrayMember branch)

/-- The members that are instances already; none for `any` and `unknown`. -/
def instanceMembers
    (instanceType : Ty) :
    List Ty →
    OptionT Check (List Ty)
  | [] => return []
  | member :: rest => do
      if isAnyOrUnknown member then
        failure
      else
        let fits ← checker.isAssignable member instanceType
        let kept ← instanceMembers instanceType rest
        return if fits then member :: kept else kept

/--
What remains of a type whose value is an instance of a class: its members that
are instances already, or the instance type if it fits, or the intersection.
-/
def narrowInstance
    (instanceType : Ty)
    (type : Ty) :
    Check Ty := do
  let members ← checker.membersOf type
  match ← (checker.instanceMembers instanceType members).run with
  | none => return instanceType
  | some [] =>
      if ← checker.isAssignable instanceType type then
        return instanceType
      else
        checker.normalize (.ofIntersection [type, instanceType])
  | some kept => checker.normalize (.ofUnion kept)

/-- Narrow a member by loose comparison with `null` or `undefined`. -/
def narrowLooseNullish
    (equal : Bool)
    (member : Ty) :
    Ty :=
  if isAnyOrUnknown member then
    if equal then .ofUnion [.null, .undefined] else member
  else
    keepIf (isNullishOrVoid member == equal) member

/-- Narrow a member by strict comparison with a constant. -/
def narrowStrict
    (value : Ty)
    (equal : Bool)
    (member : Ty) :
    Check Ty := do
  if equal then
    return keepIf (← checker.isAssignable value member) value
  else
    match value, member with
    | .literal _ excluded, .literal _ actual =>
        return keepIf (!actual.equal excluded) member
    | .literal _ _, _ => return member
    | _, _ =>
        return keepIf (!checker.arena.identical member value) member

/--
What remains of a type whose value equals, or does not equal, a constant. Loose
comparison with `null` or `undefined` matches both. Other constants than
literals and nullish ones say nothing.
-/
def narrowEqual
    (value : Ty)
    (equal loose : Bool)
    (type : Ty) :
    Check Ty :=
  let isLiteral : Bool :=
    match value with
    | .literal _ _ => true
    | _ => false
  if !value.isNullish && !isLiteral then
    return type
  else
    checker.narrowMembers type fun member =>
      if loose && value.isNullish then
        return narrowLooseNullish equal member
      else
        checker.narrowStrict value equal member

/--
The type of `left ?? right`: only nullish values of the left operand fall
through to the right one.
-/
def coalesced
    (left right : Ty) :
    Check Ty := do
  let members ← checker.membersOf left
  let kept := members.filter fun member => !isNullishOrVoid member
  if kept.length = members.length then
    return left
  else if kept.isEmpty then
    checker.normalize right
  else
    checker.normalize (.ofUnion (kept ++ [right]))

/-- The tags of members, unless some member has no single tag. -/
def memberTags :
    List Ty →
    OptionT Check (List String)
  | [] => return []
  | member :: rest => do
      if member.isNever then
        memberTags rest
      else
        match checker.arena.typeofTag? (← checker.expand member) with
        | none => failure
        | some tag => return tag :: (← memberTags rest)

/-- The type of the type tag of a value: the union of all possible tags. -/
def typeofResult
    (type : Ty) :
    Check Ty := do
  let members ← checker.membersOf type
  let tags := (← (checker.memberTags members).run).getD typeofTags
  checker.normalize
    (.ofUnion (tags.map fun tag => .ofLiteral (.string (.ofString tag))))

end StructuralTyping.Checker
