import StructuralTyping.Checker
import StructuralTyping.Widening

namespace StructuralTyping

/-!
# Normalization

Normalization flattens nested unions and intersections, drops repetitions and
reduces impossible intersections to `never`. Names are never expanded, and
utility applications in structural positions stay as they are, so recursive
types stay finite.

The recursion is written in two layers. A `NormalPass` bundles the three
functions that call each other; `NormalPass.next` defines each of them in
terms of a given pass, and `normalPass` applies that step once per unit of
budget.
-/

/-- Normalization, with a flag that an exceeded depth was reported already. -/
abbrev Normalizing :=
  StateT Bool Check

/-- The mutually recursive parts of normalization. -/
structure NormalPass where
  /-- Normalize a type met at a depth. -/
  normalize : (depth : Nat) → Ty → Normalizing Ty
  /-- Normalize a type in a structural position. -/
  inner : (depth : Nat) → Ty → Normalizing Ty
  /-- Normalize the intersection of some members. -/
  intersection : (depth : Nat) → List Ty → Normalizing Ty

/-- Which types normalization works on, and how. -/
structure NormalMode where
  checker : Checker
  /-- How utility applications are evaluated. -/
  evaluate : Evaluator
  /-- Whether utility applications stay unevaluated everywhere. -/
  keepReferences : Bool

/-- The largest product an intersection is distributed over. -/
def distributionLimit : Nat :=
  256

/-- All ways to pick one member of each union, the first choice slowest. -/
def choices :
    List Ty →
    List (List Ty)
  | [] => [[]]
  | type :: rest =>
      type.members.flatMap fun member =>
        (choices rest).map (member :: ·)

/-- Whether a type is a union. -/
def Ty.isUnion :
    Ty →
    Bool
  | .union _ _ => true
  | _ => false

/-- Whether the product passes the limit at some member, from the left. -/
def productTooLarge :
    (size : Nat) →
    List Ty →
    Bool
  | _, [] => false
  | size, member :: rest =>
      if member.isUnion then
        let size := size * member.members.length
        decide (distributionLimit < size) || productTooLarge size rest
      else
        productTooLarge size rest

/--
Expand an intersection over its unions. Nothing is expanded when no member is
a union or when the product is too large.
-/
def distribute?
    (members : List Ty) :
    Option (List (List Ty)) :=
  if members.any Ty.isUnion && !productTooLarge 1 members then
    some (choices members)
  else
    none

/-- The members of a union, or the type itself as a single member. -/
def flattenUnion
    (types : List Ty) :
    List Ty :=
  types.flatMap Ty.members

/-- The members of an intersection, or the type itself as a single member. -/
def flattenIntersection
    (types : List Ty) :
    List Ty :=
  types.flatMap fun type =>
    match type with
    | .intersection _ members => members
    | _ => [type]

/-- The union of normalized members. -/
def Arena.joinMembers
    (arena : Arena)
    (types : List Ty) :
    Ty :=
  let members := types.filter fun type => !type.isNever
  if members.any (Ty.isPrimitive · .any) then
    .any
  else if members.any (Ty.isPrimitive · .unknown) then
    .unknown
  else
    match members.foldl arena.appendUnique [] with
    | [] => .never
    | [type] => type
    | types => .ofUnion types

/-- The primitive that an intersection of primitives comes to, if any. -/
def meetPrimitives :
    List Primitive →
    Option (Option Primitive)
  | kinds =>
      kinds.foldlM
        (fun kept kind =>
          match kept with
          | none => some (some kind)
          | some current =>
              if current = .void ∧ kind = .undefined then
                some (some kind)
              else if kind = current ∨
                  kind = .void ∧ current = .undefined then
                some (some current)
              else
                none)
        none

/-- The constants among the members of an intersection. -/
def literalMembers
    (members : List Ty) :
    List Ty :=
  members.filter fun member =>
    match member with
    | .literal _ _ => true
    | _ => false

/-- The primitive kinds among the members of an intersection. -/
def primitiveMembers
    (members : List Ty) :
    List Primitive :=
  members.filterMap fun member =>
    match member with
    | .primitive kind => some kind
    | _ => none

/-- Whether a type only holds objects: objects, sequences and functions. -/
def Ty.isObjectLike :
    Ty →
    Bool
  | .object _ _ => true
  | .array _ _ _ => true
  | .tuple _ _ _ => true
  | .function _ _ => true
  | _ => false

/-- Whether a type is a literal or a primitive. -/
def Ty.isAtom :
    Ty →
    Bool
  | .literal _ _ => true
  | .primitive _ => true
  | _ => false

/-- The last literal of a list in which each equals the one before it. -/
def meetLiterals :
    (current : Option Ty) →
    List Ty →
    Option (Option Ty)
  | current, [] => some current
  | none, type :: rest => meetLiterals (some type) rest
  | some current, type :: rest =>
      match current, type with
      | .literal _ first, .literal _ second =>
          if first.equal second then
            meetLiterals (some type) rest
          else
            none
      | _, _ => none

/-- Keep one atom at the place of the first and drop the others. -/
def replaceAtoms
    (atom : Ty) :
    List Ty →
    List Ty
  | [] => []
  | member :: rest =>
      if member.isAtom then
        atom :: rest.filter fun other => !other.isAtom
      else
        member :: replaceAtoms atom rest

/-- Whether a literal belongs to a primitive kind. -/
def Ty.hasBase
    (type : Ty)
    (kind : Primitive) :
    Bool :=
  match type with
  | .literal _ value => value.base == kind
  | _ => false

/--
The primitive rules of intersection: distinct literals and distinct primitives
are disjoint, a literal absorbs its own base, and nullish types share no values
with objects. There is no result when the intersection is empty.
-/
def reduceAtoms
    (members : List Ty) :
    Option (List Ty) := do
  let literal ← meetLiterals none (literalMembers members)
  let kinds := primitiveMembers members
  let kind ← meetPrimitives kinds
  let mismatched :=
    match literal, kind with
    | some literal, some kind => !literal.hasBase kind
    | _, _ => false
  let nullish :=
    kind == some .null || kind == some .undefined || kind == some .void
  if mismatched || nullish && members.any Ty.isObjectLike then
    none
  else
    match literal, kind with
    | some literal, _ => some (replaceAtoms literal members)
    | none, some kind =>
        if kinds.length ≤ 1 then
          some members
        else
          some (replaceAtoms (.primitive kind) members)
    | none, none => some members

namespace NormalPass

/-- The pass of an empty budget. -/
def exhausted : NormalPass :=
  { normalize := fun _ _ => Check.exhausted
    inner := fun _ _ => Check.exhausted
    intersection := fun _ _ => Check.exhausted }

variable (pass : NormalPass)

/-- Normalize the operands of an application; unchanged ones keep the node. -/
def rebuild
    (depth : Nat)
    (occurrence : Occurrence)
    (application : Application Ty) :
    Normalizing Ty := do
  let base ← pass.inner depth application.base
  let arguments ← application.arguments.mapM (pass.inner depth)
  if base = application.base ∧ arguments = application.arguments then
    return .generic occurrence application
  else
    return .generic none { application with base, arguments }

/-- Normalize the union of some members. -/
def union
    (arena : Arena)
    (depth : Nat)
    (members : List Ty) :
    Normalizing Ty := do
  let types ← members.mapM (pass.normalize depth)
  return arena.joinMembers (flattenUnion types)

/-- Merge one more property into a shape; shared ones intersect their types. -/
def mergeProperty
    (arena : Arena)
    (depth : Nat)
    (shape : Shape Ty)
    (property : Property Ty) :
    Normalizing (Shape Ty) := do
  match shape.property? property.name with
  | none =>
      return { shape with properties := shape.properties ++ [property] }
  | some existing =>
      let type ←
        if arena.identical existing.type property.type then
          pure existing.type
        else
          pass.intersection depth [existing.type, property.type]
      let merged :=
        { existing with
          type
          optional := existing.optional && property.optional
          readonly := existing.readonly || property.readonly }
      let properties := shape.properties.replace existing merged
      return { shape with properties }

/-- Merge index signatures; two of them intersect their values. -/
def mergeIndex
    (arena : Arena)
    (depth : Nat) :
    Option (IndexSignature Ty) →
    Option (IndexSignature Ty) →
    Normalizing (Option (IndexSignature Ty))
  | none, second => return second
  | some first, none => return some first
  | some first, some second =>
      if arena.identical first.value second.value then
        return some first
      else do
        let value ← pass.intersection depth [first.value, second.value]
        return some { first with value }

/-- Merge a second shape into a first. -/
def mergeShape
    (arena : Arena)
    (depth : Nat)
    (first second : Shape Ty) :
    Normalizing (Shape Ty) := do
  let merged ←
    second.properties.foldlM (pass.mergeProperty arena depth) first
  let index ← pass.mergeIndex arena depth merged.index second.index
  return { merged with index }

/-- The shapes of the object members of a list. -/
def shapesOf
    (members : List Ty) :
    List (Shape Ty) :=
  members.filterMap fun member =>
    match member with
    | .object _ shape => some shape
    | _ => none

/-- Put a type at the place of the first object and drop the others. -/
def replaceObjects
    (merged : Ty) :
    List Ty →
    List Ty
  | [] => []
  | .object _ _ :: rest =>
      merged :: rest.filter fun other =>
        match other with
        | .object _ _ => false
        | _ => true
  | member :: rest => member :: replaceObjects merged rest

/-- Merge all object members into one at the position of the first. -/
def mergeObjects
    (arena : Arena)
    (depth : Nat)
    (members : List Ty) :
    Normalizing (List Ty) :=
  match shapesOf members with
  | first :: second :: rest => do
      let merged ←
        (second :: rest).foldlM (pass.mergeShape arena depth) first
      return replaceObjects (.ofShape merged) members
  | _ => return members

/-- The intersection of normalized members without unions to distribute over. -/
def meetMembers
    (arena : Arena)
    (depth : Nat)
    (types : List Ty) :
    Normalizing Ty := do
  match types.find? fun type => type.isNever || type.isPrimitive .any with
  | some type => return if type.isNever then .never else .any
  | none =>
      let members := types.filter fun type => !type.isPrimitive .unknown
      match reduceAtoms (members.foldl arena.appendUnique []) with
      | none => return .never
      | some members =>
          match ← pass.mergeObjects arena depth members with
          | [] => return .unknown
          | [type] => return type
          | members => return .ofIntersection members

/-- One more unfolding of the intersection rule. -/
def nextIntersection
    (arena : Arena)
    (depth : Nat)
    (members : List Ty) :
    Normalizing Ty := do
  let types ← members.mapM (pass.normalize depth)
  let flat := flattenIntersection types
  match distribute? flat with
  | some combinations =>
      let results ← combinations.mapM (pass.intersection depth)
      pass.union arena depth results
  | none => pass.meetMembers arena depth flat

/-- Normalize the members of an object. -/
def normalizeShape
    (depth : Nat)
    (shape : Shape Ty) :
    Normalizing (Shape Ty) := do
  let properties ← shape.properties.mapM fun property => do
    let type ← pass.inner depth property.type
    return { property with type }
  let index ← shape.index.mapM fun index => do
    let key ← pass.inner depth index.key
    let value ← pass.inner depth index.value
    return { key, value : IndexSignature Ty }
  return { properties, index }

/-- Normalize the parts of a call signature. -/
def normalizeSignature
    (depth : Nat)
    (signature : Signature Ty) :
    Normalizing (Signature Ty) := do
  let parameters ← signature.parameters.mapM fun parameter => do
    let type ← pass.inner depth parameter.type
    return { parameter with type }
  let rest ← pass.inner depth signature.rest
  let result ← pass.inner depth signature.result
  return { signature with parameters, rest, result }

/-- Evaluate an application and normalize what it stands for. -/
def normalizeApplication
    (mode : NormalMode)
    (depth : Nat)
    (occurrence : Occurrence)
    (application : Application Ty) :
    Normalizing Ty := do
  match ← (mode.evaluate application depth).run with
  | .ok type => pass.normalize depth type
  | .error error =>
      Checker.reportFailure error
      pass.rebuild depth occurrence application

/-- Normalize a node below the depth bound. `depth` is that of its parts. -/
def normalizeNode
    (mode : NormalMode)
    (depth : Nat) :
    Ty →
    Normalizing Ty
  | .absent => return .absent
  | .primitive kind => return .primitive kind
  | .literal occurrence value => return .literal occurrence value
  | .named reference => return .named reference
  | .generic occurrence application =>
      if mode.keepReferences then
        pass.rebuild depth occurrence application
      else
        pass.normalizeApplication mode depth occurrence application
  | .object _ shape => do
      return .ofShape (← pass.normalizeShape depth shape)
  | .array _ element readonly => do
      return .array none (← pass.inner depth element) readonly
  | .tuple _ elements readonly => do
      return .tuple none (← elements.mapM (pass.inner depth)) readonly
  | .function _ signature => do
      return .function none (← pass.normalizeSignature depth signature)
  | .union _ members => pass.union mode.checker.arena depth members
  | .intersection _ members => pass.intersection depth members

/-- Report the first type that was met at the depth bound. -/
def reportOnce
    (checker : Checker)
    (type : Ty) :
    Normalizing Unit := do
  unless ← get do
    set true
    checker.reportTooComplex .normalize type

/-- One more unfolding of normalization. -/
def nextNormalize
    (mode : NormalMode)
    (depth : Nat)
    (type : Ty) :
    Normalizing Ty :=
  if type.isAbsent then
    return type
  else if mode.checker.options.maxDepth ≤ depth then do
    reportOnce mode.checker type
    return type
  else
    pass.normalizeNode mode (depth + 1) type

/-- One more unfolding at a structural position: applications stay in place. -/
def nextInner
    (depth : Nat)
    (type : Ty) :
    Normalizing Ty :=
  match type with
  | .generic occurrence application =>
      pass.rebuild depth occurrence application
  | _ => pass.normalize depth type

/-- The pass with one more unit of budget. -/
def next
    (mode : NormalMode) :
    NormalPass :=
  { normalize := pass.nextNormalize mode
    inner := pass.nextInner
    intersection := pass.nextIntersection mode.checker.arena }

end NormalPass

/-- The normalization pass of a budget, unfolded only as far as it is used. -/
def normalPass
    (mode : NormalMode) :
    (budget : Nat) →
    NormalPass
  | 0 => .exhausted
  | budget + 1 =>
      { normalize := fun depth type =>
          ((normalPass mode budget).next mode).normalize depth type
        inner := fun depth type =>
          ((normalPass mode budget).next mode).inner depth type
        intersection := fun depth members =>
          ((normalPass mode budget).next mode).intersection depth members }

/-- A pass is the next one of the pass with one unit of budget less. -/
theorem normalPass_succ
    (mode : NormalMode)
    (budget : Nat) :
    normalPass mode (budget + 1) = (normalPass mode budget).next mode :=
  rfl

/-- Normalize a type met at a depth, in a given mode. -/
def normalizeIn
    (mode : NormalMode)
    (budget depth : Nat)
    (type : Ty) :
    Check Ty :=
  ((normalPass mode budget).normalize depth type).run' false

end StructuralTyping
