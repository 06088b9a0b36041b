import StructuralTyping.Checker.Assign

namespace StructuralTyping

/-!
# Coverage and exhaustiveness

A union can be taken apart by literals in two ways: a discriminated union by
the literal of one property, a union of literals by its own members. Coverage
records which of the literals have been handled; what remains is the residual.
-/

/-- One case of a union, selected by a literal. -/
structure Variant where
  value : Literal
  type : Ty
  deriving Repr, DecidableEq

/-- A union of objects that differ in the literal of one property. -/
structure DiscriminatedUnion where
  discriminator : String
  variants : List Variant
  deriving Repr, DecidableEq

/-- A union together with the objects behind its members. -/
structure ObjectUnion where
  members : List Ty
  shapes : List (Shape Ty)
  deriving Repr, DecidableEq

/-- The literal behind a type, through names. -/
def Arena.literalOf?
    (arena : Arena)
    (type : Ty) :
    Option Literal :=
  match arena.resolve type Arena.defaultHops with
  | .resolved (.literal _ value) => some value
  | _ => none

/-- The literal of a required property. -/
def Arena.discriminantOf?
    (arena : Arena)
    (name : String)
    (shape : Shape Ty) :
    Option Literal :=
  match shape.property? name with
  | some property =>
      if property.optional then none else arena.literalOf? property.type
  | none => none

/--
The literals of a property in all shapes, provided that it is required
everywhere and that no literal occurs twice.
-/
def Arena.distinctLiterals?
    (arena : Arena)
    (name : String) :
    (seen : List Literal) →
    List (Shape Ty) →
    Option (List Literal)
  | _, [] => some []
  | seen, shape :: rest =>
      match arena.discriminantOf? name shape with
      | none => none
      | some value =>
          if seen.any (Literal.equal · value) then
            none
          else
            (arena.distinctLiterals? name (value :: seen) rest).map
              (value :: ·)

/-- Take a union apart by the literals of a property. -/
def Arena.discriminate?
    (arena : Arena)
    (union : ObjectUnion)
    (name : String) :
    Option DiscriminatedUnion :=
  (arena.distinctLiterals? name [] union.shapes).map fun values =>
    { discriminator := name
      variants := List.zipWith Variant.mk values union.members }

/--
Which literals of a union have been handled. The discriminator is empty for a
union of literals.
-/
structure Coverage where
  discriminator : String := ""
  variants : List Variant
  handled : List Literal := []
  deriving Repr, DecidableEq

namespace Coverage

/-- The variants of a literal union; `boolean` counts as its two literals. -/
def literalVariants? :
    List Ty →
    Option (List Variant)
  | [] => some []
  | .literal occurrence value :: rest =>
      (literalVariants? rest).map
        ({ value, type := .literal occurrence value } :: ·)
  | .primitive .boolean :: rest =>
      let constant (value : Bool) : Variant :=
        { value := .boolean value, type := .ofLiteral (.boolean value) }
      (literalVariants? rest).map
        ([constant true, constant false] ++ ·)
  | _ :: _ => none

/-- The coverage of a discriminated union with nothing handled. -/
def ofUnion
    (union : DiscriminatedUnion) :
    Coverage :=
  { discriminator := union.discriminator
    variants := union.variants }

/-- The member selected by a literal. -/
def variant?
    (coverage : Coverage)
    (value : Literal) :
    Option Ty :=
  (coverage.variants.find? fun variant => variant.value.equal value).map
    Variant.type

/-- Whether a literal has been handled. -/
def isHandled
    (coverage : Coverage)
    (value : Literal) :
    Bool :=
  coverage.handled.any (Literal.equal · value)

/--
Record a literal as handled. The answer says whether it selects a variant that
was not handled before.
-/
def handle
    (coverage : Coverage)
    (value : Literal) :
    Bool × Coverage :=
  if (coverage.variant? value).isSome && !coverage.isHandled value then
    (true, { coverage with handled := coverage.handled ++ [value] })
  else
    (false, coverage)

/-- Record a list of literals as handled. -/
def handleAll
    (coverage : Coverage)
    (values : List Literal) :
    Coverage :=
  values.foldl (fun coverage value => (coverage.handle value).2) coverage

/-- The types of the variants that have not been handled. -/
def unhandled
    (coverage : Coverage) :
    List Ty :=
  (coverage.variants.filter fun variant =>
    !coverage.isHandled variant.value).map Variant.type

/-- The normalized union of what has not been handled. -/
def residual
    (checker : Checker)
    (coverage : Coverage) :
    Check Ty :=
  checker.normalize (.ofUnion coverage.unhandled)

/-- Whether every member has been handled. -/
def exhaustive
    (checker : Checker)
    (coverage : Coverage) :
    Check Bool := do
  return (← coverage.residual checker).isNever

/-- The handled literals, by their written form. -/
def handledSorted
    (coverage : Coverage) :
    List Literal :=
  coverage.handled.mergeSort fun first second =>
    !decide (second.text < first.text)

end Coverage

/-- What remains of a type once some literals are handled. -/
structure Exhaustiveness where
  exhaustive : Bool
  residual : Ty
  discriminator : String := ""
  deriving Repr, DecidableEq

namespace Checker

variable (checker : Checker)

/-- The shape of the object behind a member of a union. -/
def memberShape
    (member : Ty) :
    OptionT Check (Shape Ty) := do
  match ← checker.structural 1 member with
  | .ok (.object _ shape) => return shape
  | _ => failure

/-- The union of objects behind a type. -/
def objectUnion?
    (type : Ty) :
    Check (Option ObjectUnion) := do
  match ← checker.structural 0 type with
  | .ok (.union _ members) =>
      return (← (members.mapM checker.memberShape).run).map fun shapes =>
        { members, shapes }
  | _ => return none

/--
Take a type apart as a discriminated union, by the first qualifying property of
its first member. The first object is read even if there is none.
-/
def discriminant?
    (type : Ty) :
    Check (Option DiscriminatedUnion) := do
  match ← checker.objectUnion? type with
  | none => return none
  | some union => do
      let first ← Check.item union.shapes 0
      return first.names.findSome? (checker.arena.discriminate? union)

/-- Take a type apart as a discriminated union, by a given property. -/
def discriminantBy?
    (type : Ty)
    (name : String) :
    Check (Option DiscriminatedUnion) := do
  return (← checker.objectUnion? type).bind fun union =>
    checker.arena.discriminate? union name

/-- The coverage of a union of literals with nothing handled. -/
def literalCoverage?
    (type : Ty) :
    Check (Option Coverage) := do
  match ← checker.structural 0 type with
  | .error _ => return none
  | .ok type =>
      match Coverage.literalVariants? type.members with
      | some (variant :: rest) =>
          return some { variants := variant :: rest }
      | _ => return none

/-- Start coverage of a discriminated union or of a union of literals. -/
def coverage?
    (type : Ty) :
    Check (Option Coverage) := do
  match ← checker.discriminant? type with
  | some union => return some (.ofUnion union)
  | none => checker.literalCoverage? type

/-- Start coverage of a union by a given property. -/
def coverageOn?
    (type : Ty)
    (name : String) :
    Check (Option Coverage) := do
  return (← checker.discriminantBy? type name).map Coverage.ofUnion

/--
What remains of a type once some literals are handled. A type that cannot be
taken apart remains as a whole.
-/
def checkExhaustive
    (type : Ty)
    (handled : List Literal) :
    Check Exhaustiveness := do
  match ← checker.coverage? type with
  | none =>
      let residual ← checker.normalize type
      return { exhaustive := residual.isNever, residual }
  | some coverage =>
      let residual ← (coverage.handleAll handled).residual checker
      let discriminator := coverage.discriminator
      return { exhaustive := residual.isNever, residual, discriminator }

/-- The diagnostic that some members are left unhandled. -/
def nonExhaustiveDiagnostic
    (result : Exhaustiveness)
    (span : Span) :
    Diagnostic :=
  { stage := .exhaustive
    severity := .error
    code := .nonExhaustive
    message :=
      "not all cases are handled; " ++ result.residual.shown ++ " remains"
    span
    notes :=
      if result.discriminator.isEmpty then
        []
      else
        ["discriminated on property " ++ Text.quoted result.discriminator]
    help :=
      "handle " ++ result.residual.shown ++ " or add a default branch" }

/--
Report unhandled members, unless the declared result type of the enclosing
function admits `undefined`. The answer says whether something was reported.
-/
def reportNonExhaustive
    (result : Exhaustiveness)
    (declared : Ty)
    (span : Span) :
    Check Bool := do
  if result.exhaustive || declared.isAbsent then
    return false
  else if ← checker.isAssignable .undefined declared then
    return false
  else
    Check.report (nonExhaustiveDiagnostic result span)
    return true

end Checker

end StructuralTyping
