import Mathlib.Logic.Relation
import StructuralTyping.Proofs.FlatterRuns
import StructuralTyping.Proofs.IdentityEquivalence
import StructuralTyping.Proofs.KeptNames

namespace StructuralTyping

/-!
# Comparisons on the way

Normalization compares types for identity while it joins and meets them. Which
types these are depends on what the parts of a run lead to. The parts are listed
as inquiries, with the inquiries that each of them makes in turn and the pairs of
types that it compares itself. The depth bound of identity has no say in the
answer to an inquiry that decides all comparisons on its way.

Which run an answer comes from is left open. Runs that settle give one answer,
whatever their depths and budgets, so the inquiries are those of every such run.
-/

/-- How many arguments a utility takes besides its base. -/
def Utility.arity :
    Utility →
    Nat
  | .pickKeys => 1
  | .omitKeys => 1
  | _ => 0

/-- The parts of normalization and evaluation that ask one another. -/
inductive Inquiry where
  /-- What a type is normalized to. -/
  | normalize (type : Ty)
  /-- What a type in a structural position is normalized to. -/
  | inner (type : Ty)
  /-- What the union of some members is. -/
  | unite (members : List Ty)
  /-- What the intersection of some members is. -/
  | meet (members : List Ty)
  /-- What the intersection of normalized types without unions is. -/
  | reduce (types : List Ty)
  /-- What a shape merged into another one gives. -/
  | mergeShape (first second : Shape Ty)
  /-- What a property merged into a shape gives. -/
  | mergeProperty (shape : Shape Ty) (property : Property Ty)
  /-- What two index signatures merge into. -/
  | mergeIndex (first second : IndexSignature Ty)
  /-- What an application evaluates to. -/
  | evaluate (application : Application Ty)
  /-- What is behind the references that a type is. -/
  | resolve (type : Ty)
  /-- What a type is normalized to with the names in an intersection expanded. -/
  | merge (type : Ty)
  /-- The structural type behind a type. -/
  | behind (type : Ty)

namespace Checker

/-- A pass of the checker: the outermost one or one inside an evaluation. -/
structure Uses
    (checker : Checker)
    (pass : NormalPass) :
    Prop where
  within :
    ∃ inner budget, pass = normalPass (checker.modeWithin inner) budget

/-- Normalizing a type settles somewhere on the way. -/
def NormalizesInto
    (checker : Checker)
    (type result : Ty) :
    Prop :=
  ∃ pass depth,
    checker.Uses pass ∧
      Stateful.Settles (pass.normalize depth type) result

/-- A type is normalized to one type, wherever on the way that happens. -/
theorem NormalizesInto.unique
    {checker : Checker}
    (first : checker.NormalizesInto type result)
    (second : checker.NormalizesInto type other) :
    result = other := by
  obtain ⟨pass, deep, uses, settles⟩ := first
  obtain ⟨passOther, flat, usesOther, settlesOther⟩ := second
  obtain ⟨inner, budget, rfl⟩ := uses.within
  obtain ⟨outer, enough, rfl⟩ := usesOther.within
  exact settles_unique settles settlesOther

/-- The intersection of some members settles somewhere on the way. -/
def MeetsInto
    (checker : Checker)
    (members : List Ty)
    (result : Ty) :
    Prop :=
  ∃ pass depth,
    checker.Uses pass ∧
      Stateful.Settles (pass.intersection depth members) result

/-- Merging properties into a shape settles somewhere on the way. -/
def MergesProperties
    (checker : Checker)
    (properties : List (Property Ty))
    (first merged : Shape Ty) :
    Prop :=
  ∃ pass depth,
    checker.Uses pass ∧
      Stateful.Settles
        (properties.foldlM (pass.mergeProperty checker.arena depth) first)
        merged

/-- Merging shapes into a first one settles somewhere on the way. -/
def MergesShapes
    (checker : Checker)
    (shapes : List (Shape Ty))
    (first merged : Shape Ty) :
    Prop :=
  ∃ pass depth,
    checker.Uses pass ∧
      Stateful.Settles
        (shapes.foldlM (pass.mergeShape checker.arena depth) first)
        merged

/-- Evaluating an application settles somewhere on the way. -/
def EvaluatesInto
    (checker : Checker)
    (application : Application Ty)
    (outcome : Except UtilityError Ty) :
    Prop :=
  ∃ budget depth,
    Check.Settles (checker.evaluateWithin budget application depth).run outcome

/-- Following references settles somewhere on the way. -/
def ResolvesInto
    (checker : Checker)
    (type result : Ty) :
    Prop :=
  ∃ budget remaining depth,
    Check.Settles
      ((checker.evaluationWithin budget).resolveWithin remaining depth type).run
      (.ok result)

/-- Normalizing and expanding settles somewhere on the way. -/
def MergesInto
    (checker : Checker)
    (type result : Ty) :
    Prop :=
  ∃ budget depth,
    Check.Settles
      ((checker.evaluationWithin budget).normalizeMerged depth type)
      result

/-- Looking behind a type settles somewhere on the way. -/
def LiesBehind
    (checker : Checker)
    (type result : Ty) :
    Prop :=
  ∃ budget remaining depth,
    Check.Settles
      ((checker.evaluationWithin budget).structuralWithin remaining depth
        type).run
      (.ok result)

/-- An inquiry that another one makes. -/
inductive Asks
    (checker : Checker) :
    Inquiry →
    Inquiry →
    Prop
  | part :
      type.isObjectLike = true →
      part ∈ type.parts →
      checker.Asks (.normalize type) (.inner part)
  | union {members : List Ty} :
      checker.Asks (.normalize (.union occurrence members)) (.unite members)
  | intersection {members : List Ty} :
      checker.Asks (.normalize (.intersection occurrence members))
        (.meet members)
  | application :
      checker.Asks (.normalize (.generic occurrence application))
        (.evaluate application)
  | evaluated :
      checker.EvaluatesInto application (.ok type) →
      checker.Asks (.normalize (.generic occurrence application))
        (.normalize type)
  | failed :
      checker.EvaluatesInto application (.error error) →
      checker.Asks (.normalize (.generic occurrence application))
        (.inner (.generic occurrence application))
  | operand :
      part ∈ (Ty.generic occurrence application).parts →
      checker.Asks (.inner (.generic occurrence application)) (.inner part)
  | whole :
      type.isApplication = false →
      checker.Asks (.inner type) (.normalize type)
  | member :
      member ∈ members →
      checker.Asks (.unite members) (.normalize member)
  | factor :
      member ∈ members →
      checker.Asks (.meet members) (.normalize member)
  | choice :
      List.Forall₂ checker.NormalizesInto members types →
      distribute? (flattenIntersection types) = some combinations →
      combination ∈ combinations →
      checker.Asks (.meet members) (.meet combination)
  | joined :
      List.Forall₂ checker.NormalizesInto members types →
      distribute? (flattenIntersection types) = some combinations →
      List.Forall₂ checker.MeetsInto combinations results →
      checker.Asks (.meet members) (.unite results)
  | reduced :
      List.Forall₂ checker.NormalizesInto members types →
      distribute? (flattenIntersection types) = none →
      checker.Asks (.meet members) (.reduce (flattenIntersection types))
  | shape {types members : List Ty} :
      types.find? (fun type => type.isNever || type.isPrimitive .any) = none →
      reduceAtoms
          ((types.filter fun type => !type.isPrimitive .unknown).foldl
            checker.arena.appendUnique []) =
        some members →
      NormalPass.shapesOf members = first :: (earlier ++ second :: later) →
      checker.MergesShapes earlier first merged →
      checker.Asks (.reduce types) (.mergeShape merged second)
  | property {first second shape : Shape Ty} :
      second.properties = earlier ++ property :: later →
      checker.MergesProperties earlier first shape →
      checker.Asks (.mergeShape first second) (.mergeProperty shape property)
  | index {first second merged : Shape Ty} :
      checker.MergesProperties second.properties first merged →
      merged.index = some one →
      second.index = some other →
      checker.Asks (.mergeShape first second) (.mergeIndex one other)
  | propertyTypes {shape : Shape Ty} :
      shape.property? property.name = some existing →
      checker.arena.identical existing.type property.type = false →
      checker.Asks (.mergeProperty shape property)
        (.meet [existing.type, property.type])
  | indexValues :
      checker.arena.identical one.value other.value = false →
      checker.Asks (.mergeIndex one other) (.meet [one.value, other.value])
  | base {application : Application Ty} :
      application.base.isAbsent = false →
      Utility.ofName? application.utility = some utility →
      application.arguments.length = utility.arity →
      checker.Asks (.evaluate application) (.behind application.base)
  | nonNullable {application : Application Ty} :
      application.base.isAbsent = false →
      Utility.ofName? application.utility = some .nonNullable →
      application.arguments.length = Utility.nonNullable.arity →
      checker.LiesBehind application.base type →
      checker.Asks (.evaluate application) (.normalize type.nonNullable)
  | definition :
      checker.arena.definition reference ≠ .absent →
      checker.Asks (.resolve (.named reference))
        (.resolve (checker.arena.definition reference))
  | reference :
      checker.Asks (.resolve (.generic occurrence application))
        (.evaluate application)
  | referenced :
      checker.EvaluatesInto application (.ok type) →
      checker.Asks (.resolve (.generic occurrence application))
        (.resolve type)
  | normalized :
      checker.Asks (.merge type) (.normalize type)
  | expanded {earlier later : List Ty} :
      checker.NormalizesInto type
        (.intersection occurrence (earlier ++ member :: later)) →
      (∀ other ∈ earlier,
        other.isReference = true → ∃ found, checker.ResolvesInto other found) →
      member.isReference = true →
      checker.Asks (.merge type) (.resolve member)
  | merged {members : List Ty} :
      checker.NormalizesInto type (.intersection occurrence members) →
      members.any Ty.isReference = true →
      List.Forall₂
        (fun member found =>
          if member.isReference then
            checker.ResolvesInto member found
          else
            found = member)
        members others →
      checker.Asks (.merge type) (.normalize (.ofIntersection others))
  | resolved :
      checker.Asks (.behind type) (.resolve type)
  | exposed :
      checker.ResolvesInto type found →
      (found.isUnion || RelationStep.isIntersection found) = true →
      checker.Asks (.behind type) (.merge found)
  | followed :
      checker.ResolvesInto type found →
      (found.isUnion || RelationStep.isIntersection found) = true →
      checker.MergesInto found merged →
      merged.isReference = true →
      checker.Asks (.behind type) (.behind merged)

end Checker

/-- The types that a union has members of: all but those without values. -/
def inhabited
    (types : List Ty) :
    List Ty :=
  types.filter fun type => !type.isNever

/-- The union of types that differ. -/
def Ty.ofDistinct :
    List Ty →
    Ty
  | [] => .never
  | [type] => type
  | types => .ofUnion types

/-- A union is `any` or `unknown` if one of its members is, or keeps them apart. -/
theorem Arena.joinMembers_eq
    {arena : Arena}
    (types : List Ty) :
    arena.joinMembers types =
      if (inhabited types).any (Ty.isPrimitive · .any) then
        .any
      else if (inhabited types).any (Ty.isPrimitive · .unknown) then
        .unknown
      else
        .ofDistinct ((inhabited types).foldl arena.appendUnique []) :=
  rfl

/--
Joining types compares two of them: the second with one of those kept before it,
unless it is identical to an even earlier one.
-/
def Arena.JoinCompares
    (arena : Arena)
    (types : List Ty)
    (first second : Ty) :
    Prop :=
  ∃ earlier later before after,
    types = earlier ++ second :: later ∧
      earlier.foldl arena.appendUnique [] = before ++ first :: after ∧
      ∀ other ∈ before, arena.identical other second = false

namespace Checker

/-- A pair of types that an inquiry compares for identity by itself. -/
inductive Compares
    (checker : Checker) :
    Inquiry →
    Ty →
    Ty →
    Prop
  | unite :
      List.Forall₂ checker.NormalizesInto members types →
      (inhabited (flattenUnion types)).any (Ty.isPrimitive · .any) = false →
      (inhabited (flattenUnion types)).any (Ty.isPrimitive · .unknown) =
        false →
      checker.arena.JoinCompares (inhabited (flattenUnion types)) first
        second →
      checker.Compares (.unite members) first second
  | reduce {types : List Ty} :
      types.find? (fun type => type.isNever || type.isPrimitive .any) = none →
      checker.arena.JoinCompares
        (types.filter fun type => !type.isPrimitive .unknown) first second →
      checker.Compares (.reduce types) first second
  | property {shape : Shape Ty} :
      shape.property? property.name = some existing →
      checker.Compares (.mergeProperty shape property)
        existing.type property.type
  | index :
      checker.Compares (.mergeIndex one other) one.value other.value

/-- The depth bound of identity has no say on the way to an answer. -/
def DecidesAll
    (checker : Checker)
    (inquiry : Inquiry) :
    Prop :=
  ∀ asked,
    Relation.ReflTransGen checker.Asks inquiry asked →
    ∀ first second,
      checker.Compares asked first second →
      checker.arena.Decides first second

variable {checker : Checker} {inquiry asked : Inquiry}

/-- An inquiry that decides all comparisons asks for nothing else. -/
theorem DecidesAll.asks
    (decided : checker.DecidesAll inquiry)
    (asks : checker.Asks inquiry asked) :
    checker.DecidesAll asked := by
  intro last reaches
  exact decided last (.head asks reaches)

/-- An inquiry that decides all comparisons decides its own. -/
theorem DecidesAll.compares
    (decided : checker.DecidesAll inquiry)
    (compares : checker.Compares inquiry first second) :
    checker.arena.Decides first second :=
  decided inquiry .refl first second compares

end Checker

end StructuralTyping
