import StructuralTyping.Proofs.Canonizing

namespace StructuralTyping

/-!
# Types without intersections

Over definitions without intersections, a type without them stays so when it is
normalized or when an application is evaluated. Nothing is left out on the way
that was there, and the members of its normal form are neither unions nor empty.
-/

open Stateful

namespace Ty

/-- A node that is no intersection and leaves out no member and no parameter type. -/
def IsSum :
    Ty →
    Prop
  | intersection _ _ => False
  | union _ members => ∀ member ∈ members, member.isAbsent = false
  | function _ signature =>
      ∀ parameter ∈ signature.parameters, parameter.type.isAbsent = false
  | _ => True

/-- A type that is there and has no intersections inside. -/
structure Sum
    (type : Ty) :
    Prop where
  present : type.isAbsent = false
  every : type.Every IsSum

/-- A union of inhabited types that are no unions, or any other type. -/
def IsJoined
    (type : Ty) :
    Prop :=
  ∀ occurrence parts,
    type = .union occurrence parts →
    ∀ part ∈ parts, part.isUnion = false ∧ part.isNever = false

/-- A type without intersections that has the form of a normal one. -/
structure SumForm
    (type : Ty) :
    Prop
    extends type.Sum where
  joined : type.IsJoined

variable {type : Ty}

/-- The members of a sum are sums. -/
theorem Sum.member
    {member : Ty}
    (sum : type.Sum)
    (inMembers : member ∈ type.members) :
    member.Sum := by
  cases type with
  | union occurrence parts =>
      exact ⟨sum.every.here member inMembers, sum.every.inside inMembers⟩
  | _ => exact List.mem_singleton.mp inMembers ▸ sum

/-- Sums make a union. -/
theorem sum_union
    {parts : List Ty}
    (each : ∀ part ∈ parts, part.Sum) :
    (Ty.union occurrence parts).Sum :=
  ⟨rfl, .node (fun part inside => (each part inside).present)
    fun part inside => (each part inside).every⟩

/-- A sum extended by `undefined` is a sum. -/
theorem Sum.optional
    (sum : type.Sum) :
    type.optional.Sum := by
  unfold Ty.optional
  split
  · exact sum
  · refine sum_union fun part inside => ?_
    rcases List.mem_append.mp inside with inMembers | isNew
    · exact sum.member inMembers
    · rw [List.mem_singleton.mp isNew]
      exact ⟨rfl, .leaf trivial rfl⟩

/-- An object is a sum when its types have no intersections inside. -/
theorem sum_object :
    (Ty.object occurrence shape).Sum ↔ shape.All fun type => type.Every IsSum := by
  constructor
  · intro sum
    exact forall_parts_object.mp (every_iff.mp sum.every).2
  · intro all
    exact ⟨rfl, .node trivial (forall_parts_object.mpr all)⟩

/-- Sums go over to sums. -/
theorem sum_kept :
    Ty.Kept Ty.Sum where
  base sum present := ⟨present, sum.every.inside List.mem_cons_self⟩
  factor sum := sum.every.here.elim
  intersection sum := sum.every.here.elim
  pick sum keys :=
    sum_object.mpr
      { properties := fun property member =>
          (sum_object.mp sum).properties property (List.mem_filter.mp member).1
        keys := nofun
        values := nofun }
  without sum keys :=
    sum_object.mpr
      { properties := fun property member =>
          (sum_object.mp sum).properties property (List.mem_filter.mp member).1
        keys := (sum_object.mp sum).keys
        values := (sum_object.mp sum).values }
  change sum same :=
    sum_object.mpr
      { properties := fun property member => by
          obtain ⟨before, inShape, rfl⟩ := List.mem_map.mp member
          rw [(same before).2]
          exact (sum_object.mp sum).properties before inShape
        keys := (sum_object.mp sum).keys
        values := (sum_object.mp sum).values }
  array sum := ⟨rfl, .node trivial (every_iff.mp sum.every).2⟩
  tuple sum := ⟨rfl, .node trivial (every_iff.mp sum.every).2⟩
  result {occurrence signature} sum := by
    obtain ⟨_, _, result⟩ := forall_parts_function.mp (every_iff.mp sum.every).2
    unfold Ty.orElse
    split
    · exact ⟨rfl, .leaf trivial rfl⟩
    · next written =>
      refine ⟨?_, result⟩
      cases absent : signature.result.isAbsent with
      | false => rfl
      | true => exact absurd (Ty.eq_absent absent) written
  parameters sum := by
    obtain ⟨parameters, _, _⟩ :=
      forall_parts_function.mp (every_iff.mp sum.every).2
    refine ⟨rfl, .node trivial fun element member => ?_⟩
    obtain ⟨parameter, inParameters, rfl⟩ := List.mem_map.mp member
    have parameterSum : parameter.type.Sum :=
      ⟨sum.every.here parameter inParameters, parameters parameter inParameters⟩
    split
    · exact parameterSum.optional.every
    · exact parameterSum.every
  nonNullable sum := by
    unfold Ty.nonNullable
    split
    · exact ⟨rfl, .leaf trivial rfl⟩
    split
    · exact sum_union fun part inside =>
        sum.member (List.mem_filter.mp inside).1
    · exact sum

end Ty

/-- Types are joined to a type of the normal form if none of them is a union. -/
theorem joined_joinMembers
    (arena : Arena)
    {types : List Ty}
    (flat : ∀ type ∈ types, type.isUnion = false) :
    (arena.joinMembers types).IsJoined := by
  intro occurrence parts same
  rcases @joinMembers_cases arena types with
    ⟨kind, isKind⟩ | isMember | ⟨others, isUnion, _, parts⟩
  · rw [isKind] at same
    cases same
  · have notUnion := flat _ isMember
    rw [same] at notUnion
    cases notUnion
  · rw [isUnion] at same
    cases same
    have proper := parts flat
    exact fun part inside =>
      ⟨proper.flat part inside, proper.nonempty part inside⟩

/-- Sums are joined to a sum. -/
theorem sum_joinMembers
    (arena : Arena)
    {types : List Ty}
    (sums : ∀ type ∈ types, type.Sum) :
    (arena.joinMembers types).Sum := by
  rcases @joinMembers_cases arena types with
    ⟨kind, isKind⟩ | isMember | ⟨others, isUnion, members, _⟩
  · rw [isKind]
    exact ⟨rfl, .leaf trivial rfl⟩
  · exact sums _ isMember
  · rw [isUnion]
    exact Ty.sum_union fun part inside => sums part (members part inside)

section Step

variable {mode : NormalMode} {pass : NormalPass}

/-- A pass that keeps types without intersections and settles with normal forms. -/
structure NormalPass.KeepsSums
    (pass : NormalPass) :
    Prop where
  normalize :
    ∀ {depth type result},
      type.Sum →
      Settles (pass.normalize depth type) result →
      result.SumForm
  absent :
    ∀ {depth result},
      Settles (pass.normalize depth .absent) result →
      result = .absent
  inner :
    ∀ {depth type result},
      type.Every Ty.IsSum →
      Settles (pass.inner depth type) result →
      result.Every Ty.IsSum ∧ (type.isAbsent = false → result.isAbsent = false)

namespace NormalPass.KeepsSums

variable [pass.Reports] (keeps : pass.KeepsSums)
include keeps

/-- The union of sums is normalized to a normal form. -/
theorem union
    {members : List Ty}
    (sums : ∀ member ∈ members, member.Sum)
    (settles : Settles (pass.union arena depth members) result) :
    result.SumForm := by
  obtain ⟨types, visits, rfl⟩ := union_cases settles
  have forms : ∀ type ∈ types, type.SumForm := fun type inTypes => by
    obtain ⟨member, inMembers, normalizes⟩ := exists_normalized visits inTypes
    exact keeps.normalize (sums member inMembers) normalizes
  constructor
  · refine sum_joinMembers arena fun type inFlat => ?_
    obtain ⟨form, inTypes, inForm⟩ := List.mem_flatMap.mp inFlat
    exact (forms form inTypes).toSum.member inForm
  · refine joined_joinMembers arena fun type inFlat => ?_
    obtain ⟨form, inTypes, inForm⟩ := List.mem_flatMap.mp inFlat
    cases form with
    | union occurrence parts =>
        exact ((forms _ inTypes).joined occurrence parts rfl type inForm).1
    | _ =>
        cases List.mem_singleton.mp inForm
        rfl

/-- The types of a shape keep free of intersections. -/
theorem normalizeShape
    {shape normal : Shape Ty}
    (all : shape.All fun type => type.Every Ty.IsSum)
    (settles : Settles (pass.normalizeShape depth shape) normal) :
    normal.All fun type => type.Every Ty.IsSum := by
  obtain ⟨properties, index⟩ := normalizeShape_cases settles
  refine ⟨fun after member => ?_, fun after present => ?_,
    fun after present => ?_⟩
  · obtain ⟨before, inShape, _, settles⟩ :=
      exists_related_left properties member
    exact (keeps.inner (all.properties before inShape) settles).1
  · obtain ⟨before, written, settles, _⟩ := exists_optional_left index present
    exact (keeps.inner (all.keys before written) settles).1
  · obtain ⟨before, written, _, settles⟩ := exists_optional_left index present
    exact (keeps.inner (all.values before written) settles).1

/-- An application that stays keeps free of intersections. -/
theorem rebuild
    {application : Application Ty}
    (every : (Ty.generic occurrence application).Every Ty.IsSum)
    (settles :
      Settles (pass.rebuild depth occurrence application) result) :
    result.SumForm := by
  obtain ⟨base, arguments⟩ :=
    Ty.forall_parts_generic.mp (Ty.every_iff.mp every).2
  obtain ⟨kept, newBase, newArguments, baseSettles, argumentsSettle, rfl⟩ :=
    rebuild_cases settles
  refine ⟨⟨rfl, .node trivial (Ty.forall_parts_generic.mpr ⟨?_, ?_⟩)⟩, nofun⟩
  · exact (keeps.inner base baseSettles).1
  · intro argument inArguments
    obtain ⟨before, inBefore, settles⟩ :=
      exists_normalizedInside argumentsSettle inArguments
    exact (keeps.inner (arguments before inBefore) settles).1

/-- A node without intersections is normalized to a normal form. -/
theorem normalizeNode
    [mode.evaluate.Reports]
    (evaluates : mode.evaluate.Keeps Ty.Sum)
    (sum : type.Sum)
    (settles : Settles (pass.normalizeNode mode depth type) result) :
    result.SumForm := by
  obtain ⟨here, inside⟩ := Ty.every_iff.mp sum.every
  cases type with
  | absent => cases sum.present
  | primitive | literal | named =>
      cases settles.of_pure
      exact ⟨sum, nofun⟩
  | object occurrence shape =>
      obtain ⟨normal, normalizes, settles⟩ := Settles.of_bind settles
      cases settles.of_pure
      exact ⟨Ty.sum_object.mpr
        (keeps.normalizeShape (Ty.forall_parts_object.mp inside) normalizes),
        nofun⟩
  | array occurrence element readonly =>
      obtain ⟨normal, normalizes, settles⟩ := Settles.of_bind settles
      cases settles.of_pure
      refine ⟨⟨rfl, .node trivial (List.forall_mem_singleton.mpr ?_)⟩, nofun⟩
      exact (keeps.inner (List.forall_mem_singleton.mp inside) normalizes).1
  | tuple occurrence elements readonly =>
      obtain ⟨normals, visits, settles⟩ := Settles.of_bind settles
      cases settles.of_pure
      refine ⟨⟨rfl, .node trivial fun normal inNormals => ?_⟩, nofun⟩
      obtain ⟨element, inElements, normalizes⟩ :=
        exists_normalizedInside visits inNormals
      exact (keeps.inner (inside element inElements) normalizes).1
  | function occurrence signature =>
      obtain ⟨normal, normalizes, settles⟩ := Settles.of_bind settles
      cases settles.of_pure
      obtain ⟨parameters, rest, final⟩ := Ty.forall_parts_function.mp inside
      obtain ⟨_, newParameters, restSettles, resultSettles⟩ :=
        normalizeSignature_cases normalizes
      have each :
          ∀ after ∈ normal.parameters,
            after.type.Every Ty.IsSum ∧ after.type.isAbsent = false := by
        intro after member
        obtain ⟨before, inParameters, _, settles⟩ :=
          exists_related_left newParameters member
        have kept := keeps.inner (parameters before inParameters) settles
        exact ⟨kept.1, kept.2 (here before inParameters)⟩
      refine ⟨⟨rfl, .node (fun after member => (each after member).2) ?_⟩, nofun⟩
      exact Ty.forall_parts_function.mpr
        ⟨fun after member => (each after member).1,
          (keeps.inner rest restSettles).1, (keeps.inner final resultSettles).1⟩
  | union occurrence members =>
      exact keeps.union (fun member => sum.member) settles
  | intersection => exact here.elim
  | generic occurrence application =>
      change Settles (if mode.keepReferences then _ else _) result at settles
      split at settles
      · exact keeps.rebuild sum.every settles
      · rcases normalizeApplication_cases settles with
          ⟨type, applies, settles⟩ | settles
        · refine keeps.normalize (evaluates (fun present => ?_) applies) settles
          exact Ty.sum_kept.base sum present
        · exact keeps.rebuild sum.every settles

/-- One more unit of budget keeps types without intersections as well. -/
theorem next
    [mode.evaluate.Reports]
    (evaluates : mode.evaluate.Keeps Ty.Sum) :
    (pass.next mode).KeepsSums := by
  have normalize {depth type result}
      (sum : type.Sum)
      (settles : Settles (pass.nextNormalize mode depth type) result) :
      result.SumForm := by
    unfold NormalPass.nextNormalize at settles
    rw [sum.present, if_neg Bool.false_ne_true] at settles
    split at settles
    · obtain ⟨_, reported, _⟩ := settles.of_bind
      exact absurd reported not_settles_reportOnce
    · exact keeps.normalizeNode evaluates sum settles
  refine ⟨normalize, fun settles => settles.of_pure,
    fun {depth type result} every settles => ?_⟩
  change Settles (pass.nextInner depth type) result at settles
  unfold NormalPass.nextInner at settles
  split at settles
  · have form := keeps.rebuild every settles
    exact ⟨form.every, fun _ => form.present⟩
  · cases absent : type.isAbsent with
    | false =>
        have form := keeps.normalize ⟨absent, every⟩ settles
        exact ⟨form.every, fun _ => form.present⟩
    | true =>
        cases Ty.eq_absent absent
        rw [keeps.absent settles]
        refine ⟨every, fun present => ?_⟩
        cases present

end NormalPass.KeepsSums

/-- Every pass keeps types without intersections. -/
theorem normalPass_keepsSums
    (mode : NormalMode)
    [mode.evaluate.Reports]
    (evaluates : mode.evaluate.Keeps Ty.Sum)
    (budget : Nat) :
    (normalPass mode budget).KeepsSums := by
  induction budget with
  | zero =>
      exact
        { normalize := fun _ settles => (not_settles_emptyPass settles).elim
          absent := fun settles => (not_settles_emptyPass settles).elim
          inner := fun _ settles => (not_settles_emptyPass settles).elim }
  | succ budget inductionHypothesis =>
      rw [normalPass_succ]
      exact inductionHypothesis.next evaluates

end Step

/-- Over definitions without intersections, sums have normal forms of their kind. -/
theorem Checker.keeps_sum
    {checker : Checker}
    (definitions :
      ∀ declaration ∈ checker.arena.declarations,
        declaration.definition.Every Ty.IsSum) :
    checker.KeepsKind Ty.Sum Ty.SumForm where
  kept := Ty.sum_kept
  ofNormal form := form.toSum
  definitions reference defined := by
    refine ⟨?_, Arena.forall_definition (fun type => type.Every Ty.IsSum)
      definitions reference defined⟩
    cases absent : (checker.arena.definition reference).isAbsent with
    | false => rfl
    | true => exact absurd (Ty.eq_absent absent) defined
  normalizes keeps sum settles :=
    (normalPass_keepsSums _ keeps _).normalize sum
      (settles_of_normalizeIn settles)

end StructuralTyping
