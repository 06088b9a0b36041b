import StructuralTyping.Proofs.Nodes
import StructuralTyping.Proofs.NormalizeHalts
import StructuralTyping.Proofs.Outcomes

namespace StructuralTyping

/-!
# Normalization settles with reduced types

What the parts of normalization can settle with is said once, part by part. From
this it follows that the answer is reduced at every node: unions are flat and
without repetitions, and intersections hold no two members that could be taken
together. Nothing is asked of the type or of the arena for this, since whatever
an application evaluates to is normalized in turn.
-/

open Stateful

/--
The members of a reduced intersection: several, none that merges, at most one
constant or primitive, at most one object, and nothing nullish beside an object,
a sequence or a function.
-/
structure MeetParts
    (parts : List Ty) :
    Prop where
  several : 2 ≤ parts.length
  flat : ∀ part ∈ parts, RelationStep.isIntersection part = false
  nonempty : ∀ part ∈ parts, part.isNever = false
  bounded :
    ∀ part ∈ parts,
      part.isPrimitive .any = false ∧ part.isPrimitive .unknown = false
  singleAtom : (parts.filter Ty.isAtom).length ≤ 1
  singleObject : (parts.filter RelationStep.isObject).length ≤ 1
  apart :
    ∀ atom ∈ parts,
      (atom.isNullish || atom.isPrimitive .void) = true →
      ∀ part ∈ parts, part.isObjectLike = false

/-- A node that is no union or intersection, or one that does not reduce. -/
def Ty.Reduced
    (arena : Arena) :
    Ty →
    Prop
  | .union _ parts => UnionParts arena parts
  | .intersection _ parts => MeetParts parts
  | _ => True

/-- A list has as many object members as shapes. -/
theorem length_filter_isObject
    (members : List Ty) :
    (members.filter RelationStep.isObject).length =
      (NormalPass.shapesOf members).length := by
  induction members with
  | nil =>
      rfl
  | cons member rest inductionHypothesis =>
      cases member with
      | object occurrence shape =>
          rw [List.filter_cons_of_pos rfl, List.length_cons,
            inductionHypothesis]
          rfl
      | _ =>
          rw [List.filter_cons_of_neg (by simp [RelationStep.isObject]),
            inductionHypothesis]
          rfl

/-- Members that normalization leaves apart are those of a reduced intersection. -/
theorem IntersectionParts.meetParts
    {parts : List Ty}
    (proper : IntersectionParts parts) :
    MeetParts parts := by
  have nonempty :
      ∀ part ∈ parts,
        part.isNever = false ∧ part.isPrimitive .any = false := by
    intro part member
    simpa using proper.nonempty part member
  have atoms := atomsReduced_of_reduceAtoms proper.reduced
  refine
    { several := proper.several
      flat := proper.flat
      nonempty := fun part member => (nonempty part member).1
      bounded := fun part member =>
        ⟨(nonempty part member).2, proper.bounded part member⟩
      singleAtom := ?_
      singleObject := length_filter_isObject parts ▸ proper.merged
      apart := fun atom member nullish part inParts => ?_ }
  · cases atoms with
    | none single => simp [single]
    | literal single => simp [single]
    | primitive single => simp [single]
  · -- A nullish member is the only atom, and a primitive.
    obtain ⟨kind, rfl, isNullish⟩ :
        ∃ kind, atom = .primitive kind ∧
          (kind = .null ∨ kind = .undefined ∨ kind = .void) := by
      cases atom <;> simp_all [Ty.isNullish, Ty.isPrimitive, or_assoc]
    have inAtoms : Ty.primitive kind ∈ parts.filter Ty.isAtom :=
      List.mem_filter.mpr ⟨member, rfl⟩
    cases atoms with
    | none single =>
        simp [single] at inAtoms
    | literal single =>
        simp [single] at inAtoms
    | primitive single separate =>
        obtain rfl : kind = _ := by simpa [single] using inAtoms
        by_contra objectLike
        have := separate
          (List.any_eq_true.mpr ⟨part, inParts, by simpa using objectLike⟩)
        simp_all

section Reducing

variable {arena : Arena} {mode : NormalMode} {pass : NormalPass}

/-- The members of a type with reduced nodes have such nodes and are no unions. -/
theorem Ty.Every.members
    {type member : Ty}
    (reduced : type.Every (Ty.Reduced arena))
    (inMembers : member ∈ type.members) :
    member.Every (Ty.Reduced arena) ∧ member.isUnion = false := by
  refine ⟨reduced.member inMembers, ?_⟩
  cases type with
  | union occurrence parts =>
      exact reduced.here.flat member inMembers
  | _ =>
      exact List.mem_singleton.mp inMembers ▸ rfl

/-- A pass that settles with types all of whose nodes are reduced. -/
structure NormalPass.Reduces
    (arena : Arena)
    (pass : NormalPass) :
    Prop where
  normalize :
    ∀ {depth type result},
      Settles (pass.normalize depth type) result →
      result.Every (Ty.Reduced arena)
  inner :
    ∀ {depth type result},
      Settles (pass.inner depth type) result →
      result.Every (Ty.Reduced arena)
  intersection :
    ∀ {depth members result},
      Settles (pass.intersection depth members) result →
      result.Every (Ty.Reduced arena)

/-- A primitive has a single node, which is reduced. -/
theorem every_reduced_primitive
    {kind : Primitive} :
    (Ty.primitive kind).Every (Ty.Reduced arena) :=
  .leaf trivial rfl

/-- An object whose types have reduced nodes has reduced nodes. -/
theorem every_reduced_ofShape
    {shape : Shape Ty}
    (all : shape.All (Ty.Every (Ty.Reduced arena))) :
    (Ty.ofShape shape).Every (Ty.Reduced arena) :=
  .node trivial (Ty.forall_parts_object.mpr all)

namespace NormalPass

/-- Merging a property into a shape keeps nodes reduced. -/
theorem Reduces.mergeProperty
    (reduces : pass.Reduces arena)
    {shape merged : Shape Ty}
    (all : shape.All (Ty.Every (Ty.Reduced arena)))
    (reduced : property.type.Every (Ty.Reduced arena))
    (settles : Settles (pass.mergeProperty arena depth shape property) merged) :
    merged.All (Ty.Every (Ty.Reduced arena)) := by
  rcases mergeProperty_cases settles with
    ⟨_, rfl⟩ | ⟨existing, type, found, origin, rfl⟩
  · refine ⟨fun other member => ?_, all.keys, all.values⟩
    rcases List.mem_append.mp member with inShape | isNew
    · exact all.properties other inShape
    · exact List.mem_singleton.mp isNew ▸ reduced
  · refine ⟨fun other member => ?_, all.keys, all.values⟩
    rcases mem_of_mem_replace member with inShape | rfl
    · exact all.properties other inShape
    · rcases origin with ⟨_, rfl⟩ | ⟨_, meets⟩
      · exact all.properties existing (Shape.mem_of_property? found).1
      · exact reduces.intersection meets

variable [pass.Reports]

/-- The union of some members has reduced nodes. -/
theorem Reduces.union
    (reduces : pass.Reduces arena)
    (settles : Settles (pass.union arena depth members) result) :
    result.Every (Ty.Reduced arena) := by
  obtain ⟨types, visits, rfl⟩ := union_cases settles
  have each :
      ∀ type ∈ flattenUnion types,
        type.Every (Ty.Reduced arena) ∧ type.isUnion = false := by
    intro type inFlat
    obtain ⟨normal, inTypes, inNormal⟩ := List.mem_flatMap.mp inFlat
    obtain ⟨_, _, settles⟩ := exists_normalized visits inTypes
    exact (reduces.normalize settles).members inNormal
  rcases joinMembers_cases (flattenUnion types) with
    ⟨kind, same⟩ | inFlat | ⟨parts, same, origin, proper⟩
  · exact same ▸ every_reduced_primitive
  · exact (each _ inFlat).1
  · rw [same]
    exact .node (proper fun type member => (each type member).2)
      fun part member => (each part (origin part member)).1

/-- Merging a shape into another keeps nodes reduced. -/
theorem Reduces.mergeShape
    (reduces : pass.Reduces arena)
    {first second merged : Shape Ty}
    (firstAll : first.All (Ty.Every (Ty.Reduced arena)))
    (secondAll : second.All (Ty.Every (Ty.Reduced arena)))
    (settles : Settles (pass.mergeShape arena depth first second) merged) :
    merged.All (Ty.Every (Ty.Reduced arena)) := by
  obtain ⟨joined, index, joins, meets, rfl⟩ := mergeShape_cases settles
  have joinedAll : joined.All (Ty.Every (Ty.Reduced arena)) :=
    Outcome.of_foldlM joins firstAll fun shape all property member _ settles =>
      reduces.mergeProperty all (secondAll.properties property member) settles
  rcases mergeIndex_cases meets with
    rfl | rfl | ⟨one, other, value, written, _, valueMeets, rfl⟩
  · exact ⟨joinedAll.properties, joinedAll.keys, joinedAll.values⟩
  · exact ⟨joinedAll.properties, secondAll.keys, secondAll.values⟩
  · refine ⟨joinedAll.properties, ?_, ?_⟩
    · rintro _ ⟨⟩
      exact joinedAll.keys one written
    · rintro _ ⟨⟩
      exact reduces.intersection valueMeets

/-- Merging the objects of a list keeps nodes reduced. -/
theorem Reduces.mergeObjects
    (reduces : pass.Reduces arena)
    {members merged : List Ty}
    (each : ∀ member ∈ members, member.Every (Ty.Reduced arena))
    (settles : Settles (pass.mergeObjects arena depth members) merged) :
    ∀ member ∈ merged, member.Every (Ty.Reduced arena) := by
  rcases (mergeObjects_cases settles).2 with
    rfl | ⟨first, rest, shape, fromMembers, folds, origin⟩
  · exact each
  have shapeAll :
      ∀ other ∈ first :: rest,
        other.All (Ty.Every (Ty.Reduced arena)) := by
    intro other listed
    obtain ⟨occurrence, member⟩ := mem_shapesOf.mp (fromMembers other listed)
    exact Ty.forall_parts_object.mp fun part inside =>
      (each _ member).inside inside
  have mergedAll : shape.All (Ty.Every (Ty.Reduced arena)) :=
    Outcome.of_foldlM folds (shapeAll first (by simp))
      fun shape all other member _ settles =>
        reduces.mergeShape all (shapeAll other (by simp [member])) settles
  intro member inMerged
  rcases origin member inMerged with inMembers | rfl
  · exact each member inMembers
  · exact every_reduced_ofShape mergedAll

/-- The intersection of some members has reduced nodes. -/
theorem Reduces.nextIntersection
    (reduces : pass.Reduces arena)
    {members : List Ty}
    (settles : Settles (pass.nextIntersection arena depth members) result) :
    result.Every (Ty.Reduced arena) := by
  obtain ⟨types, visits, outcome⟩ := nextIntersection_cases settles
  rcases outcome with ⟨_, settles⟩ | ⟨_, results, _, settles⟩
  · have flat :
        ∀ type ∈ flattenIntersection types,
          type.Every (Ty.Reduced arena) ∧
            RelationStep.isIntersection type = false := by
      intro type inFlat
      obtain ⟨whole, inTypes, found⟩ := List.mem_flatMap.mp inFlat
      obtain ⟨_, _, settles⟩ := exists_normalized visits inTypes
      have wholeReduced := reduces.normalize settles
      cases whole with
      | intersection occurrence parts =>
          exact ⟨wholeReduced.inside found, wholeReduced.here.flat type found⟩
      | _ =>
          cases List.mem_singleton.mp found
          exact ⟨wholeReduced, rfl⟩
    rcases meetMembers_cases settles with
      ⟨kind, rfl⟩ | ⟨reduced, merged, origin, merges, answer⟩
    · exact every_reduced_primitive
    have mergedEach :=
      reduces.mergeObjects
        (fun type member => (flat type (origin type member)).1) merges
    rcases answer with inMerged | ⟨rfl, proper⟩
    · exact mergedEach result inMerged
    · exact .node (proper fun type member => (flat type member).2).meetParts
        mergedEach
  · exact reduces.union settles

/-- Normalizing an application that stays leaves reduced nodes. -/
theorem Reduces.rebuild
    (reduces : pass.Reduces arena)
    {application : Application Ty}
    (settles :
      Settles (pass.rebuild depth occurrence application) result) :
    result.Every (Ty.Reduced arena) := by
  obtain ⟨kept, base, arguments, baseSettles, argumentsSettle, rfl⟩ :=
    rebuild_cases settles
  refine .node trivial (Ty.forall_parts_generic.mpr
    ⟨reduces.inner baseSettles, fun argument member => ?_⟩)
  obtain ⟨_, _, settles⟩ := exists_normalizedInside argumentsSettle member
  exact reduces.inner settles

/-- Normalizing a node leaves reduced nodes. -/
theorem Reduces.normalizeNode
    [mode.evaluate.Reports]
    (reduces : pass.Reduces mode.checker.arena)
    {type : Ty}
    (settles : Settles (pass.normalizeNode mode depth type) result) :
    result.Every (Ty.Reduced mode.checker.arena) := by
  cases type with
  | absent =>
      cases settles.of_pure
      exact .leaf trivial rfl
  | primitive kind =>
      cases settles.of_pure
      exact every_reduced_primitive
  | literal occurrence value =>
      cases settles.of_pure
      exact .leaf trivial rfl
  | named reference =>
      cases settles.of_pure
      exact .leaf trivial rfl
  | object occurrence shape =>
      obtain ⟨normal, inner, settles⟩ := Settles.of_bind settles
      cases settles.of_pure
      obtain ⟨properties, index⟩ := normalizeShape_cases inner
      refine every_reduced_ofShape ⟨fun after member => ?_,
        fun after present => ?_, fun after present => ?_⟩
      · obtain ⟨_, _, _, settles⟩ := exists_related_left properties member
        exact reduces.inner settles
      · obtain ⟨_, _, settles, _⟩ := exists_optional_left index present
        exact reduces.inner settles
      · obtain ⟨_, _, _, settles⟩ := exists_optional_left index present
        exact reduces.inner settles
  | array occurrence element readonly =>
      obtain ⟨normal, inner, settles⟩ := Settles.of_bind settles
      cases settles.of_pure
      exact .node trivial (by simpa [Ty.parts] using reduces.inner inner)
  | tuple occurrence elements readonly =>
      obtain ⟨normals, visits, settles⟩ := Settles.of_bind settles
      cases settles.of_pure
      refine .node trivial fun element member => ?_
      obtain ⟨_, _, settles⟩ := exists_normalizedInside visits member
      exact reduces.inner settles
  | function occurrence signature =>
      obtain ⟨normal, inner, settles⟩ := Settles.of_bind settles
      cases settles.of_pure
      obtain ⟨_, parameters, rest, result⟩ := normalizeSignature_cases inner
      refine .node trivial (Ty.forall_parts_function.mpr
        ⟨fun after member => ?_, reduces.inner rest, reduces.inner result⟩)
      obtain ⟨_, _, _, settles⟩ := exists_related_left parameters member
      exact reduces.inner settles
  | union occurrence members =>
      exact reduces.union settles
  | intersection occurrence members =>
      exact reduces.intersection settles
  | generic occurrence application =>
      change Settles (if mode.keepReferences then _ else _) result at settles
      split at settles
      · exact reduces.rebuild settles
      · rcases normalizeApplication_cases settles with
          ⟨_, _, settles⟩ | settles
        · exact reduces.normalize settles
        · exact reduces.rebuild settles

/-- One step of normalization settles with reduced nodes. -/
theorem Reduces.next
    [mode.evaluate.Reports]
    (reduces : pass.Reduces mode.checker.arena) :
    (pass.next mode).Reduces mode.checker.arena where
  normalize {depth type result} settles := by
    change Settles (pass.nextNormalize mode depth type) result at settles
    unfold NormalPass.nextNormalize at settles
    split at settles
    · next isAbsent =>
      cases settles.of_pure
      cases type <;> simp [Ty.isAbsent] at isAbsent
      exact .leaf trivial rfl
    split at settles
    · obtain ⟨_, reported, _⟩ := settles.of_bind
      exact absurd reported not_settles_reportOnce
    · exact reduces.normalizeNode settles
  inner {depth type result} settles := by
    change Settles (pass.nextInner depth type) result at settles
    unfold NormalPass.nextInner at settles
    split at settles
    · exact reduces.rebuild settles
    · exact reduces.normalize settles
  intersection settles := reduces.nextIntersection settles

end NormalPass

/-- What has run out of its budget does not settle. -/
theorem not_settles_emptyPass
    {value : α} :
    ¬ Settles (fun _ => Check.exhausted : Normalizing α) value :=
  fun settles => not_answers_exhausted settles.answers

/-- Every pass settles with reduced nodes. -/
theorem normalPass_reduces
    (mode : NormalMode)
    [mode.evaluate.Reports]
    (budget : Nat) :
    (normalPass mode budget).Reduces mode.checker.arena := by
  induction budget with
  | zero =>
      exact
        { normalize := fun settles => (not_settles_emptyPass settles).elim
          inner := fun settles => (not_settles_emptyPass settles).elim
          intersection := fun settles => (not_settles_emptyPass settles).elim }
  | succ budget inductionHypothesis =>
      rw [normalPass_succ]
      exact inductionHypothesis.next

end Reducing

namespace Checker

/--
Normalization answers with a normal form. When normalizing a type reports no
exceeded depth, every node of the answer is reduced.
-/
theorem normalize_reduced
    {checker : Checker}
    {type result : Ty}
    (settles : Check.Settles (checker.normalize type) result) :
    result.Every (Ty.Reduced checker.arena) :=
  (normalPass_reduces
    { checker, evaluate := checker.evaluation.evaluate, keepReferences := false }
    checker.budget).normalize (settles_of_normalizeIn settles)

/-- The members of tagged links, told apart by their tags. -/
def taggedLinks : Ty :=
  .ofUnion
    [.ofIntersection
      [.named { arena := 0, id := 0, name := "Link" },
        .ofShape
          { properties :=
              [{ name := "tag"
                 type :=
                  .ofUnion
                    [.ofLiteral (.number (.ofNat 1)),
                      .ofLiteral (.number (.ofNat 2))] }] }],
      .ofIntersection
        [.named { arena := 0, id := 0, name := "Link" },
          .string]]

/-- Links told apart by their tags are a normal form of tagged links. -/
theorem normalize_reduced_link :
    let checker : Checker := { arena := linkArena, budget := 20 }
    Check.Settles (checker.normalize taggedLink) taggedLinks ∧
      taggedLinks.Every (Ty.Reduced linkArena) := by
  have settles :
      Check.Settles
        (Checker.normalize { arena := linkArena, budget := 20 } taggedLink)
        taggedLinks :=
    ⟨[], by decide +kernel, Log.quiet_nil⟩
  exact ⟨settles, normalize_reduced settles⟩

end Checker

end StructuralTyping
