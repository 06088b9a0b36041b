import StructuralTyping.Proofs.KeptKinds

namespace StructuralTyping

/-!
# Normalization settles with canonical types

Each part of normalization answers with canonical types for tidy ones, as long
as no exceeded depth is reported. Utility applications are evaluated on the way;
they keep types tidy, since each of them works on the structure behind its base
and that is normalized in turn.
-/

open Stateful

section Step

variable {arena : Arena} {mode : NormalMode} {pass : NormalPass}

/-- A pass that settles with canonical types. -/
structure NormalPass.Canonizes
    (arena : Arena)
    (pass : NormalPass) :
    Prop where
  normalize :
    ∀ {depth type result},
      type.Tidy →
      Settles (pass.normalize depth type) result →
      result.Canonical arena
  inner :
    ∀ {depth type result},
      type.Tidy →
      Settles (pass.inner depth type) result →
      result.Canonical arena
  intersection :
    ∀ {depth members result},
      (∀ member ∈ members, member.Tidy) →
      Settles (pass.intersection depth members) result →
      result.Canonical arena

namespace NormalPass

variable [pass.Reports]

/-- The types that a list of tidy ones is normalized to are canonical. -/
theorem Canonizes.normalizeAll
    (canonizes : pass.Canonizes arena)
    {types results : List Ty}
    (tidy : ∀ type ∈ types, type.Tidy)
    (settles : Settles (types.mapM (pass.normalize depth)) results) :
    ∀ result ∈ results, result.Canonical arena := by
  intro result member
  obtain ⟨type, inTypes, settles⟩ := exists_normalized settles member
  exact canonizes.normalize (tidy type inTypes) settles

@[inherit_doc Canonizes.normalizeAll]
theorem Canonizes.innerAll
    (canonizes : pass.Canonizes arena)
    {types results : List Ty}
    (tidy : ∀ type ∈ types, type.Tidy)
    (settles : Settles (types.mapM (pass.inner depth)) results) :
    ∀ result ∈ results, result.Canonical arena := by
  intro result member
  obtain ⟨type, inTypes, settles⟩ := exists_normalizedInside settles member
  exact canonizes.inner (tidy type inTypes) settles

/-- The union of tidy members is canonical. -/
theorem Canonizes.union
    (canonizes : pass.Canonizes arena)
    (tidy : ∀ member ∈ members, member.Tidy)
    (settles : Settles (pass.union arena depth members) result) :
    result.Canonical arena := by
  obtain ⟨types, visits, rfl⟩ := union_cases settles
  refine canonical_joinMembers fun type inFlat => ?_
  obtain ⟨normal, inTypes, inNormal⟩ := List.mem_flatMap.mp inFlat
  exact (canonizes.normalizeAll tidy visits normal inTypes).members inNormal

omit [pass.Reports] in
/-- Merging a property into a shape keeps the shape canonical. -/
theorem Canonizes.mergeProperty
    (canonizes : pass.Canonizes arena)
    {shape merged : Shape Ty}
    (shapeEach : shape.Each (Ty.Canonical arena))
    (canonical : property.type.Canonical arena)
    (settles : Settles (pass.mergeProperty arena depth shape property) merged) :
    merged.Each (Ty.Canonical arena) := by
  rcases mergeProperty_cases settles with
    ⟨missing, rfl⟩ | ⟨existing, type, found, origin, rfl⟩
  · have fresh : property.name ∉ shape.names := by
      intro known
      obtain ⟨other, inProperties, sameName⟩ := List.mem_map.mp known
      have found := List.find?_eq_none.mp missing other inProperties
      simp [sameName] at found
    refine ⟨?_, fun other member => ?_, shapeEach.keys, shapeEach.values⟩
    · simp only [Shape.names, List.map_append, List.map_cons, List.map_nil]
      refine List.nodup_append.mpr ⟨shapeEach.names, by simp, ?_⟩
      rintro name known other isNew rfl
      exact fresh (List.mem_singleton.mp isNew ▸ known)
    · rcases List.mem_append.mp member with inShape | isNew
      · exact shapeEach.properties other inShape
      · exact List.mem_singleton.mp isNew ▸ canonical
  · have existingCanonical :=
      shapeEach.properties existing (Shape.mem_of_property? found).1
    refine ⟨?_, fun other member => ?_, shapeEach.keys, shapeEach.values⟩
    · unfold Shape.names
      rw [map_replace (show existing.name =
        (mergedProperty existing property type).name from rfl)]
      exact shapeEach.names
    · rcases mem_of_mem_replace member with inShape | rfl
      · exact shapeEach.properties other inShape
      · rcases origin with ⟨_, rfl⟩ | ⟨_, meets⟩
        · exact existingCanonical
        · exact canonizes.intersection
            (by simp [existingCanonical.tidy, canonical.tidy]) meets

omit [pass.Reports] in
/-- Merging index signatures keeps them canonical. -/
theorem Canonizes.mergeIndex
    (canonizes : pass.Canonizes arena)
    {first second merged : Option (IndexSignature Ty)}
    (firstEach :
      ∀ index, first = some index →
        index.key.Canonical arena ∧ index.value.Canonical arena)
    (secondEach :
      ∀ index, second = some index →
        index.key.Canonical arena ∧ index.value.Canonical arena)
    (settles : Settles (pass.mergeIndex arena depth first second) merged) :
    ∀ index, merged = some index →
      index.key.Canonical arena ∧ index.value.Canonical arena := by
  rcases mergeIndex_cases settles with
    rfl | rfl | ⟨one, other, value, rfl, rfl, meets, rfl⟩
  · exact firstEach
  · exact secondEach
  · obtain ⟨key, oneValue⟩ := firstEach one rfl
    obtain ⟨_, otherValue⟩ := secondEach other rfl
    rintro _ ⟨⟩
    exact ⟨key, canonizes.intersection
      (by simp [oneValue.tidy, otherValue.tidy]) meets⟩

/-- Merging a shape into another keeps it canonical. -/
theorem Canonizes.mergeShape
    (canonizes : pass.Canonizes arena)
    {first second merged : Shape Ty}
    (firstEach : first.Each (Ty.Canonical arena))
    (secondEach : second.Each (Ty.Canonical arena))
    (settles : Settles (pass.mergeShape arena depth first second) merged) :
    merged.Each (Ty.Canonical arena) := by
  obtain ⟨joined, index, joins, meets, rfl⟩ := mergeShape_cases settles
  have joinedEach : joined.Each (Ty.Canonical arena) :=
    Outcome.of_foldlM joins firstEach fun shape each property member _ settles =>
      canonizes.mergeProperty each (secondEach.properties property member)
        settles
  have indexEach :=
    canonizes.mergeIndex
      (fun index written =>
        ⟨joinedEach.keys index written, joinedEach.values index written⟩)
      (fun index written =>
        ⟨secondEach.keys index written, secondEach.values index written⟩)
      meets
  exact ⟨joinedEach.names, joinedEach.properties,
    fun index written => (indexEach index written).1,
    fun index written => (indexEach index written).2⟩

/-- Merging the objects of a list leaves canonical types. -/
theorem Canonizes.mergeObjects
    (canonizes : pass.Canonizes arena)
    {members merged : List Ty}
    (canonical : ∀ member ∈ members, member.Canonical arena)
    (settles : Settles (pass.mergeObjects arena depth members) merged) :
    ∀ member ∈ merged, member.Canonical arena := by
  rcases (mergeObjects_cases settles).2 with
    rfl | ⟨first, rest, shape, fromMembers, folds, origin⟩
  · exact canonical
  have shapeEach :
      ∀ other ∈ first :: rest, other.Each (Ty.Canonical arena) := by
    intro other listed
    obtain ⟨occurrence, member⟩ := mem_shapesOf.mp (fromMembers other listed)
    exact (Ty.canonical_object.mp (canonical _ member)).2
  have mergedEach : shape.Each (Ty.Canonical arena) :=
    Outcome.of_foldlM folds (shapeEach first (by simp))
      fun shape each other member _ settles =>
        canonizes.mergeShape each (shapeEach other (.tail _ member)) settles
  intro member inMerged
  rcases origin member inMerged with inMembers | rfl
  · exact canonical member inMembers
  · exact Ty.canonical_object.mpr ⟨rfl, mergedEach⟩

/-- Meeting canonical types without intersections leads to a canonical type. -/
theorem Canonizes.meetMembers
    (canonizes : pass.Canonizes arena)
    {types : List Ty}
    (canonical : ∀ type ∈ types, type.Canonical arena)
    (flat : ∀ type ∈ types, RelationStep.isIntersection type = false)
    (settles : Settles (pass.meetMembers arena depth types) result) :
    result.Canonical arena := by
  rcases meetMembers_cases settles with
    ⟨kind, rfl⟩ | ⟨reduced, merged, fromTypes, merges, outcome⟩
  · exact .primitive
  have mergedCanonical :=
    canonizes.mergeObjects
      (fun type member => canonical type (fromTypes type member)) merges
  rcases outcome with inMerged | ⟨rfl, proper⟩
  · exact mergedCanonical result inMerged
  · exact .intersection (proper flat) mergedCanonical

/-- The intersection of tidy members is canonical. -/
theorem Canonizes.nextIntersection
    (canonizes : pass.Canonizes arena)
    (tidy : ∀ member ∈ members, member.Tidy)
    (settles : Settles (pass.nextIntersection arena depth members) result) :
    result.Canonical arena := by
  obtain ⟨types, visits, outcome⟩ := nextIntersection_cases settles
  have normal := canonizes.normalizeAll tidy visits
  have flatCanonical :
      ∀ type ∈ flattenIntersection types,
        type.Canonical arena ∧
          RelationStep.isIntersection type = false := by
    intro type inFlat
    obtain ⟨whole, inTypes, found⟩ := List.mem_flatMap.mp inFlat
    have wholeCanonical := normal whole inTypes
    cases whole with
    | intersection occurrence parts =>
        cases wholeCanonical with
        | intersection proper each =>
            exact ⟨each type found, proper.flat type found⟩
    | _ =>
        cases List.mem_singleton.mp found
        exact ⟨wholeCanonical, rfl⟩
  rcases outcome with ⟨_, settles⟩ | ⟨_, results, meets, settles⟩
  · exact canonizes.meetMembers (fun type member => (flatCanonical type member).1)
      (fun type member => (flatCanonical type member).2) settles
  · refine canonizes.union (fun result inResults => ?_) settles
    obtain ⟨choice, inChoices, settles⟩ :=
      exists_related_left meets.of_mapM inResults
    refine (canonizes.intersection (fun member inChoice => ?_) settles).tidy
    obtain ⟨type, inFlat, inType⟩ := mem_of_mem_choice inChoices inChoice
    exact ((flatCanonical type inFlat).1.members inType).1.tidy

/-- Normalizing the members of a tidy object makes them canonical. -/
theorem Canonizes.normalizeShape
    (canonizes : pass.Canonizes arena)
    {shape result : Shape Ty}
    (tidy : shape.Each Ty.Tidy)
    (settles : Settles (pass.normalizeShape depth shape) result) :
    result.Each (Ty.Canonical arena) := by
  obtain ⟨properties, index⟩ := normalizeShape_cases settles
  have names : result.names = shape.names := by
    unfold Shape.names
    clear * - properties
    generalize shape.properties = before, result.properties = after
      at properties
    induction properties with
    | nil =>
        rfl
    | cons head _ inductionHypothesis =>
        rw [List.map_cons, List.map_cons, inductionHypothesis, head.1]
  refine ⟨names ▸ tidy.names, fun after member => ?_, fun after present => ?_,
    fun after present => ?_⟩
  · obtain ⟨before, inShape, _, settles⟩ :=
      exists_related_left properties member
    exact canonizes.inner (tidy.properties before inShape) settles
  · obtain ⟨before, written, settles, _⟩ := exists_optional_left index present
    exact canonizes.inner (tidy.keys before written) settles
  · obtain ⟨before, written, _, settles⟩ := exists_optional_left index present
    exact canonizes.inner (tidy.values before written) settles

/-- Normalizing an application that stays makes its operands canonical. -/
theorem Canonizes.rebuild
    (canonizes : pass.Canonizes arena)
    {application : Application Ty}
    (base : application.base.Tidy)
    (arguments : ∀ argument ∈ application.arguments, argument.Tidy)
    (settles :
      Settles (pass.rebuild depth occurrence application) result) :
    result.Canonical arena := by
  obtain ⟨kept, newBase, newArguments, baseSettles, argumentsSettle, rfl⟩ :=
    rebuild_cases settles
  exact .generic (canonizes.inner base baseSettles)
    (canonizes.innerAll arguments argumentsSettle)

/-- Normalizing what an application stands for leads to a canonical type. -/
theorem Canonizes.normalizeApplication
    [mode.evaluate.Reports]
    (canonizes : pass.Canonizes arena)
    (keeps : mode.evaluate.Keeps Ty.Tidy)
    {application : Application Ty}
    (base : application.base.Tidy)
    (arguments : ∀ argument ∈ application.arguments, argument.Tidy)
    (settles :
      Settles
        (pass.normalizeApplication mode depth occurrence application)
        result) :
    result.Canonical arena := by
  rcases normalizeApplication_cases settles with
    ⟨type, evaluates, settles⟩ | settles
  · exact canonizes.normalize (keeps (fun _ => base) evaluates) settles
  · exact canonizes.rebuild base arguments settles

/-- Normalizing a tidy node leads to a canonical type. -/
theorem Canonizes.normalizeNode
    [mode.evaluate.Reports]
    (canonizes : pass.Canonizes mode.checker.arena)
    (keeps : mode.evaluate.Keeps Ty.Tidy)
    {type : Ty}
    (tidy : type.Tidy)
    (settles : Settles (pass.normalizeNode mode depth type) result) :
    result.Canonical mode.checker.arena := by
  cases tidy with
  | absent =>
      cases settles.of_pure
      exact .absent
  | primitive =>
      cases settles.of_pure
      exact .primitive
  | literal equal =>
      cases settles.of_pure
      exact .literal equal
  | named =>
      cases settles.of_pure
      exact .named
  | object names properties keys values =>
      obtain ⟨shape, normal, settles⟩ := Settles.of_bind settles
      cases settles.of_pure
      exact Ty.canonical_object.mpr
        ⟨rfl, canonizes.normalizeShape ⟨names, properties, keys, values⟩ normal⟩
  | array element =>
      obtain ⟨normal, inner, settles⟩ := Settles.of_bind settles
      cases settles.of_pure
      exact .array (canonizes.inner element inner)
  | tuple elements =>
      obtain ⟨normals, visits, settles⟩ := Settles.of_bind settles
      cases settles.of_pure
      exact .tuple (canonizes.innerAll elements visits)
  | function parameters rest result =>
      obtain ⟨normal, parts, settles⟩ := Settles.of_bind settles
      cases settles.of_pure
      obtain ⟨_, newParameters, restSettles, resultSettles⟩ :=
        normalizeSignature_cases parts
      refine .function (fun after member => ?_)
        (canonizes.inner rest restSettles)
        (canonizes.inner result resultSettles)
      obtain ⟨before, inParameters, _, settles⟩ :=
        exists_related_left newParameters member
      exact canonizes.inner (parameters before inParameters) settles
  | union each =>
      exact canonizes.union each settles
  | intersection each =>
      exact canonizes.intersection each settles
  | generic base arguments =>
      change Settles (if mode.keepReferences then _ else _) result at settles
      split at settles
      · exact canonizes.rebuild base arguments settles
      · exact canonizes.normalizeApplication keeps base arguments settles

/-- One step of normalization settles with canonical types. -/
theorem Canonizes.next
    [mode.evaluate.Reports]
    (canonizes : pass.Canonizes mode.checker.arena)
    (keeps : mode.evaluate.Keeps Ty.Tidy) :
    (pass.next mode).Canonizes mode.checker.arena where
  normalize {depth type result} tidy settles := by
    change Settles (pass.nextNormalize mode depth type) result at settles
    unfold NormalPass.nextNormalize at settles
    split at settles
    · next isAbsent =>
      cases settles.of_pure
      cases type <;> simp [Ty.isAbsent] at isAbsent
      exact .absent
    split at settles
    · obtain ⟨_, reported, _⟩ := settles.of_bind
      exact absurd reported not_settles_reportOnce
    · exact canonizes.normalizeNode keeps tidy settles
  inner {depth type result} tidy settles := by
    change Settles (pass.nextInner depth type) result at settles
    unfold NormalPass.nextInner at settles
    split at settles
    · cases tidy with
      | generic base arguments =>
          exact canonizes.rebuild base arguments settles
    · exact canonizes.normalize tidy settles
  intersection tidy settles := canonizes.nextIntersection tidy settles

end NormalPass

end Step

section Evaluating

/-- Every pass settles with canonical types. -/
theorem normalPass_canonizes
    (mode : NormalMode)
    [mode.evaluate.Reports]
    (keeps : mode.evaluate.Keeps Ty.Tidy)
    (budget : Nat) :
    (normalPass mode budget).Canonizes mode.checker.arena := by
  induction budget with
  | zero =>
      exact
        { normalize := fun _ settles => (not_settles_emptyPass settles).elim
          inner := fun _ settles => (not_settles_emptyPass settles).elim
          intersection := fun _ settles =>
            (not_settles_emptyPass settles).elim }
  | succ budget inductionHypothesis =>
      rw [normalPass_succ]
      exact inductionHypothesis.next keeps

/-- Normalizing in any mode and at any depth settles with a canonical type. -/
theorem canonical_normalizeIn
    (mode : NormalMode)
    [mode.evaluate.Reports]
    (keeps : mode.evaluate.Keeps Ty.Tidy)
    (tidy : type.Tidy)
    (settles : Check.Settles (normalizeIn mode budget depth type) result) :
    result.Canonical mode.checker.arena :=
  (normalPass_canonizes mode keeps budget).normalize tidy
    (settles_of_normalizeIn settles)

/-- Every definition of the arena is tidy. -/
def Arena.Tidy
    (arena : Arena) :
    Prop :=
  ∀ reference, (arena.definition reference).Tidy

/-- An arena is tidy when all of its declared definitions are. -/
theorem Arena.tidy_of_declarations
    {arena : Arena}
    (each :
      ∀ declaration ∈ arena.declarations, declaration.definition.Tidy) :
    arena.Tidy := by
  intro reference
  by_cases defined : arena.definition reference = .absent
  · rw [defined]
    exact .absent
  · exact Arena.forall_definition Ty.Tidy each reference defined

/-- Tidy types go over to tidy types. -/
theorem Ty.tidy_kept :
    Ty.Kept Ty.Tidy where
  base tidy _ := by
    cases tidy with
    | generic base _ => exact base
  factor tidy := by
    cases tidy with
    | intersection each => exact each
  intersection _ each := .intersection each
  pick tidy keys := Ty.tidy_object.mpr ((Ty.tidy_object.mp tidy).pick keys)
  without tidy keys := Ty.tidy_object.mpr ((Ty.tidy_object.mp tidy).without keys)
  change tidy same :=
    Ty.tidy_object.mpr ((Ty.tidy_object.mp tidy).mapProperties same)
  array tidy := by
    cases tidy with
    | array element => exact .array element
  tuple tidy := by
    cases tidy with
    | tuple elements => exact .tuple elements
  result tidy := by
    cases tidy with
    | function _ _ result => exact result.orElse .primitive
  parameters tidy := by
    cases tidy with
    | function parameters _ _ =>
        refine .tuple fun element member => ?_
        obtain ⟨parameter, inParameters, rfl⟩ := List.mem_map.mp member
        split
        · exact (parameters parameter inParameters).optional
        · exact parameters parameter inParameters
  nonNullable tidy := tidy.nonNullable

/-- Over a tidy arena, tidy types normalize to canonical ones. -/
theorem Checker.keeps_tidy
    {checker : Checker}
    (tidyArena : checker.arena.Tidy) :
    checker.KeepsKind Ty.Tidy (Ty.Canonical checker.arena) where
  kept := Ty.tidy_kept
  ofNormal canonical := canonical.tidy
  definitions reference _ := tidyArena reference
  normalizes keeps tidy settles := canonical_normalizeIn _ keeps tidy settles

/-- Normalizing a tidy type over a tidy arena settles with a canonical type. -/
theorem Checker.canonical_normalize
    {checker : Checker}
    (tidyArena : checker.arena.Tidy)
    (tidy : type.Tidy)
    (settles : Check.Settles (checker.normalize type) result) :
    result.Canonical checker.arena :=
  (Checker.keeps_tidy tidyArena).normalize tidy settles

end Evaluating

end StructuralTyping
