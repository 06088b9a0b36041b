import StructuralTyping.Proofs.KeptNames

namespace StructuralTyping

/-!
# Types without method signatures

Only what is written as a method is one: no part of the checker turns anything
else into the signature of a method. So normalization, evaluation and the
members that a type exposes lead from types without method signatures to such
types, if those in the definitions are. This is so in every run, whether or not
it exceeds the depth bound.
-/

open Stateful

namespace Ty

/-- Whether a type is the signature of a method. -/
def isMethod :
    Ty →
    Bool
  | function _ signature => signature.method
  | _ => false

/-- No method signature occurs in a type. -/
def MethodFree
    (type : Ty) :
    Prop :=
  type.Every fun node => node.isMethod = false

/-- Types of a kind are kept by taking a default for a type that is left out. -/
theorem orElse_of_kind
    {kind : Ty → Prop}
    {type other : Ty}
    (isKind : kind type)
    (otherKind : kind other) :
    kind (type.orElse other) := by
  cases type <;> assumption

namespace MethodFree

variable {type : Ty}

/-- What occurs in a part of a type occurs in the type. -/
theorem parts
    (free : type.MethodFree) :
    ∀ part ∈ type.parts, part.MethodFree :=
  fun _ => free.inside

theorem primitive :
    (Ty.primitive kind).MethodFree :=
  .leaf rfl rfl

theorem members
    (free : type.MethodFree) :
    ∀ member ∈ type.members, member.MethodFree :=
  fun _ => Ty.Every.member free

theorem object
    {shape : Shape Ty} :
    (Ty.object occurrence shape).MethodFree ↔ shape.All MethodFree := by
  rw [← forall_parts_object]
  exact ⟨parts, .node rfl⟩

theorem optional
    (free : type.MethodFree) :
    type.optional.MethodFree := by
  unfold Ty.optional
  split
  · exact free
  · exact .node rfl (List.forall_mem_append.mpr
      ⟨free.members, List.forall_mem_singleton.mpr primitive⟩)

theorem nonNullable
    (free : type.MethodFree) :
    type.nonNullable.MethodFree := by
  unfold Ty.nonNullable
  split
  · exact primitive
  · split
    · exact .node rfl fun member kept =>
        free.parts member (List.mem_filter.mp kept).1
    · exact free

end MethodFree

/-- Types without method signatures go over to such types. -/
theorem methodFree_kept :
    Ty.Kept MethodFree where
  base free _ := free.parts _ List.mem_cons_self
  factor free := free.parts
  intersection _ each := .node rfl each
  pick free keys := by
    have all := MethodFree.object.mp free
    refine MethodFree.object.mpr ⟨fun property kept => ?_, nofun, nofun⟩
    exact all.properties property (List.mem_filter.mp kept).1
  without free keys := by
    have all := MethodFree.object.mp free
    refine MethodFree.object.mpr ⟨fun property kept => ?_, all.keys, all.values⟩
    exact all.properties property (List.mem_filter.mp kept).1
  change free same := by
    have all := MethodFree.object.mp free
    refine MethodFree.object.mpr
      ⟨fun property member => ?_, all.keys, all.values⟩
    obtain ⟨original, inShape, rfl⟩ := List.mem_map.mp member
    exact (same original).2 ▸ all.properties original inShape
  array free := .node rfl free.parts
  tuple free := .node rfl free.parts
  result free :=
    orElse_of_kind (forall_parts_function.mp free.parts).2.2 .primitive
  parameters free := by
    have parameters := (forall_parts_function.mp free.parts).1
    refine .node rfl fun element member => ?_
    obtain ⟨parameter, inParameters, rfl⟩ := List.mem_map.mp member
    split
    · exact (parameters parameter inParameters).optional
    · exact parameters parameter inParameters
  nonNullable free := free.nonNullable

end Ty

/-- The positions of a tuple have the types of its elements. -/
theorem forall_positionProperties
    {kind : Ty → Prop}
    (each : ∀ element ∈ elements, kind element) :
    ∀ property ∈ positionProperties readonly position elements,
      kind property.type := by
  induction elements generalizing position with
  | nil => exact List.forall_mem_nil _
  | cons element rest inductionHypothesis =>
      rw [List.forall_mem_cons] at each
      exact List.forall_mem_cons.mpr ⟨each.1, inductionHypothesis each.2⟩

/-- Adding members of a kind to members of that kind keeps the kind. -/
theorem Shape.All.addMissing
    {first second : Shape Ty}
    {kind : Ty → Prop}
    (firstAll : first.All kind)
    (secondAll : second.All kind) :
    (first.addMissing second).All kind := by
  have properties :
      ∀ property ∈ (first.addMissing second).properties,
        kind property.type := by
    unfold Shape.addMissing
    refine List.foldlRecOn second.properties _
      (motive := fun collected : List (Property Ty) =>
        ∀ property ∈ collected, kind property.type)
      firstAll.properties fun collected each property member => ?_
    split
    · exact each
    · exact List.forall_mem_append.mpr ⟨each, List.forall_mem_singleton.mpr
        (secondAll.properties property member)⟩
  have index :
      ∀ index, first.index.or second.index = some index →
        kind index.key ∧ kind index.value := by
    intro index found
    rcases Option.or_eq_some_iff.mp found with here | ⟨-, here⟩
    · exact ⟨firstAll.keys index here, firstAll.values index here⟩
    · exact ⟨secondAll.keys index here, secondAll.values index here⟩
  exact ⟨properties, fun found written => (index found written).1,
    fun found written => (index found written).2⟩

/-- A fold answers with what every step keeps. -/
theorem Check.Answers.of_foldlM
    {visit : β → α → Check β}
    {invariant : β → Prop}
    {items : List α}
    (answers : Check.Answers (items.foldlM visit start) last)
    (initial : invariant start)
    (step :
      ∀ state, invariant state → ∀ item ∈ items, ∀ next,
        Check.Answers (visit state item) next → invariant next) :
    invariant last := by
  induction items generalizing start with
  | nil =>
      cases Check.answers_pure.mp answers
      exact initial
  | cons item rest inductionHypothesis =>
      rw [List.foldlM_cons] at answers
      obtain ⟨state, first, answers⟩ := answers.of_bind
      exact inductionHypothesis answers
        (step start initial item List.mem_cons_self state first)
        fun state kept other inRest =>
          step state kept other (List.mem_cons_of_mem item inRest)

open Ty (MethodFree)

/-- A lifted computation answers as the computation itself. -/
theorem Check.Answers.of_evaluateLift
    {computation : Check α}
    (answers :
      Check.Answers (liftM computation : Evaluate α).run (.ok result)) :
    Check.Answers computation result := by
  change
    Check.Answers (computation >>= fun value => pure (Except.ok value))
      (.ok result) at answers
  obtain ⟨value, answers, same⟩ := answers.of_bind
  cases Check.answers_pure.mp same
  exact answers

/-- Answering with types of a kind where the bases of applications are of it. -/
def Evaluator.Retains
    (kind : Ty → Prop)
    (evaluate : Evaluator) :
    Prop :=
  ∀ {application : Application Ty} {depth type},
    (application.base.isAbsent = false → kind application.base) →
    Check.Answers (evaluate application depth).run (.ok type) →
    kind type

/-- A pass that adds no method signatures. -/
structure NormalPass.AddsNoMethods
    (pass : NormalPass) :
    Prop where
  normalize :
    ∀ {depth type result},
      type.MethodFree →
      Answers (pass.normalize depth type) result →
      result.MethodFree
  inner :
    ∀ {depth type result},
      type.MethodFree →
      Answers (pass.inner depth type) result →
      result.MethodFree
  intersection :
    ∀ {depth members result},
      (∀ member ∈ members, member.MethodFree) →
      Answers (pass.intersection depth members) result →
      result.MethodFree

namespace NormalPass.AddsNoMethods

variable
  {arena : Arena} {mode : NormalMode}
  {pass : NormalPass} [pass.Reports]
  (adds : pass.AddsNoMethods)
include adds

theorem normalizeAll
    {types results : List Ty}
    (free : ∀ type ∈ types, type.MethodFree)
    (answers : Answers (types.mapM (pass.normalize depth)) results) :
    ∀ result ∈ results, result.MethodFree := by
  intro result member
  obtain ⟨type, inTypes, answers⟩ := exists_normalized answers member
  exact adds.normalize (free type inTypes) answers

theorem innerAll
    {types results : List Ty}
    (free : ∀ type ∈ types, type.MethodFree)
    (answers : Answers (types.mapM (pass.inner depth)) results) :
    ∀ result ∈ results, result.MethodFree := by
  intro result member
  obtain ⟨type, inTypes, answers⟩ := exists_normalizedInside answers member
  exact adds.inner (free type inTypes) answers

/-- A union joins members of members. -/
theorem union
    (free : ∀ member ∈ members, member.MethodFree)
    (answers : Answers (pass.union arena depth members) result) :
    result.MethodFree := by
  obtain ⟨types, visits, rfl⟩ := union_cases answers
  have each : ∀ type ∈ flattenUnion types, type.MethodFree := by
    intro type inFlat
    obtain ⟨normal, inTypes, inNormal⟩ := List.mem_flatMap.mp inFlat
    exact (adds.normalizeAll free visits normal inTypes).members type inNormal
  rcases joinMembers_cases (flattenUnion types) with
    ⟨found, same⟩ | member | ⟨parts, same, origin, _⟩
  · exact same ▸ .primitive
  · exact each _ member
  · rw [same]
    exact .node rfl fun part member => each part (origin part member)

omit [pass.Reports] in
/-- A merged property has the type of one of the two, or their meet. -/
theorem mergeProperty
    {shape merged : Shape Ty}
    (all : shape.All MethodFree)
    (free : property.type.MethodFree)
    (answers : Answers (pass.mergeProperty arena depth shape property) merged) :
    merged.All MethodFree := by
  rcases mergeProperty_cases answers with
    ⟨_, rfl⟩ | ⟨existing, type, found, origin, rfl⟩
  · refine ⟨?_, all.keys, all.values⟩
    exact List.forall_mem_append.mpr
      ⟨all.properties, List.forall_mem_singleton.mpr free⟩
  · have existingFree :=
      all.properties existing (Shape.mem_of_property? found).1
    refine ⟨fun other member => ?_, all.keys, all.values⟩
    rcases mem_of_mem_replace member with inShape | rfl
    · exact all.properties other inShape
    · rcases origin with ⟨_, rfl⟩ | ⟨_, meets⟩
      · exact existingFree
      · exact adds.intersection (by simp [existingFree, free]) meets

omit [pass.Reports] in
/-- Merged index signatures have the key of one and values of one or both. -/
theorem mergeIndex
    {first second merged : Option (IndexSignature Ty)}
    (firstFree :
      ∀ index, first = some index →
        index.key.MethodFree ∧ index.value.MethodFree)
    (secondFree :
      ∀ index, second = some index →
        index.key.MethodFree ∧ index.value.MethodFree)
    (answers : Answers (pass.mergeIndex arena depth first second) merged) :
    ∀ index, merged = some index →
      index.key.MethodFree ∧ index.value.MethodFree := by
  rcases mergeIndex_cases answers with
    rfl | rfl | ⟨one, other, value, rfl, rfl, meets, rfl⟩
  · exact firstFree
  · exact secondFree
  · obtain ⟨key, oneValue⟩ := firstFree one rfl
    obtain ⟨_, otherValue⟩ := secondFree other rfl
    rintro _ ⟨⟩
    exact ⟨key, adds.intersection (by simp [oneValue, otherValue]) meets⟩

theorem mergeShape
    {first second merged : Shape Ty}
    (firstAll : first.All MethodFree)
    (secondAll : second.All MethodFree)
    (answers : Answers (pass.mergeShape arena depth first second) merged) :
    merged.All MethodFree := by
  obtain ⟨joined, index, joins, meets, rfl⟩ := mergeShape_cases answers
  have joinedAll : joined.All MethodFree :=
    Outcome.of_foldlM joins firstAll fun shape all property member _ answers =>
      adds.mergeProperty all (secondAll.properties property member) answers
  have both :=
    adds.mergeIndex
      (fun index written =>
        ⟨joinedAll.keys index written, joinedAll.values index written⟩)
      (fun index written =>
        ⟨secondAll.keys index written, secondAll.values index written⟩)
      meets
  exact ⟨joinedAll.properties, fun index written => (both index written).1,
    fun index written => (both index written).2⟩

theorem mergeObjects
    {members merged : List Ty}
    (free : ∀ member ∈ members, member.MethodFree)
    (answers : Answers (pass.mergeObjects arena depth members) merged) :
    ∀ member ∈ merged, member.MethodFree := by
  rcases (mergeObjects_cases answers).2 with
    rfl | ⟨first, rest, shape, fromMembers, folds, origin⟩
  · exact free
  have shapes :
      ∀ other ∈ first :: rest, other.All MethodFree := by
    intro other listed
    obtain ⟨occurrence, member⟩ := mem_shapesOf.mp (fromMembers other listed)
    exact MethodFree.object.mp (free _ member)
  have mergedAll : shape.All MethodFree :=
    Outcome.of_foldlM folds (shapes first (by simp))
      fun shape all other member _ answers =>
        adds.mergeShape all (shapes other (.tail _ member)) answers
  intro member inMerged
  rcases origin member inMerged with inMembers | rfl
  · exact free member inMembers
  · exact MethodFree.object.mpr mergedAll

theorem meetMembers
    {types : List Ty}
    (free : ∀ type ∈ types, type.MethodFree)
    (answers : Answers (pass.meetMembers arena depth types) result) :
    result.MethodFree := by
  rcases meetMembers_cases answers with
    ⟨found, rfl⟩ | ⟨reduced, merged, fromTypes, merges, outcome⟩
  · exact .primitive
  have mergedFree :=
    adds.mergeObjects
      (fun type member => free type (fromTypes type member)) merges
  rcases outcome with inMerged | ⟨rfl, _⟩
  · exact mergedFree result inMerged
  · exact .node rfl mergedFree

theorem nextIntersection
    (free : ∀ member ∈ members, member.MethodFree)
    (answers : Answers (pass.nextIntersection arena depth members) result) :
    result.MethodFree := by
  obtain ⟨types, visits, outcome⟩ := nextIntersection_cases answers
  have normal := adds.normalizeAll free visits
  have flat : ∀ type ∈ flattenIntersection types, type.MethodFree := by
    intro type inFlat
    obtain ⟨whole, inTypes, found⟩ := List.mem_flatMap.mp inFlat
    have wholeFree := normal whole inTypes
    cases whole with
    | intersection occurrence parts =>
        exact wholeFree.parts type found
    | _ =>
        cases List.mem_singleton.mp found
        exact wholeFree
  rcases outcome with ⟨_, answers⟩ | ⟨_, results, meets, answers⟩
  · exact adds.meetMembers flat answers
  · refine adds.union (fun result inResults => ?_) answers
    obtain ⟨choice, inChoices, answers⟩ :=
      exists_related_left (Outcome.of_mapM meets) inResults
    refine adds.intersection (fun member inChoice => ?_) answers
    obtain ⟨type, inFlat, inType⟩ := mem_of_mem_choice inChoices inChoice
    exact (flat type inFlat).members member inType

theorem normalizeShape
    {shape result : Shape Ty}
    (all : shape.All MethodFree)
    (answers : Answers (pass.normalizeShape depth shape) result) :
    result.All MethodFree := by
  obtain ⟨properties, index⟩ := normalizeShape_cases answers
  refine ⟨fun after member => ?_, fun after present => ?_,
    fun after present => ?_⟩
  · obtain ⟨before, inShape, _, answers⟩ :=
      exists_related_left properties member
    exact adds.inner (all.properties before inShape) answers
  · obtain ⟨before, written, answers, _⟩ := exists_optional_left index present
    exact adds.inner (all.keys before written) answers
  · obtain ⟨before, written, _, answers⟩ := exists_optional_left index present
    exact adds.inner (all.values before written) answers

theorem rebuild
    {application : Application Ty}
    (free : (Ty.generic given application).MethodFree)
    (answers :
      Answers (pass.rebuild depth occurrence application) result) :
    result.MethodFree := by
  obtain ⟨base, arguments⟩ := Ty.forall_parts_generic.mp free.parts
  obtain ⟨kept, newBase, newArguments, baseTold, argumentsTold, rfl⟩ :=
    rebuild_cases answers
  exact .node rfl (Ty.forall_parts_generic.mpr
    ⟨adds.inner base baseTold, adds.innerAll arguments argumentsTold⟩)

theorem normalizeNode
    (evaluates : mode.evaluate.Retains MethodFree)
    {type : Ty}
    (free : type.MethodFree)
    (answers : Answers (pass.normalizeNode mode depth type) result) :
    result.MethodFree := by
  cases type with
  | object occurrence shape =>
      obtain ⟨normal, parts, answers⟩ := Answers.of_bind answers
      cases answers_pure.mp answers
      exact MethodFree.object.mpr
        (adds.normalizeShape (MethodFree.object.mp free) parts)
  | array occurrence element readonly =>
      obtain ⟨normal, inner, answers⟩ := Answers.of_bind answers
      cases answers_pure.mp answers
      exact .node rfl (List.forall_mem_singleton.mpr
        (adds.inner (free.parts element List.mem_cons_self) inner))
  | tuple occurrence elements readonly =>
      obtain ⟨normals, visits, answers⟩ := Answers.of_bind answers
      cases answers_pure.mp answers
      exact .node rfl (adds.innerAll free.parts visits)
  | function occurrence signature =>
      obtain ⟨parameters, rest, result⟩ :=
        Ty.forall_parts_function.mp free.parts
      obtain ⟨normal, parts, answers⟩ := Answers.of_bind answers
      cases answers_pure.mp answers
      obtain ⟨method, newParameters, restTold, resultTold⟩ :=
        normalizeSignature_cases parts
      refine .node (method.trans free.here) (Ty.forall_parts_function.mpr
        ⟨fun after member => ?_, adds.inner rest restTold,
          adds.inner result resultTold⟩)
      obtain ⟨before, inParameters, _, answers⟩ :=
        exists_related_left newParameters member
      exact adds.inner (parameters before inParameters) answers
  | union occurrence members =>
      exact adds.union free.parts answers
  | intersection occurrence members =>
      exact adds.intersection free.parts answers
  | generic occurrence application =>
      change Answers (if mode.keepReferences then _ else _) result at answers
      split at answers
      · exact adds.rebuild free answers
      · obtain ⟨outcome, found, answers⟩ := Answers.of_bind answers
        cases outcome with
        | ok type =>
            have base : application.base.MethodFree :=
              free.parts _ List.mem_cons_self
            exact adds.normalize (evaluates (fun _ => base) found.of_lift)
              answers
        | error error =>
            obtain ⟨_, _, answers⟩ := Answers.of_bind answers
            exact adds.rebuild free answers
  | _ =>
      cases answers_pure.mp answers
      exact free

theorem next
    (evaluates : mode.evaluate.Retains MethodFree) :
    (pass.next mode).AddsNoMethods where
  normalize {depth type result} free answers := by
    change Answers (pass.nextNormalize mode depth type) result at answers
    unfold NormalPass.nextNormalize at answers
    split at answers
    · cases answers_pure.mp answers
      exact free
    split at answers
    · obtain ⟨_, _, answers⟩ := Answers.of_bind answers
      cases answers_pure.mp answers
      exact free
    · exact adds.normalizeNode evaluates free answers
  inner {depth type result} free answers := by
    change Answers (pass.nextInner depth type) result at answers
    unfold NormalPass.nextInner at answers
    split at answers
    · exact adds.rebuild free answers
    · exact adds.normalize free answers
  intersection free answers := adds.nextIntersection free answers

end NormalPass.AddsNoMethods

/-- No pass adds method signatures. -/
theorem normalPass_addsNoMethods
    (mode : NormalMode)
    [mode.evaluate.Reports]
    (evaluates : mode.evaluate.Retains MethodFree)
    (budget : Nat) :
    (normalPass mode budget).AddsNoMethods := by
  induction budget with
  | zero =>
      exact
        { normalize := fun _ answers => (not_answers_exhausted answers).elim
          inner := fun _ answers => (not_answers_exhausted answers).elim
          intersection := fun _ answers =>
            (not_answers_exhausted answers).elim }
  | succ budget inductionHypothesis =>
      rw [normalPass_succ]
      exact inductionHypothesis.next evaluates

/-- No definition contains a method signature. -/
def Arena.MethodFree
    (arena : Arena) :
    Prop :=
  ∀ reference, (arena.definition reference).MethodFree

namespace Evaluation

/-- An evaluation over definitions without method signatures. -/
structure AddsNoMethods
    (evaluation : Evaluation) :
    Prop where
  definitions : evaluation.checker.arena.MethodFree
  evaluates : evaluation.evaluate.Retains Ty.MethodFree

namespace AddsNoMethods

variable
  {evaluation : Evaluation} [evaluation.evaluate.Reports]
  (adds : evaluation.AddsNoMethods)
include adds

/-- Normalizing adds no method signatures. -/
theorem normalizeAt
    (free : type.MethodFree)
    (answers : Check.Answers (evaluation.normalizeAt depth type) result) :
    result.MethodFree :=
  (normalPass_addsNoMethods _ adds.evaluates _).normalize free
    (answers_of_normalizeIn answers)

@[inherit_doc normalizeAt]
theorem normalizeOperand
    (free : type.MethodFree)
    (answers : Check.Answers (evaluation.normalizeOperand depth type) result) :
    result.MethodFree :=
  (normalPass_addsNoMethods _ adds.evaluates _).normalize free
    (answers_of_normalizeIn answers)

omit [evaluation.evaluate.Reports] in
/-- Following references adds no method signatures. -/
theorem resolveWithin
    (free : type.MethodFree)
    (answers :
      Check.Answers (evaluation.resolveWithin remaining depth type).run
        (.ok result)) :
    result.MethodFree := by
  induction remaining generalizing depth type with
  | zero =>
      unfold Evaluation.resolveWithin Checker.failTooComplex at answers
      obtain ⟨_, _, answers⟩ := answers.of_evaluateBind
      cases Check.answers_pure.mp answers
  | succ remaining inductionHypothesis =>
      cases type with
      | named reference =>
          unfold Evaluation.resolveWithin at answers
          split at answers
          · cases Check.answers_pure.mp answers
          · exact inductionHypothesis (adds.definitions reference) answers
      | generic occurrence application =>
          unfold Evaluation.resolveWithin at answers
          obtain ⟨type, evaluates, answers⟩ := answers.of_evaluateBind
          exact inductionHypothesis
            (adds.evaluates (Ty.methodFree_kept.base free) evaluates) answers
      | _ =>
          cases Check.answers_pure.mp answers
          exact free

/-- Merging the members of an intersection adds no method signatures. -/
theorem mergeMembers
    {members : List Ty}
    (free : ∀ member ∈ members, member.MethodFree)
    (answers :
      Check.Answers (evaluation.mergeMembers depth members) (some merged)) :
    merged.MethodFree := by
  unfold Evaluation.mergeMembers at answers
  split at answers
  · obtain ⟨outcome, expands, answers⟩ := answers.of_bind
    cases outcome with
    | error error =>
        cases Check.answers_pure.mp answers
    | ok expanded =>
        obtain ⟨result, normalizes, answers⟩ := answers.of_bind
        cases Check.answers_pure.mp answers
        refine adds.normalizeAt (.node rfl fun type inExpanded => ?_) normalizes
        obtain ⟨member, inMembers, expands⟩ :=
          exists_related_left expands.of_evaluateMapM inExpanded
        split at expands
        · exact adds.resolveWithin (free member inMembers) expands
        · cases Check.answers_pure.mp expands
          exact free _ inMembers
  · cases Check.answers_pure.mp answers

/-- Normalizing and merging adds no method signatures. -/
theorem normalizeMerged
    (free : type.MethodFree)
    (answers : Check.Answers (evaluation.normalizeMerged depth type) result) :
    result.MethodFree := by
  unfold Evaluation.normalizeMerged at answers
  obtain ⟨form, normalizes, answers⟩ := answers.of_bind
  have formFree := adds.normalizeAt free normalizes
  split at answers
  · obtain ⟨merged, merges, answers⟩ := answers.of_bind
    cases merged with
    | none =>
        cases Check.answers_pure.mp answers
        exact formFree
    | some merged =>
        cases Check.answers_pure.mp answers
        exact adds.mergeMembers formFree.parts merges
  · cases Check.answers_pure.mp answers
    exact formFree

/-- A union or intersection is merged, and followed if a name is left. -/
theorem followMerged
    {follow : Ty → Evaluate Ty}
    (follows :
      ∀ type,
        type.MethodFree →
        Check.Answers (follow type).run (.ok result) →
        result.MethodFree)
    (free : type.MethodFree)
    (answers :
      Check.Answers
        (ExceptT.run (do
          let merged ← evaluation.normalizeMerged depth type
          if merged.isReference then follow merged else return merged))
        (.ok result)) :
    result.MethodFree := by
  obtain ⟨merged, merges, answers⟩ := answers.of_evaluateBind
  have mergedFree := adds.normalizeMerged free merges.of_evaluateLift
  split at answers
  · exact follows merged mergedFree answers
  · cases Check.answers_pure.mp answers
    exact mergedFree

/-- What stands behind a type has no method signatures. -/
theorem structuralWithin
    (free : type.MethodFree)
    (answers :
      Check.Answers (evaluation.structuralWithin remaining depth type).run
        (.ok result)) :
    result.MethodFree := by
  induction remaining generalizing depth type with
  | zero =>
      unfold Evaluation.structuralWithin at answers
      obtain ⟨resolved, resolves, answers⟩ := answers.of_evaluateBind
      have resolvedFree := adds.resolveWithin free resolves
      cases resolved with
      | union | intersection =>
          refine adds.followMerged (fun _ _ exhausts => ?_) resolvedFree answers
          exact (Check.not_answers_halt exhausts).elim
      | _ =>
          cases Check.answers_pure.mp answers
          exact resolvedFree
  | succ remaining inductionHypothesis =>
      unfold Evaluation.structuralWithin at answers
      obtain ⟨resolved, resolves, answers⟩ := answers.of_evaluateBind
      have resolvedFree := adds.resolveWithin free resolves
      cases resolved with
      | union | intersection =>
          exact adds.followMerged (fun _ => inductionHypothesis) resolvedFree
            answers
      | _ =>
          cases Check.answers_pure.mp answers
          exact resolvedFree

/-- The object behind a base has no method signatures. -/
theorem objectBase
    (free : base.MethodFree)
    (answers :
      Check.Answers (evaluation.objectBase utility depth base).run
        (.ok shape)) :
    (Ty.object none shape).MethodFree := by
  unfold Evaluation.objectBase at answers
  obtain ⟨type, follows, answers⟩ := answers.of_evaluateBind
  have found := adds.structuralWithin free follows
  split at answers
  · cases Check.answers_pure.mp answers
    exact .node rfl found.parts
  · cases Check.answers_pure.mp answers

/-- The function behind a base is no method. -/
theorem functionBase
    (free : base.MethodFree)
    (answers :
      Check.Answers (evaluation.functionBase utility depth base).run
        (.ok signature)) :
    (Ty.function none signature).MethodFree := by
  unfold Evaluation.functionBase at answers
  obtain ⟨type, follows, answers⟩ := answers.of_evaluateBind
  have found := adds.structuralWithin free follows
  split at answers
  · cases Check.answers_pure.mp answers
    exact .node found.here found.parts
  · cases Check.answers_pure.mp answers

/-- The object that `Pick` and `Omit` work on has no method signatures. -/
theorem keyedBase
    {application : Application Ty}
    {keyed : Shape Ty × List Text.RawText}
    (free : application.base.MethodFree)
    (answers :
      Check.Answers (evaluation.keyedBase application depth).run
        (.ok keyed)) :
    (Ty.object none keyed.1).MethodFree := by
  unfold Evaluation.keyedBase at answers
  split at answers
  · obtain ⟨shape, bases, answers⟩ := answers.of_evaluateBind
    obtain ⟨keys, _, answers⟩ := answers.of_evaluateBind
    cases Check.answers_pure.mp answers
    exact adds.objectBase free bases
  · cases Check.answers_pure.mp answers

/-- `Partial` and `Required` add no method signatures. -/
theorem applyOptional
    {application : Application Ty}
    {optional : Bool}
    (free : application.base.MethodFree)
    (answers :
      Check.Answers (evaluation.applyOptional application optional depth).run
        (.ok result)) :
    result.MethodFree := by
  unfold Evaluation.applyOptional at answers
  obtain ⟨_, _, answers⟩ := answers.of_evaluateBind
  obtain ⟨shape, bases, answers⟩ := answers.of_evaluateBind
  cases Check.answers_pure.mp answers
  exact Ty.methodFree_kept.change (adds.objectBase free bases)
    fun _ => ⟨rfl, rfl⟩

/-- `Readonly` adds no method signatures. -/
theorem applyReadonly
    {application : Application Ty}
    (free : application.base.MethodFree)
    (answers :
      Check.Answers (evaluation.applyReadonly application depth).run
        (.ok result)) :
    result.MethodFree := by
  unfold Evaluation.applyReadonly at answers
  obtain ⟨_, _, answers⟩ := answers.of_evaluateBind
  obtain ⟨type, follows, answers⟩ := answers.of_evaluateBind
  have found := adds.structuralWithin free follows
  split at answers
  · cases Check.answers_pure.mp answers
    exact Ty.methodFree_kept.array found
  · cases Check.answers_pure.mp answers
    exact Ty.methodFree_kept.tuple found
  · cases Check.answers_pure.mp answers
    exact Ty.methodFree_kept.change found fun _ => ⟨rfl, rfl⟩
  · cases Check.answers_pure.mp answers

/-- No utility adds method signatures. -/
theorem apply
    {application : Application Ty}
    (free :
      application.base.isAbsent = false → application.base.MethodFree)
    (answers :
      Check.Answers (evaluation.apply application depth).run (.ok result)) :
    result.MethodFree := by
  unfold Evaluation.apply at answers
  split at answers
  · cases Check.answers_pure.mp answers
  next present =>
  have baseFree := free (by simpa using present)
  split at answers
  · unfold Checker.failTooComplex at answers
    obtain ⟨_, _, answers⟩ := answers.of_evaluateBind
    cases Check.answers_pure.mp answers
  split at answers
  · unfold Evaluation.applyPick at answers
    obtain ⟨keyed, bases, answers⟩ := answers.of_evaluateBind
    dsimp only at answers
    split at answers
    · cases Check.answers_pure.mp answers
    · cases Check.answers_pure.mp answers
      exact Ty.methodFree_kept.pick (adds.keyedBase baseFree bases) _
  · unfold Evaluation.applyOmit at answers
    obtain ⟨keyed, bases, answers⟩ := answers.of_evaluateBind
    cases Check.answers_pure.mp answers
    exact Ty.methodFree_kept.without (adds.keyedBase baseFree bases) _
  · exact adds.applyOptional baseFree answers
  · exact adds.applyOptional baseFree answers
  · exact adds.applyReadonly baseFree answers
  · unfold Evaluation.applyReturnType at answers
    obtain ⟨_, _, answers⟩ := answers.of_evaluateBind
    obtain ⟨signature, bases, answers⟩ := answers.of_evaluateBind
    cases Check.answers_pure.mp answers
    exact Ty.methodFree_kept.result (adds.functionBase baseFree bases)
  · unfold Evaluation.applyParameters at answers
    obtain ⟨_, _, answers⟩ := answers.of_evaluateBind
    obtain ⟨signature, bases, answers⟩ := answers.of_evaluateBind
    cases Check.answers_pure.mp answers
    exact Ty.methodFree_kept.parameters (adds.functionBase baseFree bases)
  · unfold Evaluation.applyNonNullable at answers
    obtain ⟨_, _, answers⟩ := answers.of_evaluateBind
    obtain ⟨type, follows, answers⟩ := answers.of_evaluateBind
    exact adds.normalizeAt (adds.structuralWithin baseFree follows).nonNullable
      answers.of_evaluateLift
  · cases Check.answers_pure.mp answers

end AddsNoMethods

end Evaluation

namespace Checker

variable {checker : Checker} (free : checker.arena.MethodFree)
include free

/-- Evaluating applications adds no method signatures. -/
theorem evaluateWithin_methodFree
    (budget : Nat) :
    (checker.evaluateWithin budget).Retains Ty.MethodFree := by
  induction budget with
  | zero =>
      intro application depth type _ answers
      exact (Check.not_answers_halt answers).elim
  | succ budget inductionHypothesis =>
      intro application depth type baseFree answers
      have adds :
          Evaluation.AddsNoMethods
            { checker, evaluate := checker.evaluateWithin budget, budget } :=
        ⟨free, inductionHypothesis⟩
      exact adds.apply baseFree answers

/-- The evaluation with the whole budget adds no method signatures. -/
theorem evaluation_addsNoMethods :
    checker.evaluation.AddsNoMethods :=
  ⟨free, evaluateWithin_methodFree free checker.budget⟩

/-- The type behind a reference has no method signatures. -/
theorem resolve_methodFree
    (typeFree : type.MethodFree)
    (answers :
      Check.Answers (checker.evaluation.resolve depth type).run (.ok result)) :
    result.MethodFree :=
  (evaluation_addsNoMethods free).resolveWithin typeFree answers

/-- Normalizing a type adds no method signatures. -/
theorem normalize_methodFree
    (typeFree : type.MethodFree)
    (answers : Check.Answers (checker.normalize type) result) :
    result.MethodFree :=
  (evaluation_addsNoMethods free).normalizeAt typeFree answers

/-- The members that a type exposes have no method signatures. -/
theorem apparentWithin_methodFree
    {budget : Nat}
    (typeFree : type.MethodFree)
    (answers :
      Check.Answers (checker.apparentWithin budget type) (some shape)) :
    shape.All Ty.MethodFree := by
  have empty : Shape.All Ty.MethodFree {} :=
    ⟨List.forall_mem_nil _, nofun, nofun⟩
  have length : lengthShape.All Ty.MethodFree :=
    ⟨List.forall_mem_singleton.mpr .primitive, nofun, nofun⟩
  induction budget generalizing type shape with
  | zero => exact (Check.not_answers_halt answers).elim
  | succ budget inductionHypothesis =>
  unfold apparentWithin at answers
  cases type with
  | primitive kind =>
      cases kind <;> cases Check.answers_pure.mp answers <;> assumption
  | literal occurrence value =>
      cases value <;> cases Check.answers_pure.mp answers <;> assumption
  | object occurrence own =>
      cases Check.answers_pure.mp answers
      exact Ty.MethodFree.object.mp typeFree
  | array occurrence element readonly =>
      cases Check.answers_pure.mp answers
      have elementFree := typeFree.parts element List.mem_cons_self
      refine ⟨List.forall_mem_singleton.mpr .primitive, ?_, ?_⟩
      · rintro _ ⟨⟩
        exact .primitive
      · rintro _ ⟨⟩
        exact elementFree
  | tuple occurrence elements readonly =>
      obtain ⟨element, reads, answers⟩ := answers.of_bind
      cases Check.answers_pure.mp answers
      have elementFree : element.MethodFree := by
        unfold tupleElement at reads
        split at reads
        · cases Check.answers_pure.mp reads
          exact .primitive
        · have union : (Ty.ofUnion elements).MethodFree :=
            .node rfl typeFree.parts
          exact normalize_methodFree free union reads
      refine ⟨List.forall_mem_cons.mpr ⟨.leaf rfl rfl, ?_⟩, ?_, ?_⟩
      · exact forall_positionProperties typeFree.parts
      · rintro _ ⟨⟩
        exact .primitive
      · rintro _ ⟨⟩
        exact elementFree
  | function occurrence signature =>
      cases Check.answers_pure.mp answers
      exact length
  | intersection occurrence members =>
      obtain ⟨merged, folds, answers⟩ := answers.of_bind
      cases Check.answers_pure.mp answers
      refine Check.Answers.of_foldlM folds empty
        fun current all member inMembers next answers => ?_
      obtain ⟨outcome, resolves, answers⟩ := answers.of_bind
      cases outcome with
      | error error =>
          cases Check.answers_pure.mp answers
          exact all
      | ok type =>
          have behind :=
            resolve_methodFree free (typeFree.parts member inMembers) resolves
          obtain ⟨exposed, exposes, answers⟩ := answers.of_bind
          cases exposed with
          | none =>
              cases Check.answers_pure.mp answers
              exact all
          | some other =>
              cases Check.answers_pure.mp answers
              exact all.addMissing (inductionHypothesis behind exposes)
  | _ => cases Check.answers_pure.mp answers

end Checker

end StructuralTyping
