import StructuralTyping.Proofs.Meeting
import StructuralTyping.Proofs.Run

namespace StructuralTyping

/-!
# Normalization keeps the values of a type

Normalizing a type of a fragment answers with a type of the fragment that holds
the same values and mentions no further names, at every depth bound. One step
of the pass preserves this, so every pass does.
-/

open Stateful

/--
A fragment whose types can be normalized over an arena: the arena is within the
fragment, and intersections meet neither `any` nor optional properties that may
hold `undefined`.
-/
structure Fragment.Sound
    (fragment : Fragment)
    (reading : Reading)
    (arena : Arena) :
    Prop where
  covers : fragment.Covers arena
  noAny : fragment.intersections = true → fragment.any = false
  strict :
    fragment.intersections = true →
    fragment.optional = true →
    reading.undefinedOptional = false

section Merging

variable {fragment : Fragment} {reading : Reading} {arena : Arena}

/-- A value has all the properties of a shape. -/
def ShapeHolds
    (reading : Reading)
    (arena : Arena)
    (shape : Shape Ty)
    (value : Value) :
    Prop :=
  ∀ property ∈ shape.properties, PropertyHolds reading arena property value

/-- Replacing an item of a list keeps what both items share. -/
theorem map_replace
    [BEq α]
    [LawfulBEq α]
    {items : List α}
    {view : α → β}
    (same : view old = view new) :
    (items.replace old new).map view = items.map view := by
  induction items with
  | nil =>
      rfl
  | cons item rest inductionHypothesis =>
      rw [List.replace_cons]
      split
      · next isOld =>
        rw [eq_of_beq isOld] at same
        simp [same]
      · simp [inductionHypothesis]

/-- Replacing an item of a list brings in the new item only. -/
theorem mem_of_mem_replace
    [BEq α]
    {items : List α}
    (member : item ∈ items.replace old new) :
    item ∈ items ∨ item = new := by
  induction items with
  | nil =>
      simp at member
  | cons first rest inductionHypothesis =>
      rw [List.replace_cons] at member
      split at member
      · rcases List.mem_cons.mp member with rfl | inRest
        · exact .inr rfl
        · exact .inl (.tail _ inRest)
      · rcases List.mem_cons.mp member with rfl | inRest
        · exact .inl (by simp)
        · exact (inductionHypothesis inRest).imp_left (.tail _)

/-- Replacing an item of a list without repetitions. -/
theorem forall_replace
    [BEq α]
    [LawfulBEq α]
    {items : List α}
    (distinct : items.Nodup)
    (member : old ∈ items)
    (predicate : α → Prop) :
    (∀ item ∈ items.replace old new, predicate item) ↔
      predicate new ∧ ∀ item ∈ items, item ≠ old → predicate item := by
  induction items with
  | nil =>
      simp at member
  | cons item rest inductionHypothesis =>
      rw [List.nodup_cons] at distinct
      rw [List.replace_cons]
      split
      · next isOld =>
        cases eq_of_beq isOld
        simp only [List.forall_mem_cons, ne_eq, not_true_eq_false,
          false_implies, true_and]
        refine and_congr_right fun _ => ⟨fun holds other inRest _ => ?_,
          fun holds other inRest => ?_⟩
        · exact holds other inRest
        · refine holds other inRest ?_
          rintro rfl
          exact distinct.1 inRest
      · next notOld =>
        have inRest : old ∈ rest := by
          rcases List.mem_cons.mp member with rfl | inRest
          · simp at notOld
          · exact inRest
        have differs : item ≠ old := by
          rintro rfl
          simp at notOld
        simp only [List.forall_mem_cons,
          inductionHypothesis distinct.2 inRest, ne_eq, differs,
          not_false_eq_true, forall_const]
        exact and_left_comm

/-- The property that two properties of one name are merged into. -/
def mergedProperty
    (existing property : Property Ty)
    (type : Ty) :
    Property Ty :=
  { existing with
    type
    optional := existing.optional && property.optional
    readonly := existing.readonly || property.readonly }

/-- A merged property accepts what both properties accept. -/
theorem propertyHolds_merged
    {existing property : Property Ty}
    {value : Value}
    (strict : ∀ found,
      ¬ reading.passes existing found ∧ ¬ reading.passes property found)
    (sameName : property.name = existing.name)
    (renders : ∀ value,
      Holds reading arena type value ↔
        Holds reading arena existing.type value ∧
          Holds reading arena property.type value) :
    PropertyHolds reading arena (mergedProperty existing property type)
        value ↔
      PropertyHolds reading arena existing value ∧
        PropertyHolds reading arena property value := by
  unfold PropertyHolds
  rw [sameName, show (mergedProperty existing property type).name =
    existing.name from rfl]
  split
  · simp [mergedProperty]
  · next found has =>
    have refused :
        ¬ reading.passes (mergedProperty existing property type) found := by
      rintro ⟨undefinedOptional, optional, isUndefined⟩
      simp only [mergedProperty, Bool.and_eq_true] at optional
      exact (strict found).1 ⟨undefinedOptional, optional.1, isUndefined⟩
    simp only [refused, strict found, false_or]
    exact renders found

end Merging

/--
A pass preserves the values of types: each of its parts answers with a type
that stands for what it was given. Types that were left out stay left out.
-/
structure NormalPass.Preserves
    (fragment : Fragment)
    (reading : Reading)
    (arena : Arena)
    (pass : NormalPass) :
    Prop where
  normalize :
    ∀ {depth type result},
      fragment.admits type = true →
      Answers (pass.normalize depth type) result →
      Renders fragment reading arena result (Holds reading arena type)
        (· ∈ type.mentions)
  normalizeAbsent :
    ∀ {depth result},
      Answers (pass.normalize depth .absent) result →
      result = .absent
  inner :
    ∀ {depth type result},
      fragment.admits type = true →
      Answers (pass.inner depth type) result →
      Renders fragment reading arena result (Holds reading arena type)
        (· ∈ type.mentions)
  innerAbsent :
    ∀ {depth result},
      Answers (pass.inner depth .absent) result →
      result = .absent
  intersection :
    ∀ {depth members result},
      fragment.intersections = true →
      (∀ member ∈ members, fragment.admits member = true) →
      Answers (pass.intersection depth members) result →
      Renders fragment reading arena result
        (fun value =>
          ∀ member ∈ members, Holds reading arena member value)
        (fun reference =>
          ∃ member ∈ members, reference ∈ member.mentions)

namespace NormalPass

section Step

variable {fragment : Fragment} {reading : Reading} {arena : Arena}
variable {pass : NormalPass}

/-- The union of some members stands for what some member holds. -/
theorem Preserves.union
    (preserves : pass.Preserves fragment reading arena)
    (sound : fragment.Sound reading arena)
    (admitted : ∀ member ∈ members, fragment.admits member = true)
    (answers : Answers (pass.union arena depth members) result) :
    Renders fragment reading arena result
      (fun value => ∃ member ∈ members, Holds reading arena member value)
      (fun reference => ∃ member ∈ members, reference ∈ member.mentions) := by
  unfold NormalPass.union at answers
  obtain ⟨types, visits, answers⟩ := answers.of_bind
  cases answers_pure.mp answers
  have related := visits.of_mapM
  have flat :
      ∀ type ∈ flattenUnion types, ∃ member ∈ members,
        ∃ normal, type ∈ normal.members ∧
          Renders fragment reading arena normal (Holds reading arena member)
            (· ∈ member.mentions) := by
    intro type inFlat
    obtain ⟨normal, inTypes, inNormal⟩ := List.mem_flatMap.mp inFlat
    obtain ⟨member, inMembers, answers⟩ := exists_related_left related inTypes
    exact ⟨member, inMembers, normal, inNormal,
      preserves.normalize (admitted member inMembers) answers⟩
  have flatAdmitted :
      ∀ type ∈ flattenUnion types, fragment.admits type = true := by
    intro type inFlat
    obtain ⟨_, _, normal, inNormal, renders⟩ := flat type inFlat
    exact Fragment.admits_members.mp renders.admits type inNormal
  have joined :
      Renders fragment reading arena (arena.joinMembers (flattenUnion types))
        _ _ :=
    renders_joinMembers sound.covers flatAdmitted
  refine ⟨joined.admits, fun value => ?_, fun reference mentioned => ?_⟩
  · rw [joined.holds value]
    constructor
    · rintro ⟨type, inFlat, holds⟩
      obtain ⟨member, inMembers, normal, inNormal, renders⟩ :=
        flat type inFlat
      exact ⟨member, inMembers, (renders.holds value).mp
        (holds_members.mpr ⟨type, inNormal, holds⟩)⟩
    · rintro ⟨member, inMembers, holds⟩
      obtain ⟨normal, inTypes, answers⟩ :=
        exists_related_right related inMembers
      have renders := preserves.normalize (admitted member inMembers) answers
      obtain ⟨type, inNormal, holds⟩ :=
        holds_members.mp ((renders.holds value).mpr holds)
      exact ⟨type, List.mem_flatMap.mpr ⟨normal, inTypes, inNormal⟩, holds⟩
  · obtain ⟨type, inFlat, mentioned⟩ := joined.mentions reference mentioned
    obtain ⟨member, inMembers, normal, inNormal, renders⟩ := flat type inFlat
    exact ⟨member, inMembers, renders.mentions reference
      (Ty.mem_mentions_members.mpr ⟨type, inNormal, mentioned⟩)⟩

/-- Where intersections are met, no optional property may hold `undefined`. -/
theorem not_passes
    (sound : fragment.Sound reading arena)
    (intersections : fragment.intersections = true)
    {property : Property Ty}
    (admitted : property.optional = true → fragment.optional = true)
    (found : Value) :
    ¬ reading.passes property found := by
  rintro ⟨undefinedOptional, optional, _⟩
  rw [sound.strict intersections (admitted optional)] at undefinedOptional
  cases undefinedOptional

/-- Merging a property into a shape keeps what both hold. -/
theorem Preserves.mergeProperty
    (preserves : pass.Preserves fragment reading arena)
    (sound : fragment.Sound reading arena)
    (intersections : fragment.intersections = true)
    {shape : Shape Ty}
    (shapeAdmitted : fragment.admits (.ofShape shape) = true)
    (typeAdmitted : fragment.admits property.type = true)
    (optionalAdmitted :
      property.optional = true → fragment.optional = true)
    (answers :
      Answers (pass.mergeProperty arena depth shape property) merged) :
    fragment.admits (.ofShape merged) = true ∧
      ∀ value,
        ShapeHolds reading arena merged value ↔
          ShapeHolds reading arena shape value ∧
            PropertyHolds reading arena property value := by
  obtain ⟨noIndex, distinct, each⟩ := Fragment.admits_object.mp shapeAdmitted
  unfold NormalPass.mergeProperty at answers
  split at answers
  · next unknown =>
    cases answers_pure.mp answers
    have fresh : property.name ∉ shape.names := by
      intro known
      obtain ⟨other, inProperties, sameName⟩ := List.mem_map.mp known
      have found := List.find?_eq_none.mp unknown other inProperties
      simp [sameName] at found
    constructor
    · refine Fragment.admits_object.mpr ⟨noIndex, ?_, ?_⟩
      · simp only [Shape.names, List.map_append, List.map_cons, List.map_nil]
        exact List.nodup_append.mpr ⟨distinct, by simp, by
          rintro name known other isNew rfl
          exact fresh (List.mem_singleton.mp isNew ▸ known)⟩
      · intro other member
        rcases List.mem_append.mp member with inShape | isNew
        · exact each other inShape
        · cases List.mem_singleton.mp isNew
          exact ⟨typeAdmitted, optionalAdmitted⟩
    · intro value
      simp [ShapeHolds, or_imp, forall_and]
  · next existing found =>
    obtain ⟨inShape, sameName⟩ := Shape.mem_of_property? found
    obtain ⟨type, renders, rfl⟩ :
        ∃ type,
          (fragment.admits type = true ∧
            ∀ value,
              Holds reading arena type value ↔
                Holds reading arena existing.type value ∧
                  Holds reading arena property.type value) ∧
          merged =
            { shape with
              properties := shape.properties.replace existing
                (mergedProperty existing property type) } := by
      dsimp only at answers
      split at answers
      · next identical =>
        obtain ⟨type, typeAnswers, answers⟩ := answers.of_bind
        cases answers_pure.mp typeAnswers
        refine ⟨existing.type, ⟨(each existing inShape).1, fun value => ?_⟩,
          answers_pure.mp answers⟩
        rw [← holds_of_identical sound.covers (each existing inShape).1
          typeAdmitted identical value]
        simp
      · obtain ⟨type, typeAnswers, answers⟩ := answers.of_bind
        have met :=
          preserves.intersection intersections
            (by simpa using ⟨(each existing inShape).1, typeAdmitted⟩)
            typeAnswers
        exact ⟨type,
          ⟨met.admits, fun value => by simpa using met.holds value⟩,
          answers_pure.mp answers⟩
    have distinctProperties : shape.properties.Nodup := .of_map _ distinct
    constructor
    · refine Fragment.admits_object.mpr ⟨noIndex, ?_, ?_⟩
      · have names :
            (shape.properties.replace existing
              (mergedProperty existing property type)).map Property.name =
              shape.names :=
          map_replace rfl
        unfold Shape.names
        rw [names]
        exact distinct
      · rw [forall_replace distinctProperties inShape fun other =>
          fragment.admits other.type = true ∧
            (other.optional = true → fragment.optional = true)]
        refine ⟨⟨renders.1, fun optional => ?_⟩, fun other member _ =>
          each other member⟩
        simp only [mergedProperty, Bool.and_eq_true] at optional
        exact optionalAdmitted optional.2
    · intro value
      unfold ShapeHolds
      dsimp only
      rw [forall_replace distinctProperties inShape fun other =>
        PropertyHolds reading arena other value]
      rw [propertyHolds_merged
        (fun found =>
          ⟨not_passes sound intersections (each existing inShape).2 found,
            not_passes sound intersections optionalAdmitted found⟩)
        sameName.symm renders.2]
      constructor
      · rintro ⟨⟨existingHolds, propertyHolds⟩, others⟩
        refine ⟨fun other member => ?_, propertyHolds⟩
        by_cases same : other = existing
        · exact same ▸ existingHolds
        · exact others other member same
      · rintro ⟨all, propertyHolds⟩
        exact ⟨⟨all existing inShape, propertyHolds⟩,
          fun other member _ => all other member⟩

/-- Merging properties one after the other keeps what all of them hold. -/
theorem Preserves.mergeProperties
    (preserves : pass.Preserves fragment reading arena)
    (sound : fragment.Sound reading arena)
    (intersections : fragment.intersections = true)
    {shape : Shape Ty}
    {properties : List (Property Ty)}
    (shapeAdmitted : fragment.admits (.ofShape shape) = true)
    (admitted : ∀ property ∈ properties,
      fragment.admits property.type = true ∧
        (property.optional = true → fragment.optional = true))
    (answers :
      Answers (properties.foldlM (pass.mergeProperty arena depth) shape)
        merged) :
    fragment.admits (.ofShape merged) = true ∧
      ∀ value,
        ShapeHolds reading arena merged value ↔
          ShapeHolds reading arena shape value ∧
            ∀ property ∈ properties,
              PropertyHolds reading arena property value := by
  induction properties generalizing shape with
  | nil =>
      cases answers_pure.mp answers
      exact ⟨shapeAdmitted, fun value => by simp⟩
  | cons property rest inductionHypothesis =>
      rw [List.foldlM_cons] at answers
      obtain ⟨next, first, answers⟩ := answers.of_bind
      obtain ⟨typeAdmitted, optionalAdmitted⟩ := admitted property (by simp)
      obtain ⟨nextAdmitted, nextHolds⟩ :=
        preserves.mergeProperty sound intersections shapeAdmitted typeAdmitted
          optionalAdmitted first
      obtain ⟨mergedAdmitted, mergedHolds⟩ :=
        inductionHypothesis nextAdmitted
          (fun other member => admitted other (by simp [member])) answers
      refine ⟨mergedAdmitted, fun value => ?_⟩
      rw [mergedHolds value, nextHolds value]
      simp [and_assoc]

/-- Merging a shape into another keeps what both hold. -/
theorem Preserves.mergeShape
    (preserves : pass.Preserves fragment reading arena)
    (sound : fragment.Sound reading arena)
    (intersections : fragment.intersections = true)
    {first second : Shape Ty}
    (firstAdmitted : fragment.admits (.ofShape first) = true)
    (secondAdmitted : fragment.admits (.ofShape second) = true)
    (answers : Answers (pass.mergeShape arena depth first second) merged) :
    fragment.admits (.ofShape merged) = true ∧
      ∀ value,
        ShapeHolds reading arena merged value ↔
          ShapeHolds reading arena first value ∧
            ShapeHolds reading arena second value := by
  obtain ⟨noIndex, _, each⟩ := Fragment.admits_object.mp secondAdmitted
  unfold NormalPass.mergeShape at answers
  obtain ⟨joined, joins, answers⟩ := answers.of_bind
  obtain ⟨index, indexAnswers, answers⟩ := answers.of_bind
  cases answers_pure.mp answers
  obtain ⟨joinedAdmitted, joinedHolds⟩ :=
    preserves.mergeProperties sound intersections firstAdmitted each joins
  have noJoinedIndex := (Fragment.admits_object.mp joinedAdmitted).1
  rw [noIndex, noJoinedIndex] at indexAnswers
  cases answers_pure.mp indexAnswers
  refine ⟨?_, joinedHolds⟩
  obtain ⟨_, rest⟩ := Fragment.admits_object.mp joinedAdmitted
  exact Fragment.admits_object.mpr ⟨rfl, rest⟩

/-- Merging shapes one after the other keeps what all of them hold. -/
theorem Preserves.mergeShapes
    (preserves : pass.Preserves fragment reading arena)
    (sound : fragment.Sound reading arena)
    (intersections : fragment.intersections = true)
    {shape : Shape Ty}
    {shapes : List (Shape Ty)}
    (shapeAdmitted : fragment.admits (.ofShape shape) = true)
    (admitted : ∀ other ∈ shapes, fragment.admits (.ofShape other) = true)
    (answers :
      Answers (shapes.foldlM (pass.mergeShape arena depth) shape) merged) :
    fragment.admits (.ofShape merged) = true ∧
      ∀ value,
        ShapeHolds reading arena merged value ↔
          ∀ other ∈ shape :: shapes,
            ShapeHolds reading arena other value := by
  induction shapes generalizing shape with
  | nil =>
      cases answers_pure.mp answers
      exact ⟨shapeAdmitted, fun value => by simp⟩
  | cons first rest inductionHypothesis =>
      rw [List.foldlM_cons] at answers
      obtain ⟨next, step, answers⟩ := answers.of_bind
      obtain ⟨nextAdmitted, nextHolds⟩ :=
        preserves.mergeShape sound intersections shapeAdmitted
          (admitted first (by simp)) step
      obtain ⟨mergedAdmitted, mergedHolds⟩ :=
        inductionHypothesis nextAdmitted
          (fun other member => admitted other (by simp [member])) answers
      refine ⟨mergedAdmitted, fun value => ?_⟩
      rw [mergedHolds value, List.forall_mem_cons, nextHolds value]
      simp [and_assoc]

/-- The shapes of a list are those of its object types. -/
theorem mem_shapesOf
    {members : List Ty} :
    shape ∈ shapesOf members ↔
      ∃ occurrence, .object occurrence shape ∈ members := by
  unfold shapesOf
  rw [List.mem_filterMap]
  constructor
  · rintro ⟨type, member, same⟩
    cases type <;> simp at same
    exact ⟨_, same ▸ member⟩
  · rintro ⟨occurrence, member⟩
    exact ⟨_, member, rfl⟩

/-- Putting one type in the place of all objects of a list that has some. -/
theorem forall_replaceObjects
    {members : List Ty}
    {shape : Shape Ty}
    (some : shape ∈ shapesOf members)
    (predicate : Ty → Prop) :
    (∀ member ∈ replaceObjects merged members, predicate member) ↔
      predicate merged ∧
        ∀ member ∈ members,
          RelationStep.isObject member = false → predicate member := by
  induction members with
  | nil =>
      simp [shapesOf] at some
  | cons member rest inductionHypothesis =>
      cases member with
      | object occurrence own =>
          simp only [replaceObjects, List.forall_mem_cons, List.mem_filter,
            RelationStep.isObject, Bool.true_eq_false, false_implies,
            true_and, and_imp]
          refine and_congr_right fun _ => forall₂_congr fun other _ => ?_
          cases other <;> simp
      | _ =>
          have inRest : shape ∈ shapesOf rest := by
            simpa [shapesOf] using some
          simp only [replaceObjects, List.forall_mem_cons,
            RelationStep.isObject, forall_const, inductionHypothesis inRest]
          exact and_left_comm

/-- Merging the objects of a list keeps what all of its types hold. -/
theorem Preserves.mergeObjects
    (preserves : pass.Preserves fragment reading arena)
    (sound : fragment.Sound reading arena)
    (intersections : fragment.intersections = true)
    {members : List Ty}
    (admitted : ∀ member ∈ members, fragment.admits member = true)
    (answers : Answers (pass.mergeObjects arena depth members) merged) :
    (∀ member ∈ merged, fragment.admits member = true) ∧
      (∀ value,
        (∀ member ∈ merged, Holds reading arena member value) ↔
          ∀ member ∈ members, Holds reading arena member value) ∧
      ∀ member ∈ merged, ∀ reference ∈ member.mentions,
        ∃ other ∈ members, reference ∈ other.mentions := by
  unfold NormalPass.mergeObjects at answers
  split at answers
  · next first second rest shapes =>
    obtain ⟨shape, folds, answers⟩ := answers.of_bind
    cases answers_pure.mp answers
    have shapeAdmitted :
        ∀ other ∈ shapesOf members,
          fragment.admits (.ofShape other) = true := by
      intro other listed
      obtain ⟨occurrence, member⟩ := mem_shapesOf.mp listed
      exact Fragment.admits_object.mpr
        (Fragment.admits_object.mp (admitted _ member))
    rw [shapes] at shapeAdmitted
    obtain ⟨mergedAdmitted, mergedHolds⟩ :=
      preserves.mergeShapes sound intersections
        (shapeAdmitted first (by simp))
        (fun other member => shapeAdmitted other (by simp [member])) folds
    have someShape : first ∈ shapesOf members := by simp [shapes]
    refine ⟨?_, fun value => ?_, ?_⟩
    · rw [forall_replaceObjects someShape
        fun member => fragment.admits member = true]
      exact ⟨mergedAdmitted, fun member inMembers _ =>
        admitted member inMembers⟩
    · rw [forall_replaceObjects someShape
        fun member => Holds reading arena member value]
      rw [Ty.ofShape, holds_object, show
        (∀ property ∈ shape.properties,
          PropertyHolds reading arena property value) =
          ShapeHolds reading arena shape value from rfl,
        mergedHolds value, ← shapes]
      constructor
      · rintro ⟨⟨isObject, each⟩, others⟩ member inMembers
        cases member with
        | object occurrence own =>
            exact holds_object.mpr ⟨isObject,
              each own (mem_shapesOf.mpr ⟨occurrence, inMembers⟩)⟩
        | _ =>
            exact others _ inMembers rfl
      · intro holds
        refine ⟨⟨?_, fun other listed => ?_⟩, fun member inMembers _ =>
          holds member inMembers⟩
        · obtain ⟨occurrence, inMembers⟩ := mem_shapesOf.mp someShape
          exact (holds_object.mp (holds _ inMembers)).1
        · obtain ⟨occurrence, inMembers⟩ := mem_shapesOf.mp listed
          exact (holds_object.mp (holds _ inMembers)).2
    · rw [forall_replaceObjects someShape
        fun member => ∀ reference ∈ member.mentions,
          ∃ other ∈ members, reference ∈ other.mentions]
      refine ⟨by simp [Ty.ofShape, Ty.mentions], ?_⟩
      exact fun member inMembers _ reference mentioned =>
        ⟨member, inMembers, mentioned⟩
  · cases answers_pure.mp answers
    exact ⟨admitted, fun value => Iff.rfl,
      fun member inMembers reference mentioned =>
        ⟨member, inMembers, mentioned⟩⟩

/-- Nothing belongs to all types of a list with an empty one. -/
theorem renders_never
    {values : Value → Prop}
    {names : Reference → Prop}
    (empty : ∀ value, ¬ values value) :
    Renders fragment reading arena .never values names :=
  ⟨by simp [Fragment.admits],
    fun value => iff_of_false (by simp [Primitive.holds]) (empty value),
    by simp [Ty.mentions]⟩

/-- The intersection of a list stands for what all its types hold. -/
theorem Preserves.meetMembers
    (preserves : pass.Preserves fragment reading arena)
    (sound : fragment.Sound reading arena)
    (intersections : fragment.intersections = true)
    {types : List Ty}
    (admitted : ∀ type ∈ types, fragment.admits type = true)
    (answers : Answers (pass.meetMembers arena depth types) result) :
    Renders fragment reading arena result
      (fun value => ∀ type ∈ types, Holds reading arena type value)
      (fun reference => ∃ type ∈ types, reference ∈ type.mentions) := by
  have notAny : ∀ type ∈ types, type.isPrimitive .any = false := by
    intro type member
    by_contra isAny
    cases eq_of_isPrimitive (Bool.not_eq_false _ ▸ isAny)
    have := admitted _ member
    simp [Fragment.admits, sound.noAny intersections] at this
  unfold NormalPass.meetMembers at answers
  split at answers
  · next type found =>
    cases answers_pure.mp answers
    have member := List.mem_of_find?_eq_some found
    have isNever : type.isNever = true := by
      simpa [notAny type member] using List.find?_some found
    rw [if_pos isNever]
    exact renders_never fun value holds =>
      not_holds_of_isNever isNever (holds type member)
  · next nonempty =>
    dsimp only at answers
    have notNever : ∀ type ∈ types, type.isNever = false := by
      intro type member
      have := List.find?_eq_none.mp nonempty type member
      simp only [Bool.or_eq_true, not_or] at this
      simpa using this.1
    generalize keptEq :
      (types.filter fun type => !type.isPrimitive .unknown).foldl
        arena.appendUnique [] = kept at answers
    have keptFrom :
        ∀ type ∈ kept, type ∈ types ∧ type.isPrimitive .unknown = false := by
      intro type member
      rw [← keptEq] at member
      have inFiltered := (mem_of_mem_unique member).resolve_left (by simp)
      simpa using List.mem_filter.mp inFiltered
    have keptHolds :
        ∀ value,
          (∀ type ∈ kept, Holds reading arena type value) ↔
            ∀ type ∈ types, Holds reading arena type value := by
      intro value
      rw [← keptEq, forall_unique_iff sound.covers
        (fun type member => admitted type (List.mem_filter.mp member).1)]
      refine ⟨fun holds type member => ?_, fun holds type member =>
        holds type (List.mem_filter.mp member).1⟩
      cases isUnknown : type.isPrimitive .unknown with
      | false =>
          exact holds type (List.mem_filter.mpr ⟨member, by simp [isUnknown]⟩)
      | true =>
          cases eq_of_isPrimitive isUnknown
          exact .primitive rfl
    have proper : ∀ kind, .primitive kind ∈ kept → kind.Proper := by
      intro kind member
      obtain ⟨inTypes, notUnknown⟩ := keptFrom _ member
      have never := notNever _ inTypes
      have any := notAny _ inTypes
      simp only [Ty.isNever, Ty.isPrimitive, beq_eq_false_iff_ne]
        at never any notUnknown
      exact ⟨any, notUnknown, never⟩
    have spec := @reduceAtoms_spec reading arena kept proper
    split at answers
    · next failed =>
      cases answers_pure.mp answers
      rw [failed] at spec
      exact renders_never fun value holds =>
        spec value ((keptHolds value).mpr holds)
    · next reduced succeeded =>
      rw [succeeded] at spec
      obtain ⟨merged, merges, answers⟩ := answers.of_bind
      have reducedFrom : ∀ type ∈ reduced, type ∈ types := fun type member =>
        (keptFrom type (mem_of_mem_reduceAtoms succeeded member)).1
      obtain ⟨mergedAdmitted, mergedHolds, mergedMentions⟩ :=
        preserves.mergeObjects sound intersections
          (fun member inReduced => admitted member (reducedFrom _ inReduced))
          merges
      have holds :
          ∀ value,
            (∀ member ∈ merged, Holds reading arena member value) ↔
              ∀ type ∈ types, Holds reading arena type value :=
        fun value =>
          (mergedHolds value).trans ((spec value).trans (keptHolds value))
      have mentions :
          ∀ member ∈ merged, ∀ reference ∈ member.mentions,
            ∃ type ∈ types, reference ∈ type.mentions := by
        intro member inMerged reference mentioned
        obtain ⟨type, inReduced, mentioned⟩ :=
          mergedMentions member inMerged reference mentioned
        exact ⟨type, reducedFrom type inReduced, mentioned⟩
      split at answers
      · cases answers_pure.mp answers
        refine ⟨by simp [Fragment.admits], fun value => ?_,
          by simp [Ty.mentions]⟩
        rw [← holds value]
        simp [Primitive.holds]
      · cases answers_pure.mp answers
        refine ⟨mergedAdmitted _ (by simp), fun value => ?_,
          mentions _ (by simp)⟩
        rw [← holds value]
        simp
      · cases answers_pure.mp answers
        refine ⟨?_, fun value => ?_, fun reference mentioned => ?_⟩
        · exact Fragment.admits_intersection.mpr
            ⟨intersections, mergedAdmitted⟩
        · rw [← holds value, Ty.ofIntersection, holds_intersection]
        · obtain ⟨member, inMerged, mentioned⟩ :=
            Ty.mem_mentions_intersection.mp mentioned
          exact mentions member inMerged reference mentioned

/-- Flattening an intersection takes its types from the members. -/
theorem mem_flattenIntersection
    {types : List Ty}
    (member : type ∈ flattenIntersection types) :
    ∃ whole ∈ types,
      type = whole ∨
        ∃ occurrence members,
          whole = .intersection occurrence members ∧ type ∈ members := by
  obtain ⟨whole, inTypes, found⟩ := List.mem_flatMap.mp member
  refine ⟨whole, inTypes, ?_⟩
  cases whole with
  | intersection occurrence members =>
      exact .inr ⟨occurrence, members, rfl, found⟩
  | _ =>
      exact .inl (List.mem_singleton.mp found)

/-- One step of the intersection rule stands for what all members hold. -/
theorem Preserves.nextIntersection
    (preserves : pass.Preserves fragment reading arena)
    (sound : fragment.Sound reading arena)
    (intersections : fragment.intersections = true)
    {members : List Ty}
    (admitted : ∀ member ∈ members, fragment.admits member = true)
    (answers : Answers (pass.nextIntersection arena depth members) result) :
    Renders fragment reading arena result
      (fun value => ∀ member ∈ members, Holds reading arena member value)
      (fun reference =>
        ∃ member ∈ members, reference ∈ member.mentions) := by
  unfold NormalPass.nextIntersection at answers
  obtain ⟨types, visits, answers⟩ := answers.of_bind
  dsimp only at answers
  have related := visits.of_mapM
  have normal :
      ∀ type ∈ types, ∃ member ∈ members,
        Renders fragment reading arena type (Holds reading arena member)
          (· ∈ member.mentions) := by
    intro type inTypes
    obtain ⟨member, inMembers, answers⟩ := exists_related_left related inTypes
    exact ⟨member, inMembers,
      preserves.normalize (admitted member inMembers) answers⟩
  have flatHolds :
      ∀ value,
        (∀ type ∈ flattenIntersection types,
          Holds reading arena type value) ↔
          ∀ member ∈ members, Holds reading arena member value := by
    intro value
    rw [forall_flattenIntersection]
    constructor
    · intro holds member inMembers
      obtain ⟨type, inTypes, answers⟩ :=
        exists_related_right related inMembers
      exact ((preserves.normalize (admitted member inMembers) answers).holds
        value).mp (holds type inTypes)
    · intro holds type inTypes
      obtain ⟨member, inMembers, renders⟩ := normal type inTypes
      exact (renders.holds value).mpr (holds member inMembers)
  have flatNormal :
      ∀ type ∈ flattenIntersection types,
        fragment.admits type = true ∧
          ∀ reference ∈ type.mentions,
            ∃ member ∈ members, reference ∈ member.mentions := by
    intro type inFlat
    obtain ⟨whole, inTypes, origin⟩ := mem_flattenIntersection inFlat
    obtain ⟨member, inMembers, renders⟩ := normal whole inTypes
    rcases origin with rfl | ⟨occurrence, parts, rfl, inParts⟩
    · exact ⟨renders.admits, fun reference mentioned =>
        ⟨member, inMembers, renders.mentions reference mentioned⟩⟩
    · refine ⟨(Fragment.admits_intersection.mp renders.admits).2 type inParts,
        fun reference mentioned => ⟨member, inMembers,
          renders.mentions reference ?_⟩⟩
      exact Ty.mem_mentions_intersection.mpr ⟨type, inParts, mentioned⟩
  split at answers
  · next combinations distributes =>
    obtain ⟨_, rfl⟩ := expanded_cases distributes
    obtain ⟨results, meets, answers⟩ := answers.of_bind
    have choiceNormal :
        ∀ choice ∈ choices (flattenIntersection types), ∀ member ∈ choice,
          fragment.admits member = true ∧
            ∀ reference ∈ member.mentions,
              ∃ member ∈ members, reference ∈ member.mentions := by
      intro choice inChoices member inChoice
      obtain ⟨type, inFlat, inType⟩ := mem_of_mem_choice inChoices inChoice
      obtain ⟨typeAdmitted, typeMentions⟩ := flatNormal type inFlat
      refine ⟨Fragment.admits_members.mp typeAdmitted member inType,
        fun reference mentioned => typeMentions reference ?_⟩
      exact Ty.mem_mentions_members.mpr ⟨member, inType, mentioned⟩
    have met :
        ∀ type ∈ results, ∃ choice ∈ choices (flattenIntersection types),
          Renders fragment reading arena type
            (fun value =>
              ∀ member ∈ choice, Holds reading arena member value)
            (fun reference =>
              ∃ member ∈ choice, reference ∈ member.mentions) := by
      intro type inResults
      obtain ⟨choice, inChoices, answers⟩ :=
        exists_related_left meets.of_mapM inResults
      exact ⟨choice, inChoices, preserves.intersection intersections
        (fun member inChoice =>
          (choiceNormal choice inChoices member inChoice).1) answers⟩
    have joined :=
      preserves.union sound
        (fun type inResults => by
          obtain ⟨_, _, renders⟩ := met type inResults
          exact renders.admits)
        answers
    refine ⟨joined.admits, fun value => ?_, fun reference mentioned => ?_⟩
    · rw [joined.holds value, ← flatHolds value, ← exists_choice_iff]
      constructor
      · rintro ⟨type, inResults, holds⟩
        obtain ⟨choice, inChoices, renders⟩ := met type inResults
        exact ⟨choice, inChoices, (renders.holds value).mp holds⟩
      · rintro ⟨choice, inChoices, holds⟩
        obtain ⟨type, inResults, answers⟩ :=
          exists_related_right meets.of_mapM inChoices
        have renders :=
          preserves.intersection intersections
            (fun member inChoice =>
              (choiceNormal choice inChoices member inChoice).1) answers
        exact ⟨type, inResults, (renders.holds value).mpr holds⟩
    · obtain ⟨type, inResults, mentioned⟩ :=
        joined.mentions reference mentioned
      obtain ⟨choice, inChoices, renders⟩ := met type inResults
      obtain ⟨member, inChoice, mentioned⟩ :=
        renders.mentions reference mentioned
      exact (choiceNormal choice inChoices member inChoice).2 reference
        mentioned
  · have met :=
      preserves.meetMembers sound intersections
        (fun type inFlat => (flatNormal type inFlat).1) answers
    refine ⟨met.admits, fun value => ?_, fun reference mentioned => ?_⟩
    · rw [met.holds value]
      exact flatHolds value
    · obtain ⟨type, inFlat, mentioned⟩ := met.mentions reference mentioned
      exact (flatNormal type inFlat).2 reference mentioned

/-- Normalizing the members of an object keeps its values. -/
theorem Preserves.normalizeShape
    (preserves : pass.Preserves fragment reading arena)
    {shape : Shape Ty}
    (admitted : fragment.admits (.object occurrence shape) = true)
    (answers : Answers (pass.normalizeShape depth shape) result) :
    Renders fragment reading arena (.ofShape result)
      (Holds reading arena (.object occurrence shape)) (fun _ => False) := by
  obtain ⟨noIndex, distinct, each⟩ := Fragment.admits_object.mp admitted
  unfold NormalPass.normalizeShape at answers
  obtain ⟨properties, visits, answers⟩ := answers.of_bind
  rw [noIndex] at answers
  obtain ⟨index, indexAnswers, answers⟩ := answers.of_bind
  cases answers_pure.mp indexAnswers
  cases answers_pure.mp answers
  have related :
      List.Forall₂
        (fun before after : Property Ty =>
          after.name = before.name ∧ after.optional = before.optional ∧
            (fragment.admits before.type = true →
              Renders fragment reading arena after.type
                (Holds reading arena before.type)
                (· ∈ before.type.mentions)))
        shape.properties properties := by
    refine visits.of_mapM.imp fun before after answers => ?_
    obtain ⟨type, inner, answers⟩ := answers.of_bind
    cases answers_pure.mp answers
    exact ⟨rfl, rfl, fun admitted => preserves.inner admitted inner⟩
  have names : properties.map Property.name = shape.names := by
    clear * - related
    unfold Shape.names
    generalize shape.properties = written at related
    induction related with
    | nil =>
        rfl
    | cons head _ inductionHypothesis =>
        simp [head.1, inductionHypothesis]
  have propertyHolds :
      ∀ before ∈ shape.properties, ∀ (after : Property Ty) (value : Value),
        after.name = before.name →
        after.optional = before.optional →
        (fragment.admits before.type = true →
          Renders fragment reading arena after.type
            (Holds reading arena before.type) (· ∈ before.type.mentions)) →
        (PropertyHolds reading arena after value ↔
          PropertyHolds reading arena before value) := by
    intro before inShape after value sameName sameOptional renders
    exact propertyHolds_congr sameName sameOptional fun found _ =>
      (renders (each before inShape).1).holds found
  refine ⟨Fragment.admits_object.mpr ⟨rfl, ?_, ?_⟩, fun value => ?_, ?_⟩
  · unfold Shape.names
    rw [names]
    exact distinct
  · intro after member
    obtain ⟨before, inShape, _, sameOptional, renders⟩ :=
      exists_related_left related member
    obtain ⟨typeAdmitted, optionalAdmitted⟩ := each before inShape
    exact ⟨(renders typeAdmitted).admits, sameOptional ▸ optionalAdmitted⟩
  · rw [Ty.ofShape, holds_object, holds_object]
    refine and_congr_right fun _ => ⟨fun holds before inShape => ?_,
      fun holds after member => ?_⟩
    · obtain ⟨after, member, sameName, sameOptional, renders⟩ :=
        exists_related_right related inShape
      exact (propertyHolds before inShape after value sameName sameOptional
        renders).mp (holds after member)
    · obtain ⟨before, inShape, sameName, sameOptional, renders⟩ :=
        exists_related_left related member
      exact (propertyHolds before inShape after value sameName sameOptional
        renders).mpr (holds before inShape)
  · simp [Ty.ofShape, Ty.mentions]

/-- Normalizing the parts of a signature keeps it in the fragment. -/
theorem Preserves.normalizeSignature
    (preserves : pass.Preserves fragment reading arena)
    {signature : Signature Ty}
    (admitted : fragment.admits (.function occurrence signature) = true)
    (answers : Answers (pass.normalizeSignature depth signature) result) :
    fragment.admits (.function none result) = true := by
  obtain ⟨parametersAdmitted, restAdmitted, resultAdmitted⟩ :=
    Fragment.admits_function.mp admitted
  unfold NormalPass.normalizeSignature at answers
  obtain ⟨parameters, visits, answers⟩ := answers.of_bind
  obtain ⟨rest, restAnswers, answers⟩ := answers.of_bind
  obtain ⟨last, resultAnswers, answers⟩ := answers.of_bind
  cases answers_pure.mp answers
  have part :
      ∀ {type normal : Ty},
        (type ≠ .absent → fragment.admits type = true) →
        Answers (pass.inner depth type) normal →
        normal ≠ .absent →
        fragment.admits normal = true := by
    intro type normal typeAdmitted inner present
    by_cases missing : type = .absent
    · subst missing
      exact absurd (preserves.innerAbsent inner) present
    · exact (preserves.inner (typeAdmitted missing) inner).admits
  refine Fragment.admits_function.mpr
    ⟨fun after member => ?_, part restAdmitted restAnswers,
      part resultAdmitted resultAnswers⟩
  obtain ⟨before, inParameters, answers⟩ :=
    exists_related_left visits.of_mapM member
  obtain ⟨type, inner, answers⟩ := answers.of_bind
  cases answers_pure.mp answers
  exact (preserves.inner (parametersAdmitted before inParameters) inner).admits

/-- A type stands for itself. -/
theorem renders_self
    (admitted : fragment.admits type = true) :
    Renders fragment reading arena type (Holds reading arena type)
      (· ∈ type.mentions) :=
  ⟨admitted, fun _ => Iff.rfl, fun _ mentioned => mentioned⟩

/-- Normalizing a node keeps its values. -/
theorem Preserves.normalizeNode
    {mode : NormalMode}
    (preserves : pass.Preserves fragment reading mode.checker.arena)
    (sound : fragment.Sound reading mode.checker.arena)
    {type : Ty}
    (admitted : fragment.admits type = true)
    (answers : Answers (pass.normalizeNode mode depth type) result) :
    Renders fragment reading mode.checker.arena result
      (Holds reading mode.checker.arena type) (· ∈ type.mentions) := by
  cases type with
  | absent =>
      simp at admitted
  | primitive kind =>
      cases answers_pure.mp answers
      exact renders_self admitted
  | literal occurrence value =>
      cases answers_pure.mp answers
      exact renders_self admitted
  | named reference =>
      cases answers_pure.mp answers
      exact renders_self admitted
  | generic occurrence application =>
      simp at admitted
  | object occurrence shape =>
      obtain ⟨normal, inner, answers⟩ := answers.of_bind
      cases answers_pure.mp answers
      have renders := preserves.normalizeShape admitted inner
      exact ⟨renders.admits, renders.holds, fun reference mentioned =>
        (renders.mentions reference mentioned).elim⟩
  | array occurrence element readonly =>
      obtain ⟨normal, inner, answers⟩ := answers.of_bind
      cases answers_pure.mp answers
      have renders :=
        preserves.inner (Fragment.admits_array.mp admitted) inner
      refine ⟨Fragment.admits_array.mpr renders.admits, fun value => ?_,
        by simp [Ty.mentions]⟩
      rw [holds_array, holds_array]
      refine exists_congr fun values => and_congr_right fun _ =>
        forall₂_congr fun value _ => renders.holds value
  | tuple occurrence elements readonly =>
      obtain ⟨normals, visits, answers⟩ := answers.of_bind
      cases answers_pure.mp answers
      have each := Fragment.admits_tuple.mp admitted
      have related := visits.of_mapM
      refine ⟨Fragment.admits_tuple.mpr fun normal member => ?_,
        fun value => ?_, by simp [Ty.mentions]⟩
      · obtain ⟨element, inElements, inner⟩ :=
          exists_related_left related member
        exact (preserves.inner (each element inElements) inner).admits
      · rw [holds_tuple, holds_tuple]
        refine exists_congr fun values => and_congr_right fun _ => ?_
        clear * - each related preserves
        induction related generalizing values with
        | nil =>
            rfl
        | cons inner _ inductionHypothesis =>
            have renders := preserves.inner (each _ (by simp)) inner
            cases values with
            | nil =>
                simp
            | cons value rest =>
                rw [List.forall₂_cons, List.forall₂_cons,
                  renders.holds value]
                exact and_congr_right fun _ => inductionHypothesis
                  (fun element member => each element (by simp [member])) rest
  | function occurrence signature =>
      obtain ⟨normal, inner, answers⟩ := answers.of_bind
      cases answers_pure.mp answers
      refine ⟨preserves.normalizeSignature admitted inner, fun value => ?_,
        by simp [Ty.mentions]⟩
      rw [holds_function, holds_function]
  | union occurrence members =>
      have renders :=
        preserves.union sound (Fragment.admits_union.mp admitted) answers
      refine ⟨renders.admits, fun value => ?_, fun reference mentioned =>
        Ty.mem_mentions_union.mpr (renders.mentions reference mentioned)⟩
      rw [renders.holds value, holds_union]
  | intersection occurrence members =>
      obtain ⟨intersections, each⟩ := Fragment.admits_intersection.mp admitted
      have renders := preserves.intersection intersections each answers
      refine ⟨renders.admits, fun value => ?_, fun reference mentioned =>
        Ty.mem_mentions_intersection.mpr
          (renders.mentions reference mentioned)⟩
      rw [renders.holds value, holds_intersection]

/-- One step of normalization keeps the values of a type. -/
theorem Preserves.next
    {mode : NormalMode}
    (preserves : pass.Preserves fragment reading mode.checker.arena)
    (sound : fragment.Sound reading mode.checker.arena) :
    (pass.next mode).Preserves fragment reading mode.checker.arena where
  normalize {depth type result} admitted answers := by
    change Answers (pass.nextNormalize mode depth type) result at answers
    unfold NormalPass.nextNormalize at answers
    split at answers
    · cases answers_pure.mp answers
      exact renders_self admitted
    split at answers
    · obtain ⟨_, _, answers⟩ := answers.of_bind
      cases answers_pure.mp answers
      exact renders_self admitted
    · exact preserves.normalizeNode sound admitted answers
  normalizeAbsent answers := answers_pure.mp answers
  inner {depth type result} admitted answers := by
    change Answers (pass.nextInner depth type) result at answers
    unfold NormalPass.nextInner at answers
    split at answers
    · simp at admitted
    · exact preserves.normalize admitted answers
  innerAbsent answers := preserves.normalizeAbsent answers
  intersection intersections admitted answers :=
    preserves.nextIntersection sound intersections admitted answers

end Step

end NormalPass

section Checking

variable {fragment : Fragment} {reading : Reading}

/-- A budget that ran out answers nothing. -/
theorem not_answers_exhausted
    {value : α} :
    ¬ Answers (fun _ => Check.exhausted : Normalizing α) value := by
  rintro ⟨state, after, log, last, run⟩
  cases run

/-- Every pass keeps the values of types. -/
theorem normalPass_preserves
    (mode : NormalMode)
    (sound : fragment.Sound reading mode.checker.arena)
    (budget : Nat) :
    (normalPass mode budget).Preserves fragment reading
      mode.checker.arena := by
  induction budget with
  | zero =>
      exact
        { normalize := fun _ answers =>
            (not_answers_exhausted answers).elim
          normalizeAbsent := fun answers =>
            (not_answers_exhausted answers).elim
          inner := fun _ answers => (not_answers_exhausted answers).elim
          innerAbsent := fun answers => (not_answers_exhausted answers).elim
          intersection := fun _ _ answers =>
            (not_answers_exhausted answers).elim }
  | succ budget inductionHypothesis =>
      rw [normalPass_succ]
      exact inductionHypothesis.next sound

/-- Normalizing on its own answers with what the pass answers with. -/
theorem answers_of_normalizeIn
    {mode : NormalMode}
    (answers : Check.Answers (normalizeIn mode budget depth type) result) :
    Answers ((normalPass mode budget).normalize depth type) result := by
  unfold normalizeIn at answers
  rw [StateT.run'_eq, map_eq_pure_bind] at answers
  obtain ⟨⟨value, flag⟩, run, answers⟩ := answers.of_bind
  cases Check.answers_pure.mp answers
  exact ⟨false, flag, run⟩

/-- Normalizing in any mode and at any depth keeps the values of a type. -/
theorem normalizeIn_renders
    (mode : NormalMode)
    (sound : fragment.Sound reading mode.checker.arena)
    (admitted : fragment.admits type = true)
    (answers : Check.Answers (normalizeIn mode budget depth type) result) :
    Renders fragment reading mode.checker.arena result
      (Holds reading mode.checker.arena type) (· ∈ type.mentions) :=
  (normalPass_preserves mode sound budget).normalize admitted
    (answers_of_normalizeIn answers)

end Checking

end StructuralTyping
