import Mathlib.Data.Set.Card
import StructuralTyping.Proofs.Universe

namespace StructuralTyping

/-!
# Comparisons close their cycles

A comparison of plain types stays in a finite universe. Between two references
it only descends, and each pair of references that it goes through is new, since
it would be recognized otherwise. So the number of nested comparisons is bounded,
whatever the definitions are, and a deep enough bound is never met.
-/

namespace Relating

/-- Every run ends with a result, without a report of an exceeded depth. -/
def Finishes
    (computation : Relating α) :
    Prop :=
  ∀ findings log, ∃ result added,
    computation findings log = .ok (result, log ++ added) ∧ Log.Quiet added

namespace Finishes

theorem pure
    (value : α) :
    Finishes (Pure.pure value) :=
  fun findings log =>
    ⟨(value, findings), [], by rw [List.append_nil]; rfl, Log.quiet_nil⟩

/-- A sequence finishes when its parts do. -/
theorem bind
    {first : Relating α}
    {next : α → Relating β}
    (early : Finishes first)
    (late : ∀ value, Finishes (next value)) :
    Finishes (first >>= next) := by
  intro findings log
  obtain ⟨⟨value, between⟩, added, run, quiet⟩ := early findings log
  obtain ⟨result, more, lateRun, lateQuiet⟩ := late value between (log ++ added)
  refine ⟨result, added ++ more, ?_, Log.quiet_append.mpr ⟨quiet, lateQuiet⟩⟩
  change (first findings log).bind _ = _
  rw [run, ← List.append_assoc]
  exact lateRun

theorem modify
    (change : Findings → Findings) :
    Finishes (modify change : Relating PUnit) :=
  fun findings log =>
    ⟨(⟨⟩, change findings), [], by rw [List.append_nil]; rfl, Log.quiet_nil⟩

theorem get :
    Finishes (get : Relating Findings) :=
  fun findings log =>
    ⟨(findings, findings), [], by rw [List.append_nil]; rfl, Log.quiet_nil⟩

theorem fail
    (reason : Reason) :
    Finishes (Relating.fail reason) :=
  (modify _).bind fun _ => pure false

/-- A decision finishes either way. -/
theorem decided
    (accepted : Bool)
    (reason : Reason) :
    Finishes (if accepted then Pure.pure true else Relating.fail reason) := by
  cases accepted with
  | true => exact pure true
  | false => exact fail reason

variable {comparison : Relating Bool} {comparisons : List (Relating Bool)}

theorem orFail
    (finishes : Finishes comparison)
    (reason : Reason) :
    Finishes (Relating.orFail comparison reason) := by
  refine finishes.bind fun holds => ?_
  cases holds with
  | true => exact pure true
  | false => exact fail reason

theorem attempt
    (finishes : Finishes comparison) :
    Finishes (Relating.attempt comparison) := by
  refine get.bind fun findings => finishes.bind fun holds => ?_
  cases holds with
  | true => exact (modify _).bind fun _ => pure true
  | false => exact pure false

theorem silently
    (finishes : Finishes comparison) :
    Finishes (Relating.silently comparison) :=
  get.bind fun _ => finishes.bind fun holds =>
    (modify _).bind fun _ => pure holds

theorem allOf
    (each : ∀ comparison ∈ comparisons, Finishes comparison) :
    Finishes (Relating.allOf comparisons) := by
  induction comparisons with
  | nil =>
      exact pure true
  | cons comparison rest inductionHypothesis =>
      rw [List.forall_mem_cons] at each
      refine each.1.bind fun holds => ?_
      cases holds with
      | true => exact inductionHypothesis each.2
      | false => exact pure false

theorem anyOf
    (each : ∀ comparison ∈ comparisons, Finishes comparison) :
    Finishes (Relating.anyOf comparisons) := by
  induction comparisons with
  | nil =>
      exact pure false
  | cons comparison rest inductionHypothesis =>
      rw [List.forall_mem_cons] at each
      refine each.1.silently.bind fun holds => ?_
      cases holds with
      | true => exact pure true
      | false => exact inductionHypothesis each.2

/-- A comparison that finishes settles when it is run by itself. -/
theorem settles
    (finishes : Finishes comparison) :
    ∃ result, Check.Settles (comparison.run {}) result := by
  obtain ⟨result, added, run, quiet⟩ := finishes {} []
  exact ⟨result, added, run, quiet⟩

end Finishes

end Relating

/-- Twice the size of a type; a union counts for a bit more. -/
def Ty.extent
    (type : Ty) :
    Nat :=
  2 * type.size + type.isUnion.toNat

section Extents

variable {type other : Ty}

theorem extent_lt_of_size_lt
    (smaller : type.size < other.size) :
    type.extent < other.extent := by
  have := type.isUnion.toNat_le
  simp only [Ty.extent]
  omega

/-- What is no union has the least extent of all types of its size. -/
theorem extent_le_of_size_le
    (notUnion : type.isUnion = false)
    (noLarger : type.size ≤ other.size) :
    type.extent ≤ other.extent := by
  simp only [Ty.extent, notUnion, Bool.toNat_false]
  omega

theorem extent_le_of_limited
    (limited : type.size ≤ limit) :
    type.extent ≤ 2 * limit + 1 := by
  have := type.isUnion.toNat_le
  simp only [Ty.extent]
  omega

theorem extent_pos :
    0 < type.extent := by
  have some : 2 ≤ type.size := type.two_le_weight
  simp only [Ty.extent]
  omega

/-- A primitive in the place of a missing type has the same extent. -/
theorem extent_orElse_le
    (type : Ty)
    (kind : Primitive) :
    (type.orElse (.primitive kind)).extent ≤ type.extent := by
  cases type <;> first | exact le_rfl | skip
  exact extent_le_of_size_le rfl
    ((Ty.weight_leaf rfl).trans_le (Ty.two_le_weight _))

end Extents

/-- The types that values of a shape expose. -/
def Shape.exposed
    (shape : Shape Ty) :
    List Ty :=
  shape.properties.map Property.type ++
    shape.index.toList.map IndexSignature.value

/-- The types that a shape demands of the members of a source. -/
def Shape.demanded
    (shape : Shape Ty) :
    List Ty :=
  (shape.properties.map fun property =>
      if property.optional then
        property.type.optional
      else
        property.type) ++
    shape.index.toList.map IndexSignature.value

/--
Comparisons under the given pairs of references finish for types of a universe
whose extents add up to less than a bound.
-/
def Comparison.FinishesBelow
    {arena : Arena}
    (compare : Comparison)
    (space : Universe arena)
    (references : List (Ty × Ty))
    (bound : Nat) :
    Prop :=
  ∀ assumptions source target,
    assumptions.references = references →
    source ∈ space.types →
    target ∈ space.types →
    source.extent + target.extent < bound →
    (compare assumptions source target).Finishes

/-- Types can be normalized at the depth of a step, and members read. -/
structure RelationStep.Roomy
    (step : RelationStep)
    (space : Universe step.checker.arena) :
    Prop where
  normal :
    ∀ type ∈ space.types,
      step.checker.evaluation.normalizeOperand step.depth type =
        pure (step.checker.arena.plainForm type)
  element :
    ∀ {occurrence elements readonly},
      .tuple occurrence elements readonly ∈ space.types →
      elements ≠ [] →
      step.checker.tupleElement elements =
        pure (step.checker.arena.plainForm (.ofUnion elements))
  affordable : 0 < step.checker.budget

namespace Universe

variable {arena : Arena} (space : Universe arena) {type : Ty}

variable {space} in
/-- A part of a type of a universe is such a type of smaller extent. -/
theorem below
    {part : Ty}
    (inSpace : type ∈ space.types)
    (inside : part ∈ type.parts) :
    part ∈ space.types ∧ part.extent < type.extent :=
  ⟨space.part inSpace inside,
    extent_lt_of_size_lt
      (Ty.size_part_lt (space.plain type inSpace).here.notApplication inside)⟩

variable {space} in
/-- The members of the normal form of a union have smaller extents. -/
theorem member_below
    {member : Ty}
    (inSpace : type ∈ space.types)
    (isUnion : type.isUnion = true)
    (inMembers : member ∈ (arena.plainForm type).members) :
    member ∈ space.types ∧ member.extent < type.extent := by
  have plain := space.plain type inSpace
  have noLarger : (arena.plainForm type).size ≤ type.size :=
    Ty.size_plainForm_le plain
  have form := space.plainForm inSpace
  cases formUnion : (arena.plainForm type).isUnion with
  | true =>
      have inside : member ∈ (arena.plainForm type).parts := by
        cases same : arena.plainForm type with
        | union occurrence parts =>
            rwa [same] at inMembers
        | _ =>
            rw [same] at formUnion
            cases formUnion
      obtain ⟨inTypes, _⟩ := below form inside
      have smaller := Ty.size_part_lt
        (space.plain _ form).here.notApplication inside
      exact ⟨inTypes, extent_lt_of_size_lt (smaller.trans_le noLarger)⟩
  | false =>
      rw [Ty.members_eq formUnion, List.mem_singleton] at inMembers
      subst inMembers
      refine ⟨form, ?_⟩
      simp only [Ty.extent, formUnion, isUnion, Bool.toNat_false,
        Bool.toNat_true]
      omega

/-- A primitive may stand in the place of a missing type. -/
theorem orElse
    (inSpace : type ∈ space.types)
    (kind : Primitive) :
    type.orElse (.primitive kind) ∈ space.types := by
  unfold Ty.orElse
  split
  · exact space.primitive kind
  · exact inSpace

/-- The types that a shape demands have smaller extents than the object. -/
theorem demanded_below
    {shape : Shape Ty}
    (inSpace : .object occurrence shape ∈ space.types) :
    ∀ type ∈ shape.demanded,
      type ∈ space.types ∧
        type.extent < (Ty.object occurrence shape).extent := by
  intro type demanded
  have parts := Ty.forall_parts_object.mp fun part inside =>
    below inSpace inside
  rcases List.mem_append.mp demanded with ofProperty | ofIndex
  · obtain ⟨property, inShape, rfl⟩ := List.mem_map.mp ofProperty
    split
    · exact ⟨space.optional inSpace inShape,
        extent_lt_of_size_lt (Ty.size_optional_lt inShape)⟩
    · exact parts.properties property inShape
  · obtain ⟨index, written, rfl⟩ := List.mem_map.mp ofIndex
    exact parts.values index (Option.mem_toList.mp written)

end Universe

namespace RelationStep

open Relating

section Rules

variable
  {step : RelationStep} {space : Universe step.checker.arena}
  {assumptions : Assumptions} {source target : Ty}

/-- The element type of a tuple is one of the universe, and no larger. -/
theorem tupleElement_exposes
    (roomy : step.Roomy space)
    (inSpace : .tuple occurrence elements readonly ∈ space.types) :
    ∃ element,
      step.checker.tupleElement elements = pure element ∧
        element ∈ space.types ∧
        element.extent ≤ (Ty.tuple occurrence elements readonly).extent := by
  by_cases empty : elements = []
  · subst empty
    exact ⟨.never, rfl, space.primitive _, extent_le_of_size_le rfl
      ((Ty.weight_leaf rfl).trans_le (Ty.two_le_weight _))⟩
  · have plain : (Ty.ofUnion elements).Every Ty.Plain :=
      .node ⟨rfl, rfl⟩ fun element inside =>
        (space.plain _ inSpace).inside inside
    refine ⟨_, roomy.element inSpace empty, space.element inSpace, ?_⟩
    exact (extent_lt_of_size_lt ((Ty.size_plainForm_le plain).trans_lt
      (Ty.size_elements_lt empty))).le

/-- The positions of a tuple hold its elements. -/
theorem map_type_positionProperties
    (readonly : Bool)
    (position : Nat)
    (elements : List Ty) :
    (positionProperties readonly position elements).map Property.type =
      elements := by
  induction elements generalizing position with
  | nil =>
      rfl
  | cons element rest inductionHypothesis =>
      rw [positionProperties, List.map_cons, inductionHypothesis]

/-- Values expose types of the universe that extend no further than theirs. -/
theorem apparent_exposes
    (roomy : step.Roomy space)
    (inSpace : source ∈ space.types) :
    ∃ members : Option (Shape Ty),
      step.checker.apparent source = pure members ∧
        ∀ shape, members = some shape →
          ∀ type ∈ shape.exposed,
            type ∈ space.types ∧ type.extent ≤ source.extent := by
  obtain ⟨budget, same⟩ : ∃ budget, step.checker.budget = budget + 1 :=
    ⟨step.checker.budget - 1, by have := roomy.affordable; omega⟩
  have least : (Ty.number).size ≤ source.size :=
    (Ty.weight_leaf rfl).trans_le (Ty.two_le_weight _)
  have number :
      Ty.number ∈ space.types ∧ Ty.number.extent ≤ source.extent :=
    ⟨space.primitive _, extent_le_of_size_le rfl least⟩
  have length :
      ∀ type ∈ lengthShape.exposed,
        type ∈ space.types ∧ type.extent ≤ source.extent :=
    List.forall_mem_singleton.mpr number
  have none :
      ∀ type ∈ Shape.exposed {},
        type ∈ space.types ∧ type.extent ≤ source.extent :=
    List.forall_mem_nil _
  have inside {part : Ty} (isPart : part ∈ source.parts) :
      part ∈ space.types ∧ part.extent ≤ source.extent := by
    obtain ⟨inTypes, smaller⟩ := space.below inSpace isPart
    exact ⟨inTypes, smaller.le⟩
  unfold Checker.apparent
  rw [same]
  cases source with
  | object occurrence shape =>
      refine ⟨some shape, rfl, ?_⟩
      rintro _ ⟨⟩ type exposed
      have parts := Ty.forall_parts_object.mp fun part => @inside part
      rcases List.mem_append.mp exposed with ofProperty | ofIndex
      · obtain ⟨property, inShape, rfl⟩ := List.mem_map.mp ofProperty
        exact parts.properties property inShape
      · obtain ⟨index, written, rfl⟩ := List.mem_map.mp ofIndex
        exact parts.values index (Option.mem_toList.mp written)
  | array occurrence element readonly =>
      refine ⟨_, rfl, ?_⟩
      rintro _ ⟨⟩
      exact List.forall_mem_cons.mpr ⟨number,
        List.forall_mem_singleton.mpr (inside (List.mem_singleton_self _))⟩
  | tuple occurrence elements readonly =>
      obtain ⟨element, runs, inTypes, noLarger⟩ :=
        tupleElement_exposes roomy inSpace
      refine ⟨_, by rw [Checker.apparentWithin, runs, pure_bind], ?_⟩
      rintro _ ⟨⟩
      refine List.forall_mem_append.mpr ⟨List.forall_mem_cons.mpr ⟨?_, ?_⟩,
        List.forall_mem_singleton.mpr ⟨inTypes, noLarger⟩⟩
      · exact ⟨space.length inSpace, extent_le_of_size_le rfl
          ((Ty.weight_leaf rfl).trans_le (Ty.two_le_weight _))⟩
      · rw [map_type_positionProperties]
        exact fun type member => inside member
  | primitive kind =>
      cases kind with
      | string => exact ⟨_, rfl, fun _ is => by cases is; exact length⟩
      | number => exact ⟨_, rfl, fun _ is => by cases is; exact none⟩
      | boolean => exact ⟨_, rfl, fun _ is => by cases is; exact none⟩
      | _ => exact ⟨_, rfl, fun _ is => by cases is⟩
  | literal occurrence value =>
      cases value with
      | string text => exact ⟨_, rfl, fun _ is => by cases is; exact length⟩
      | _ => exact ⟨_, rfl, fun _ is => by cases is; exact none⟩
  | function occurrence signature =>
      exact ⟨_, rfl, fun _ is => by cases is; exact length⟩
  | intersection occurrence members =>
      cases (space.plain _ inSpace).here.notIntersection
  | _ =>
      exact ⟨_, rfl, fun _ is => by cases is⟩

/-- A source union finishes when comparisons of smaller types do. -/
theorem fromUnion_finishes
    (roomy : step.Roomy space)
    (below :
      step.compare.FinishesBelow space assumptions.references
        (source.extent + target.extent))
    (inSource : source ∈ space.types)
    (inTarget : target ∈ space.types)
    (isUnion : source.isUnion = true) :
    (step.fromUnion assumptions source target).Finishes := by
  have each :
      ∀ member ∈ (step.checker.arena.plainForm source).members,
        (step.compare assumptions member target).Finishes := by
    intro member inMembers
    obtain ⟨inSpace, smaller⟩ := space.member_below inSource isUnion inMembers
    exact below assumptions member target rfl inSpace inTarget (by omega)
  unfold fromUnion
  rw [roomy.normal source inSource, liftM_pure, pure_bind]
  cases form : step.checker.arena.plainForm source with
  | union occurrence members =>
      rw [form] at each
      refine .allOf (List.forall_mem_map.mpr fun member inMembers => ?_)
      exact (each member inMembers).orFail _
  | _ =>
      rw [form] at each
      exact each _ (List.mem_singleton_self _)

/-- A target union finishes when comparisons of smaller types do. -/
theorem toUnion_finishes
    (roomy : step.Roomy space)
    (below :
      step.compare.FinishesBelow space assumptions.references
        (source.extent + target.extent))
    (inSource : source ∈ space.types)
    (inTarget : target ∈ space.types)
    (isUnion : target.isUnion = true) :
    (step.toUnion assumptions source target).Finishes := by
  have each :
      ∀ member ∈ (step.checker.arena.plainForm target).members,
        (step.compare assumptions source member).Finishes := by
    intro member inMembers
    obtain ⟨inSpace, smaller⟩ := space.member_below inTarget isUnion inMembers
    exact below assumptions source member rfl inSource inSpace (by omega)
  unfold toUnion
  rw [roomy.normal target inTarget, liftM_pure, pure_bind]
  cases form : step.checker.arena.plainForm target with
  | union occurrence members =>
      rw [form] at each
      refine Finishes.orFail (.anyOf ?_) _
      exact List.forall_mem_map.mpr each
  | _ =>
      rw [form] at each
      exact each _ (List.mem_singleton_self _)

/-- A property finishes when comparisons of exposed and demanded types do. -/
theorem toProperty_finishes
    {members shape : Shape Ty}
    (fits :
      ∀ type ∈ members.exposed, ∀ demanded ∈ shape.demanded,
        (step.compare assumptions type demanded).Finishes)
    (inShape : property ∈ shape.properties) :
    (step.toProperty assumptions source target members property).Finishes := by
  unfold toProperty
  split
  · split
    · exact .pure true
    · exact .fail _
  next actual found =>
  split
  · exact .fail _
  · have exposed : actual.type ∈ members.exposed :=
      List.mem_append_left _
        (List.mem_map_of_mem (Shape.mem_of_property? found).1)
    have demanded :
        (if property.optional then
          property.type.optional
        else
          property.type) ∈ shape.demanded :=
      List.mem_append_left _ (List.mem_map.mpr ⟨property, inShape, rfl⟩)
    exact (fits _ exposed _ demanded).orFail _

/-- An index signature finishes when comparisons with its values do. -/
theorem toIndex_finishes
    {members : Shape Ty}
    {index : IndexSignature Ty}
    (fits :
      ∀ type ∈ members.exposed,
        (step.compare assumptions type index.value).Finishes) :
    (step.toIndex assumptions members index).Finishes := by
  have governed :
      ∀ comparison ∈
          (members.properties.filter fun property =>
            indexApplies index.key property.name).map fun property =>
              orFail (step.compare assumptions property.type index.value)
                (.outsideIndex property.name index.value),
        comparison.Finishes := by
    refine List.forall_mem_map.mpr fun property member => ?_
    have inMembers := (List.mem_filter.mp member).1
    exact (fits _ (List.mem_append_left _
      (List.mem_map_of_mem inMembers))).orFail _
  refine (Finishes.allOf governed).bind fun holds => ?_
  cases holds with
  | false =>
      exact .pure false
  | true =>
      cases written : members.index with
      | none =>
          exact .pure true
      | some actual =>
          refine (fits _ (List.mem_append_right _ ?_)).orFail _
          rw [written]
          exact List.mem_singleton_self _

/-- Members finish when comparisons of exposed and demanded types do. -/
theorem toMembers_finishes
    {members shape : Shape Ty}
    (fits :
      ∀ type ∈ members.exposed, ∀ demanded ∈ shape.demanded,
        (step.compare assumptions type demanded).Finishes) :
    (step.toMembers assumptions source target members shape).Finishes := by
  have properties :
      ∀ comparison ∈ shape.properties.map
          (step.toProperty assumptions source target members),
        comparison.Finishes :=
    List.forall_mem_map.mpr fun property inShape =>
      toProperty_finishes fits inShape
  refine (Finishes.allOf properties).bind fun holds => ?_
  cases holds with
  | false =>
      exact .pure false
  | true =>
      cases written : shape.index with
      | none =>
          exact .pure true
      | some index =>
          refine toIndex_finishes fun type exposed => fits type exposed _ ?_
          refine List.mem_append_right _ ?_
          rw [written]
          exact List.mem_singleton_self _

/-- An object target finishes when comparisons of smaller types do. -/
theorem toObject_finishes
    {shape : Shape Ty}
    (roomy : step.Roomy space)
    (below :
      step.compare.FinishesBelow space assumptions.references
        (source.extent + (Ty.object occurrence shape).extent))
    (inSource : source ∈ space.types)
    (inTarget : .object occurrence shape ∈ space.types) :
    (step.toObject assumptions source (.object occurrence shape)
      shape).Finishes := by
  obtain ⟨members, exposes, exposed⟩ := apparent_exposes roomy inSource
  have fits
      (others : Assumptions)
      (same : others.references = assumptions.references)
      (shown : Shape Ty)
      (isShown : members = some shown) :
      ∀ type ∈ shown.exposed, ∀ demanded ∈ shape.demanded,
        (step.compare others type demanded).Finishes := by
    intro type isExposed demanded isDemanded
    obtain ⟨inTypes, noLarger⟩ := exposed shown isShown type isExposed
    obtain ⟨demandedIn, smaller⟩ :=
      space.demanded_below inTarget demanded isDemanded
    exact below others type demanded same inTypes demandedIn (by omega)
  unfold toObject
  split
  · exact .fail _
  split
  · exact .pure true
  rw [exposes, liftM_pure, pure_bind]
  cases members with
  | none =>
      exact .fail _
  | some members =>
      dsimp only
      split
      · split
        · exact .pure true
        · let inside : Assumptions :=
            { assumptions with
              objects :=
                (source, .object occurrence shape) :: assumptions.objects }
          exact toMembers_finishes (fits inside rfl members rfl)
      · exact toMembers_finishes (fits _ rfl members rfl)

/-- Elements finish when comparisons with the element type do. -/
theorem elementsTo_finishes
    {element : Ty}
    {types : List Ty}
    (fits :
      ∀ type ∈ types, (step.compare assumptions type element).Finishes)
    (position : Nat) :
    ∀ comparison ∈ step.elementsTo assumptions element position types,
      comparison.Finishes := by
  induction types generalizing position with
  | nil =>
      intro _ impossible
      cases impossible
  | cons type rest inductionHypothesis =>
      rw [List.forall_mem_cons] at fits
      exact List.forall_mem_cons.mpr
        ⟨fits.1.orFail _, inductionHypothesis fits.2 (position + 1)⟩

/-- An array target finishes when comparisons of smaller types do. -/
theorem toArray_finishes
    (below :
      step.compare.FinishesBelow space assumptions.references
        (source.extent + (Ty.array occurrence element readonly).extent))
    (inSource : source ∈ space.types)
    (inTarget : .array occurrence element readonly ∈ space.types) :
    (step.toArray assumptions source target element readonly).Finishes := by
  obtain ⟨inElement, smaller⟩ :=
    space.below inTarget (List.mem_singleton_self _)
  have fits :
      ∀ part ∈ source.parts,
        (step.compare assumptions part element).Finishes := by
    intro part inside
    obtain ⟨inPart, less⟩ := space.below inSource inside
    exact below assumptions part element rfl inPart inElement (by omega)
  unfold toArray
  split
  · split
    · exact .fail _
    · exact (fits _ (List.mem_singleton_self _)).orFail _
  · split
    · exact .fail _
    · exact .allOf (elementsTo_finishes fits 0)
  · exact .fail _

/-- Pairs of elements finish when all comparisons of two elements do. -/
theorem elementPairs_finishes
    {first second : List Ty}
    (fits :
      ∀ type ∈ first, ∀ other ∈ second,
        (step.compare assumptions type other).Finishes)
    (position : Nat) :
    ∀ comparison ∈ step.elementPairs assumptions position first second,
      comparison.Finishes := by
  induction first generalizing position second with
  | nil =>
      intro _ impossible
      cases impossible
  | cons type rest inductionHypothesis =>
      cases second with
      | nil =>
          intro _ impossible
          cases impossible
      | cons other others =>
          refine List.forall_mem_cons.mpr
            ⟨(fits type List.mem_cons_self other List.mem_cons_self).orFail _,
              inductionHypothesis (fun type inRest other inOthers => ?_)
                (position + 1)⟩
          exact fits type (List.mem_cons_of_mem _ inRest)
            other (List.mem_cons_of_mem _ inOthers)

/-- A tuple target finishes when comparisons of smaller types do. -/
theorem toTuple_finishes
    (below :
      step.compare.FinishesBelow space assumptions.references
        (source.extent + (Ty.tuple occurrence elements readonly).extent))
    (inSource : source ∈ space.types)
    (inTarget : .tuple occurrence elements readonly ∈ space.types) :
    (step.toTuple assumptions source target elements readonly).Finishes := by
  have fits :
      ∀ part ∈ source.parts, ∀ element ∈ elements,
        (step.compare assumptions part element).Finishes := by
    intro part inside element inElements
    obtain ⟨inPart, less⟩ := space.below inSource inside
    obtain ⟨inElement, smaller⟩ := space.below inTarget inElements
    exact below assumptions part element rfl inPart inElement (by omega)
  unfold toTuple
  split
  · split
    · exact .fail _
    split
    · exact .fail _
    · exact .allOf (elementPairs_finishes fits 0)
  · exact .fail _

/-- Parameters finish when comparisons in both directions do. -/
theorem toArgument_finishes
    {parameter argument : Ty}
    (forth : (step.compare assumptions argument parameter).Finishes)
    (back : (step.compare assumptions parameter argument).Finishes)
    (bivariant : Bool) :
    (step.toArgument assumptions bivariant parameter argument).Finishes := by
  cases bivariant with
  | false =>
      exact forth
  | true =>
      refine forth.attempt.bind fun holds => ?_
      cases holds with
      | true => exact .pure true
      | false => exact back

/-- The types of the parameters and of the rest parameter of a signature. -/
def accepted
    (signature : Signature Ty) :
    List Ty :=
  signature.parameters.map Parameter.type ++ [signature.rest]

section Signatures

variable {first second : Signature Ty}
  (fits :
    ∀ bivariant, ∀ parameter ∈ accepted first, ∀ argument ∈ accepted second,
      (step.toArgument assumptions bivariant parameter argument).Finishes)

include fits

/-- Supplied parameters finish when comparisons of the accepted types do. -/
theorem suppliedParameters_finishes
    (bivariant : Bool)
    {parameters : List (Parameter Ty)}
    (inFirst : ∀ parameter ∈ parameters, parameter.type ∈ accepted first)
    (position : Nat) :
    ∀ comparison ∈
        step.suppliedParameters assumptions bivariant second position
          parameters,
      comparison.Finishes := by
  induction parameters generalizing position with
  | nil =>
      intro _ impossible
      cases impossible
  | cons parameter rest inductionHypothesis =>
      rw [List.forall_mem_cons] at inFirst
      refine List.forall_mem_cons.mpr
        ⟨?_, inductionHypothesis inFirst.2 (position + 1)⟩
      split
      · next argument supplied =>
        have inSecond : argument ∈ accepted second := by
          split at supplied
          · next other found =>
            cases supplied
            exact List.mem_append_left _
              (List.mem_map_of_mem (List.mem_of_getElem? found))
          · split at supplied
            · cases supplied
            · cases supplied
              exact List.mem_append_right _ (List.mem_singleton_self _)
        exact (fits bivariant _ inFirst.1 argument inSecond).orFail _
      · split
        · exact .pure true
        · exact .fail _

/-- The rest parameter finishes when comparisons of the accepted types do. -/
theorem restTo_finishes
    (bivariant : Bool) :
    ∀ comparison ∈ step.restTo assumptions bivariant first second,
      comparison.Finishes := by
  have ofRest : first.rest ∈ accepted first :=
    List.mem_append_right _ (List.mem_singleton_self _)
  have positions
      (parameters : List (Parameter Ty))
      (inSecond :
        ∀ parameter ∈ parameters, parameter.type ∈ accepted second)
      (position : Nat) :
      ∀ comparison ∈
          step.restParameters assumptions bivariant first.rest position
            parameters,
        comparison.Finishes := by
    induction parameters generalizing position with
    | nil =>
        intro _ impossible
        cases impossible
    | cons parameter rest inductionHypothesis =>
        rw [List.forall_mem_cons] at inSecond
        exact List.forall_mem_cons.mpr
          ⟨(fits bivariant _ ofRest _ inSecond.1).orFail _,
            inductionHypothesis inSecond.2 (position + 1)⟩
  unfold restTo
  split
  · intro _ impossible
    cases impossible
  · refine List.forall_mem_append.mpr ⟨positions _ ?_ _, ?_⟩
    · intro parameter dropped
      exact List.mem_append_left _
        (List.mem_map_of_mem (List.mem_of_mem_drop dropped))
    · split
      · intro _ impossible
        cases impossible
      · exact List.forall_mem_singleton.mpr
          ((fits bivariant _ ofRest _
            (List.mem_append_right _ (List.mem_singleton_self _))).orFail _)

end Signatures

/-- What a signature accepts stands in the function. -/
theorem mem_parts_of_accepted
    {signature : Signature Ty}
    (isAccepted : part ∈ accepted signature) :
    part ∈ (Ty.function occurrence signature).parts := by
  rcases List.mem_append.mp isAccepted with ofParameter | ofRest
  · exact List.mem_append_left _ ofParameter
  · exact List.mem_append_right _
      (List.mem_singleton.mp ofRest ▸ List.mem_cons_self)

/-- A function target finishes when comparisons of smaller types do. -/
theorem toFunction_finishes
    {signature : Signature Ty}
    (below :
      step.compare.FinishesBelow space assumptions.references
        (source.extent + (Ty.function occurrence signature).extent))
    (inSource : source ∈ space.types)
    (inTarget : .function occurrence signature ∈ space.types) :
    (step.toFunction assumptions source signature).Finishes := by
  cases source with
  | function sourceOccurrence own =>
      have fits (bivariant : Bool) :
          ∀ parameter ∈ accepted own, ∀ argument ∈ accepted signature,
            (step.toArgument assumptions bivariant parameter
              argument).Finishes := by
        intro parameter inOwn argument inSignature
        obtain ⟨inParameter, less⟩ :=
          space.below inSource (mem_parts_of_accepted inOwn)
        obtain ⟨inArgument, smaller⟩ :=
          space.below inTarget (mem_parts_of_accepted inSignature)
        exact toArgument_finishes
          (below assumptions argument parameter rfl inArgument inParameter
            (by omega))
          (below assumptions parameter argument rfl inParameter inArgument
            (by omega))
          bivariant
      have result :
          (step.resultTo assumptions own.result signature.result).Finishes := by
        unfold resultTo
        split
        · exact .pure true
        · have ownResult : own.result ∈
              (Ty.function sourceOccurrence own).parts := by
            simp [Ty.parts]
          have otherResult : signature.result ∈
              (Ty.function occurrence signature).parts := by
            simp [Ty.parts]
          obtain ⟨inOwn, less⟩ := space.below inSource ownResult
          obtain ⟨inOther, smaller⟩ := space.below inTarget otherResult
          have noLarger :
              (own.result.orElse .void).extent ≤ own.result.extent :=
            extent_orElse_le own.result _
          exact (below assumptions (own.result.orElse .void) signature.result
            rfl (space.orElse inOwn _) inOther (by omega)).orFail _
      refine .allOf (List.forall_mem_append.mpr
        ⟨List.forall_mem_append.mpr ⟨?_, ?_⟩,
          List.forall_mem_singleton.mpr result⟩)
      · exact suppliedParameters_finishes fits _
          (fun parameter member =>
            List.mem_append_left _ (List.mem_map_of_mem member)) 0
      · exact restTo_finishes fits _
  | _ =>
      exact .fail _

/-- Two shapes finish when comparisons of smaller types do. -/
theorem compareShapes_finishes
    (roomy : step.Roomy space)
    (below :
      step.compare.FinishesBelow space assumptions.references
        (source.extent + target.extent))
    (inSource : source ∈ space.types)
    (inTarget : target ∈ space.types) :
    (step.compareShapes assumptions source target).Finishes := by
  cases target with
  | primitive kind =>
      exact .decided _ _
  | literal occurrence value =>
      exact .decided _ _
  | object occurrence shape =>
      exact toObject_finishes roomy below inSource inTarget
  | array occurrence element readonly =>
      exact toArray_finishes below inSource inTarget
  | tuple occurrence elements readonly =>
      exact toTuple_finishes below inSource inTarget
  | function occurrence signature =>
      exact toFunction_finishes below inSource inTarget
  | _ =>
      exact .fail _

/-- What a reference stands for is a type of the universe, if it is defined. -/
theorem expandReference_answers
    (inSource : source ∈ space.types) :
    (∃ reason, step.expandReference source = pure (.error reason)) ∨
      ∃ expanded ∈ space.types,
        step.expandReference source = pure (.ok expanded) := by
  unfold expandReference
  split
  · next reference =>
    split
    · exact .inl ⟨_, rfl⟩
    · exact .inr ⟨_, space.definition inSource, rfl⟩
  · cases (space.plain _ inSource).here.notApplication
  · exact .inr ⟨source, inSource, rfl⟩

/--
Two references finish when all comparisons do under one more pair, which was not
under comparison before.
-/
theorem viaReference_finishes
    (expanded :
      (source, target) ∉ assumptions.references →
      ∀ first ∈ space.types, ∀ second ∈ space.types,
        (step.compare
          { assumptions with
            references := assumptions.references ++ [(source, target)] }
          first second).Finishes)
    (inSource : source ∈ space.types)
    (inTarget : target ∈ space.types) :
    (step.viaReference assumptions source target).Finishes := by
  unfold viaReference
  dsimp only
  split
  · exact .pure true
  split
  · exact .pure true
  next isNew =>
  have fresh : (source, target) ∉ assumptions.references := by
    intro known
    refine isNew (List.any_eq_true.mpr ⟨_, known, ?_⟩)
    simp [space.recognized source inSource, space.recognized target inTarget]
  rcases @expandReference_answers step space source inSource with
    ⟨reason, answer⟩ | ⟨first, inFirst, answer⟩
  · rw [answer, pure_bind]
    exact .fail reason
  rcases @expandReference_answers step space target inTarget with
    ⟨reason, otherAnswer⟩ | ⟨second, inSecond, otherAnswer⟩
  · rw [answer, pure_bind]
    dsimp only
    rw [otherAnswer, pure_bind]
    exact .fail reason
  · rw [answer, pure_bind]
    dsimp only
    rw [otherAnswer, pure_bind]
    exact expanded fresh first inFirst second inSecond

/-- A step finishes when comparisons of smaller types and of new pairs do. -/
theorem relate_finishes
    (roomy : step.Roomy space)
    (below :
      step.compare.FinishesBelow space assumptions.references
        (source.extent + target.extent))
    (expanded :
      (source, target) ∉ assumptions.references →
      ∀ first ∈ space.types, ∀ second ∈ space.types,
        (step.compare
          { assumptions with
            references := assumptions.references ++ [(source, target)] }
          first second).Finishes)
    (inSource : source ∈ space.types)
    (inTarget : target ∈ space.types) :
    (step.relate assumptions source target).Finishes := by
  have sourceMerges := (space.plain _ inSource).here.notIntersection
  have targetMerges := (space.plain _ inTarget).here.notIntersection
  unfold relate
  split
  · exact .pure true
  split
  · exact .pure true
  split
  · exact viaReference_finishes expanded inSource inTarget
  split
  · exact .fail _
  split
  · exact .fail _
  split
  · exact .pure true
  split
  · next isUnion =>
    exact fromUnion_finishes roomy below inSource inTarget isUnion
  split
  · next isUnion =>
    exact toUnion_finishes roomy below inSource inTarget isUnion
  · rw [if_neg (by simp [targetMerges]), if_neg (by simp [sourceMerges])]
    exact compareShapes_finishes roomy below inSource inTarget

end Rules

end RelationStep

section Pairs

variable {arena : Arena} (space : Universe arena)

/-- The pairs of a universe that are not under comparison. -/
def Universe.fresh
    (references : List (Ty × Ty)) :
    Set (Ty × Ty) :=
  { pair | pair.1 ∈ space.types ∧ pair.2 ∈ space.types ∧ pair ∉ references }

/-- Each new pair leaves fewer of them. -/
theorem Universe.fresh_lt
    {references : List (Ty × Ty)}
    (inSource : source ∈ space.types)
    (inTarget : target ∈ space.types)
    (isNew : (source, target) ∉ references) :
    (space.fresh (references ++ [(source, target)])).ncard <
      (space.fresh references).ncard := by
  have finite : (space.fresh references).Finite :=
    (space.finite.prod space.finite).subset
      fun pair member => ⟨member.1, member.2.1⟩
  refine Set.ncard_lt_ncard ⟨?_, ?_⟩ finite
  · intro pair member
    exact ⟨member.1, member.2.1, fun known =>
      member.2.2 (List.mem_append_left _ known)⟩
  · intro all
    have remains := all ⟨inSource, inTarget, isNew⟩
    exact remains.2.2 (List.mem_append_right _ (List.mem_singleton_self _))

/-- The types of a universe have bounded sizes. -/
theorem Universe.exists_limit :
    ∃ limit, ∀ type ∈ space.types, type.size ≤ limit := by
  obtain ⟨limit, bounds⟩ := (space.finite.image Ty.size).bddAbove
  exact ⟨limit, fun type member => bounds (Set.mem_image_of_mem _ member)⟩

end Pairs

namespace Checker

open Relating

section Bounds

variable
  {checker : Checker} {space : Universe checker.arena} {limit : Nat}
  (limited : ∀ type ∈ space.types, type.size ≤ limit)
  (affordable : 2 * limit ≤ checker.budget)

include limited affordable

/-- Below a depth with room for all types of a universe, a step has room. -/
theorem roomy_of_limit
    (room : limit ≤ remaining)
    (within : remaining ≤ checker.options.maxDepth) :
    RelationStep.Roomy
      { checker
        depth := checker.options.maxDepth - remaining
        compare := checker.compareWithin remaining }
      space where
  normal type member := by
    have size := limited type member
    exact normalizeIn_plain (space.plain type member)
      (show 2 * type.size ≤ checker.budget by omega)
      (show checker.options.maxDepth - remaining + type.size ≤
        checker.options.maxDepth by omega)
  element {occurrence elements readonly} member nonempty := by
    have size := limited _ member
    have smaller :
        (Ty.ofUnion elements).size <
          (Ty.tuple occurrence elements readonly).size :=
      Ty.size_elements_lt nonempty
    have plain : (Ty.ofUnion elements).Every Ty.Plain :=
      .node ⟨rfl, rfl⟩ fun element inside =>
        (space.plain _ member).inside inside
    rw [Checker.tupleElement, if_neg (by simp [nonempty])]
    exact normalizeIn_plain plain
      (show 2 * (Ty.ofUnion elements).size ≤ checker.budget by omega)
      (show 0 + (Ty.ofUnion elements).size ≤
        checker.options.maxDepth by omega)
  affordable := by
    have size := limited _ (space.primitive .unknown)
    have some : 2 ≤ (Ty.primitive .unknown).size := Ty.two_le_weight _
    change 0 < checker.budget
    omega

/--
A comparison within a bound finishes if the bound leaves room for a descent
from each pair of references that is not yet under comparison.
-/
theorem compareWithin_finishes
    (within : remaining ≤ checker.options.maxDepth)
    (inSource : source ∈ space.types)
    (inTarget : target ∈ space.types)
    (room :
      (space.fresh assumptions.references).ncard * (4 * limit + 3) +
          (source.extent + target.extent) + limit ≤
        remaining) :
    (checker.compareWithin remaining assumptions source target).Finishes := by
  induction remaining generalizing assumptions source target with
  | zero =>
      have := @extent_pos source
      omega
  | succ remaining inductionHypothesis =>
      have inSource' := space.orElse inSource .unknown
      have inTarget' := space.orElse inTarget .unknown
      have sourceExtent :
          (source.orElse .unknown).extent ≤ source.extent :=
        extent_orElse_le source .unknown
      have targetExtent :
          (target.orElse .unknown).extent ≤ target.extent :=
        extent_orElse_le target .unknown
      have := @extent_pos source
      unfold compareWithin
      dsimp only
      split
      · exact .pure true
      have roomy :=
        roomy_of_limit limited affordable
          (show limit ≤ remaining by omega)
          (show remaining ≤ checker.options.maxDepth by omega)
      refine RelationStep.relate_finishes roomy ?below ?expanded
        inSource' inTarget'
      case below =>
        intro nested first second same inFirst inSecond smaller
        refine inductionHypothesis (by omega) inFirst inSecond ?_
        rw [same]
        omega
      case expanded =>
        intro isNew first inFirst second inSecond
        refine inductionHypothesis (by omega) inFirst inSecond ?_
        have fewer := space.fresh_lt inSource' inTarget' isNew
        have ofFirst := extent_le_of_limited (limited first inFirst)
        have ofSecond := extent_le_of_limited (limited second inSecond)
        have descent :
            (space.fresh (assumptions.references ++
                [(source.orElse .unknown, target.orElse .unknown)])).ncard *
                  (4 * limit + 3) + (4 * limit + 3) ≤
              (space.fresh assumptions.references).ncard * (4 * limit + 3) := by
          rw [← Nat.succ_mul]
          exact Nat.mul_le_mul_right _ fewer
        dsimp only
        omega

end Bounds

/--
Assignability is decided by the cycle guard alone. Over definitions without
applications and intersections, whose objects do not repeat a property name,
there is a depth from which on no bound is met, whatever recursion they contain.
-/
theorem isAssignable_finite
    {arena : Arena}
    {source target : Ty}
    (options : Options)
    (below : depth < identityDepth)
    (ofSource : source.TraceableWithin depth)
    (ofTarget : target.TraceableWithin depth)
    (ofDefinitions :
      ∀ declaration ∈ arena.declarations,
        declaration.definition.TraceableWithin depth) :
    ∃ enough, ∀ maxDepth budget,
      enough ≤ maxDepth →
      enough ≤ budget →
      ∃ answer,
        Check.Settles
          (isAssignable
            { arena, options := { options with maxDepth }, budget }
            source target)
          answer := by
  obtain ⟨space, inSpace⟩ : ∃ space : Universe arena,
      ({source, target} : Set Ty) ⊆ space.types := by
    apply exists_universe (Set.toFinite _) below _ ofDefinitions
    rintro root (rfl | rfl)
    · exact ofSource
    · exact ofTarget
  have inSource : source ∈ space.types := inSpace (.inl rfl)
  have inTarget : target ∈ space.types := inSpace (.inr rfl)
  obtain ⟨limit, limited⟩ := space.exists_limit
  refine ⟨(space.fresh []).ncard * (4 * limit + 3) +
    (source.extent + target.extent) + 2 * limit, ?_⟩
  intro maxDepth budget deep affordable
  have finishes :
      (compareWithin { arena, options := { options with maxDepth }, budget }
        maxDepth {} source target).Finishes := by
    apply compareWithin_finishes limited _ le_rfl inSource inTarget
    · change (space.fresh []).ncard * (4 * limit + 3) + _ + _ ≤ maxDepth
      omega
    · change 2 * limit ≤ budget
      omega
  obtain ⟨⟨answer, findings⟩, settles⟩ := finishes.settles
  exact ⟨answer, Check.settles_bind.mpr
    ⟨_, settles, Check.settles_pure.mpr rfl⟩⟩

section Events

/--
Events and signals have causes of their own kind, by way of aliases, and are told
to the listeners that they accept.
-/
def eventArena : Arena :=
  { declarations :=
      [{ name := "Event", definition := occasion (named 1 "Cause") (named 0 "Event") },
        { name := "Cause", definition := .ofUnion [named 0 "Event", .null] },
        { name := "Signal"
          definition :=
            occasion (.ofUnion [.null, named 2 "Signal"]) (named 2 "Signal") }] }
where
  /-- A declared name at its position. -/
  named
      (id : Nat)
      (name : String) :
      Ty :=
    .named { arena := 0, id, name }
  /-- What has a cause and is told to a listener. -/
  occasion
      (cause told : Ty) :
      Ty :=
    .ofShape
      { properties :=
          [{ name := "cause", type := cause, optional := true },
            { name := "notify"
              type :=
                .function none
                  { parameters := [{ name := "told", type := told }]
                    rest := .absent
                    result := .void } }] }

/-- What has a traceable cause and listener is traceable. -/
theorem occasion_traceable
    {cause told : Ty}
    (ofCause : cause.TraceableWithin (depth + 1))
    (ofTold : told.TraceableWithin depth) :
    (eventArena.occasion cause told).TraceableWithin (depth + 2) := by
  have names : ["cause", "notify"].Nodup := by decide
  refine .node ⟨⟨rfl, rfl⟩, names⟩ (List.forall_mem_cons.mpr ⟨ofCause,
    List.forall_mem_singleton.mpr (.node ⟨⟨rfl, rfl⟩, trivial⟩ ?_)⟩)
  exact List.forall_mem_cons.mpr ⟨ofTold, List.forall_mem_cons.mpr
    ⟨.absent, List.forall_mem_singleton.mpr (.primitive _)⟩⟩

/-- Events are compared with signals through all of this recursion. -/
theorem isAssignable_finite_events :
    ∃ enough, ∀ maxDepth budget,
      enough ≤ maxDepth →
      enough ≤ budget →
      ∃ answer,
        Check.Settles
          (isAssignable { arena := eventArena, options := { maxDepth }, budget }
            (eventArena.named 0 "Event") (eventArena.named 2 "Signal"))
          answer := by
  have ofUnion {first second : Ty}
      (ofFirst : first.TraceableWithin 0)
      (ofSecond : second.TraceableWithin 0) :
      (Ty.ofUnion [first, second]).TraceableWithin 1 :=
    .node ⟨⟨rfl, rfl⟩, trivial⟩ (List.forall_mem_cons.mpr ⟨ofFirst,
      List.forall_mem_singleton.mpr ofSecond⟩)
  have ofDefinitions :
      ∀ declaration ∈ eventArena.declarations,
        declaration.definition.TraceableWithin 2 :=
    List.forall_mem_cons.mpr
      ⟨occasion_traceable (.named _) (.named _),
        List.forall_mem_cons.mpr
          ⟨(ofUnion (.named _) (.primitive _)).mono (by decide),
            List.forall_mem_singleton.mpr
              (occasion_traceable (ofUnion (.primitive _) (.named _))
                (.named _))⟩⟩
  exact isAssignable_finite {} (by decide) (.named _) (.named _) ofDefinitions

end Events

end Checker

end StructuralTyping
