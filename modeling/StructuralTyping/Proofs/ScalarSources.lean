import StructuralTyping.Proofs.EndlessComparison
import StructuralTyping.Proofs.RepeatedRuns

namespace StructuralTyping

/-!
# Comparing constants and primitives

Constants and primitives have no members but the length of a text, which is a
number. Compared with a target they are taken from name to definition and from
union to member, and what they meet there answers without a further comparison,
but for the lengths of texts. So the comparison is repeated nearer to the start,
without what was assumed for other sources, and whether or not the target was
normalized before.
-/

open Stateful Relating

/-- Whether a type is a constant or a primitive with members of one kind. -/
def Ty.isScalar :
    Ty →
    Bool
  | .literal _ _ => true
  | .primitive kind =>
      kind == .string || kind == .number || kind == .boolean ||
        kind == .null || kind == .undefined
  | _ => false

/-- Whether a type is a primitive or a constant of texts. -/
def Ty.isText :
    Ty →
    Bool
  | .primitive .string => true
  | .literal _ (.string _) => true
  | _ => false

/-- Whether the pair was assumed to be compared already. -/
def Checker.recalls
    (checker : Checker)
    (assumptions : Assumptions)
    (source target : Ty) :
    Bool :=
  assumptions.references.any fun (first, second) =>
    checker.arena.identical first source &&
      checker.arena.identical second target

/-- Index signatures for the same keys, whose values are related. -/
structure RelatedIndex
    (related : Ty → Ty → Prop)
    (first second : IndexSignature Ty) :
    Prop where
  key : first.key.isPrimitive .number = second.key.isPrimitive .number
  value : related first.value second.value

/--
A type that presents itself to constants and primitives as another one: they are
the same up to the types of their properties, which are related. Sequences and
functions all look alike.
-/
inductive Ty.Presents
    (related : Ty → Ty → Prop) :
    Ty →
    Ty →
    Prop
  | atom :
      type.isAtom = true →
      Presents related type type
  | object {shape other : Shape Ty} :
      List.Forall₂ (RelatedProperty related) shape.properties
        other.properties →
      Option.Rel (RelatedIndex related) shape.index other.index →
      Presents related (.object occurrence shape) (.object otherNode other)
  | array :
      Presents related (.array occurrence element readonly)
        (.array otherNode otherElement otherReadonly)
  | tuple :
      Presents related (.tuple occurrence elements readonly)
        (.tuple otherNode otherElements otherReadonly)
  | function :
      Presents related (.function occurrence signature)
        (.function otherNode otherSignature)

section Scalars

variable {source : Ty} (scalar : source.isScalar = true)

include scalar

/-- A scalar is a constant or a primitive. -/
theorem isAtom_of_isScalar :
    source.isAtom = true := by
  cases source <;> first | rfl | cases scalar

/-- A scalar is present. -/
theorem present_of_isScalar :
    source.isAbsent = false := by
  cases source <;> first | rfl | cases scalar

/-- The only member of a scalar is the length of a text. -/
theorem members_of_isScalar
    {checker : Checker}
    {members : Shape Ty}
    (exposes : Check.Settles (checker.apparent source) (some members)) :
    members.index = none ∧
      ∀ property ∈ members.properties,
        property.type = .number ∧ property.optional = false ∧
          source.isText = true := by
  unfold Checker.apparent at exposes
  cases written : checker.budget with
  | zero =>
      rw [written] at exposes
      obtain ⟨_, run, _⟩ := exposes
      cases run
  | succ budget =>
      rw [written] at exposes
      have length
          (isText : source.isText = true)
          (same : some members = some lengthShape) :
          members.index = none ∧
            ∀ property ∈ members.properties,
              property.type = .number ∧ property.optional = false ∧
                source.isText = true := by
        cases same
        exact ⟨rfl, List.forall_mem_singleton.mpr ⟨rfl, rfl, isText⟩⟩
      have nothing
          (same : some members = some {}) :
          members.index = none ∧
            ∀ property ∈ members.properties,
              property.type = .number ∧ property.optional = false ∧
                source.isText = true := by
        cases same
        exact ⟨rfl, fun _ member => by cases member⟩
      cases source with
      | primitive kind =>
          cases kind with
          | string => exact length rfl (Check.settles_pure.mp exposes)
          | number | boolean => exact nothing (Check.settles_pure.mp exposes)
          | null | undefined => cases Check.settles_pure.mp exposes
          | _ => cases scalar
      | literal occurrence value =>
          cases value with
          | string => exact length rfl (Check.settles_pure.mp exposes)
          | _ => exact nothing (Check.settles_pure.mp exposes)
      | _ => cases scalar

/-- A scalar is not the node of anything but a constant or a primitive. -/
theorem sameNode_of_isScalar
    {other : Ty}
    (notAtom : other.isAtom = false) :
    source.sameNode other = false := by
  refine Bool.eq_false_iff.mpr fun same => ?_
  cases Checker.eq_of_sameNode same
  rw [isAtom_of_isScalar scalar] at notAtom
  cases notAtom

/-- A scalar is the same node as both of two types that look alike, or as none. -/
theorem Ty.Presents.sameNode
    {related : Ty → Ty → Prop}
    {first second : Ty}
    (presents : Presents related first second) :
    source.sameNode first = source.sameNode second := by
  cases presents with
  | atom => rfl
  | _ =>
      exact (sameNode_of_isScalar scalar rfl).trans
        (sameNode_of_isScalar scalar rfl).symm

end Scalars

namespace Ty.Presents

variable {related : Ty → Ty → Prop} {first second : Ty}

/-- What presents itself is plain. -/
theorem plain
    (presents : Presents related first second) :
    first.Plain ∧ second.Plain := by
  cases presents with
  | atom isAtom =>
      cases first <;> first | exact ⟨⟨rfl, rfl⟩, ⟨rfl, rfl⟩⟩ | cases isAtom
  | _ => exact ⟨⟨rfl, rfl⟩, ⟨rfl, rfl⟩⟩

/-- What presents itself is no name and no union, and one primitive at most. -/
theorem isPrimitive
    (presents : Presents related first second)
    (kind : Primitive) :
    first.isPrimitive kind = second.isPrimitive kind := by
  cases presents <;> rfl

/-- What presents itself is written down, and it is no name and no union. -/
theorem whole
    (presents : Presents related first second) :
    (first.isAbsent = false ∧ first.isReference = false ∧
        first.isUnion = false) ∧
      second.isAbsent = false ∧ second.isReference = false ∧
        second.isUnion = false := by
  cases presents with
  | atom isAtom =>
      cases first <;>
        first
        | exact ⟨⟨rfl, rfl, rfl⟩, rfl, rfl, rfl⟩
        | cases isAtom
  | _ => exact ⟨⟨rfl, rfl, rfl⟩, rfl, rfl, rfl⟩

end Ty.Presents

namespace RelationStep

variable
  {step other : RelationStep}
  [step.compare.Reports]
  [other.compare.Reports]
  {assumptions others : Assumptions}
  {source target otherTarget : Ty}

omit [step.compare.Reports] in
/-- How a scalar is compared with a plain type. -/
theorem relate_scalar
    (strict : step.checker.options.strictNullChecks = true)
    (scalar : source.isScalar = true)
    (plain : target.Plain) :
    step.relate assumptions source target =
      if target.isPrimitive .any || target.isPrimitive .unknown then
        pure true
      else if target.isReference then
        step.viaReference assumptions source target
      else if target.isPrimitive .never then
        fail .neverTarget
      else if target.isUnion then
        step.toUnion assumptions source target
      else
        step.compareShapes assumptions source target := by
  have notAny : source.isPrimitive .any = false := by
    cases source with
    | primitive kind => cases kind <;> first | rfl | cases scalar
    | _ => rfl
  have notNever : source.isPrimitive .never = false := by
    cases source with
    | primitive kind => cases kind <;> first | rfl | cases scalar
    | _ => rfl
  have notUnknown : source.isPrimitive .unknown = false := by
    cases source with
    | primitive kind => cases kind <;> first | rfl | cases scalar
    | _ => rfl
  have single :
      source.isReference = false ∧ source.isUnion = false ∧
        isIntersection source = false := by
    cases source <;> first | exact ⟨rfl, rfl, rfl⟩ | cases scalar
  unfold relate
  simp only [notAny, notNever, notUnknown, single.1, single.2.1, single.2.2,
    strict, plain.notIntersection, Bool.false_or, Bool.or_false,
    Bool.not_true, Bool.false_and, Bool.false_eq_true, if_false]
  cases target.isPrimitive .any <;> rfl

omit [step.compare.Reports] in
/-- How a scalar is compared with a name. -/
theorem viaReference_scalar
    (scalar : source.isScalar = true) :
    step.viaReference assumptions source (.named reference) =
      if step.checker.arena.identical source (.named reference) then
        pure true
      else if step.checker.recalls assumptions source (.named reference) then
        pure true
      else
        match step.checker.arena.definition reference with
        | .absent => fail (.undefinedName reference.name)
        | definition =>
            step.compare
              { assumptions with
                references :=
                  assumptions.references ++ [(source, .named reference)] }
              source definition := by
  have itself : step.expandReference source = pure (.ok source) := by
    cases source <;> first | rfl | cases scalar
  unfold viaReference Checker.recalls
  dsimp only
  rw [itself]
  simp only [pure_bind]
  unfold expandReference
  dsimp only
  cases step.checker.arena.definition reference <;> rfl

omit [step.compare.Reports] [other.compare.Reports] in
/-- A comparison with a name is repeated by the comparison with its definition. -/
theorem viaReference_reproduces
    (sameChecker : step.checker = other.checker)
    (scalar : source.isScalar = true)
    (recalled :
      step.checker.recalls assumptions source (.named reference) =
        step.checker.recalls others source (.named reference))
    (compares :
      Reproduces
        (step.compare
          { assumptions with
            references :=
              assumptions.references ++ [(source, .named reference)] }
          source (step.checker.arena.definition reference))
        (other.compare
          { others with
            references := others.references ++ [(source, .named reference)] }
          source (step.checker.arena.definition reference))) :
    Reproduces
      (step.viaReference assumptions source (.named reference))
      (other.viaReference others source (.named reference)) := by
  rw [viaReference_scalar scalar, viaReference_scalar scalar, ← sameChecker,
    recalled]
  split
  · exact .decided true
  split
  · exact .decided true
  generalize step.checker.arena.definition reference = definition at compares
  cases definition with
  | absent => exact .fail
  | _ => exact compares

/-- A comparison with a union is repeated member by member of its normal form. -/
theorem toUnion_reproduces
    (plain : target.Every Ty.Plain)
    (same :
      step.checker.arena.plainForm target =
        step.checker.arena.plainForm otherTarget)
    (normalizes :
      Check.Settles
          (step.checker.evaluation.normalizeOperand step.depth target)
          (step.checker.arena.plainForm target) →
        Check.Settles
          (other.checker.evaluation.normalizeOperand other.depth otherTarget)
          (step.checker.arena.plainForm otherTarget))
    (compares :
      ∀ member ∈ (step.checker.arena.plainForm otherTarget).members,
        Reproduces
          (step.compare assumptions source member)
          (other.compare others source member)) :
    Reproduces
      (step.toUnion assumptions source target)
      (other.toUnion others source otherTarget) := by
  unfold toUnion
  refine @Reproduces.bind _ _ _ _ _ _ (fun _ => by split <;> infer_instance)
    (fun _ => by split <;> infer_instance) fun normal settles => ?_
  have settles := settles.of_lift
  cases normalizeOperand_settles_plain plain settles
  refine ⟨_, .lift (normalizes settles), ?_⟩
  rw [same]
  generalize step.checker.arena.plainForm otherTarget = form at compares
  cases form with
  | union occurrence members =>
      exact .orFail (.anyOf_map (List.forall₂_same.mpr compares))
  | _ => exact compares _ (List.mem_singleton_self _)

omit [step.compare.Reports] in
/-- A comparison with a union of one member settles as that with the member. -/
theorem toUnion_settlesAnywhere
    (single : (other.checker.arena.plainForm target).isUnion = false)
    (normalizes :
      Check.Settles
        (other.checker.evaluation.normalizeOperand other.depth target)
        (other.checker.arena.plainForm target))
    (compares :
      SettlesAnywhere
        (other.compare others source (other.checker.arena.plainForm target))
        answer) :
    SettlesAnywhere (other.toUnion others source target) answer := by
  unfold toUnion
  refine @SettlesAnywhere.bind _ _ _ _ _ _ _ _
    (fun _ => by split <;> infer_instance) (.lift normalizes) ?_
  split
  · next same =>
    rw [same] at single
    cases single
  · exact compares

section Leaves

variable
  {related : Ty → Ty → Prop}
  (fits :
    source.isText = true →
    ∀ {first second},
      related first second →
      Reproduces
          (step.compare assumptions .number first)
          (other.compare others .number second) ∧
        Reproduces
          (step.compare assumptions .number first.optional)
          (other.compare others .number second.optional))
  {members : Shape Ty}
  (closed : members.index = none)
  (lengths :
    ∀ property ∈ members.properties,
      property.type = .number ∧ property.optional = false ∧
        source.isText = true)

include fits lengths

omit [step.compare.Reports] [other.compare.Reports] in
/-- The comparison with a property is repeated with one that is related. -/
theorem toProperty_reproduces
    {expected otherExpected : Property Ty}
    (alike : RelatedProperty related expected otherExpected) :
    Reproduces
      (step.toProperty assumptions source target members expected)
      (other.toProperty others source otherTarget members otherExpected) := by
  unfold toProperty
  rw [alike.name, alike.optional]
  cases found : members.property? otherExpected.name with
  | none =>
      dsimp only
      split
      · exact .decided true
      · exact .fail
  | some actual =>
      obtain ⟨isNumber, required, isText⟩ :=
        lengths actual (List.mem_of_find?_eq_some found)
      have fitting := fits isText alike.type
      simp only [required, isNumber, Bool.false_and, Bool.false_eq_true,
        if_false]
      split
      · exact fitting.2.orFail
      · exact fitting.1.orFail

include closed

/-- The comparison with an index signature is repeated with a related one. -/
theorem toIndex_reproduces
    {index otherIndex : IndexSignature Ty}
    (alike : RelatedIndex related index otherIndex) :
    Reproduces
      (step.toIndex assumptions members index)
      (other.toIndex others members otherIndex) := by
  unfold toIndex indexApplies
  rw [alike.key, closed]
  refine .bind fun holds compares => ⟨holds, ?_, ?_⟩
  · refine (Reproduces.allOf_map (List.forall₂_same.mpr
      fun property governed => ?_)) holds compares
    obtain ⟨isNumber, -, isText⟩ :=
      lengths property (List.mem_filter.mp governed).1
    rw [isNumber]
    exact (fits isText alike.value).1.orFail
  · cases holds <;> exact .decided _

/-- The comparison with members is repeated with related ones. -/
theorem toMembers_reproduces
    {shape otherShape : Shape Ty}
    (properties :
      List.Forall₂ (RelatedProperty related) shape.properties
        otherShape.properties)
    (index : Option.Rel (RelatedIndex related) shape.index otherShape.index) :
    Reproduces
      (step.toMembers assumptions source target members shape)
      (other.toMembers others source otherTarget members otherShape) := by
  unfold toMembers
  generalize shape.index = written at index
  generalize otherShape.index = otherWritten at index
  have each :
      Reproduces
        (allOf (shape.properties.map
          (step.toProperty assumptions source target members)))
        (allOf (otherShape.properties.map
          (other.toProperty others source otherTarget members))) :=
    .allOf_map (properties.imp fun _ _ alike =>
      toProperty_reproduces fits lengths alike)
  cases index with
  | none =>
      refine .bind fun holds compares => ⟨holds, each holds compares, ?_⟩
      cases holds <;> exact .decided _
  | some alike =>
      refine .bind fun holds compares => ⟨holds, each holds compares, ?_⟩
      cases holds with
      | true => exact toIndex_reproduces fits closed lengths alike
      | false => exact .decided false

end Leaves

/-- The comparison of a scalar is repeated with what presents itself alike. -/
theorem compareShapes_reproduces
    {related : Ty → Ty → Prop}
    (sameChecker : step.checker = other.checker)
    (scalar : source.isScalar = true)
    (fits :
      source.isText = true →
      ∀ {first second},
        related first second →
        Reproduces
            (step.compare assumptions .number first)
            (other.compare others .number second) ∧
          Reproduces
            (step.compare assumptions .number first.optional)
            (other.compare others .number second.optional))
    (presents : Ty.Presents related target otherTarget) :
    Reproduces
      (step.compareShapes assumptions source target)
      (other.compareShapes others source otherTarget) := by
  have accepted {accepted : Bool} {reason : Reason} :
      Reproduces (if accepted = true then pure true else fail reason)
        (if accepted = true then pure true else fail reason) := by
    cases accepted
    · exact .fail
    · exact .decided true
  cases presents with
  | atom isAtom =>
      cases target with
      | primitive kind => exact accepted
      | literal occurrence value => exact accepted
      | _ => cases isAtom
  | array | tuple | function =>
      cases source <;> first | exact .fail | cases scalar
  | @object occurrence otherNode shape otherShape properties index =>
      have empty : shape.isEmpty = otherShape.isEmpty := by
        unfold Shape.isEmpty
        generalize shape.properties = written at properties
        generalize otherShape.properties = otherWritten at properties
        generalize shape.index = indexed at index
        generalize otherShape.index = otherIndexed at index
        cases properties <;> cases index <;> rfl
      have noObject : isObject source = false := by
        cases source <;> first | rfl | cases scalar
      change
        Reproduces
          (step.toObject assumptions source (.object occurrence shape) shape)
          (other.toObject others source (.object otherNode otherShape)
            otherShape)
      unfold toObject
      rw [empty]
      split
      · exact .fail
      split
      · exact .decided true
      refine @Reproduces.bind _ _ _ _ _ _
        (fun members => by cases members <;> (dsimp only; infer_instance))
        (fun members => by cases members <;> (dsimp only; infer_instance))
        fun members exposes => ?_
      have exposes := exposes.of_lift
      refine ⟨members, .lift (sameChecker ▸ exposes), ?_⟩
      cases members with
      | none => exact .fail
      | some members =>
          obtain ⟨closed, lengths⟩ := members_of_isScalar scalar exposes
          simp only [noObject, Bool.false_eq_true, if_false]
          exact toMembers_reproduces fits closed lengths properties index

end RelationStep

end StructuralTyping
