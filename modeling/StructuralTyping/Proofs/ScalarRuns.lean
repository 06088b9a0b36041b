import StructuralTyping.Proofs.ScalarSources

namespace StructuralTyping

/-!
# Repeated comparisons of constants and primitives

A target is left behind when a comparison goes on with its definition or with the
members of its normal form, until it is a leaf. What is found there is repeated
from any place further away from the depth bound: for numbers, whatever the target,
and for the other constants and primitives at the leaves. A type that was not
normalized takes one level more, if there was room for its normalization.
-/

open Stateful Relating

namespace Ty

/-- A plain node whose index signature, if it has one, is for a primitive. -/
structure Surveyable
    (type : Ty) :
    Prop
    extends type.Plain where
  keys :
    ∀ {occurrence shape index},
      type = .object occurrence shape →
      shape.index = some index →
      index.key.isAtom = true

/-- The nodes of a surveyable type are plain. -/
theorem Every.plainNodes
    {type : Ty}
    (surveyable : type.Every Surveyable) :
    type.Every Plain :=
  surveyable.mono fun _ node => node.toPlain

/-- A surveyable type that is no name and no union. -/
structure IsLeaf
    (type : Ty) :
    Prop where
  surveyable : type.Every Surveyable
  present : type.isAbsent = false
  notNamed : type.isNamed = false
  notUnion : type.isUnion = false

namespace IsLeaf

variable {type : Ty} (leaf : type.IsLeaf)

include leaf

/-- A leaf is no reference. -/
theorem notReference :
    type.isReference = false := by
  cases type with
  | named => cases leaf.notNamed
  | generic => cases leaf.surveyable.here.notApplication
  | _ => rfl

/-- A leaf presents itself as itself. -/
theorem presents_self :
    Presents
      (fun first second => first = second ∧ second.Every Surveyable)
      type type := by
  cases type with
  | primitive | literal => exact .atom rfl
  | object occurrence shape =>
      obtain ⟨properties, -, values⟩ :=
        Ty.forall_parts_object.mp fun part inside =>
          leaf.surveyable.inside inside
      refine .object (List.forall₂_same.mpr fun property member =>
        ⟨rfl, rfl, rfl, properties property member⟩) ?_
      cases written : shape.index with
      | none => exact .none
      | some index => exact .some ⟨rfl, rfl, values index written⟩
  | array => exact .array
  | tuple => exact .tuple
  | function => exact .function
  | absent => cases leaf.present
  | named => cases leaf.notNamed
  | union => cases leaf.notUnion
  | intersection => cases leaf.surveyable.here.notIntersection
  | generic => cases leaf.surveyable.here.notApplication

/-- The normal form of a leaf presents itself as the leaf. -/
theorem presents_plainForm
    {arena : Arena}
    {room : Ty → Prop}
    (roomy :
      ∀ {occurrence shape},
        type = .object occurrence shape →
        (∀ property ∈ shape.properties, room property.type) ∧
          ∀ index, shape.index = some index → room index.value) :
    Presents
      (fun first second =>
        first = arena.plainForm second ∧ second.Every Surveyable ∧
          room second)
      (arena.plainForm type) type := by
  cases type with
  | primitive | literal => exact .atom rfl
  | object occurrence shape =>
      obtain ⟨properties, -, values⟩ :=
        Ty.forall_parts_object.mp fun part inside =>
          leaf.surveyable.inside inside
      obtain ⟨ofProperties, ofIndex⟩ := roomy rfl
      rw [Arena.plainForm, Arena.plainProperties_eq_map,
        Arena.plainIndex_eq_map]
      refine .object ?_ ?_
      · rw [List.forall₂_map_left_iff]
        exact List.forall₂_same.mpr fun property member =>
          ⟨rfl, rfl, rfl, properties property member,
            ofProperties property member⟩
      · cases written : shape.index with
        | none => exact .none
        | some index =>
            have isAtom := leaf.surveyable.here.keys rfl written
            have same : arena.plainForm index.key = index.key := by
              generalize index.key = key at isAtom
              cases key <;> first | rfl | cases isAtom
            exact .some ⟨congrArg (Ty.isPrimitive · .number) same, rfl,
              values index written, ofIndex index written⟩
  | array => exact .array
  | tuple => exact .tuple
  | function => exact .function
  | absent => cases leaf.present
  | named => cases leaf.notNamed
  | union => cases leaf.notUnion
  | intersection => cases leaf.surveyable.here.notIntersection
  | generic => cases leaf.surveyable.here.notApplication

end IsLeaf

end Ty

/-- Only `undefined` takes up `undefined` without being a union then. -/
theorem eq_undefined_of_optional
    {type : Ty}
    (single : type.optional.isUnion = false) :
    type = .undefined := by
  unfold Ty.optional at single
  split at single
  · next has =>
    rw [Ty.members_eq single] at has
    exact eq_of_isPrimitive (by simpa using has)
  · cases single

/-- A plain type takes up `undefined` before or after it is normalized. -/
theorem plainForm_optional_plainForm
    {arena : Arena}
    {type : Ty}
    (plain : type.Every Ty.Plain) :
    arena.plainForm (arena.plainForm type).optional =
      arena.plainForm type.optional := by
  rw [plainForm_optional (plain_plainForm plain), plainForm_optional plain,
    plainForm_plainForm plain]

namespace Checker

variable
  {checker : Checker}
  {source target otherTarget : Ty}
  {fewer more : Nat}
  {assumptions others : Assumptions}

/-- A type that is left out is compared as `unknown`. -/
theorem compareWithin_absent :
    checker.compareWithin more assumptions source .absent =
      checker.compareWithin more assumptions source .unknown := by
  unfold compareWithin
  rfl

/-- One level of a comparison, at a distance to the depth bound. -/
abbrev level
    (checker : Checker)
    (remaining : Nat) :
    RelationStep :=
  { checker
    depth := checker.options.maxDepth - remaining
    compare := checker.compareWithin remaining }

section Levels

variable
  (ofSource : source.isAbsent = false)
  (ofTarget : target.isAbsent = false)

include ofSource ofTarget

/-- A comparison settles from every state if one level of it does. -/
theorem compareWithin_settlesAnywhere
    (differ : source.sameNode target = false)
    (relates :
      SettlesAnywhere ((checker.level more).relate assumptions source target)
        answer) :
    SettlesAnywhere
      (checker.compareWithin (more + 1) assumptions source target) answer := by
  have written {type : Ty} (here : type.isAbsent = false) :
      type.orElse .unknown = type := by
    cases type <;> first | rfl | cases here
  unfold compareWithin
  dsimp only
  rw [written ofSource, written ofTarget, if_neg (by simp [differ])]
  exact relates

/-- A type is assignable to itself, if it is one node. -/
theorem compareWithin_sameNode
    (same : source.sameNode target = true) :
    checker.compareWithin more assumptions source target = pure true := by
  have written {type : Ty} (here : type.isAbsent = false) :
      type.orElse .unknown = type := by
    cases type <;> first | rfl | cases here
  unfold compareWithin
  dsimp only
  rw [written ofSource, written ofTarget, if_pos same]

/-- A comparison is repeated if one level of it is. -/
theorem compareWithin_reproduces
    (ofOtherTarget : otherTarget.isAbsent = false)
    (within : fewer ≤ more)
    (same : source.sameNode target = source.sameNode otherTarget)
    (relates :
      ∀ {below above},
        below ≤ above →
        fewer = below + 1 →
        more = above + 1 →
        Reproduces
          ((checker.level below).relate assumptions source target)
          ((checker.level above).relate others source otherTarget)) :
    Reproduces
      (checker.compareWithin fewer assumptions source target)
      (checker.compareWithin more others source otherTarget) := by
  cases differ : source.sameNode target with
  | true =>
      rw [compareWithin_sameNode ofSource ofTarget differ,
        compareWithin_sameNode ofSource ofOtherTarget (same ▸ differ)]
      exact .decided true
  | false =>
      intro answer settles
      obtain ⟨below, rfl, comes⟩ :=
        compareWithin_settles differ ofSource ofTarget settles
      obtain ⟨above, rfl⟩ : ∃ above, more = above + 1 :=
        ⟨more - 1, by omega⟩
      exact compareWithin_settlesAnywhere ofSource ofOtherTarget
        (same ▸ differ)
        (relates (Nat.le_of_succ_le_succ within) rfl rfl answer comes)

end Levels

section Scalars

variable
  (strict : checker.options.strictNullChecks = true)
  (definitions :
    ∀ reference, (checker.arena.definition reference).Every Ty.Plain)

include strict

/-- The comparison of a scalar is repeated with what presents itself alike. -/
theorem compareWithin_presents
    {related : Ty → Ty → Prop}
    (scalar : source.isScalar = true)
    (within : fewer ≤ more)
    (presents : Ty.Presents related target otherTarget)
    (fits :
      source.isText = true →
      ∀ {below above first second},
        below ≤ above →
        fewer = below + 1 →
        more = above + 1 →
        related first second →
        Reproduces
            (checker.compareWithin below assumptions .number first)
            (checker.compareWithin above others .number second) ∧
          Reproduces
            (checker.compareWithin below assumptions .number first.optional)
            (checker.compareWithin above others .number second.optional)) :
    Reproduces
      (checker.compareWithin fewer assumptions source target)
      (checker.compareWithin more others source otherTarget) := by
  obtain ⟨⟨present, notReference, notUnion⟩, otherPresent, otherNotReference,
    otherNotUnion⟩ := presents.whole
  refine compareWithin_reproduces (present_of_isScalar scalar) present
    otherPresent within (Ty.Presents.sameNode scalar presents)
    fun lower isFewer isMore => ?_
  rw [RelationStep.relate_scalar strict scalar presents.plain.1,
    RelationStep.relate_scalar strict scalar presents.plain.2,
    presents.isPrimitive, presents.isPrimitive, presents.isPrimitive,
    notReference, otherNotReference, notUnion, otherNotUnion]
  simp only [Bool.false_eq_true, if_false]
  split
  · exact .decided true
  split
  · exact .fail
  exact RelationStep.compareShapes_reproduces rfl scalar
    (fun isText => fits isText lower isFewer isMore) presents

include definitions

/-- The comparison of numbers is repeated further away from the depth bound. -/
theorem compareWithin_number
    (within : fewer ≤ more)
    (recalled :
      ∀ target,
        checker.recalls assumptions .number target =
          checker.recalls others .number target)
    (plain : target.Every Ty.Plain) :
    Reproduces
      (checker.compareWithin fewer assumptions .number target)
      (checker.compareWithin more others .number target) := by
  induction fewer using Nat.strongRecOn generalizing
    more assumptions others target with
  | _ fewer nearer =>
  have leaf {target : Ty}
      (presents : Ty.Presents (fun _ _ => True) target target) :
      Reproduces
        (checker.compareWithin fewer assumptions .number target)
        (checker.compareWithin more others .number target) :=
    compareWithin_presents strict rfl within presents fun isText =>
      Bool.noConfusion isText
  cases target with
  | absent =>
      rw [compareWithin_absent, compareWithin_absent]
      exact leaf (.atom rfl)
  | named reference =>
      refine compareWithin_reproduces rfl rfl rfl within rfl
        fun {below above} lower isFewer isMore => ?_
      rw [RelationStep.relate_scalar strict rfl plain.here,
        RelationStep.relate_scalar strict rfl plain.here]
      refine RelationStep.viaReference_reproduces rfl rfl (recalled _)
        (nearer below (by omega) lower (fun target => ?_)
          (definitions reference))
      have recalled := recalled target
      unfold recalls at recalled ⊢
      rw [List.any_append, List.any_append, recalled]
  | union occurrence members =>
      refine compareWithin_reproduces rfl rfl rfl within rfl
        fun {below above} lower isFewer isMore => ?_
      rw [RelationStep.relate_scalar strict rfl plain.here,
        RelationStep.relate_scalar strict rfl plain.here]
      refine RelationStep.toUnion_reproduces plain rfl
        (fun normalizes => ((HasRoom.of_normalizes normalizes).flatter
          (Nat.le_refl _) (Nat.sub_le_sub_left lower _)).normalizes plain)
        fun member inForm => ?_
      exact nearer below (by omega) lower recalled
        ((plain_plainForm plain).member inForm)
  | intersection => cases plain.here.notIntersection
  | generic => cases plain.here.notApplication
  | object =>
      exact leaf (.object (List.forall₂_same.mpr fun _ _ =>
        ⟨rfl, rfl, trivial⟩) (by
          cases Shape.index _ with
          | none => exact .none
          | some => exact .some ⟨rfl, trivial⟩))
  | array => exact leaf .array
  | tuple => exact leaf .tuple
  | function => exact leaf .function
  | _ => exact leaf (.atom rfl)

/--
The comparison of numbers is repeated with a type that was not normalized, one
level further away from the bound.
-/
theorem compareWithin_number_written
    (closer : fewer < more)
    (recalled :
      ∀ target,
        checker.recalls assumptions .number target =
          checker.recalls others .number target)
    (plain : target.Every Ty.Plain)
    (surveyable : otherTarget.Every Ty.Surveyable)
    (same :
      checker.arena.plainForm target = checker.arena.plainForm otherTarget)
    (single :
      target.isUnion = false ∨ otherTarget.isUnion = false →
      target = checker.arena.plainForm otherTarget)
    (room :
      ∀ {above},
        more = above + 1 →
        checker.HasRoom checker.budget (checker.options.maxDepth - above)
          otherTarget) :
    Reproduces
      (checker.compareWithin fewer assumptions .number target)
      (checker.compareWithin more others .number otherTarget) := by
  cases isUnion : otherTarget.isUnion with
  | false =>
      have isForm := single (.inr isUnion)
      by_cases whole :
          otherTarget.isAbsent = false ∧ otherTarget.isNamed = false
      · have leaf : otherTarget.IsLeaf :=
          ⟨surveyable, whole.1, whole.2, isUnion⟩
        rw [isForm]
        exact compareWithin_presents strict rfl closer.le
          (@Ty.IsLeaf.presents_plainForm _ leaf _ (fun _ => True) fun _ =>
            ⟨fun _ _ => trivial, fun _ _ => trivial⟩)
          fun isText => Bool.noConfusion isText
      · obtain rfl : target = otherTarget := by
          cases otherTarget with
          | absent | named => exact isForm
          | _ => exact absurd ⟨rfl, rfl⟩ whole
        exact compareWithin_number strict definitions closer.le recalled plain
  | true =>
      obtain ⟨above, rfl⟩ : ∃ above, more = above + 1 := ⟨more - 1, by omega⟩
      have normalizes := (room rfl).normalizes surveyable.plainNodes
      intro answer settles
      cases otherTarget with
      | union occurrence members =>
          refine compareWithin_settlesAnywhere rfl rfl rfl ?_
          rw [RelationStep.relate_scalar strict rfl surveyable.here.toPlain]
          cases written : target.isUnion with
          | true =>
              cases target with
              | union =>
                  obtain ⟨below, rfl, comes⟩ :=
                    compareWithin_settles rfl rfl rfl settles
                  rw [RelationStep.relate_scalar strict rfl plain.here]
                    at comes
                  exact RelationStep.toUnion_reproduces plain same
                    (fun _ => normalizes)
                    (fun member inForm => compareWithin_number strict
                      definitions (Nat.le_of_succ_le_succ closer.le) recalled
                      ((plain_plainForm surveyable.plainNodes).member inForm))
                    answer comes
              | _ => cases written
          | false =>
              have isForm := single (.inl written)
              exact RelationStep.toUnion_settlesAnywhere (isForm ▸ written)
                normalizes (isForm ▸ compareWithin_number strict definitions
                  (Nat.le_of_lt_succ closer) recalled plain answer settles)
      | _ => cases isUnion

section Leaves

variable
  {type : Ty}
  (scalar : source.isScalar = true)
  (leaf : type.IsLeaf)
  (recalled :
    source.isText = true →
    ∀ target,
      checker.recalls assumptions .number target =
        checker.recalls others .number target)

include scalar leaf recalled

/-- The comparison with a leaf is repeated further away from the depth bound. -/
theorem compareWithin_leaf
    (within : fewer ≤ more) :
    Reproduces
      (checker.compareWithin fewer assumptions source type)
      (checker.compareWithin more others source type) := by
  refine compareWithin_presents strict scalar within leaf.presents_self
    fun isText {below above first second} lower _ _ related => ?_
  obtain ⟨rfl, surveyable⟩ := related
  have plain := surveyable.plainNodes
  exact
    ⟨compareWithin_number strict definitions lower (recalled isText) plain,
      compareWithin_number strict definitions lower (recalled isText)
        (Ty.plain_optional plain)⟩

/--
The comparison with the normal form of a leaf is repeated from the start with the
leaf as it was written, if there was room for it below the first levels.
-/
theorem compareWithin_leaf_written
    (closer : fewer < checker.options.maxDepth)
    (deep : 3 ≤ depth)
    (room : checker.HasRoom checker.budget depth type) :
    Reproduces
      (checker.compareWithin fewer assumptions source
        (checker.arena.plainForm type))
      (checker.compareWithin checker.options.maxDepth others source type) := by
  obtain ⟨less, isBudget⟩ := room.exists_budget
  rw [isBudget] at room
  have below := (room.node leaf.present).1
  have roomy {part : Ty} (inside : checker.HasRoom less (depth + 1) part) :
      checker.HasRoom checker.budget 2 part ∧
        checker.HasRoom checker.budget 2 part.optional := by
    have higher : checker.HasRoom less 3 part :=
      inside.flatter (Nat.le_refl _) (by omega)
    rw [isBudget]
    exact ⟨higher.flatter (Nat.le_succ _) (Nat.le_succ _),
      higher.optional (by omega)⟩
  have presents :
      Ty.Presents
        (fun first second =>
          first = checker.arena.plainForm second ∧
            second.Every Ty.Surveyable ∧
            checker.HasRoom checker.budget 2 second ∧
              checker.HasRoom checker.budget 2 second.optional)
        (checker.arena.plainForm type) type := by
    refine leaf.presents_plainForm fun {occurrence shape} written => ?_
    subst written
    obtain ⟨properties, -, values⟩ :=
      Ty.forall_parts_object.mp fun part inside =>
        leaf.surveyable.inside inside
    exact
      ⟨fun property member => roomy (room.property member
          (properties property member).here.toPlain),
        fun index indexed => roomy (room.index indexed
          (values index indexed).here.toPlain)⟩
  refine compareWithin_presents strict scalar closer.le presents
    fun isText {below above first second} lower isFewer isMore related => ?_
  obtain ⟨rfl, surveyable, first, optional⟩ := related
  have plain := surveyable.plainNodes
  have isTwo {further : Nat} (isAbove : above = further + 1) :
      checker.options.maxDepth - further = 2 := by
    omega
  constructor
  · exact compareWithin_number_written strict definitions (by omega)
      (recalled isText) (plain_plainForm plain) surveyable
      (plainForm_plainForm plain) (fun _ => rfl)
      fun isAbove => isTwo isAbove ▸ first
  · refine compareWithin_number_written strict definitions (by omega)
      (recalled isText) (Ty.plain_optional (plain_plainForm plain))
      (surveyable.optional (fun _ => ⟨⟨rfl, rfl⟩, nofun⟩) ⟨⟨rfl, rfl⟩, nofun⟩)
      (plainForm_optional_plainForm plain) (fun single => ?_)
      fun isAbove => isTwo isAbove ▸ optional
    rcases single with single | single
    · rw [← plainForm_optional_plainForm plain, eq_undefined_of_optional single]
      rfl
    · cases eq_undefined_of_optional single
      rfl

end Leaves

end Scalars

end Checker

end StructuralTyping
