import StructuralTyping.Proofs.AssignMeaning
import StructuralTyping.Proofs.Limits

namespace StructuralTyping

/-!
# Relaxed null checks

Relaxing the null checks of a checker leaves normalization, evaluation and the
members of types as they are and adds one rule to the comparison of types. Every
other rule compares parts and passes their answers on, parameters of functions
included; so whatever is assignable under strict null checks stays assignable
where they are relaxed.
-/

open Check Stateful

/-- The checker with relaxed null checks. -/
def Checker.relaxed
    (checker : Checker) :
    Checker :=
  { checker with
    options := { checker.options with strictNullChecks := false } }

section Unaffected

/-- Normalization with relaxed null checks. -/
def NormalMode.relaxed
    (mode : NormalMode) :
    NormalMode :=
  { mode with checker := mode.checker.relaxed }

/-- Normalization does not look at null checks. -/
theorem normalPass_relaxed
    (mode : NormalMode)
    (budget : Nat) :
    normalPass mode.relaxed budget = normalPass mode budget := by
  induction budget with
  | zero =>
      rfl
  | succ budget inductionHypothesis =>
      rw [normalPass_succ, normalPass_succ, inductionHypothesis]
      rfl

/-- Normalizing a type does not depend on null checks. -/
theorem normalizeIn_relaxed
    (mode : NormalMode)
    (budget depth : Nat)
    (type : Ty) :
    normalizeIn mode.relaxed budget depth type =
      normalizeIn mode budget depth type := by
  unfold normalizeIn
  rw [normalPass_relaxed]

namespace Evaluation

/-- Evaluation with relaxed null checks. -/
def relaxed
    (evaluation : Evaluation) :
    Evaluation :=
  { evaluation with checker := evaluation.checker.relaxed }

variable (evaluation : Evaluation)

@[simp] theorem normalizeAt_relaxed :
    evaluation.relaxed.normalizeAt = evaluation.normalizeAt := by
  funext depth type
  exact normalizeIn_relaxed
    { checker := evaluation.checker
      evaluate := evaluation.evaluate
      keepReferences := false }
    evaluation.budget depth type

@[simp] theorem normalizeOperand_relaxed :
    evaluation.relaxed.normalizeOperand = evaluation.normalizeOperand := by
  funext depth type
  exact normalizeIn_relaxed
    { checker := evaluation.checker
      evaluate := evaluation.evaluate
      keepReferences := true }
    evaluation.budget depth type

/-- Following references does not depend on null checks. -/
theorem resolveWithin_relaxed
    (remaining depth : Nat)
    (type : Ty) :
    evaluation.relaxed.resolveWithin remaining depth type =
      evaluation.resolveWithin remaining depth type := by
  induction remaining generalizing depth type with
  | zero =>
      rfl
  | succ remaining inductionHypothesis =>
      cases type <;> simp only [resolveWithin, inductionHypothesis] <;> rfl

@[simp] theorem resolve_relaxed :
    evaluation.relaxed.resolve = evaluation.resolve := by
  funext depth type
  exact evaluation.resolveWithin_relaxed _ depth type

@[simp] theorem mergeMembers_relaxed :
    evaluation.relaxed.mergeMembers = evaluation.mergeMembers := by
  funext depth members
  unfold mergeMembers
  simp only [resolve_relaxed, normalizeAt_relaxed]

@[simp] theorem normalizeMerged_relaxed :
    evaluation.relaxed.normalizeMerged = evaluation.normalizeMerged := by
  funext depth type
  unfold normalizeMerged
  simp only [mergeMembers_relaxed, normalizeAt_relaxed]

/-- Looking behind references does not depend on null checks. -/
theorem structuralWithin_relaxed
    (remaining depth : Nat)
    (type : Ty) :
    evaluation.relaxed.structuralWithin remaining depth type =
      evaluation.structuralWithin remaining depth type := by
  induction remaining generalizing depth type with
  | zero =>
      unfold structuralWithin
      simp only [resolve_relaxed, normalizeMerged_relaxed]
  | succ remaining inductionHypothesis =>
      unfold structuralWithin
      simp only [resolve_relaxed, normalizeMerged_relaxed, inductionHypothesis]

@[simp] theorem structural_relaxed :
    evaluation.relaxed.structural = evaluation.structural := by
  funext depth type
  exact evaluation.structuralWithin_relaxed _ depth type

/-- Applying a utility does not depend on null checks. -/
theorem apply_relaxed :
    evaluation.relaxed.apply = evaluation.apply := by
  funext application depth
  have structural := evaluation.structural_relaxed
  have normalizeAt := evaluation.normalizeAt_relaxed
  unfold apply applyPick applyOmit applyOptional applyReadonly applyReturnType
    applyParameters applyNonNullable keyedBase objectBase functionBase
  simp only [structural, normalizeAt]
  rfl

end Evaluation

namespace Checker

variable (checker : Checker)

/-- Evaluating applications does not depend on null checks. -/
theorem evaluateWithin_relaxed
    (budget : Nat) :
    checker.relaxed.evaluateWithin budget = checker.evaluateWithin budget := by
  induction budget with
  | zero =>
      rfl
  | succ budget inductionHypothesis =>
      funext application depth
      unfold evaluateWithin
      rw [inductionHypothesis]
      exact congrFun (congrFun
        (Evaluation.apply_relaxed
          { checker
            evaluate := checker.evaluateWithin budget
            budget }) application) depth

/-- The evaluation of the relaxed checker is the relaxed evaluation. -/
theorem evaluation_relaxed :
    checker.relaxed.evaluation = checker.evaluation.relaxed := by
  have same := checker.evaluateWithin_relaxed checker.budget
  simp only [evaluation, Evaluation.relaxed]
  rw [← same]
  rfl

/-- The members of a type do not depend on null checks. -/
theorem apparentWithin_relaxed
    (budget : Nat)
    (type : Ty) :
    checker.relaxed.apparentWithin budget type =
      checker.apparentWithin budget type := by
  have tuples : checker.relaxed.tupleElement = checker.tupleElement := by
    funext elements
    unfold tupleElement normalize
    rw [evaluation_relaxed, Evaluation.normalizeAt_relaxed]
  induction budget generalizing type with
  | zero =>
      rfl
  | succ budget inductionHypothesis =>
      cases type <;>
        simp only [apparentWithin, evaluation_relaxed,
          Evaluation.resolve_relaxed, inductionHypothesis, tuples]

@[simp] theorem apparent_relaxed :
    checker.relaxed.apparent = checker.apparent := by
  funext type
  exact checker.apparentWithin_relaxed checker.budget type

end Checker

end Unaffected

namespace Relating

/-- Where the first comparison succeeds, the second succeeds if it answers. -/
def Sustains
    (first second : Relating Bool) :
    Prop :=
  Answers first true → ∀ answer, Answers second answer → answer = true

/-- A comparison that only ever succeeds sustains every other one. -/
theorem Sustains.of_true
    {first : Relating Bool} :
    Sustains first (pure true) :=
  fun _ _ answers => answers_pure.mp answers

/-- A failed comparison is sustained by every other one. -/
theorem Sustains.of_fail
    {second : Relating Bool} :
    Sustains (fail reason) second :=
  fun succeeds => (not_answers_fail succeeds).elim

/-- A comparison that answers no is sustained by every other one. -/
theorem Sustains.of_false
    {second : Relating Bool} :
    Sustains (pure false) second :=
  fun succeeds => nomatch answers_pure.mp succeeds

/-- A choice between comparisons is sustained by that between sustaining ones. -/
theorem Sustains.ite
    {condition : Prop}
    [Decidable condition]
    {first second otherFirst otherSecond : Relating Bool}
    (taken : Sustains first second)
    (otherwise : Sustains otherFirst otherSecond) :
    Sustains
      (if condition then first else otherFirst)
      (if condition then second else otherSecond) := by
  split <;> assumption

/-- A rule that grants success may be widened. -/
theorem Sustains.ofWeaker
    {condition weaker : Prop}
    [Decidable condition]
    [Decidable weaker]
    {first second : Relating Bool}
    (implies : condition → weaker)
    (otherwise : Sustains first second) :
    Sustains
      (if condition then pure true else first)
      (if weaker then pure true else second) := by
  by_cases granted : weaker
  · rw [if_pos granted]
    exact .of_true
  · rw [if_neg granted, if_neg fun holds => granted (implies holds)]
    exact otherwise

/-- Two sequences that start with the same decided computation go on alike. -/
theorem Sustains.of_bind
    {computation : Relating α}
    {first second : α → Relating Bool}
    (decided :
      ∀ {value other},
        Answers computation value → Answers computation other → value = other)
    (next : ∀ value, Sustains (first value) (second value)) :
    Sustains (computation >>= first) (computation >>= second) := by
  intro succeeds answer answers
  obtain ⟨value, early, succeeds⟩ := succeeds.of_bind
  obtain ⟨other, otherEarly, answers⟩ := answers.of_bind
  cases decided early otherEarly
  exact next value succeeds answer answers

/-- Two sequences that start with the same question go on alike. -/
theorem Sustains.of_lift
    {computation : Check α}
    [Appends computation]
    {first second : α → Relating Bool}
    (next : ∀ value, Sustains (first value) (second value)) :
    Sustains (liftM computation >>= first) (liftM computation >>= second) :=
  .of_bind (fun early other => early.of_lift.unique other.of_lift) next

/-- Two sequences that go on after success only are sustained part by part. -/
theorem Sustains.andThen
    {first second firstNext secondNext : Relating Bool}
    (here : Sustains first second)
    (next : Sustains firstNext secondNext) :
    Sustains
      (do if ← first then firstNext else return false)
      (do if ← second then secondNext else return false) := by
  intro succeeds answer answers
  obtain ⟨holds, early, succeeds⟩ := succeeds.of_bind
  obtain ⟨otherHolds, otherEarly, answers⟩ := answers.of_bind
  cases holds with
  | false =>
      cases answers_pure.mp succeeds
  | true =>
      cases here early otherHolds otherEarly
      exact next succeeds answer answers

/-- Two sequences that go on after failure only are sustained part by part. -/
theorem Sustains.orElse
    {first second firstNext secondNext : Relating Bool}
    (here : Sustains first second)
    (next : Sustains firstNext secondNext) :
    Sustains
      (do if ← first then return true else firstNext)
      (do if ← second then return true else secondNext) := by
  intro succeeds answer answers
  obtain ⟨holds, early, succeeds⟩ := succeeds.of_bind
  obtain ⟨otherHolds, otherEarly, answers⟩ := answers.of_bind
  cases otherHolds with
  | true =>
      exact answers_pure.mp answers
  | false =>
      cases holds with
      | false =>
          exact next succeeds answer answers
      | true =>
          cases here early false otherEarly

variable {first second : Relating Bool}

/-- An explanation of failures does not matter. -/
theorem Sustains.orFail
    (here : Sustains first second) :
    Sustains (orFail first reason) (orFail second reason) :=
  here.orElse .of_fail

/-- An attempt answers as the comparison does. -/
theorem answers_of_attempt
    {comparison : Relating Bool}
    (answers : Answers (attempt comparison) holds) :
    Answers comparison holds := by
  obtain ⟨_, _, answers⟩ := answers.of_bind
  obtain ⟨answer, compares, answers⟩ := answers.of_bind
  cases answer with
  | true =>
      obtain ⟨_, _, answers⟩ := answers.of_bind
      cases answers_pure.mp answers
      exact compares
  | false =>
      cases answers_pure.mp answers
      exact compares

/-- A search among members does not look at the reasons of failures. -/
theorem Sustains.silently
    (here : Sustains first second) :
    Sustains (silently first) (silently second) :=
  fun succeeds answer answers =>
    here (answers_of_silently succeeds) answer (answers_of_silently answers)

/-- An attempt does not look at the reasons of failures. -/
theorem Sustains.attempt
    (here : Sustains first second) :
    Sustains (attempt first) (attempt second) :=
  fun succeeds answer answers =>
    here (answers_of_attempt succeeds) answer (answers_of_attempt answers)

/-- A list of comparisons that all have to succeed is sustained item by item. -/
theorem Sustains.allOf
    {firsts seconds : List (Relating Bool)}
    (each : List.Forall₂ Sustains firsts seconds) :
    Sustains (allOf firsts) (allOf seconds) := by
  induction each with
  | nil =>
      exact .of_true
  | cons head _ inductionHypothesis =>
      exact head.andThen inductionHypothesis

/-- A list of comparisons one of which has to succeed is sustained item by item. -/
theorem Sustains.anyOf
    {firsts seconds : List (Relating Bool)}
    (each : List.Forall₂ Sustains firsts seconds) :
    Sustains (anyOf firsts) (anyOf seconds) := by
  induction each with
  | nil =>
      exact .of_false
  | cons head _ inductionHypothesis =>
      exact head.silently.orElse inductionHypothesis

/-- Two visits to the members of a type are sustained member by member. -/
theorem forall₂_map
    {visit other : α → Relating Bool}
    (each : ∀ item, Sustains (visit item) (other item))
    (items : List α) :
    List.Forall₂ Sustains (items.map visit) (items.map other) := by
  rw [List.forall₂_map_left_iff, List.forall₂_map_right_iff]
  exact List.forall₂_same.mpr fun item _ => each item

end Relating

open Relating

namespace RelationStep

/-- One level of the comparison with relaxed null checks. -/
def relaxed
    (step : RelationStep)
    (compare : Comparison) :
    RelationStep :=
  { step with
    checker := step.checker.relaxed
    compare }

/-- What a reference stands for does not depend on null checks. -/
theorem expandReference_relaxed
    (step : RelationStep)
    (compare : Comparison) :
    (step.relaxed compare).expandReference = step.expandReference := by
  funext type
  cases type <;> simp only [expandReference, relaxed, Checker.evaluation_relaxed]
    <;> rfl

/-- A reference stands for one type, however often it is expanded. -/
theorem expandReference_unique
    {step : RelationStep}
    (first : Answers (step.expandReference type) value)
    (second : Answers (step.expandReference type) other) :
    value = other := by
  cases type with
  | named reference =>
      simp only [expandReference] at first second
      generalize step.checker.arena.definition reference = definition
        at first second
      cases definition <;>
        exact (answers_pure.mp first).trans (answers_pure.mp second).symm
  | generic occurrence application =>
      obtain ⟨result, early, first⟩ := first.of_bind
      obtain ⟨again, otherEarly, second⟩ := second.of_bind
      cases early.of_lift.unique otherEarly.of_lift
      cases result <;>
        exact (answers_pure.mp first).trans (answers_pure.mp second).symm
  | _ =>
      exact (answers_pure.mp first).trans (answers_pure.mp second).symm

section Rules

variable
  {step : RelationStep}
  {compare : Comparison}
  (parts :
    ∀ assumptions source target,
      Sustains
        (step.compare assumptions source target)
        (compare assumptions source target))

include parts

theorem viaReference_sustains :
    Sustains
      (step.viaReference assumptions source target)
      ((step.relaxed compare).viaReference assumptions source target) := by
  unfold viaReference
  rw [expandReference_relaxed]
  refine .ite .of_true (.ite .of_true ?_)
  refine .of_bind expandReference_unique fun expandedSource => ?_
  cases expandedSource with
  | error reason =>
      exact .of_fail
  | ok expandedSource =>
      refine .of_bind expandReference_unique fun expandedTarget => ?_
      cases expandedTarget with
      | error reason =>
          exact .of_fail
      | ok expandedTarget =>
          exact parts _ _ _

theorem fromUnion_sustains :
    Sustains
      (step.fromUnion assumptions source target)
      ((step.relaxed compare).fromUnion assumptions source target) := by
  unfold fromUnion
  simp only [relaxed, Checker.evaluation_relaxed,
    Evaluation.normalizeOperand_relaxed]
  refine .of_lift fun normalized => ?_
  split
  · exact .allOf (forall₂_map (fun _ => (parts _ _ _).orFail) _)
  · exact parts _ _ _

theorem toUnion_sustains :
    Sustains
      (step.toUnion assumptions source target)
      ((step.relaxed compare).toUnion assumptions source target) := by
  unfold toUnion
  simp only [relaxed, Checker.evaluation_relaxed,
    Evaluation.normalizeOperand_relaxed]
  refine .of_lift fun normalized => ?_
  split
  · exact (Sustains.anyOf (forall₂_map (fun _ => parts _ _ _) _)).orFail
  · exact parts _ _ _

theorem toIntersection_sustains :
    Sustains
      (step.toIntersection assumptions source target)
      ((step.relaxed compare).toIntersection assumptions source target) := by
  unfold toIntersection
  simp only [relaxed, Checker.evaluation_relaxed,
    Evaluation.normalizeOperand_relaxed]
  refine .of_lift fun normalized => ?_
  split
  · exact .allOf (forall₂_map (fun _ => (parts _ _ _).orFail) _)
  · exact parts _ _ _

theorem fromIntersection_sustains :
    Sustains
      (step.fromIntersection assumptions source target)
      ((step.relaxed compare).fromIntersection assumptions source target) := by
  unfold fromIntersection
  simp only [relaxed, Checker.evaluation_relaxed,
    Evaluation.normalizeOperand_relaxed, Evaluation.mergeMembers_relaxed]
  refine .of_lift fun normalized => ?_
  split
  · refine (Sustains.anyOf (forall₂_map (fun _ => parts _ _ _) _)).orElse ?_
    refine .of_lift fun merged => ?_
    cases merged with
    | none =>
        exact .of_fail
    | some merged =>
        exact parts _ _ _
  · exact parts _ _ _

/-- Comparing a property is sustained. -/
theorem toProperty_sustains
    (property : Property Ty) :
    Sustains
      (step.toProperty assumptions source target members property)
      ((step.relaxed compare).toProperty assumptions source target members
        property) := by
  unfold toProperty
  cases members.property? property.name with
  | none =>
      exact .ite .of_true .of_fail
  | some actual =>
      exact .ite .of_fail (parts _ _ _).orFail

/-- Comparing with an index signature is sustained. -/
theorem toIndex_sustains :
    Sustains
      (step.toIndex assumptions members index)
      ((step.relaxed compare).toIndex assumptions members index) := by
  unfold toIndex
  refine Sustains.andThen
    (.allOf (forall₂_map (fun _ => (parts _ _ _).orFail) _)) ?_
  cases members.index with
  | none =>
      exact .of_true
  | some actual =>
      exact (parts _ _ _).orFail

/-- Comparing with the members of an object is sustained. -/
theorem toMembers_sustains :
    Sustains
      (step.toMembers assumptions source target members shape)
      ((step.relaxed compare).toMembers assumptions source target members
        shape) := by
  unfold toMembers
  refine Sustains.andThen
    (.allOf (forall₂_map (toProperty_sustains parts) _)) ?_
  cases shape.index with
  | none =>
      exact .of_true
  | some index =>
      exact toIndex_sustains parts

theorem toObject_sustains :
    Sustains
      (step.toObject assumptions source target shape)
      ((step.relaxed compare).toObject assumptions source target shape) := by
  unfold toObject
  simp only [relaxed, Checker.apparent_relaxed]
  refine .ite .of_fail (.ite .of_true (.of_lift fun members => ?_))
  cases members with
  | none =>
      exact .of_fail
  | some members =>
      exact .ite (.ite .of_true (toMembers_sustains parts))
        (toMembers_sustains parts)

/-- Comparing elements with one type is sustained. -/
theorem elementsTo_sustains
    (elements : List Ty)
    (position : Nat) :
    List.Forall₂ Sustains
      (step.elementsTo assumptions element position elements)
      ((step.relaxed compare).elementsTo assumptions element position
        elements) := by
  induction elements generalizing position with
  | nil =>
      exact .nil
  | cons type rest inductionHypothesis =>
      exact .cons (parts _ _ _).orFail (inductionHypothesis (position + 1))

/-- Comparing elements position by position is sustained. -/
theorem elementPairs_sustains
    (elements others : List Ty)
    (position : Nat) :
    List.Forall₂ Sustains
      (step.elementPairs assumptions position elements others)
      ((step.relaxed compare).elementPairs assumptions position elements
        others) := by
  induction elements generalizing position others with
  | nil =>
      exact .nil
  | cons type rest inductionHypothesis =>
      cases others with
      | nil =>
          exact .nil
      | cons other others =>
          exact .cons (parts _ _ _).orFail
            (inductionHypothesis others (position + 1))

theorem toArray_sustains :
    Sustains
      (step.toArray assumptions source target element readonly)
      ((step.relaxed compare).toArray assumptions source target element
        readonly) := by
  unfold toArray
  cases source with
  | array =>
      exact .ite .of_fail (parts _ _ _).orFail
  | tuple =>
      exact .ite .of_fail (.allOf (elementsTo_sustains parts _ _))
  | _ =>
      exact .of_fail

theorem toTuple_sustains :
    Sustains
      (step.toTuple assumptions source target elements readonly)
      ((step.relaxed compare).toTuple assumptions source target elements
        readonly) := by
  unfold toTuple
  cases source with
  | tuple =>
      exact .ite .of_fail
        (.ite .of_fail (.allOf (elementPairs_sustains parts _ _ _)))
  | _ =>
      exact .of_fail

/-- Comparing a parameter is sustained in either direction. -/
theorem toArgument_sustains :
    Sustains
      (step.toArgument assumptions bivariant parameter argument)
      ((step.relaxed compare).toArgument assumptions bivariant parameter
        argument) := by
  unfold toArgument
  exact .ite ((parts _ _ _).attempt.orElse (parts _ _ _)) (parts _ _ _)

/-- Comparing the supplied parameters is sustained. -/
theorem suppliedParameters_sustains
    (target : Signature Ty)
    (parameters : List (Parameter Ty))
    (position : Nat) :
    List.Forall₂ Sustains
      (step.suppliedParameters assumptions bivariant target position parameters)
      ((step.relaxed compare).suppliedParameters assumptions bivariant target
        position parameters) := by
  induction parameters generalizing position with
  | nil =>
      exact .nil
  | cons parameter rest inductionHypothesis =>
      refine .cons ?_ (inductionHypothesis (position + 1))
      split
      · exact (toArgument_sustains parts).orFail
      · exact .ite .of_true .of_fail

/-- Comparing a rest parameter with single ones is sustained. -/
theorem restParameters_sustains
    (parameters : List (Parameter Ty))
    (position : Nat) :
    List.Forall₂ Sustains
      (step.restParameters assumptions bivariant rest position parameters)
      ((step.relaxed compare).restParameters assumptions bivariant rest position
        parameters) := by
  induction parameters generalizing position with
  | nil =>
      exact .nil
  | cons parameter others inductionHypothesis =>
      exact .cons (toArgument_sustains parts).orFail
        (inductionHypothesis (position + 1))

/-- Comparing the rest parameter of a source is sustained. -/
theorem restTo_sustains
    (source target : Signature Ty) :
    List.Forall₂ Sustains
      (step.restTo assumptions bivariant source target)
      ((step.relaxed compare).restTo assumptions bivariant source target) := by
  unfold restTo
  split
  · exact .nil
  · refine List.rel_append (restParameters_sustains parts _ _) ?_
    split
    · exact .nil
    · exact .cons (toArgument_sustains parts).orFail .nil

/-- Comparing results is sustained. -/
theorem resultTo_sustains :
    Sustains
      (step.resultTo assumptions source target)
      ((step.relaxed compare).resultTo assumptions source target) := by
  unfold resultTo
  exact .ite .of_true (parts _ _ _).orFail

theorem toFunction_sustains :
    Sustains
      (step.toFunction assumptions source signature)
      ((step.relaxed compare).toFunction assumptions source signature) := by
  unfold toFunction
  cases source with
  | function =>
      refine .allOf (List.rel_append (List.rel_append ?_ ?_) ?_)
      · exact suppliedParameters_sustains parts _ _ _
      · exact restTo_sustains parts _ _
      · exact .cons (resultTo_sustains parts) .nil
  | _ =>
      exact .of_fail

theorem compareShapes_sustains :
    Sustains
      (step.compareShapes assumptions source target)
      ((step.relaxed compare).compareShapes assumptions source target) := by
  unfold compareShapes
  cases target with
  | primitive =>
      exact .ite .of_true .of_fail
  | literal =>
      exact .ite .of_true .of_fail
  | object =>
      exact toObject_sustains parts
  | array =>
      exact toArray_sustains parts
  | tuple =>
      exact toTuple_sustains parts
  | function =>
      exact toFunction_sustains parts
  | _ =>
      exact .of_fail

/--
One level of the comparison is sustained when the comparison of parts is. The
rule for relaxed null checks only adds a success.
-/
theorem relate_sustains :
    Sustains
      (step.relate assumptions source target)
      ((step.relaxed compare).relate assumptions source target) := by
  unfold relate
  refine .ite .of_true (.ite .of_true (.ite (viaReference_sustains parts) ?_))
  refine .ite .of_fail (.ite .of_fail ?_)
  refine .ofWeaker (fun _ => ?_) <|
    .ite (fromUnion_sustains parts) <|
    .ite (toUnion_sustains parts) <|
    .ite (toIntersection_sustains parts) <|
    .ite (fromIntersection_sustains parts) (compareShapes_sustains parts)
  simp_all [relaxed, Checker.relaxed]

end Rules

end RelationStep

namespace Checker

variable (checker : Checker)

/-- A comparison is sustained by the one with relaxed null checks. -/
theorem compareWithin_sustains
    (remaining : Nat)
    (assumptions : Assumptions)
    (source target : Ty) :
    Sustains
      (checker.compareWithin remaining assumptions source target)
      (checker.relaxed.compareWithin remaining assumptions source target) := by
  induction remaining generalizing assumptions source target with
  | zero =>
      unfold compareWithin
      dsimp only
      split
      · exact .of_true
      · exact fun succeeds => (not_answers_failAtBound succeeds).elim
  | succ remaining inductionHypothesis =>
      unfold compareWithin
      dsimp only
      split
      · exact .of_true
      · exact RelationStep.relate_sustains inductionHypothesis

/--
Relaxing null checks only adds assignable pairs. Whatever the arena, the depth
bound and the two types: if the source is assignable to the target under strict
null checks, and the question also has an answer where they are relaxed, then it
is assignable there as well. The two runs may work with different budgets.
-/
theorem isAssignable_relaxed
    {arena : Arena}
    {maxDepth budget enough : Nat}
    {source target : Ty}
    (strict :
      Check.Answers
        (isAssignable
          { arena
            options := { maxDepth, strictNullChecks := true }
            budget }
          source target)
        true)
    (relaxed :
      Check.Answers
        (isAssignable
          { arena
            options := { maxDepth, strictNullChecks := false }
            budget := enough }
          source target)
        answer) :
    answer = true := by
  let common := max budget enough
  have longer {options : Options} {least : Nat} {holds : Bool}
      (within : least ≤ common)
      (answers :
        Check.Answers (isAssignable { arena, options, budget := least }
          source target) holds) :
      Check.Answers (isAssignable { arena, options, budget := common }
        source target) holds := by
    obtain ⟨log, after, run⟩ := answers
    have asked :
        ask { arena, options, budget := least } (.isAssignable source target) log =
          .ok (holds, after) :=
      run
    exact ⟨log, after, ask_longer asked within⟩
  have succeeds := longer (le_max_left ..) strict
  have answers := longer (le_max_right ..) relaxed
  unfold isAssignable compare at succeeds answers
  obtain ⟨⟨holds, findings⟩, strictRun, same⟩ := succeeds.of_bind
  cases Check.answers_pure.mp same
  obtain ⟨⟨other, others⟩, relaxedRun, same⟩ := answers.of_bind
  cases Check.answers_pure.mp same
  exact compareWithin_sustains
    { arena
      options := { maxDepth, strictNullChecks := true }
      budget := common }
    maxDepth {} source target ⟨{}, findings, strictRun⟩ other
    ⟨{}, others, relaxedRun⟩

section Chains

/-- A chain whose links are visited with a text, and what is left to go on. -/
def visitedLink
    (visitor next : Ty) :
    Ty :=
  .ofShape
    { properties :=
        [{ name := "visit"
           type :=
            .function none
              { parameters := [{ name := "text", type := visitor }]
                rest := .absent
                result := .absent } },
          { name := "next", type := .ofUnion [next, .null] }] }

/-- Chains visited with any text or `null`, and chains visited with one text. -/
def visitedChains : Arena :=
  { declarations :=
      [{ name := "Wide"
         definition :=
          visitedLink (.ofUnion [.string, .null])
            (.named { arena := 0, id := 0, name := "Wide" }) },
        { name := "Narrow"
          definition :=
            visitedLink (.ofLiteral (.string (.ofString "a")))
              (.named { arena := 0, id := 1, name := "Narrow" }) }] }

/-- A chain is still assignable to one with loosened links under relaxed checks. -/
theorem isAssignable_relaxed_chain :
    let source : Ty := .named { arena := 0, id := 0, name := "Wide" }
    let target : Ty :=
      .generic none
        { utility := "Partial"
          base := .named { arena := 0, id := 1, name := "Narrow" }
          arguments := [] }
    ∃ answer,
      Check.Answers
          (isAssignable
            { arena := visitedChains
              options := { maxDepth := 20, strictNullChecks := true }
              budget := 20 }
            source target)
          true ∧
        Check.Answers
          (isAssignable
            { arena := visitedChains
              options := { maxDepth := 20, strictNullChecks := false }
              budget := 30 }
            source target)
          answer ∧
        answer = true := by
  have strict :
      Check.Answers
        (isAssignable
          { arena := visitedChains
            options := { maxDepth := 20, strictNullChecks := true }
            budget := 20 }
          (.named { arena := 0, id := 0, name := "Wide" })
          (.generic none
            { utility := "Partial"
              base := .named { arena := 0, id := 1, name := "Narrow" }
              arguments := [] }))
        true :=
    ⟨[], [], by decide +kernel⟩
  have relaxed :
      Check.Answers
        (isAssignable
          { arena := visitedChains
            options := { maxDepth := 20, strictNullChecks := false }
            budget := 30 }
          (.named { arena := 0, id := 0, name := "Wide" })
          (.generic none
            { utility := "Partial"
              base := .named { arena := 0, id := 1, name := "Narrow" }
              arguments := [] }))
        true :=
    ⟨[], [], by decide +kernel⟩
  exact ⟨true, strict, relaxed, isAssignable_relaxed strict relaxed⟩

end Chains

end Checker

end StructuralTyping
