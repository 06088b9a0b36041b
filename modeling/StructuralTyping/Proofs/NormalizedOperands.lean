import StructuralTyping.Proofs.AgreeingRules

namespace StructuralTyping

/-!
# Comparison does not see whether operands were normalized

Two comparisons follow each other where their sources share a form and their
targets do: either both answer promptly, or one of them goes on with a form, or
both take the same forms apart. Which of the types were forms already makes no
difference then. An intersection that comes to a union is the exception, since
it is compared as a whole with the members of a union.
-/

open Stateful Relating

variable {checker : Checker}

/-- No pairs of objects are under comparison but those before and one more. -/
def Assumptions.Extends
    (grown assumptions : Assumptions)
    (source target : Ty) :
    Prop :=
  ∀ pair ∈ grown.objects,
    pair ∈ assumptions.objects ∨ pair = (source, target)

/-- Comparisons that have one outcome for types that share forms. -/
def Comparison.AgreeOn
    (checker : Checker)
    (compare otherCompare : Comparison) :
    Prop :=
  ∀ {assumptions others source otherSource target otherTarget},
    ShareForm checker source otherSource →
    ShareForm checker target otherTarget →
    Apart checker assumptions source target →
    Apart checker others otherSource otherTarget →
    Agree (compare assumptions source target)
      (otherCompare others otherSource otherTarget)

namespace RelationStep

variable
  {step other : RelationStep}
  [step.compare.Reports]
  [other.compare.Reports]
  {assumptions others : Assumptions}
  {source otherSource target otherTarget : Ty}
  (sameChecker : step.checker = other.checker)
  (agree : Comparison.AgreeOn step.checker step.compare other.compare)
  (apart : Apart step.checker assumptions source target)
  (otherApart : Apart step.checker others otherSource otherTarget)

include agree apart otherApart

omit [step.compare.Reports] [other.compare.Reports] in
/-- The parts of types that are apart are compared with one outcome. -/
theorem partsAgree
    {grown otherGrown : Assumptions}
    (simple : source.isCompound = false ∧ target.isCompound = false)
    (otherSimple :
      otherSource.isCompound = false ∧ otherTarget.isCompound = false)
    (grows : grown.Extends assumptions source target)
    (otherGrows : otherGrown.Extends others otherSource otherTarget) :
    PartsAgree step.checker (step.compare grown) (other.compare otherGrown)
      source otherSource target otherTarget := by
  have inside
      {part otherPart argument otherArgument : Ty}
      (first :
        Counterparts step.checker source otherSource part otherPart)
      (second :
        Counterparts step.checker target otherTarget argument otherArgument) :
      Apart step.checker grown part argument ∧
        Apart step.checker otherGrown otherPart otherArgument :=
    ⟨apart.inside simple.1 simple.2 grows first.met second.met
        first.isAbsent.1 second.isAbsent.1,
      otherApart.inside otherSimple.1 otherSimple.2 otherGrows first.otherMet
        second.otherMet first.isAbsent.2 second.isAbsent.2⟩
  exact
    { along := fun first second =>
        agree first.shares second.shares (inside first second).1
          (inside first second).2
      across := fun first second =>
        agree second.shares first.shares (inside first second).1.symm
          (inside first second).2.symm }

include sameChecker

/-- Comparison with objects has one outcome. -/
theorem toObject_agree
    {node otherNode : Occurrence}
    {shape otherShape : Shape Ty}
    (written : target = .object node shape)
    (otherWritten : otherTarget = .object otherNode otherShape)
    (sources :
      Parallel (Counterparts step.checker source otherSource)
        source otherSource)
    (targets :
      List.Forall₂
        (RelatedProperty (Counterparts step.checker target otherTarget))
        shape.properties otherShape.properties)
    (closed : shape.index = none)
    (otherClosed : otherShape.index = none) :
    Agree (step.toObject assumptions source target shape)
      (other.toObject others otherSource otherTarget otherShape) := by
  subst written otherWritten
  have parts {grown otherGrown : Assumptions} :=
    @partsAgree step other assumptions others source otherSource
      (.object node shape) (.object otherNode otherShape) agree apart otherApart
      grown otherGrown ⟨sources.simple.1, rfl⟩ ⟨sources.simple.2, rfl⟩
  have empty : shape.isEmpty = otherShape.isEmpty := by
    unfold Shape.isEmpty
    rw [closed, otherClosed]
    generalize shape.properties = properties at targets
    generalize otherShape.properties = otherProperties at targets
    cases targets <;> rfl
  unfold toObject Ty.isNullish
  rw [sources.isPrimitive, sources.isPrimitive, sources.isPrimitive, empty]
  split
  · exact .fail
  split
  · exact .holds
  intro answer otherAnswer settles otherSettles
  obtain ⟨members, exposes, settles⟩ :=
    @Settles.of_bind _ _ _ _ _ _ (fun members => by
      cases members <;> (dsimp only; infer_instance)) _ settles
  obtain ⟨otherMembers, otherExposes, otherSettles⟩ :=
    @Settles.of_bind _ _ _ _ _ _ (fun members => by
      cases members <;> (dsimp only; infer_instance)) _ otherSettles
  have exposed :=
    sources.apparent Counterparts.self exposes.of_lift
      (sameChecker ▸ otherExposes.of_lift)
  cases exposed with
  | none =>
      exact (settles_fail settles).trans (settles_fail otherSettles).symm
  | some shared =>
      -- A pair is assumed only where the source is an object as well.
      have kept {kept : Assumptions} {source target : Ty} :
          kept.Extends kept source target :=
        fun _ => .inl
      have added {kept : Assumptions} {source target : Ty} :
          ({ kept with objects := (source, target) :: kept.objects } :
            Assumptions).Extends kept source target :=
        fun pair member => (List.mem_cons.mp member).symm
      cases sources with
      | object =>
          have isObject {occurrence : Occurrence} {shape : Shape Ty} :
              isObject (.object occurrence shape) = true := rfl
          dsimp only at settles otherSettles
          rw [if_pos isObject, apart.underComparison, if_neg (by simp)]
            at settles
          rw [if_pos isObject, otherApart.underComparison, if_neg (by simp)]
            at otherSettles
          exact toMembers_agree (parts added added) shared targets closed
            otherClosed _ _ settles otherSettles
      | _ =>
          exact toMembers_agree (parts kept kept) shared targets closed
            otherClosed _ _ settles otherSettles

/-- Types that are alike part by part are compared with one outcome. -/
theorem compareShapes_agree
    (sources :
      Parallel (Counterparts step.checker source otherSource)
        source otherSource)
    (targets :
      Parallel (Counterparts step.checker target otherTarget)
        target otherTarget) :
    Agree (step.compareShapes assumptions source target)
      (other.compareShapes others otherSource otherTarget) := by
  have parts :=
    partsAgree agree apart otherApart
      ⟨sources.simple.1, targets.simple.1⟩ ⟨sources.simple.2, targets.simple.2⟩
      (fun _ => .inl) (fun _ => .inl)
  unfold compareShapes
  cases targets with
  | primitive => exact toPrimitive_agree sources
  | literal => exact toLiteral_agree sources
  | object properties distinct closed otherClosed =>
      exact toObject_agree sameChecker agree apart otherApart rfl rfl sources
        properties closed otherClosed
  | array element => exact toArray_agree parts sources element
  | tuple elements => exact toTuple_agree parts sources elements
  | function signature => exact toFunction_agree parts sources signature

/-- Types that reach the same forms are taken apart with one outcome. -/
theorem compareForms_agree
    (reachesSource : Reaches step.checker source sourceForm)
    (otherReachesSource : Reaches step.checker otherSource sourceForm)
    (reachesTarget : Reaches step.checker target targetForm)
    (otherReachesTarget : Reaches step.checker otherTarget targetForm)
    (simple :
      sourceForm.isCompound = false →
      targetForm.isCompound = false →
      source.isCompound = false ∧ target.isCompound = false)
    (otherSimple :
      sourceForm.isCompound = false →
      targetForm.isCompound = false →
      otherSource.isCompound = false ∧ otherTarget.isCompound = false) :
    Agree
      (step.compareForms assumptions source target sourceForm targetForm)
      (other.compareForms others otherSource otherTarget sourceForm
        targetForm) := by
  have sourcesShare : ShareForm step.checker source otherSource :=
    ⟨sourceForm, reachesSource, otherReachesSource⟩
  have targetsShare : ShareForm step.checker target otherTarget :=
    ⟨targetForm, reachesTarget, otherReachesTarget⟩
  have fromForm {form : Ty} (again : Reaches step.checker form form) :
      Agree (step.compare assumptions form target)
        (other.compare others form otherTarget) :=
    agree (.self again) targetsShare (.inl (.inr again)) (.inl (.inr again))
  have toForm {form : Ty} (again : Reaches step.checker form form) :
      Agree (step.compare assumptions source form)
        (other.compare others otherSource form) :=
    agree sourcesShare (.self again) (.inr (.inl (.inr again)))
      (.inr (.inl (.inr again)))
  unfold compareForms
  split
  · exact .allOf_map (List.forall₂_same.mpr fun member inForm =>
      (fromForm (reachesSource.again_members.2 member inForm).1).orFail)
  split
  · exact .orFail (.anyOf_map (List.forall₂_same.mpr fun member inForm =>
      toForm (reachesTarget.again_members.2 member inForm).1))
  split
  · exact .allOf_map (List.forall₂_same.mpr fun factor inForm =>
      (toForm (reachesTarget.factors_again factor inForm)).orFail)
  split
  · exact .orFail (.anyOf_map (List.forall₂_same.mpr fun factor inForm =>
      fromForm (reachesSource.factors_again factor inForm)))
  next sourceWhole targetWhole targetSimple sourceSimple =>
  have sourceAlone : sourceForm.isCompound = false := by
    simpa [Ty.isCompound] using And.intro sourceWhole sourceSimple
  have targetAlone : targetForm.isCompound = false := by
    simpa [Ty.isCompound] using And.intro targetWhole targetSimple
  have simple := simple sourceAlone targetAlone
  have otherSimple := otherSimple sourceAlone targetAlone
  exact compareShapes_agree sameChecker agree apart otherApart
    (sourcesShare.counterparts simple.1 otherSimple.1)
    (targetsShare.counterparts simple.2 otherSimple.2)

end RelationStep

namespace Checker

/-- A comparison of different nodes comes to what its forms decide. -/
theorem compareWithin_comesTo
    (reachesSource : Reaches checker source sourceForm)
    (reachesTarget : Reaches checker target targetForm)
    (differ : ¬ source.sameNode target = true)
    (settles :
      Settles (checker.compareWithin remaining assumptions source target)
        answer) :
    ∃ nearer, remaining = nearer + 1 ∧
      RelationStep.ComesTo
        { checker
          depth := checker.options.maxDepth - nearer
          compare := checker.compareWithin nearer }
        assumptions source target sourceForm targetForm answer := by
  cases remaining with
  | zero =>
      unfold compareWithin at settles
      dsimp only at settles
      rw [(ShareForm.self reachesSource).orElse,
        (ShareForm.self reachesTarget).orElse, if_neg differ] at settles
      exact absurd settles failAtBound_never_settles
  | succ nearer =>
      unfold compareWithin at settles
      dsimp only at settles
      rw [(ShareForm.self reachesSource).orElse,
        (ShareForm.self reachesTarget).orElse, if_neg differ] at settles
      exact ⟨nearer, rfl, RelationStep.comesTo reachesSource reachesTarget
        settles⟩

/-- Comparisons of types that share forms have one outcome, at every depth. -/
theorem compareWithin_agree
    (remaining otherRemaining : Nat) :
    Comparison.AgreeOn checker (checker.compareWithin remaining)
      (checker.compareWithin otherRemaining) := by
  -- One run may go on with a form while the other one waits, so the induction
  -- is on both distances to the bound together.
  induction total : remaining + otherRemaining using Nat.strongRecOn
    generalizing remaining otherRemaining with
  | _ total nearer =>
  intro assumptions others source otherSource target otherTarget
    ⟨sourceForm, reachesSource, otherReachesSource⟩
    ⟨targetForm, reachesTarget, otherReachesTarget⟩ apart otherApart
  have succeed {assumptions others : Assumptions}
      (same : targetForm = sourceForm) :
      Agree (checker.compareWithin remaining assumptions source target)
        (checker.compareWithin otherRemaining others otherSource
          otherTarget) := by
    subst same
    exact .of_succeeds
      (compareWithin_succeeds (.self _) reachesSource reachesTarget)
      (compareWithin_succeeds (.self _) otherReachesSource otherReachesTarget)
  -- A node that is compared with itself is no matter of its form.
  by_cases same : source.sameNode target = true
  · cases eq_of_sameNode same
    exact succeed (reachesSource.unique reachesTarget)
  by_cases otherSame : otherSource.sameNode otherTarget = true
  · cases eq_of_sameNode otherSame
    exact succeed (otherReachesSource.unique otherReachesTarget)
  intro answer otherAnswer settles otherSettles
  obtain ⟨below, rfl, comes⟩ :=
    compareWithin_comesTo reachesSource reachesTarget same settles
  obtain ⟨otherBelow, rfl, otherComes⟩ :=
    compareWithin_comesTo otherReachesSource otherReachesTarget otherSame
      otherSettles
  have sourceAgain := reachesSource.again_members.1
  have targetAgain := reachesTarget.again_members.1
  have ofOtherSource
      (otherSettles :
        Settles (checker.compareWithin otherBelow others sourceForm otherTarget)
          otherAnswer) :
      answer = otherAnswer :=
    nearer _ (by omega) (below + 1) otherBelow rfl
      ⟨sourceForm, reachesSource, sourceAgain⟩
      ⟨targetForm, reachesTarget, otherReachesTarget⟩
      apart (.inl (.inr sourceAgain)) _ _ settles otherSettles
  have ofOtherTarget
      (otherSettles :
        Settles (checker.compareWithin otherBelow others otherSource targetForm)
          otherAnswer) :
      answer = otherAnswer :=
    nearer _ (by omega) (below + 1) otherBelow rfl
      ⟨sourceForm, reachesSource, otherReachesSource⟩
      ⟨targetForm, reachesTarget, targetAgain⟩
      apart (.inr (.inl (.inr targetAgain))) _ _ settles otherSettles
  cases comes with
  | source settles =>
      exact nearer _ (by omega) below (otherBelow + 1) rfl
        ⟨sourceForm, sourceAgain, otherReachesSource⟩
        ⟨targetForm, reachesTarget, otherReachesTarget⟩
        (.inl (.inr sourceAgain)) otherApart _ _ settles otherSettles
  | target settles =>
      exact nearer _ (by omega) below (otherBelow + 1) rfl
        ⟨sourceForm, reachesSource, otherReachesSource⟩
        ⟨targetForm, targetAgain, otherReachesTarget⟩
        (.inr (.inl (.inr targetAgain))) otherApart _ _ settles otherSettles
  | prompt answered =>
      cases otherComes with
      | source otherSettles => exact ofOtherSource otherSettles
      | target otherSettles => exact ofOtherTarget otherSettles
      | prompt otherAnswered =>
          exact Option.some.inj (answered.symm.trans otherAnswered)
      | forms unanswered =>
          cases answered.symm.trans unanswered
  | forms unanswered simple settles =>
      cases otherComes with
      | source otherSettles => exact ofOtherSource otherSettles
      | target otherSettles => exact ofOtherTarget otherSettles
      | prompt otherAnswered => cases otherAnswered.symm.trans unanswered
      | forms _ otherSimple otherSettles =>
          have agree :=
            @RelationStep.compareForms_agree
              ⟨checker, checker.options.maxDepth - below,
                checker.compareWithin below⟩
              ⟨checker, checker.options.maxDepth - otherBelow,
                checker.compareWithin otherBelow⟩
              inferInstance inferInstance
          exact agree rfl (nearer _ (by omega) below otherBelow rfl) apart
            otherApart reachesSource otherReachesSource reachesTarget
            otherReachesTarget simple otherSimple _ _ settles otherSettles

/-- Assignability that settles is a comparison that does. -/
theorem settles_of_isAssignable
    (settles : Check.Settles (checker.isAssignable source target) answer) :
    Settles (checker.compareWithin checker.options.maxDepth {} source target)
      answer := by
  unfold isAssignable Checker.compare at settles
  obtain ⟨⟨result, findings⟩, compares, settles⟩ :=
    Check.settles_bind.mp settles
  cases Check.settles_pure.mp settles
  have settled := compares
  obtain ⟨added, fresh, quiet⟩ := compares
  -- A flag that went up would have been reported.
  have lowered : Flagged.raised findings = false := by
    have accountable :
        Accountable
          (checker.compareWithin checker.options.maxDepth {} source target) :=
      inferInstance
    rcases accountable.reported fresh with same | ⟨_, loud⟩
    · exact same
    · exact absurd quiet loud
  exact ⟨{}, findings, rfl, lowered, settled⟩

/-- Normalization that settles answers with the form that a type reaches. -/
theorem normalize_of_reaches
    (reaches : Reaches checker type form)
    (settles : Check.Settles (checker.normalize type) result) :
    result = form :=
  reaches.normalizesTo false _ _ _
    (@settles_of_normalizeIn _ _ _ _ (checker.modeKeeping false) _ settles)

/-- Nothing is under comparison at first. -/
theorem apart_nil :
    Apart checker {} source target :=
  .inr (.inr fun _ member => by cases member)

/--
Assignability does not depend on whether its operands were normalized before,
between types that reach forms: the answers for the types as written, for the
source normalized and for the target normalized are the same wherever no
exceeded depth is reported. Objects, sequences, functions and unions that have
values may be nested in any way, optional properties included. Intersections may
stand anywhere as well if they have values and come to neither a union nor a
nullish type.
-/
theorem isAssignable_normalized
    {source target normalSource normalTarget : Ty}
    (reachesSource : Reaches checker source sourceForm)
    (reachesTarget : Reaches checker target targetForm)
    (normalizesSource : Check.Settles (checker.normalize source) normalSource)
    (normalizesTarget : Check.Settles (checker.normalize target) normalTarget)
    (assigns : Check.Settles (checker.isAssignable source target) answer)
    (assignsSource :
      Check.Settles (checker.isAssignable normalSource target) sourceAnswer)
    (assignsTarget :
      Check.Settles (checker.isAssignable source normalTarget) targetAnswer) :
    sourceAnswer = answer ∧ targetAnswer = answer := by
  cases normalize_of_reaches reachesSource normalizesSource
  cases normalize_of_reaches reachesTarget normalizesTarget
  have sourceAgain := reachesSource.again_members.1
  have targetAgain := reachesTarget.again_members.1
  exact
    ⟨compareWithin_agree _ _ ⟨_, sourceAgain, reachesSource⟩
        (.self reachesTarget) apart_nil apart_nil _ _
        (settles_of_isAssignable assignsSource)
        (settles_of_isAssignable assigns),
      compareWithin_agree _ _ (.self reachesSource)
        ⟨_, targetAgain, reachesTarget⟩ apart_nil apart_nil _ _
        (settles_of_isAssignable assignsTarget)
        (settles_of_isAssignable assigns)⟩

section Fields

/-- A checker without names. -/
def plainChecker : Checker :=
  { budget := 20 }

/-- An object with two constants, written as an intersection of two objects. -/
def fieldsMet : Ty :=
  .ofIntersection [constantField "a" 1, constantField "b" 2]

/-- An object with two constants. -/
def fieldsMerged : Ty :=
  .ofShape
    { properties :=
        [{ name := "a", type := .ofLiteral (.number (.ofNat 1)) },
          { name := "b", type := .ofLiteral (.number (.ofNat 2)) }] }

/-- The two constants met in an intersection, or nothing. -/
def optionalFields : Ty :=
  .ofUnion [fieldsMet, .null]

/-- An object with one constant, or nothing, written as nested unions. -/
def optionalField : Ty :=
  .ofUnion [constantField "a" 1, .ofUnion [.null, .undefined]]

/-- Two constants. -/
def digits : Ty :=
  .ofUnion
    [.ofLiteral (.number (.ofNat 1)), .ofLiteral (.number (.ofNat 2))]

/-- Objects of constants are forms. -/
theorem reaches_constants
    {checker : Checker}
    {properties : List (Property Ty)}
    (constant :
      ∀ property ∈ properties,
        ∃ value, property.type = .ofLiteral (.number (.ofNat value)))
    (distinct : (properties.map Property.name).Nodup) :
    Reaches checker (.ofShape { properties }) (.ofShape { properties }) := by
  refine .object (List.forall₂_same.mpr fun _ _ => rfl) ?_ distinct rfl rfl
  refine Reaches.forall_zip_self rfl fun before after beside => ?_
  obtain ⟨value, same⟩ := constant after (List.of_mem_zip beside).2
  rw [same]
  exact .literal (Literal.equal_self (Number.isNaN_ofNat value))

/-- An object of one constant is a form. -/
theorem reaches_constantField
    {checker : Checker}
    (name : String)
    (value : Nat) :
    Reaches checker (constantField name value) (constantField name value) :=
  reaches_constants (List.forall_mem_singleton.mpr ⟨value, rfl⟩)
    (List.nodup_singleton _)

/-- The intersection of two objects with one constant each is their merger. -/
theorem reaches_fieldsMet :
    Reaches plainChecker fieldsMet fieldsMerged := by
  have merged : Reaches plainChecker fieldsMerged fieldsMerged :=
    reaches_constants
      (List.forall_mem_cons.mpr
        ⟨⟨1, rfl⟩, List.forall_mem_singleton.mpr ⟨2, rfl⟩⟩)
      (by decide)
  have settled {type result : Ty}
      (settles : Check.Settles (plainChecker.normalize type) result) :
      plainChecker.IsSettled type :=
    ⟨false, _, _, result,
      @settles_of_normalizeIn _ _ _ _ (plainChecker.modeKeeping false) _
        settles⟩
  have met : Check.Settles (plainChecker.normalize fieldsMet) fieldsMerged :=
    ⟨[], by decide +kernel, Log.quiet_nil⟩
  have again :
      Check.Settles (plainChecker.normalize fieldsMerged) fieldsMerged :=
    ⟨[], by decide +kernel, Log.quiet_nil⟩
  have normalizes : plainChecker.NormalizesTo fieldsMet fieldsMerged := by
    refine @Reaches.normalizesTo_intersection _ _ _ _
      [constantField "a" 1, constantField "b" 2] rfl ?_ (by decide +kernel) ?_
    · refine Reaches.forall_zip_self rfl fun before after beside => ?_
      have member := (List.of_mem_zip beside).2
      simp only [List.mem_cons, List.not_mem_nil, or_false] at member
      rcases member with rfl | rfl
      · exact reaches_constantField "a" 1
      · exact reaches_constantField "b" 2
    · intro keepReferences budget depth result settles
      have meets :
          ((normalPass (plainChecker.modeKeeping keepReferences)
            budget).meetMembers plainChecker.arena depth
              [constantField "a" 1, constantField "b" 2]) =
            pure fieldsMerged :=
        rfl
      exact Settles.of_pure (meets ▸ settles)
  exact .intersection (settled met) normalizes (settled again)
    merged.normalizesTo (List.forall_mem_singleton.mpr merged)
    (List.forall_mem_singleton.mpr rfl) (List.forall_mem_singleton.mpr rfl) rfl

/-- Objects met with each other are taken apart as those they come to. -/
theorem isAssignable_normalized_fields :
    ∃ normalSource normalTarget answer sourceAnswer targetAnswer,
      Check.Settles (plainChecker.normalize optionalFields) normalSource ∧
        Check.Settles (plainChecker.normalize optionalField) normalTarget ∧
        Check.Settles (plainChecker.isAssignable optionalFields optionalField)
          answer ∧
        Check.Settles (plainChecker.isAssignable normalSource optionalField)
          sourceAnswer ∧
        Check.Settles (plainChecker.isAssignable optionalFields normalTarget)
          targetAnswer ∧
        sourceAnswer = answer ∧ targetAnswer = answer := by
  have null : Reaches plainChecker .null .null :=
    .primitive (by simp) (by simp)
  have missing : Reaches plainChecker .undefined .undefined :=
    .primitive (by simp) (by simp)
  have pair {first second firstForm secondForm : Ty}
      (reaches : Reaches plainChecker first firstForm)
      (otherReaches : Reaches plainChecker second secondForm) :
      ∀ before after,
        (before, after) ∈ [first, second].zip [firstForm, secondForm] →
        Reaches plainChecker before after := by
    intro before after beside
    simp only [List.zip_cons_cons, List.zip_nil_left, List.mem_cons,
      Prod.mk.injEq, List.not_mem_nil, or_false] at beside
    rcases beside with ⟨rfl, rfl⟩ | ⟨rfl, rfl⟩
    · exact reaches
    · exact otherReaches
  have reachesSource :
      Reaches plainChecker optionalFields
        (.ofUnion [fieldsMerged, .null]) :=
    @Reaches.union _ _ _ _ [fieldsMerged, .null] rfl
      (pair reaches_fieldsMet null) (by decide +kernel) rfl
  have reachesTarget :
      Reaches plainChecker optionalField
        (.ofUnion [constantField "a" 1, .null, .undefined]) := by
    have nothing :
        Reaches plainChecker (.ofUnion [.null, .undefined])
          (.ofUnion [.null, .undefined]) :=
      .union rfl (pair null missing) (by decide +kernel) rfl
    exact .union rfl (pair (reaches_constantField "a" 1) nothing)
      (by decide +kernel) rfl
  have source :
      Check.Settles (plainChecker.normalize optionalFields)
        (.ofUnion [fieldsMerged, .null]) :=
    ⟨[], by decide +kernel, Log.quiet_nil⟩
  have target :
      Check.Settles (plainChecker.normalize optionalField)
        (.ofUnion [constantField "a" 1, .null, .undefined]) :=
    ⟨[], by decide +kernel, Log.quiet_nil⟩
  have assigns :
      Check.Settles (plainChecker.isAssignable optionalFields optionalField)
        true :=
    ⟨[], by decide +kernel, Log.quiet_nil⟩
  have assignsSource :
      Check.Settles
        (plainChecker.isAssignable (.ofUnion [fieldsMerged, .null])
          optionalField)
        true :=
    ⟨[], by decide +kernel, Log.quiet_nil⟩
  have assignsTarget :
      Check.Settles
        (plainChecker.isAssignable optionalFields
          (.ofUnion [constantField "a" 1, .null, .undefined]))
        true :=
    ⟨[], by decide +kernel, Log.quiet_nil⟩
  exact ⟨_, _, _, _, _, source, target, assigns, assignsSource, assignsTarget,
    isAssignable_normalized reachesSource reachesTarget source target assigns
      assignsSource assignsTarget⟩

/--
An intersection that comes to a union is met too late where the target is a
union as well: it is compared as a whole with each member of the target, and
none of them accepts it, although each accepts a type that it comes to.
-/
theorem isAssignable_misses_distributed :
    Check.Settles (plainChecker.normalize (.ofIntersection [digits, .number]))
        digits ∧
      Check.Settles (plainChecker.isAssignable digits digits) true ∧
      Check.Settles
        (plainChecker.isAssignable (.ofIntersection [digits, .number]) digits)
        false :=
  ⟨⟨[], by decide +kernel, Log.quiet_nil⟩,
    ⟨[], by decide +kernel, Log.quiet_nil⟩,
    ⟨[], by decide +kernel, Log.quiet_nil⟩⟩

end Fields

end Checker

end StructuralTyping
