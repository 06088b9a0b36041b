import StructuralTyping.Proofs.SharedForms

namespace StructuralTyping

/-!
# Types are assignable where their forms fit

A comparison of types that reach forms either answers promptly, or goes on with
one of the types replaced by its form, or takes the forms apart. A type whose
form has all of its members among those of another one is assignable to every
type that reaches the other one, however the two were written and whatever is
assumed on the way.
-/

open Stateful Relating

namespace Relating

/-- A failure settles with failure. -/
theorem settles_fail
    (settles : Settles (fail reason) answer) :
    answer = false := by
  obtain ⟨_, _, settles⟩ := settles.of_bind
  exact settles.of_pure

/-- An explained comparison settles as the comparison does. -/
theorem settles_orFail
    {comparison : Relating Bool}
    (settles : Settles (orFail comparison reason) answer) :
    Settles comparison answer := by
  obtain ⟨holds, compares, settles⟩ := settles.of_bind
  cases holds with
  | true => exact settles.of_pure ▸ compares
  | false => exact settles_fail settles ▸ compares

/-- Dropping reasons changes no answer that settles. -/
theorem settles_silently
    {comparison : Relating Bool}
    [Accountable comparison]
    (settles : Settles (silently comparison) answer) :
    Settles comparison answer := by
  obtain ⟨_, _, settles⟩ := settles.of_bind
  obtain ⟨holds, compares, settles⟩ := settles.of_bind
  obtain ⟨_, _, settles⟩ := settles.of_bind
  exact settles.of_pure ▸ compares

/-- An attempt settles as the comparison does. -/
theorem settles_attempt
    {comparison : Relating Bool}
    [Accountable comparison]
    (settles : Settles (attempt comparison) answer) :
    Settles comparison answer := by
  obtain ⟨_, _, settles⟩ := settles.of_bind
  obtain ⟨holds, compares, settles⟩ := settles.of_bind
  cases holds with
  | true =>
      obtain ⟨_, _, settles⟩ := settles.of_bind
      exact settles.of_pure ▸ compares
  | false => exact settles.of_pure ▸ compares

/-- A decided comparison settles as it was decided. -/
theorem settles_accepted
    {accepted : Bool}
    (settles :
      Settles (if accepted = true then pure true else fail reason) answer) :
    answer = accepted := by
  cases accepted with
  | true => exact settles.of_pure
  | false => exact settles_fail settles

/-- A comparison that holds whenever it settles. -/
def Succeeds
    (comparison : Relating Bool) :
    Prop :=
  ∀ answer, Settles comparison answer → answer = true

/-- Two comparisons that give one answer whenever both of them settle. -/
def Agree
    (first second : Relating Bool) :
    Prop :=
  ∀ answer other,
    Settles first answer →
    Settles second other →
    answer = other

/-- Comparisons that all hold hold together. -/
theorem Succeeds.allOf
    {comparisons : List (Relating Bool)}
    (accountable : ∀ comparison ∈ comparisons, Accountable comparison)
    (each : ∀ comparison ∈ comparisons, Succeeds comparison) :
    Succeeds (allOf comparisons) := by
  induction comparisons with
  | nil => exact fun _ settles => settles.of_pure
  | cons comparison rest inductionHypothesis =>
      rw [List.forall_mem_cons] at accountable each
      have := allOf_accountable accountable.2
      intro answer settles
      obtain ⟨holds, compares, settles⟩ := settles.of_bind
      cases each.1 holds compares
      exact inductionHypothesis accountable.2 each.2 answer settles

/-- Items whose comparisons all hold are compared with success. -/
theorem Succeeds.allOf_map
    {items : List α}
    {visit : α → Relating Bool}
    [∀ item, Accountable (visit item)]
    (each : ∀ item ∈ items, Succeeds (visit item)) :
    Succeeds (Relating.allOf (items.map visit)) :=
  .allOf (List.forall_mem_map.mpr fun _ _ => inferInstance)
    (List.forall_mem_map.mpr each)

/-- A search finds a comparison that holds. -/
theorem Succeeds.anyOf
    {comparisons : List (Relating Bool)}
    {comparison : Relating Bool}
    (accountable : ∀ comparison ∈ comparisons, Accountable comparison)
    (member : comparison ∈ comparisons)
    (succeeds : Succeeds comparison) :
    Succeeds (anyOf comparisons) := by
  induction comparisons with
  | nil => cases member
  | cons first rest inductionHypothesis =>
      rw [List.forall_mem_cons] at accountable
      have := accountable.1
      have := anyOf_accountable accountable.2
      intro answer settles
      obtain ⟨holds, compares, settles⟩ := settles.of_bind
      cases holds with
      | true => exact settles.of_pure
      | false =>
          rcases List.mem_cons.mp member with rfl | inRest
          · cases succeeds false (settles_silently compares)
          · exact inductionHypothesis accountable.2 inRest answer settles

/-- A search among items finds one whose comparison holds. -/
theorem Succeeds.anyOf_map
    {items : List α}
    {visit : α → Relating Bool}
    [∀ item, Accountable (visit item)]
    (member : item ∈ items)
    (succeeds : Succeeds (visit item)) :
    Succeeds (Relating.anyOf (items.map visit)) :=
  .anyOf (List.forall_mem_map.mpr fun _ _ => inferInstance)
    (List.mem_map_of_mem member) succeeds

namespace Agree

variable {first second : Relating Bool}

/-- Explained comparisons agree if the comparisons do. -/
theorem orFail
    (agree : Agree first second) :
    Agree (orFail first reason) (Relating.orFail second otherReason) :=
  fun answer other settles otherSettles =>
    agree answer other (settles_orFail settles) (settles_orFail otherSettles)

/-- Comparisons that always hold agree. -/
theorem of_succeeds
    (succeeds : Succeeds first)
    (otherSucceeds : Succeeds second) :
    Agree first second :=
  fun answer other settles otherSettles =>
    (succeeds answer settles).trans (otherSucceeds other otherSettles).symm

/-- What holds outright agrees. -/
theorem holds :
    Agree (pure true) (pure true) :=
  .of_succeeds (fun _ settles => settles.of_pure)
    fun _ settles => settles.of_pure

/-- Failures agree, whatever their reasons. -/
theorem fail :
    Agree (fail reason) (Relating.fail otherReason) :=
  fun _ _ settles otherSettles =>
    (settles_fail settles).trans (settles_fail otherSettles).symm

/-- Lists of comparisons that agree in pairs hold together or not. -/
theorem allOf
    {comparisons others : List (Relating Bool)}
    (accountable : ∀ comparison ∈ comparisons, Accountable comparison)
    (otherAccountable : ∀ comparison ∈ others, Accountable comparison)
    (all : List.Forall₂ Agree comparisons others) :
    Agree (allOf comparisons) (Relating.allOf others) := by
  induction all with
  | nil =>
      exact fun _ _ settles otherSettles =>
        settles.of_pure.trans otherSettles.of_pure.symm
  | cons head _ inductionHypothesis =>
      rw [List.forall_mem_cons] at accountable otherAccountable
      have := allOf_accountable accountable.2
      have := allOf_accountable otherAccountable.2
      intro answer other settles otherSettles
      obtain ⟨holds, compares, settles⟩ := settles.of_bind
      obtain ⟨otherHolds, otherCompares, otherSettles⟩ := otherSettles.of_bind
      cases head holds otherHolds compares otherCompares
      cases holds with
      | true =>
          exact inductionHypothesis accountable.2 otherAccountable.2 answer
            other settles otherSettles
      | false => exact settles.of_pure.trans otherSettles.of_pure.symm

/-- Lists of comparisons that agree in pairs have one that holds or not. -/
theorem anyOf
    {comparisons others : List (Relating Bool)}
    (accountable : ∀ comparison ∈ comparisons, Accountable comparison)
    (otherAccountable : ∀ comparison ∈ others, Accountable comparison)
    (all : List.Forall₂ Agree comparisons others) :
    Agree (anyOf comparisons) (Relating.anyOf others) := by
  induction all with
  | nil =>
      exact fun _ _ settles otherSettles =>
        settles.of_pure.trans otherSettles.of_pure.symm
  | cons head _ inductionHypothesis =>
      rw [List.forall_mem_cons] at accountable otherAccountable
      have := accountable.1
      have := otherAccountable.1
      have := anyOf_accountable accountable.2
      have := anyOf_accountable otherAccountable.2
      intro answer other settles otherSettles
      obtain ⟨holds, compares, settles⟩ := settles.of_bind
      obtain ⟨otherHolds, otherCompares, otherSettles⟩ := otherSettles.of_bind
      cases head holds otherHolds (settles_silently compares)
        (settles_silently otherCompares)
      cases holds with
      | true => exact settles.of_pure.trans otherSettles.of_pure.symm
      | false =>
          exact inductionHypothesis accountable.2 otherAccountable.2 answer
            other settles otherSettles

section Mapped

variable
  {items : List α}
  {others : List β}
  {visit : α → Relating Bool}
  {otherVisit : β → Relating Bool}
  [∀ item, Accountable (visit item)]
  [∀ item, Accountable (otherVisit item)]
  (all :
    List.Forall₂ (fun item other => Agree (visit item) (otherVisit other))
      items others)

include all

/-- Items whose comparisons agree in pairs all hold or not. -/
theorem allOf_map :
    Agree (Relating.allOf (items.map visit))
      (Relating.allOf (others.map otherVisit)) := by
  refine .allOf (List.forall_mem_map.mpr fun _ _ => inferInstance)
    (List.forall_mem_map.mpr fun _ _ => inferInstance) ?_
  rw [List.forall₂_map_left_iff, List.forall₂_map_right_iff]
  exact all

/-- Items whose comparisons agree in pairs have one that holds or not. -/
theorem anyOf_map :
    Agree (Relating.anyOf (items.map visit))
      (Relating.anyOf (others.map otherVisit)) := by
  refine .anyOf (List.forall_mem_map.mpr fun _ _ => inferInstance)
    (List.forall_mem_map.mpr fun _ _ => inferInstance) ?_
  rw [List.forall₂_map_left_iff, List.forall₂_map_right_iff]
  exact all

end Mapped

end Agree

end Relating

namespace Reaches

variable {checker : Checker}

/-- Only a union reaches a union. -/
theorem form_isUnion
    (reaches : Reaches checker type form)
    (notUnion : type.isUnion = false) :
    form.isUnion = false := by
  cases reaches with
  | union => cases notUnion
  | intersection _ _ _ _ _ flat =>
      cases form with
      | union => cases flat _ (List.mem_singleton_self _)
      | _ => rfl
  | _ => rfl

/-- Only a union or an intersection reaches an intersection. -/
theorem form_isIntersection
    (reaches : Reaches checker type form)
    (notUnion : type.isUnion = false)
    (notIntersection : RelationStep.isIntersection type = false) :
    RelationStep.isIntersection form = false := by
  cases reaches with
  | union => cases notUnion
  | intersection => cases notIntersection
  | _ => rfl

/-- Only `never` reaches `never`. -/
theorem isNever
    (reaches : Reaches checker type form) :
    type.isPrimitive .never = form.isPrimitive .never := by
  cases reaches with
  | union _ _ _ inhabited => rw [inhabited]; rfl
  | intersection _ _ _ _ _ _ inhabited =>
      have whole : form.isPrimitive .never = false := by
        cases form <;> first
          | rfl
          | exact inhabited _ (List.mem_singleton_self _)
      rw [whole]
      rfl
  | _ => rfl

/-- What is no union reaches a nullish form only if it is nullish. -/
theorem isNullish
    (reaches : Reaches checker type form)
    (notUnion : type.isUnion = false) :
    type.isNullish = form.isNullish := by
  cases reaches with
  | union => cases notUnion
  | intersection _ _ _ _ _ _ _ present => rw [present]; rfl
  | _ => rfl

/-- The factors of a form reach themselves. -/
theorem factors_again
    (reaches : Reaches checker type form) :
    ∀ factor ∈ form.factors, Reaches checker factor factor := by
  have again := reaches.again_members.1
  cases form with
  | intersection =>
      cases again with
      | intersection _ _ _ _ factors => exact factors
  | _ => exact List.forall_mem_singleton.mpr again

/-- A form that is a union has several members, which differ and have values. -/
theorem unionParts
    (reaches : Reaches checker type (.union occurrence parts)) :
    UnionParts checker.arena parts := by
  cases reaches with
  | @union _ _ members forms length each joined =>
      have isMembers := isMember_of_forms length each
      rcases @joinMembers_cases checker.arena (flattenUnion forms) with
        ⟨kind, same⟩ | member | ⟨others, same, -, proper⟩
      · rw [joined] at same
        cases same
      · rw [joined] at member
        cases (isMembers _ member).notUnion
      · rw [joined] at same
        cases same
        exact proper fun type member => (isMembers type member).notUnion
  | intersection _ _ _ _ _ flat => cases flat _ (List.mem_singleton_self _)

/-- The members of a form with values differ and have values. -/
theorem members_proper
    (reaches : Reaches checker type form)
    (inhabited : form.isPrimitive .never = false) :
    (form.members.Pairwise fun first second =>
        checker.arena.identical first second = false) ∧
      ∀ member ∈ form.members, member.isNever = false := by
  cases form with
  | union =>
      have proper := reaches.unionParts
      exact ⟨proper.distinct, proper.nonempty⟩
  | _ =>
      exact ⟨List.pairwise_singleton _ _,
        List.forall_mem_singleton.mpr inhabited⟩

/-- A form with values that takes up `undefined` keeps its members. -/
theorem mem_optional_of_mem
    (reaches : Reaches checker type form)
    (inhabited : form.isPrimitive .never = false)
    (inForm : member ∈ form.members) :
    member ∈
      (checker.arena.joinMembers (form.members ++ [.undefined])).members := by
  obtain ⟨distinct, valued⟩ := reaches.members_proper inhabited
  have isMembers :
      ∀ type ∈ form.members ++ [.undefined], type.IsMember :=
    List.forall_mem_append.mpr ⟨reaches.isMember_of_members,
      List.forall_mem_singleton.mpr ⟨rfl, rfl, rfl⟩⟩
  rw [members_joinMembers_valued isMembers (joinMembers_inhabited isMembers
      (List.mem_append_right _ (List.mem_singleton_self Ty.undefined)) rfl),
    List.filter_append, List.filter_eq_self.mpr fun type member => by
      simp [valued type member], List.foldl_append]
  refine mem_foldl_appendUnique ?_
  rw [foldl_appendUnique_of_pairwise (by simpa using distinct)]
  exact inForm

/-- Every form has a member. -/
theorem exists_member
    (reaches : Reaches checker type form) :
    ∃ member, member ∈ form.members := by
  cases form with
  | union =>
      exact List.exists_mem_of_length_pos
        (Nat.lt_of_lt_of_le Nat.zero_lt_two reaches.unionParts.several)
  | _ => exact ⟨_, List.mem_singleton_self _⟩

/-- The factors of a form have values and are not taken apart. -/
theorem factors_proper
    (reaches : Reaches checker type form)
    (notUnion : form.isUnion = false)
    (inhabited : form.isPrimitive .never = false) :
    ∀ factor ∈ form.factors,
      factor.isCompound = false ∧ factor.isPrimitive .never = false := by
  have again := reaches.again_members.1
  cases form with
  | union => cases notUnion
  | intersection =>
      cases again with
      | intersection _ _ _ _ _ flat inhabited =>
          exact fun factor member =>
            ⟨flat factor member, inhabited factor member⟩
  | _ => exact List.forall_mem_singleton.mpr ⟨rfl, inhabited⟩

/-- Normalizing an operand leads to the form that it reaches. -/
theorem normalizeOperand
    (reaches : Reaches checker type form)
    (settles :
      Check.Settles (checker.evaluation.normalizeOperand depth type) result) :
    result = form :=
  reaches.normalizesTo true _ _ _
    (@settles_of_normalizeIn _ _ _ _ (checker.modeKeeping true) _ settles)

end Reaches

/-- The answer to a comparison that depends on no part of the types. -/
def promptAnswer
    (strict : Bool)
    (source target : Ty) :
    Option Bool :=
  if source.isPrimitive .never then
    some true
  else if target.isPrimitive .never then
    some false
  else if !strict && source.isNullish then
    some true
  else
    none

namespace RelationStep

variable (step : RelationStep)

/-- Compare two types as the forms that they reach are to be taken apart. -/
def compareForms
    (assumptions : Assumptions)
    (source target sourceForm targetForm : Ty) :
    Relating Bool :=
  if sourceForm.isUnion then
    allOf (sourceForm.members.map fun member =>
      orFail (step.compare assumptions member target)
        (.unionMember member target))
  else if targetForm.isUnion then
    orFail
      (anyOf (targetForm.members.map fun member =>
        step.compare assumptions source member))
      (.noUnionMember source target)
  else if isIntersection targetForm then
    allOf (targetForm.factors.map fun factor =>
      orFail (step.compare assumptions source factor)
        (.intersectionMember factor))
  else if isIntersection sourceForm then
    orFail
      (anyOf (sourceForm.factors.map fun factor =>
        step.compare assumptions factor target))
      (.noIntersectionMember source target)
  else
    step.compareShapes assumptions source target

/--
What a comparison comes to: a prompt answer, the comparison with one type
replaced by its form, or the comparison that takes the forms apart.
-/
inductive ComesTo
    (assumptions : Assumptions)
    (source target sourceForm targetForm : Ty)
    (answer : Bool) :
    Prop
  | prompt
      (answered :
        promptAnswer step.checker.options.strictNullChecks sourceForm
          targetForm = some answer)
  | source
      (settles : Settles (step.compare assumptions sourceForm target) answer)
  | target
      (settles : Settles (step.compare assumptions source targetForm) answer)
  | forms
      (unanswered :
        promptAnswer step.checker.options.strictNullChecks sourceForm
          targetForm = none)
      (simple :
        sourceForm.isCompound = false →
        targetForm.isCompound = false →
        source.isCompound = false ∧ target.isCompound = false)
      (settles :
        Settles
          (step.compareForms assumptions source target sourceForm targetForm)
          answer)

variable {step} [step.compare.Reports]

section Operands

variable
  (reaches : Reaches step.checker operand form)

include reaches

/-- A source union goes on as its form, or with each of the form's members. -/
theorem fromUnion_cases
    (settles : Settles (step.fromUnion assumptions operand target) answer) :
    Settles (step.compare assumptions form target) answer ∨
      form.isUnion = true ∧
        Settles
          (allOf (form.members.map fun member =>
            orFail (step.compare assumptions member target)
              (.unionMember member target)))
          answer := by
  obtain ⟨normal, normalizes, settles⟩ :=
    @Settles.of_bind _ _ _ _ _ _ (fun _ => by split <;> infer_instance) _
      settles
  cases reaches.normalizeOperand normalizes.of_lift
  split at settles
  · exact .inr ⟨rfl, settles⟩
  · exact .inl settles

/-- A target union goes on as its form, or with some member of the form. -/
theorem toUnion_cases
    (settles : Settles (step.toUnion assumptions source operand) answer) :
    Settles (step.compare assumptions source form) answer ∨
      form.isUnion = true ∧
        Settles
          (orFail
            (anyOf (form.members.map fun member =>
              step.compare assumptions source member))
            (.noUnionMember source operand))
          answer := by
  obtain ⟨normal, normalizes, settles⟩ :=
    @Settles.of_bind _ _ _ _ _ _ (fun _ => by split <;> infer_instance) _
      settles
  cases reaches.normalizeOperand normalizes.of_lift
  split at settles
  · exact .inr ⟨rfl, settles⟩
  · exact .inl settles

/-- A target intersection goes on as its form, or with each of its factors. -/
theorem toIntersection_cases
    (settles :
      Settles (step.toIntersection assumptions source operand) answer) :
    Settles (step.compare assumptions source form) answer ∨
      isIntersection form = true ∧
        Settles
          (allOf (form.factors.map fun factor =>
            orFail (step.compare assumptions source factor)
              (.intersectionMember factor)))
          answer := by
  obtain ⟨normal, normalizes, settles⟩ :=
    @Settles.of_bind _ _ _ _ _ _ (fun _ => by split <;> infer_instance) _
      settles
  cases reaches.normalizeOperand normalizes.of_lift
  split at settles
  · exact .inr ⟨rfl, settles⟩
  · exact .inl settles

/--
A source intersection goes on as its form, or with some of its factors. There is
nothing to merge, since none of the factors is a reference.
-/
theorem fromIntersection_cases
    (settles :
      Settles (step.fromIntersection assumptions operand target) answer) :
    Settles (step.compare assumptions form target) answer ∨
      isIntersection form = true ∧
        Settles
          (orFail
            (anyOf (form.factors.map fun factor =>
              step.compare assumptions factor target))
            (.noIntersectionMember operand target))
          answer := by
  obtain ⟨normal, normalizes, settles⟩ :=
    @Settles.of_bind _ _ _ _ _ _ (fun normalized => by
      split
      · refine @Accountable.ofBind _ _ _ _ _ _ _ fun found => ?_
        refine @Accountable.ofIte _ _ _ _ _ _ _ _ ?_
        refine @Accountable.ofBind _ _ _ _ _ _ _ fun merged => ?_
        cases merged <;> (dsimp only; infer_instance)
      · infer_instance) _ settles
  cases reaches.normalizeOperand normalizes.of_lift
  split at settles
  · next _ factors =>
    have unreferenced : factors.any Ty.isReference = false :=
      List.any_eq_false.mpr fun factor member => by
        simp [(reaches.factors_again factor member).isReference]
    rw [Evaluation.mergeMembers, unreferenced] at settles
    exact .inr ⟨rfl, settles⟩
  · exact .inl settles

end Operands

/-- A comparison of types that reach forms comes to one of these. -/
theorem comesTo
    (reachesSource : Reaches step.checker source sourceForm)
    (reachesTarget : Reaches step.checker target targetForm)
    (settles : Settles (step.relate assumptions source target) answer) :
    step.ComesTo assumptions source target sourceForm targetForm answer := by
  -- The cases are split in the order in which the rules are tried.
  unfold relate at settles
  simp only [reachesSource.isPrimitive, reachesTarget.isPrimitive,
    reachesSource.isReference, reachesTarget.isReference, Bool.false_or,
    Bool.or_self, Bool.false_eq_true, if_false] at settles
  rw [reachesSource.isNever, reachesTarget.isNever] at settles
  split at settles
  · next isNever =>
    exact .prompt (by simp [promptAnswer, isNever, settles.of_pure])
  split at settles
  · next notNever isNever =>
    exact .prompt (by
      simp [promptAnswer, notNever, isNever, settles_fail settles])
  next sourceInhabited targetInhabited =>
  split at settles
  · next ignored =>
    have notUnion : source.isUnion = false := by
      cases source <;> first
        | rfl
        | simp [Ty.isNullish, Ty.isPrimitive] at ignored
    rw [reachesSource.isNullish notUnion] at ignored
    refine .prompt ?_
    simp [promptAnswer, sourceInhabited, targetInhabited, ignored,
      settles.of_pure]
  next regarded =>
  have unanswered
      (regarded :
        ¬ (!step.checker.options.strictNullChecks && sourceForm.isNullish) =
          true) :
      promptAnswer step.checker.options.strictNullChecks sourceForm targetForm =
        none := by
    simp [promptAnswer, sourceInhabited, targetInhabited, regarded]
  split at settles
  · rcases fromUnion_cases reachesSource settles with
      settles | ⟨isUnion, settles⟩
    · exact .source settles
    · have notNullish : sourceForm.isNullish = false := by
        cases sourceForm <;> first | rfl | cases isUnion
      refine .forms (unanswered (by simp [notNullish])) (fun simple => ?_) ?_
      · rw [Ty.isCompound, isUnion] at simple
        cases simple
      · rw [compareForms, if_pos isUnion]
        exact settles
  next sourceWhole =>
  simp only [Bool.not_eq_true] at sourceWhole
  rw [reachesSource.isNullish sourceWhole] at regarded
  have sourceFormWhole := reachesSource.form_isUnion sourceWhole
  split at settles
  · rcases toUnion_cases reachesTarget settles with
      settles | ⟨isUnion, settles⟩
    · exact .target settles
    · refine .forms (unanswered regarded) (fun _ simple => ?_) ?_
      · rw [Ty.isCompound, isUnion] at simple
        cases simple
      · rw [compareForms, sourceFormWhole, isUnion]
        exact settles
  next targetWhole =>
  simp only [Bool.not_eq_true] at targetWhole
  have targetFormWhole := reachesTarget.form_isUnion targetWhole
  split at settles
  · rcases toIntersection_cases reachesTarget settles with
      settles | ⟨isMet, settles⟩
    · exact .target settles
    · refine .forms (unanswered regarded) (fun _ simple => ?_) ?_
      · rw [Ty.isCompound, isMet, Bool.or_true] at simple
        cases simple
      · rw [compareForms, sourceFormWhole, targetFormWhole, isMet]
        exact settles
  next targetSimple =>
  simp only [Bool.not_eq_true] at targetSimple
  have targetFormSimple :=
    reachesTarget.form_isIntersection targetWhole targetSimple
  split at settles
  · rcases fromIntersection_cases reachesSource settles with
      settles | ⟨isMet, settles⟩
    · exact .source settles
    · refine .forms (unanswered regarded) (fun simple => ?_) ?_
      · rw [Ty.isCompound, isMet, Bool.or_true] at simple
        cases simple
      · rw [compareForms, sourceFormWhole, targetFormWhole, targetFormSimple,
          isMet]
        exact settles
  next sourceSimple =>
  simp only [Bool.not_eq_true] at sourceSimple
  refine .forms (unanswered regarded) (fun _ _ => ?_) ?_
  · rw [Ty.isCompound, Ty.isCompound, sourceWhole, sourceSimple, targetWhole,
      targetSimple]
    exact ⟨rfl, rfl⟩
  · rw [compareForms, sourceFormWhole, targetFormWhole, targetFormSimple,
      reachesSource.form_isIntersection sourceWhole sourceSimple]
    exact settles

/-- The members of an object are those that it was written with. -/
theorem apparent_object
    {checker : Checker}
    (settles :
      Check.Settles (checker.apparent (.object occurrence shape)) result) :
    result = some shape := by
  unfold Checker.apparent at settles
  generalize checker.budget = budget at settles
  cases budget with
  | zero =>
      obtain ⟨_, run, _⟩ := settles
      cases run
  | succ budget => exact Check.settles_pure.mp settles

/--
Two nodes of one kind of which the parts that are compared are related, the source
first: properties in the target's order, parameters the other way round.
-/
inductive Suits
    (related : Ty → Ty → Prop) :
    Ty →
    Ty →
    Prop
  | primitive :
      Suits related (.primitive kind) (.primitive kind)
  | literal
      (equal : first.equal second = true) :
      Suits related (.literal occurrence first) (.literal other second)
  | object
      {first second : Shape Ty}
      (properties :
        ∀ property ∈ second.properties,
          ∃ actual,
            first.property? property.name = some actual ∧
              actual.optional = property.optional ∧
              related actual.type
                (if property.optional then property.type.optional
                  else property.type))
      (closed : second.index = none) :
      Suits related (.object occurrence first) (.object other second)
  | array
      (element : related first second) :
      Suits related
        (.array occurrence first readonly) (.array other second readonly)
  | tuple
      {first second : List Ty}
      (elements : List.Forall₂ related first second) :
      Suits related
        (.tuple occurrence first readonly) (.tuple other second readonly)
  | function
      {first second : Signature Ty}
      (parameters :
        List.Forall₂
          (fun parameter other => related other.type parameter.type)
          first.parameters second.parameters)
      (rest :
        first.rest.isAbsent = false →
        second.rest.isAbsent = false →
        related second.rest first.rest)
      (result :
        second.result.isAbsent = false →
        related (first.result.orElse .void) second.result) :
      Suits related (.function occurrence first) (.function other second)

variable (step) in
/-- Every comparison of parts of two signatures only adds to the log. -/
theorem signatureParts_accountable
    {source target : Signature Ty} :
    ∀ comparison ∈
        step.suppliedParameters assumptions bivariant target 0
            source.parameters ++
          step.restTo assumptions bivariant source target ++
          [step.resultTo assumptions source.result target.result],
      Accountable comparison :=
  List.forall_mem_append.mpr ⟨List.forall_mem_append.mpr
    ⟨fun _ => step.suppliedParameters_accountable,
      fun _ => step.restTo_accountable⟩,
    List.forall_mem_singleton.mpr inferInstance⟩

section Succeeding

variable
  {related : Ty → Ty → Prop}
  (parts :
    ∀ {assumptions source target},
      related source target →
      Succeeds (step.compare assumptions source target))

section Parts

include parts

omit [step.compare.Reports] in
/-- Elements that are related in pairs are assignable in pairs. -/
theorem elementPairs_succeed
    {first second : List Ty}
    (elements : List.Forall₂ related first second) :
    ∀ comparison ∈ step.elementPairs assumptions position first second,
      Succeeds comparison := by
  induction elements generalizing position with
  | nil => exact fun _ member => by cases member
  | cons head _ inductionHypothesis =>
      refine List.forall_mem_cons.mpr ⟨?_, inductionHypothesis⟩
      exact fun answer settles => parts head answer (settles_orFail settles)

/-- A parameter accepts the arguments that are related to it. -/
theorem toArgument_succeeds
    (relates : related argument parameter) :
    Succeeds (step.toArgument assumptions bivariant parameter argument) := by
  intro answer settles
  unfold toArgument at settles
  split at settles
  · obtain ⟨holds, compares, settles⟩ := settles.of_bind
    cases parts relates holds (settles_attempt compares)
    exact settles.of_pure
  · exact parts relates answer settles

/-- Parameters that are related to those of the target are supplied. -/
theorem suppliedParameters_succeed
    {target : Signature Ty}
    {parameters : List (Parameter Ty)}
    (relates :
      List.Forall₂ (fun parameter other => related other.type parameter.type)
        parameters (target.parameters.drop position)) :
    ∀ comparison ∈
        step.suppliedParameters assumptions bivariant target position
          parameters,
      Succeeds comparison := by
  induction parameters generalizing position with
  | nil => exact fun _ member => by cases member
  | cons parameter rest inductionHypothesis =>
      generalize supplied : target.parameters.drop position = others at relates
      cases relates with
      | @cons _ other _ others head tail =>
      have found : target.parameters[position]? = some other := by
        rw [← List.head?_drop, supplied]
        rfl
      have later : target.parameters.drop (position + 1) = others := by
        rw [← List.tail_drop, supplied]
        rfl
      refine List.forall_mem_cons.mpr
        ⟨?_, inductionHypothesis (later.symm ▸ tail)⟩
      rw [found]
      exact fun answer settles =>
        toArgument_succeeds parts head answer (settles_orFail settles)

/-- A rest parameter accepts one that is related to it. -/
theorem restTo_succeed
    {source target : Signature Ty}
    (count : source.parameters.length = target.parameters.length)
    (rest :
      source.rest.isAbsent = false →
      target.rest.isAbsent = false →
      related target.rest source.rest) :
    ∀ comparison ∈ step.restTo assumptions bivariant source target,
      Succeeds comparison := by
  unfold restTo
  split
  · exact fun _ member => by cases member
  next present =>
  dsimp only
  rw [count, List.drop_length]
  dsimp only [restParameters]
  rw [List.nil_append]
  split
  · exact fun _ member => by cases member
  · next otherPresent =>
    refine List.forall_mem_singleton.mpr fun answer settles => ?_
    exact toArgument_succeeds parts
      (rest (by simpa using present) (by simpa using otherPresent)) answer
      (settles_orFail settles)

omit [step.compare.Reports] in
/-- A result is assignable to one that it is related to. -/
theorem resultTo_succeeds
    {source target : Ty}
    (result :
      target.isAbsent = false → related (source.orElse .void) target) :
    Succeeds (step.resultTo assumptions source target) := by
  intro answer settles
  unfold resultTo at settles
  split at settles
  · exact settles.of_pure
  · next asked =>
    have present : target.isAbsent = false := by
      simp only [Bool.or_eq_true, not_or, Bool.not_eq_true] at asked
      exact asked.1
    exact parts (result present) answer (settles_orFail settles)

/-- Signatures whose parts are related are assignable. -/
theorem toFunction_succeeds
    {source target : Signature Ty}
    (parameters :
      List.Forall₂ (fun parameter other => related other.type parameter.type)
        source.parameters target.parameters)
    (rest :
      source.rest.isAbsent = false →
      target.rest.isAbsent = false →
      related target.rest source.rest)
    (result :
      target.result.isAbsent = false →
      related (source.result.orElse .void) target.result) :
    Succeeds
      (step.toFunction assumptions (.function occurrence source) target) := by
  refine Succeeds.allOf (signatureParts_accountable step) ?_
  refine List.forall_mem_append.mpr ⟨List.forall_mem_append.mpr ⟨?_, ?_⟩,
    List.forall_mem_singleton.mpr (resultTo_succeeds parts result)⟩
  · exact suppliedParameters_succeed parts parameters
  · exact restTo_succeed parts parameters.length_eq rest

end Parts

omit [step.compare.Reports] in
/-- A property of the target is found among the members of the source. -/
theorem toProperty_succeeds
    {members : Shape Ty}
    (found : members.property? property.name = some actual)
    (optional : actual.optional = property.optional)
    (fits :
      Succeeds
        (step.compare assumptions actual.type
          (if property.optional then property.type.optional
            else property.type))) :
    Succeeds (step.toProperty assumptions source target members property) := by
  intro answer settles
  unfold toProperty at settles
  rw [found] at settles
  dsimp only at settles
  rw [optional, Bool.and_not_self, if_neg (by simp)] at settles
  exact fits answer (settles_orFail settles)

/-- Objects are assignable if the properties of the target are found. -/
theorem toObject_succeeds
    {source target : Shape Ty}
    (each :
      ∀ {assumptions},
        ∀ property ∈ target.properties,
          Succeeds
            (step.toProperty assumptions (.object occurrence source)
              (.object node target) source property))
    (closed : target.index = none) :
    Succeeds
      (step.toObject assumptions (.object occurrence source)
        (.object node target) target) := by
  have members {assumptions : Assumptions} :
      Succeeds
        (step.toMembers assumptions (.object occurrence source)
          (.object node target) source target) := by
    intro answer settles
    unfold toMembers at settles
    rw [closed] at settles
    obtain ⟨fits, compares, settles⟩ :=
      @Settles.of_bind _ _ _ _ _ _ (fun fits => by split <;> infer_instance) _
        settles
    cases Succeeds.allOf_map each fits compares
    exact settles.of_pure
  intro answer settles
  unfold toObject at settles
  rw [if_neg (by simp [Ty.isNullish, Ty.isPrimitive])] at settles
  split at settles
  · exact settles.of_pure
  obtain ⟨exposed, exposes, settles⟩ :=
    @Settles.of_bind _ _ _ _ _ _ (fun members => by
      cases members <;> (dsimp only; infer_instance)) _ settles
  cases apparent_object exposes.of_lift
  have isObject : isObject (.object occurrence source) = true := rfl
  dsimp only at settles
  rw [if_pos isObject] at settles
  split at settles
  · exact settles.of_pure
  · exact members answer settles

/-- Nodes of which the parts suit those of the other one are assignable. -/
theorem compareShapes_succeeds
    (parts :
      ∀ {assumptions source target},
        related source target →
        Succeeds (step.compare assumptions source target))
    (suits : Suits related source target) :
    Succeeds (step.compareShapes assumptions source target) := by
  cases suits with
  | primitive =>
      intro answer settles
      exact (settles_accepted settles).trans (by simp)
  | literal equal =>
      intro answer settles
      exact (settles_accepted settles).trans equal
  | object each closed =>
      refine toObject_succeeds (fun property inTarget => ?_) closed
      obtain ⟨actual, found, optional, relates⟩ := each property inTarget
      exact toProperty_succeeds found optional (parts relates)
  | @array _ _ _ readonly _ element =>
      intro answer settles
      unfold compareShapes toArray at settles
      dsimp only at settles
      rw [Bool.and_not_self, if_neg (by simp)] at settles
      exact parts element answer (settles_orFail settles)
  | tuple elements =>
      intro answer settles
      unfold compareShapes toTuple at settles
      dsimp only at settles
      rw [Bool.and_not_self, if_neg (by simp),
        if_neg (by simp [elements.length_eq])] at settles
      exact Succeeds.allOf (fun _ => step.elementPairs_accountable)
        (elementPairs_succeed parts elements) answer settles
  | function parameters rest result =>
      unfold compareShapes
      exact toFunction_succeeds parts parameters rest result

end Succeeding

end RelationStep

/--
Each member of a form is a member of another one, or one of its factors is. The
form that has no values fits into every other one.
-/
def Ty.FitsInto
    (form other : Ty) :
    Prop :=
  form.isPrimitive .never = true ∨
    ∀ member ∈ form.members,
      ∃ factor ∈ member :: member.factors, factor ∈ other.members

namespace Ty.FitsInto

/-- Every form fits into itself. -/
theorem self
    (form : Ty) :
    form.FitsInto form :=
  .inr fun member inForm => ⟨member, List.mem_cons_self, inForm⟩

/-- A form that is no union fits into one that is none by one of its factors. -/
theorem single
    {form other : Ty}
    (factor : other ∈ form :: form.factors)
    (notUnion : form.isUnion = false)
    (otherNotUnion : other.isUnion = false) :
    form.FitsInto other := by
  refine .inr ?_
  rw [members_eq notUnion, members_eq otherNotUnion]
  exact List.forall_mem_singleton.mpr
    ⟨other, factor, List.mem_singleton_self other⟩

/-- A form fits into what it becomes when it takes up `undefined`. -/
theorem optional
    {checker : Checker}
    {form : Ty}
    (reaches : Reaches checker type form) :
    form.FitsInto
      (checker.arena.joinMembers (form.members ++ [.undefined])) := by
  cases inhabited : form.isPrimitive .never with
  | true => exact .inl inhabited
  | false =>
      exact .inr fun member inForm =>
        ⟨member, List.mem_cons_self,
          reaches.mem_optional_of_mem inhabited inForm⟩

end Ty.FitsInto

/-- Two types reach forms, of which the first fits into the second. -/
def Fitting
    (checker : Checker)
    (source target : Ty) :
    Prop :=
  ∃ sourceForm targetForm,
    sourceForm.FitsInto targetForm ∧
      Reaches checker source sourceForm ∧
      Reaches checker target targetForm

/-- Types that share a form fit. -/
theorem ShareForm.fitting
    {checker : Checker}
    (shares : ShareForm checker source target) :
    Fitting checker source target := by
  obtain ⟨form, reachesSource, reachesTarget⟩ := shares
  exact ⟨form, form, .self form, reachesSource, reachesTarget⟩

/-- A type fits what shares its form and takes up `undefined`. -/
theorem ShareForm.fitting_optional
    {checker : Checker}
    (shares : ShareForm checker source target) :
    Fitting checker source target.optional := by
  obtain ⟨form, reachesSource, reachesTarget⟩ := shares
  exact ⟨form, _, .optional reachesSource, reachesSource, reachesTarget.optional⟩

/-- Nodes that are alike part by part suit each other. -/
theorem Parallel.suits
    {checker : Checker}
    (parallel : Parallel (ShareForm checker) source target) :
    RelationStep.Suits (Fitting checker) source target := by
  cases parallel with
  | primitive => exact .primitive
  | literal equal => exact .literal equal
  | object properties distinct _ closed =>
      refine .object (fun property inTarget => ?_) closed
      obtain ⟨actual, inSource, shares⟩ :=
        exists_related_left properties inTarget
      refine ⟨actual, shares.name ▸ Shape.property?_of_mem distinct inSource,
        shares.optional, ?_⟩
      split
      · exact shares.type.fitting_optional
      · exact shares.type.fitting
  | array element => exact .array element.fitting
  | tuple elements =>
      exact .tuple (elements.imp fun _ _ => ShareForm.fitting)
  | function signature =>
      refine .function (signature.parameters.imp fun _ _ shares =>
        shares.type.symm.fitting) (fun present _ => ?_) fun present => ?_
      · rcases signature.rest with ⟨absent, -⟩ | shares
        · rw [absent] at present
          cases present
        · exact shares.symm.fitting
      · rcases signature.result with ⟨-, absent⟩ | shares
        · rw [absent] at present
          cases present
        · rw [shares.orElse]
          exact shares.fitting

/-- A type whose form fits into another one gets no prompt failure. -/
theorem promptAnswer_of_fits
    {checker : Checker}
    {strict : Bool}
    (fits : sourceForm.FitsInto targetForm)
    (reaches : Reaches checker source sourceForm)
    (answered : promptAnswer strict sourceForm targetForm = some answer) :
    answer = true := by
  unfold promptAnswer at answered
  split at answered
  · exact (Option.some.inj answered).symm
  next inhabited =>
  split at answered
  · next isNever =>
    simp only [Bool.not_eq_true] at inhabited
    have each := fits.resolve_left (by simp [inhabited])
    rw [eq_of_isPrimitive isNever] at each
    obtain ⟨member, inForm⟩ := reaches.exists_member
    obtain ⟨factor, isFactor, isTarget⟩ := each member inForm
    obtain ⟨again, notUnion⟩ := reaches.again_members.2 member inForm
    have valued : member.isPrimitive .never = false := by
      have valued := (reaches.members_proper inhabited).2 member inForm
      cases member <;> first | rfl | exact valued
    cases List.mem_singleton.mp isTarget
    rcases List.mem_cons.mp isFactor with rfl | isFactor
    · cases valued
    · cases (again.factors_proper notUnion valued _ isFactor).2
  split at answered
  · exact (Option.some.inj answered).symm
  · cases answered

namespace RelationStep

variable {step : RelationStep} [step.compare.Reports]

section Fitting

variable
  (parts :
    ∀ {assumptions source target sourceForm targetForm},
      sourceForm.FitsInto targetForm →
      Reaches step.checker source sourceForm →
      Reaches step.checker target targetForm →
      Succeeds (step.compare assumptions source target))

include parts

/-- Forms that fit into others are assignable if their parts are. -/
theorem compareForms_succeeds
    (fits : sourceForm.FitsInto targetForm)
    (reachesSource : Reaches step.checker source sourceForm)
    (reachesTarget : Reaches step.checker target targetForm)
    (inhabited : sourceForm.isPrimitive .never = false)
    (simple :
      sourceForm.isCompound = false →
      targetForm.isCompound = false →
      source.isCompound = false ∧ target.isCompound = false) :
    Succeeds
      (step.compareForms assumptions source target sourceForm targetForm) := by
  have each := fits.resolve_left (by simp [inhabited])
  intro answer settles
  unfold compareForms at settles
  split at settles
  · refine Succeeds.allOf_map (fun member inForm answer settles => ?_) answer
      settles
    obtain ⟨again, notUnion⟩ := reachesSource.again_members.2 member inForm
    refine parts (.inr ?_) again reachesTarget answer (settles_orFail settles)
    rw [Ty.members_eq notUnion]
    exact List.forall_mem_singleton.mpr (each member inForm)
  next sourceWhole =>
  simp only [Bool.not_eq_true] at sourceWhole
  rw [Ty.members_eq sourceWhole, List.forall_mem_singleton] at each
  obtain ⟨factor, isFactor, inTarget⟩ := each
  split at settles
  · obtain ⟨again, notUnion⟩ := reachesTarget.again_members.2 factor inTarget
    refine Succeeds.anyOf_map inTarget ?_ answer (settles_orFail settles)
    exact parts (.single isFactor sourceWhole notUnion) reachesSource again
  next targetWhole =>
  simp only [Bool.not_eq_true] at targetWhole
  rw [Ty.members_eq targetWhole, List.mem_singleton] at inTarget
  subst inTarget
  have proper := reachesSource.factors_proper sourceWhole inhabited
  split at settles
  · next isIntersection =>
    have same : factor = sourceForm := by
      rcases List.mem_cons.mp isFactor with same | isFactor
      · exact same
      · have simple := (proper _ isFactor).1
        rw [Ty.isCompound, isIntersection, Bool.or_true] at simple
        cases simple
    subst same
    refine Succeeds.allOf_map (fun other inForm answer settles => ?_) answer
      settles
    have notUnion : other.isUnion = false := by
      have simple := (proper other inForm).1
      rw [Ty.isCompound, Bool.or_eq_false_iff] at simple
      exact simple.1
    exact parts (.single (.tail _ inForm) sourceWhole notUnion) reachesSource
      (reachesTarget.factors_again other inForm) answer
      (settles_orFail settles)
  next targetSimple =>
  split at settles
  · next isIntersection =>
    have inForm : factor ∈ sourceForm.factors := by
      rcases List.mem_cons.mp isFactor with same | inForm
      · rw [same] at targetSimple
        exact absurd isIntersection targetSimple
      · exact inForm
    refine Succeeds.anyOf_map inForm ?_ answer (settles_orFail settles)
    exact parts (.self factor) (reachesSource.factors_again factor inForm)
      reachesTarget
  next sourceSimple =>
  simp only [Bool.not_eq_true] at sourceSimple targetSimple
  have same : factor = sourceForm := by
    rw [Ty.factors_eq sourceSimple] at isFactor
    simpa using isFactor
  subst same
  have compound : factor.isCompound = false := by
    rw [Ty.isCompound, sourceWhole, sourceSimple, Bool.or_self]
  obtain ⟨sourceAlone, targetAlone⟩ := simple compound compound
  refine compareShapes_succeeds ?_
    (ShareForm.parallel ⟨factor, reachesSource, reachesTarget⟩ sourceAlone
      targetAlone).suits answer settles
  rintro assumptions source target ⟨_, _, fits, reachesSource, reachesTarget⟩
  exact parts fits reachesSource reachesTarget

/-- A type whose form fits into another one is assignable if its parts are. -/
theorem relate_succeeds
    (fits : sourceForm.FitsInto targetForm)
    (reachesSource : Reaches step.checker source sourceForm)
    (reachesTarget : Reaches step.checker target targetForm) :
    Succeeds (step.relate assumptions source target) := by
  intro answer settles
  cases comesTo reachesSource reachesTarget settles with
  | prompt answered => exact promptAnswer_of_fits fits reachesSource answered
  | source settles =>
      exact parts fits reachesSource.again_members.1 reachesTarget answer
        settles
  | target settles =>
      exact parts fits reachesSource reachesTarget.again_members.1 answer
        settles
  | forms unanswered simple settles =>
      have inhabited : sourceForm.isPrimitive .never = false := by
        unfold promptAnswer at unanswered
        split at unanswered
        · cases unanswered
        · next inhabited => simpa using inhabited
      exact compareForms_succeeds parts fits reachesSource reachesTarget
        inhabited simple answer settles

end Fitting

end RelationStep

namespace Checker

variable {checker : Checker}

/-- A comparison that meets the depth bound does not settle. -/
theorem failAtBound_never_settles
    {target : Ty} :
    ¬ Settles (checker.failAtBound target) answer := by
  rintro ⟨⟨reasons, tooComplex⟩, after, lowered, -, added, run, quiet⟩
  cases lowered
  cases run
  exact quiet _ (List.mem_singleton.mpr rfl) rfl

/-- A type is assignable to every type whose form its own form fits into. -/
theorem compareWithin_succeeds
    (fits : sourceForm.FitsInto targetForm)
    (reachesSource : Reaches checker source sourceForm)
    (reachesTarget : Reaches checker target targetForm) :
    Succeeds (checker.compareWithin remaining assumptions source target) := by
  induction remaining generalizing assumptions source target sourceForm
    targetForm with
  | zero =>
      intro answer settles
      unfold compareWithin at settles
      dsimp only at settles
      split at settles
      · exact settles.of_pure
      · exact absurd settles failAtBound_never_settles
  | succ remaining inductionHypothesis =>
      intro answer settles
      unfold compareWithin at settles
      dsimp only at settles
      rw [(ShareForm.self reachesSource).orElse,
        (ShareForm.self reachesTarget).orElse] at settles
      split at settles
      · exact settles.of_pure
      · exact RelationStep.relate_succeeds inductionHypothesis fits
          reachesSource reachesTarget answer settles

end Checker

end StructuralTyping
