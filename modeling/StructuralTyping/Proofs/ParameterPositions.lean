import StructuralTyping.Proofs.CollectedReasons
import StructuralTyping.Proofs.WidenedTargets

namespace StructuralTyping

/-!
# Assignable functions position by position

Functions are compared by their declared parameter types. As a list of types, a
parameter that may be left out takes up `undefined` as well. What the target of
an assignment lists at a position is assignable to what its source lists there,
unless only the target lets its parameter be left out: functions are compared as
if it was always passed then.
-/

open Relating

/-- The types that a signature lists are those of its parameters in turn. -/
theorem Signature.getElem?_parameterTypes
    {signature : Signature Ty}
    {parameter : Parameter Ty}
    {position : Nat}
    (listed : signature.parameters[position]? = some parameter) :
    signature.parameterTypes[position]? =
      some
        (if parameter.optional then parameter.type.optional
        else parameter.type) := by
  rw [parameterTypes, List.getElem?_map, listed]
  rfl

namespace RelationStep

/-- A parameter that the target supplies is among those compared. -/
theorem mem_suppliedParameters
    {step : RelationStep}
    {target : Signature Ty}
    {parameters : List (Parameter Ty)}
    {parameter other : Parameter Ty}
    {start position : Nat}
    (listed : parameters[position]? = some parameter)
    (supplied : target.parameters[start + position]? = some other) :
    orFail (step.toArgument assumptions bivariant parameter.type other.type)
        (.inParameter (start + position)) ∈
      step.suppliedParameters assumptions bivariant target start parameters := by
  induction parameters generalizing start position with
  | nil => cases listed
  | cons first rest inductionHypothesis =>
      cases position with
      | zero =>
          cases listed
          unfold suppliedParameters
          rw [Nat.add_zero] at supplied
          rw [supplied]
          exact List.mem_cons_self
      | succ position =>
          rw [← Nat.succ_add_eq_add_succ] at supplied ⊢
          exact .tail _ (inductionHypothesis listed supplied)

end RelationStep

namespace Checker

variable
  {checker : Checker}
  {parameter other : Parameter Ty}

/--
Plain functions that are assignable accept the arguments of the target: the
declared types were compared in the opposite direction below the functions.
-/
theorem settles_parameters
    {source target : Signature Ty}
    {position : Nat}
    (plain : source.method = false)
    (targetPlain : target.method = false)
    (differ :
      (Ty.function node source).sameNode (.function otherNode target) = false)
    (listed : source.parameters[position]? = some parameter)
    (supplied : target.parameters[position]? = some other)
    (assigns :
      Check.Settles
        (checker.isAssignable (.function node source)
          (.function otherNode target))
        true) :
    ∃ remaining < checker.options.maxDepth,
      Stateful.Settles
        (checker.compareWithin remaining {} other.type parameter.type) true := by
  have settles := settles_of_isAssignable assigns
  cases depth : checker.options.maxDepth with
  | zero =>
      rw [depth] at settles
      unfold compareWithin at settles
      dsimp only [Ty.orElse] at settles
      rw [differ, if_neg (by simp)] at settles
      exact absurd settles failAtBound_never_settles
  | succ remaining =>
      rw [depth] at settles
      unfold compareWithin at settles
      dsimp only [Ty.orElse] at settles
      rw [differ, if_neg (by simp)] at settles
      refine ⟨remaining, Nat.lt_succ_self remaining, ?_⟩
      let step : RelationStep :=
        { checker
          depth := checker.options.maxDepth - remaining
          compare := checker.compareWithin remaining }
      change
        Stateful.Settles
          (step.relate {} (.function node source) (.function otherNode target))
          true at settles
      have takenApart :
          Stateful.Settles
            (step.toFunction {} (.function node source) target) true := by
        simpa [RelationStep.relate, Ty.isPrimitive, Ty.isReference,
          Ty.isNullish, Ty.isUnion, RelationStep.isIntersection,
          RelationStep.compareShapes] using settles
      unfold RelationStep.toFunction at takenApart
      dsimp only at takenApart
      rw [plain, targetPlain, Bool.or_self] at takenApart
      have compares :=
        settles_of_allOf step.signatureParts_accountable takenApart _
          (List.mem_append_left _ (List.mem_append_left _
            (RelationStep.mem_suppliedParameters listed
              ((Nat.zero_add position).symm ▸ supplied))))
      exact settles_orFail compares

/--
Where one form admits another one, so it does when the target takes up
`undefined`, or both do.
-/
theorem isAssignable_optional
    {optional otherOptional : Bool}
    (admits : checker.Admits form otherForm)
    (reachesSource : Reaches checker source form)
    (reachesTarget : Reaches checker target otherForm)
    (kept : optional = true → otherOptional = true)
    (settles :
      Check.Settles
        (checker.isAssignable
          (if optional = true then source.optional else source)
          (if otherOptional = true then target.optional else target))
        answer) :
    answer = true := by
  have compares := settles_of_isAssignable settles
  cases otherOptional with
  | false =>
      have required : optional = false := by simpa using kept
      subst required
      exact admits.accepts reachesSource reachesTarget apart_nil answer
        compares
  | true =>
  have again := reachesTarget.again_members.1
  have wanted := reachesTarget.optional
  have each (member : Ty) (inForm : member ∈ form.members) :
      ∃ other, Reaches checker other other ∧ checker.Admits member other ∧
        other.FitsInto
          (checker.arena.joinMembers (otherForm.members ++ [.undefined])) :=
    ⟨otherForm, again,
      admits.each_member reachesSource.again_members.1 inForm,
      .optional again⟩
  cases optional with
  | false =>
      exact accepts_widened reachesTarget.optional_inhabited
        reachesSource.again_members.1 each reachesSource wanted apart_nil answer
        compares
  | true =>
      refine accepts_widened reachesTarget.optional_inhabited
        reachesSource.optional.again_members.1 (fun member inJoined => ?_)
        reachesSource.optional wanted apart_nil answer compares
      rcases reachesSource.mem_optional inJoined with inForm | rfl
      · exact each member inForm
      · refine ⟨_, wanted.again_members.1, .fits (.inr ?_), .self _⟩
        exact List.forall_mem_singleton.mpr ⟨_, List.mem_cons_self,
          reachesTarget.undefined_mem_optional⟩

/--
What the target of an assignment of plain functions lists at a position is
assignable to what the source lists there: outright where neither parameter may
be left out, and whenever no exceeded depth is reported where the types reach
forms and the parameter of the source may be left out if that of the target may.
-/
theorem isAssignable_parameterTypes
    {source target : Signature Ty}
    {parameter other : Parameter Ty}
    {position : Nat}
    (plain : source.method = false)
    (targetPlain : target.method = false)
    (listed : source.parameters[position]? = some parameter)
    (supplied : target.parameters[position]? = some other)
    (assigns :
      Check.Settles
        (checker.isAssignable (.function node source)
          (.function otherNode target))
        true) :
    ∃ accepted given,
      source.parameterTypes[position]? = some accepted ∧
        target.parameterTypes[position]? = some given ∧
        ((Ty.function node source).sameNode (.function otherNode target) =
            false →
          parameter.optional = false →
          other.optional = false →
          Check.Settles (checker.isAssignable given accepted) true) ∧
        ∀ form otherForm,
          Reaches checker parameter.type form →
          Reaches checker other.type otherForm →
          (other.optional = true → parameter.optional = true) →
          ∀ answer,
            Check.Settles (checker.isAssignable given accepted) answer →
            answer = true := by
  refine ⟨_, _, Signature.getElem?_parameterTypes listed,
    Signature.getElem?_parameterTypes supplied, fun differ required given => ?_,
    fun form otherForm accepts gives kept answer settles => ?_⟩
  · obtain ⟨remaining, below, compares⟩ :=
      settles_parameters plain targetPlain differ listed supplied assigns
    rw [required, given, if_neg (by simp), if_neg (by simp)]
    exact settles_isAssignable_of_inside (Nat.le_of_lt below) compares
  · refine isAssignable_optional ?_ gives accepts kept settles
    cases same :
        (Ty.function node source).sameNode (.function otherNode target) with
    | false =>
        obtain ⟨remaining, -, compares⟩ :=
          settles_parameters plain targetPlain same listed supplied assigns
        exact .holds gives accepts apart_nil compares
    | true =>
        cases eq_of_sameNode same
        cases listed.symm.trans supplied
        cases accepts.unique gives
        exact .fits (.self _)

section Handlers

/-- A function of one parameter without a result. -/
def handlerOf
    (type : Ty)
    (optional : Bool) :
    Signature Ty :=
  { parameters := [{ name := "value", type, optional }]
    rest := .absent
    result := .absent }

/-- What may be left out accepts a parameter that is always passed. -/
theorem isAssignable_parameterTypes_handlers :
    Check.Settles
        (plainChecker.isAssignable
          (.function none (handlerOf .number true))
          (.function none (handlerOf (.ofLiteral (.number (.ofNat 1))) false)))
        true ∧
      ∃ accepted given,
        (handlerOf .number true).parameterTypes[0]? = some accepted ∧
          (handlerOf (.ofLiteral (.number (.ofNat 1))) false).parameterTypes[0]?
            = some given ∧
          ∀ answer,
            Check.Settles (plainChecker.isAssignable given accepted) answer →
            answer = true := by
  have assigns :
      Check.Settles
        (plainChecker.isAssignable
          (.function none (handlerOf .number true))
          (.function none (handlerOf (.ofLiteral (.number (.ofNat 1))) false)))
        true :=
    ⟨[], by decide +kernel, Log.quiet_nil⟩
  obtain ⟨accepted, given, isAccepted, isGiven, -, fits⟩ :=
    @isAssignable_parameterTypes _ _ _ _ _ _ _ 0 rfl rfl rfl rfl assigns
  exact ⟨assigns, accepted, given, isAccepted, isGiven,
    fits _ _ (.primitive (by simp) (by simp))
      (.literal (Literal.equal_self (Number.isNaN_ofNat 1))) nofun⟩

/--
A function that has to be passed a text is accepted where the text may be left
out, although what is listed for the target is not assignable to what is listed
for the function.
-/
theorem isAssignable_misses_optional :
    ∃ accepted given,
      (handlerOf .string false).parameterTypes[0]? = some accepted ∧
        (handlerOf .string true).parameterTypes[0]? = some given ∧
        Check.Settles
          (plainChecker.isAssignable
            (.function none (handlerOf .string false))
            (.function none (handlerOf .string true)))
          true ∧
        Check.Settles (plainChecker.isAssignable given accepted) false :=
  ⟨_, _, rfl, rfl, ⟨[], by decide +kernel, Log.quiet_nil⟩,
    ⟨[], by decide +kernel, Log.quiet_nil⟩⟩

end Handlers

end Checker

end StructuralTyping
