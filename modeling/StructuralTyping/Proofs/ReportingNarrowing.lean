import StructuralTyping.Narrowing.Statement
import StructuralTyping.Proofs.Reporting

namespace StructuralTyping

/-!
# Narrowing only adds to the log

The functions of coverage, narrowing, typing and the walk through a body report
to the log and never look at it. They carry no flag of their own.
-/

open Check Stateful

namespace Checker

variable (checker : Checker)

section Coverage

instance :
    Appends (checker.memberShape member).run := by
  unfold memberShape
  refine @Appends.ofOptionBind _ _ _ _ _ fun result => ?_
  split <;> infer_instance

instance
    (members : List Ty) :
    Appends (members.mapM checker.memberShape).run :=
  Appends.ofOptionMapM _ _ fun _ => inferInstance

instance :
    Appends (checker.objectUnion? type) := by
  unfold objectUnion?
  refine @Appends.ofBind _ _ _ _ _ fun result => ?_
  split <;> infer_instance

instance :
    Appends (checker.discriminant? type) := by
  unfold discriminant?
  refine @Appends.ofBind _ _ _ _ _ fun found => ?_
  split <;> infer_instance

instance :
    Appends (checker.discriminantBy? type name) := by
  unfold discriminantBy?
  infer_instance

instance :
    Appends (checker.literalCoverage? type) := by
  unfold literalCoverage?
  refine @Appends.ofBind _ _ _ _ _ fun result => ?_
  split
  · infer_instance
  · split <;> infer_instance

instance :
    Appends (checker.coverage? type) := by
  unfold coverage?
  refine @Appends.ofBind _ _ _ _ _ fun found => ?_
  split <;> infer_instance

instance :
    Appends (checker.coverageOn? type name) := by
  unfold coverageOn?
  infer_instance

instance
    (coverage : Coverage) :
    Appends (coverage.residual checker) := by
  unfold Coverage.residual
  infer_instance

instance
    (coverage : Coverage) :
    Appends (coverage.exhaustive checker) := by
  unfold Coverage.exhaustive
  infer_instance

instance reportNonExhaustive_adds :
    OnlyAdds (checker.reportNonExhaustive result declared span) := by
  unfold reportNonExhaustive
  split
  · infer_instance
  · refine .bind inferInstance fun accepts => ?_
    cases accepts
    · exact .bind (.report _) fun _ => inferInstance
    · exact inferInstanceAs (OnlyAdds (pure false))

end Coverage

section Predicates

instance :
    Appends (checker.membersOf type) := by
  unfold membersOf
  refine @Appends.ofBind _ _ _ _ _ fun normalized => ?_
  split
  · refine @Appends.ofBind _ _ _ _ _ fun expanded => ?_
    split <;> infer_instance
  · infer_instance

instance
    (narrow : Ty → Check Ty)
    [∀ member, Appends (narrow member)]
    (member : Ty) :
    Appends (narrowMember narrow member) := by
  unfold narrowMember
  infer_instance

instance
    (narrow : Ty → Check Ty)
    [∀ member, Appends (narrow member)] :
    Appends (checker.narrowMembers type narrow) := by
  unfold narrowMembers
  infer_instance

instance :
    Appends (checker.truthy type) := by
  unfold truthy
  infer_instance

instance
    (member : Ty) :
    Appends (checker.falsyMember member) := by
  unfold falsyMember
  split <;> infer_instance

instance :
    Appends (checker.falsy type) := by
  unfold falsy
  infer_instance

instance :
    Appends (checker.truthiness branch type) := by
  unfold truthiness
  infer_instance

instance
    (member : Ty) :
    Appends (checker.typeofMember tag branch member) := by
  unfold typeofMember
  split
  · infer_instance
  · refine @Appends.ofBind _ _ _ _ _ fun expanded => ?_
    split <;> infer_instance

instance :
    Appends (checker.narrowTypeof tag branch type) := by
  unfold narrowTypeof
  infer_instance

instance
    (member : Ty) :
    Appends (checker.arrayMember branch member) := by
  unfold arrayMember
  infer_instance

instance :
    Appends (checker.narrowArray branch type) := by
  unfold narrowArray
  infer_instance

instance :
    Appends (checker.instanceMembers instanceType members).run := by
  induction members with
  | nil =>
      unfold instanceMembers
      infer_instance
  | cons member rest inductionHypothesis =>
      unfold instanceMembers
      infer_instance

instance :
    Appends (checker.narrowInstance instanceType type) := by
  unfold narrowInstance
  refine @Appends.ofBind _ _ _ _ _ fun members => ?_
  refine @Appends.ofBind _ _ _ _ _ fun kept => ?_
  split <;> infer_instance

instance
    (member : Ty) :
    Appends (checker.narrowStrict value equal member) := by
  unfold narrowStrict
  split
  · infer_instance
  · split <;> infer_instance

instance :
    Appends (checker.narrowEqual value equal loose type) := by
  unfold narrowEqual
  dsimp only
  infer_instance

instance :
    Appends (checker.coalesced left right) := by
  unfold coalesced
  infer_instance

instance :
    Appends (checker.memberTags members).run := by
  induction members with
  | nil =>
      unfold memberTags
      infer_instance
  | cons member rest inductionHypothesis =>
      unfold memberTags
      split
      · infer_instance
      · refine @Appends.ofOptionBind _ _ _ _ _ fun expanded => ?_
        split <;> infer_instance

instance :
    Appends (checker.typeofResult type) := by
  unfold typeofResult
  infer_instance

end Predicates

section Refinement

instance
    (narrow : Ty → Check Ty)
    [∀ type, Appends (narrow type)] :
    Appends (refineName view name narrow) := by
  unfold refineName
  split <;> infer_instance

variable (test : Ty → Check Ty) [∀ type, Appends (test type)]

instance
    (optional : Bool)
    (member : Ty) :
    Appends (checker.memberSurvives property optional test member) := by
  unfold memberSurvives
  dsimp only
  split
  · infer_instance
  split
  · infer_instance
  refine @Appends.ofBind _ _ _ _ _ fun found => ?_
  cases found <;> (dsimp only; infer_instance)

instance
    (optional : Bool) :
    Appends
      (checker.refineProperty view operand property optional test) := by
  unfold refineProperty
  split <;> infer_instance

instance :
    Appends (checker.refineEquality? view subject value equal loose) := by
  unfold refineEquality?
  split
  · split
    · infer_instance
    · split <;> infer_instance
  · infer_instance

instance :
    Appends (checker.refineComparison view left right equal loose) := by
  unfold refineComparison
  refine @Appends.ofBind _ _ _ _ _ fun found => ?_
  cases found <;> (dsimp only; infer_instance)

instance :
    Appends (checker.joinFacts first second) := by
  unfold joinFacts
  have each :
      ∀ entry : String × Ty,
        Appends (do
          match second.find? entry.1 with
          | none => return none
          | some other =>
              return some
                (entry.1,
                  ← checker.normalize (.ofUnion [entry.2, other]))) := by
    intro entry
    split <;> infer_instance
  infer_instance

instance :
    Appends (checker.neverTruthy expression) := by
  unfold neverTruthy
  split <;> infer_instance

/-- Refinement by a guard only adds to the log. -/
instance refine_appends
    (view : View)
    (guard : Expression)
    (branch : Bool) :
    Appends (checker.refine view guard branch) := by
  fun_induction checker.refine view guard branch
  all_goals infer_instance

end Refinement

section Typing

instance
    (guard : Expression) :
    Accountable (checker.refineScope scope guard branch) := by
  unfold refineScope
  infer_instance

/-- A change of bindings reports nothing. -/
instance
    (table : BindingTable) :
    Accountable (set table : Narrowing PUnit) where
  appends _ := Appends.ofPure (PUnit.unit, table)
  reported run := by
    cases run
    exact .inl rfl

instance
    (change : BindingTable → BindingTable) :
    Accountable (modify change : Narrowing PUnit) :=
  Accountable.ofModify fun _ => rfl

instance
    (body : Narrowing α)
    [Accountable body] :
    Accountable (withFacts scope facts body) := by
  unfold withFacts
  infer_instance

instance
    (guard : Expression)
    (body : Narrowing α)
    [Accountable body] :
    Accountable (checker.onBranch scope guard branch body) := by
  unfold onBranch
  infer_instance

instance :
    Appends (reportNarrowing .undefinedBinding message) :=
  Appends.ofReport rfl

instance :
    Appends (reportNarrowing .unknownProperty message) :=
  Appends.ofReport rfl

instance :
    Accountable (typeOfName scope name) := by
  unfold typeOfName
  refine @Accountable.ofBind _ _ _ _ _ _ _ fun table => ?_
  split <;> infer_instance

instance :
    Appends (checker.readProperty type property) := by
  unfold readProperty
  refine @Appends.ofBind _ _ _ _ _ fun found => ?_
  cases found <;> (dsimp only; infer_instance)

instance
    (optional : Bool) :
    Appends (checker.memberType type property optional) := by
  unfold memberType
  infer_instance

/-- Typing an expression only adds to the log. -/
instance typeOf_accountable
    (scope : Scope)
    (expression : Expression) :
    Accountable (checker.typeOf scope expression) := by
  fun_induction checker.typeOf scope expression
  all_goals infer_instance

end Typing

section Walking

/-- The walk only adds to the log, whatever it has recorded so far. -/
class Walks
    (body : Walking α) :
    Prop where
  run : ∀ walk, Accountable (body walk)

attribute [instance] Walks.run

namespace Walks

instance
    (value : α) :
    Walks (pure value : Walking α) :=
  ⟨fun walk => Accountable.ofPure (value, walk)⟩

instance ofBind
    (first : Walking α)
    (next : α → Walking β)
    [firstWalks : Walks first]
    [nextWalks : ∀ value, Walks (next value)] :
    Walks (first >>= next) :=
  ⟨fun walk =>
    @Accountable.ofBind _ _ _ _ (first walk)
      (fun result => next result.1 result.2)
      (firstWalks.run walk) fun result => (nextWalks result.1).run result.2⟩

instance
    (computation : Narrowing α)
    [Accountable computation] :
    Walks (liftM computation : Walking α) :=
  ⟨fun walk =>
    Accountable.ofBind computation fun value => pure (value, walk)⟩

instance
    (computation : Check α)
    [Appends computation] :
    Walks (liftM computation : Walking α) :=
  ⟨fun walk =>
    Accountable.ofBind (liftM computation : Narrowing α)
      fun value => pure (value, walk)⟩

instance
    (change : Walk → Walk) :
    Walks (modify change : Walking PUnit) :=
  ⟨fun walk => Accountable.ofPure (PUnit.unit, change walk)⟩

instance
    (condition : Prop)
    [Decidable condition]
    (first second : Walking α)
    [Walks first]
    [Walks second] :
    Walks (if condition then first else second) := by
  split <;> assumption

end Walks

instance :
    Walks (setPending pending) := by
  unfold setPending
  infer_instance

instance
    (body : Walking α)
    [Walks body] :
    Walks (walkWithFacts scope facts body) :=
  ⟨fun walk =>
    (inferInstance : Accountable (withFacts scope facts (body walk)))⟩

instance
    (guard : Option Expression)
    (body : Walking α)
    [Walks body] :
    Walks (checker.walkBranch scope guard branch body) := by
  cases guard with
  | none =>
      assumption
  | some guard =>
      exact ⟨fun walk =>
        (inferInstance : Accountable
          (checker.onBranch scope guard branch (body walk)))⟩

instance :
    Appends (checker.expectAssignable source target) := by
  unfold expectAssignable
  refine @Appends.ofBind _ _ _ _ _ fun mismatch => ?_
  cases mismatch with
  | none =>
      dsimp only
      infer_instance
  | some mismatch =>
      exact Appends.ofReport rfl

instance :
    Accountable (checker.typeOfOptional scope expression) := by
  unfold typeOfOptional
  split <;> infer_instance

instance
    (binding : Binding) :
    Accountable (BindingTable.add binding) := by
  unfold BindingTable.add
  infer_instance

instance :
    Accountable
      (checker.walkDeclaration scope name ascription initial policy) := by
  unfold walkDeclaration
  infer_instance

instance :
    Accountable (checker.walkReturn scope result value) := by
  unfold walkReturn
  infer_instance

instance :
    Accountable (checker.switchCoverage? scope subject subjectType) := by
  unfold switchCoverage?
  split
  · refine @Accountable.ofBind _ _ _ _ _ _ _ fun table => ?_
    split <;> infer_instance
  · infer_instance
  · infer_instance

instance :
    Appends (checker.switchResidual coverage) := by
  unfold switchResidual
  infer_instance

instance
    (guard : Expression) :
    Walks
      (checker.finishChoice scope guard positiveReturns negativeReturns) := by
  unfold finishChoice
  infer_instance

instance :
    Walks (finishTotalSwitch scope allReturn) := by
  unfold finishTotalSwitch
  infer_instance

instance :
    Walks (checker.finishSwitch scope coverage noneMatched allReturn) := by
  have finishes :
      ∀ residual : Option Exhaustiveness,
        Walks
          (if residual.any Exhaustiveness.exhaustive then do
            setPending none
            return if allReturn then .returned else .continued scope {}
          else do
            setPending residual
            match allReturn, noneMatched with
            | true, some guard =>
                return .continued scope
                  (← checker.refineScope scope guard true)
            | _, _ => return .continued scope {} :
            Walking StatementOutcome) := by
    intro residual
    split
    · infer_instance
    · refine @Walks.ofBind _ _ _ _ _ fun _ => ?_
      split <;> infer_instance
  unfold finishSwitch
  cases coverage <;> (dsimp only; infer_instance)

mutual

/-- Walking a statement only adds to the log. -/
theorem walkStatement_walks
    (result : Ty)
    (scope : Scope)
    (statement : Statement) :
    Walks (checker.walkStatement result scope statement) := by
  cases statement with
  | declare name ascription initial policy =>
      unfold walkStatement
      infer_instance
  | inspect label expression =>
      unfold walkStatement
      infer_instance
  | «return» value =>
      unfold walkStatement
      infer_instance
  | choose guard positive negative =>
      have first := walkBlock_walks result ([] :: scope) positive
      have second := walkBlock_walks result ([] :: scope) negative
      unfold walkStatement
      infer_instance
  | switch subject clauses otherwise =>
      have handled := walkClauses_walks result scope subject clauses
      unfold walkStatement
      refine @Walks.ofBind _ _ _ _ _ fun subjectType => ?_
      refine @Walks.ofBind _ _ _ _ _ fun coverage => ?_
      refine @Walks.ofBind _ _ _ _ _ fun allReturn => ?_
      cases otherwise with
      | none =>
          dsimp only
          infer_instance
      | some body =>
          have last := walkBlock_walks result ([] :: scope) body
          dsimp only
          infer_instance

/-- Walking a block only adds to the log. -/
theorem walkBlock_walks
    (result : Ty)
    (scope : Scope)
    (statements : List Statement) :
    Walks (checker.walkBlock result scope statements) := by
  cases statements with
  | nil =>
      unfold walkBlock
      infer_instance
  | cons statement rest =>
      have first := walkStatement_walks result scope statement
      have next : ∀ scope, Walks (checker.walkBlock result scope rest) :=
        fun scope => walkBlock_walks result scope rest
      unfold walkBlock
      refine @Walks.ofBind _ _ _ _ _ fun _ => ?_
      refine @Walks.ofBind _ _ _ _ _ fun outcome => ?_
      cases outcome <;> (dsimp only; infer_instance)

/-- Walking the clauses of a switch only adds to the log. -/
theorem walkClauses_walks
    (result : Ty)
    (scope : Scope)
    (subject : Expression)
    (clauses : List (Clause Statement)) :
    Walks (checker.walkClauses result scope subject clauses) := by
  cases clauses with
  | nil =>
      unfold walkClauses
      infer_instance
  | cons clause rest =>
      have first := walkBlock_walks result ([] :: scope) clause.body
      have next := walkClauses_walks result scope subject rest
      unfold walkClauses
      dsimp only
      split <;> infer_instance

end

attribute [instance] walkStatement_walks walkBlock_walks walkClauses_walks

/-- The report about the end of a function only adds to the log. -/
instance reportFallOff_adds
    (function : FunctionBody)
    (pending : Option Exhaustiveness) :
    OnlyAdds (checker.reportFallOff function pending) := by
  unfold reportFallOff
  split
  · infer_instance
  · refine .bind inferInstance fun accepts => ?_
    split
    · infer_instance
    · have missing :
          ∀ reported : Bool,
            OnlyAdds
              (if reported = true then pure ()
                else Check.report (missingReturnDiagnostic function)) := by
        intro reported
        split
        · infer_instance
        · exact .report _
      cases pending with
      | none =>
          exact missing false
      | some result =>
          exact .bind inferInstance missing

instance checkFunction_adds
    (function : FunctionBody) :
    OnlyAdds (checker.checkFunction function) := by
  have walks :
      Appends
        (((checker.walkBlock function.result
            ([] :: (Scope.ofTypes function.parameters).2)
            function.body).run {}).run
          (Scope.ofTypes function.parameters).1) :=
    ((walkBlock_walks checker function.result _ function.body).run {}).appends _
  unfold checkFunction
  refine .bind walks.toOnlyAdds fun result => ?_
  dsimp only
  split
  · infer_instance
  · exact .bind inferInstance fun _ => inferInstance

end Walking

end Checker

end StructuralTyping
