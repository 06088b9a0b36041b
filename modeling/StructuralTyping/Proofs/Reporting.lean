import StructuralTyping.Proofs.Run

namespace StructuralTyping

/-!
# The checker only adds to its log

No part of the checker looks at the log or takes anything from it, and the
flags of normalization and comparison go up only together with a report. The
statements follow the definitions one by one; they hold for all types and all
budgets, and for answers as well as failures.
-/

open Check Stateful

section Transformers

instance
    (value : α) :
    Appends (pure value : Evaluate α).run :=
  Appends.ofPure (Except.ok value)

instance
    (error : UtilityError) :
    Appends (throw error : Evaluate α).run :=
  Appends.ofPure (Except.error error)

instance :
    Appends
      (ExceptT.run (Check.exhausted : Check (Except UtilityError α))) :=
  Appends.ofExhausted

/-- A sequence of evaluations adds to the log when its parts do. -/
instance Check.Appends.ofEvaluateBind
    (first : Evaluate α)
    (next : α → Evaluate β)
    [firstAppends : Appends first.run]
    [nextAppends : ∀ value, Appends (next value).run] :
    Appends (first >>= next).run := by
  refine @Appends.ofBind _ _ first.run _ firstAppends fun result => ?_
  cases result with
  | ok value =>
      exact nextAppends value
  | error error =>
      exact Appends.ofPure (Except.error error)

instance
    (computation : Check α)
    [Appends computation] :
    Appends (liftM computation : Evaluate α).run :=
  Appends.ofBind computation fun value => pure (Except.ok value)

instance
    (condition : Prop)
    [Decidable condition]
    (first second : Evaluate α)
    [Appends first.run]
    [Appends second.run] :
    Appends (if condition then first else second).run := by
  split <;> assumption

/-- Evaluating a list adds to the log when every item does. -/
theorem Check.Appends.ofEvaluateMapM
    (visit : α → Evaluate β)
    (items : List α)
    (each : ∀ item, Appends (visit item).run) :
    Appends (items.mapM visit).run := by
  induction items with
  | nil =>
      exact Appends.ofPure (Except.ok [])
  | cons item rest inductionHypothesis =>
      rw [List.mapM_cons]
      infer_instance

instance
    (value : α) :
    Appends (pure value : OptionT Check α).run :=
  Appends.ofPure (some value)

instance
    (computation : Check (Option α))
    [appends : Appends computation] :
    Appends (OptionT.mk computation).run :=
  appends

instance :
    Appends (failure : OptionT Check α).run :=
  Appends.ofPure none

/-- A sequence that may stop adds to the log when its parts do. -/
instance Check.Appends.ofOptionBind
    (first : OptionT Check α)
    (next : α → OptionT Check β)
    [firstAppends : Appends first.run]
    [nextAppends : ∀ value, Appends (next value).run] :
    Appends (first >>= next).run := by
  change
    Appends
      (first.run >>= fun result =>
        match result with
        | some value => (next value).run
        | none => pure none)
  refine @Appends.ofBind _ _ first.run _ firstAppends fun result => ?_
  cases result with
  | some value =>
      exact nextAppends value
  | none =>
      exact Appends.ofPure none

instance
    (computation : Check α)
    [Appends computation] :
    Appends (liftM computation : OptionT Check α).run :=
  Appends.ofBind computation fun value => pure (some value)

instance
    (condition : Prop)
    [Decidable condition]
    (first second : OptionT Check α)
    [Appends first.run]
    [Appends second.run] :
    Appends (if condition then first else second).run := by
  split <;> assumption

/-- Visiting a list that may stop adds to the log when every item does. -/
theorem Check.Appends.ofOptionMapM
    (visit : α → OptionT Check β)
    (items : List α)
    (each : ∀ item, Appends (visit item).run) :
    Appends (items.mapM visit).run := by
  induction items with
  | nil =>
      exact Appends.ofPure (some [])
  | cons item rest inductionHypothesis =>
      rw [List.mapM_cons]
      infer_instance

/-- A sequence of evaluations settles through its first part, or fails there. -/
theorem Check.Settles.of_evaluateBind
    {first : Evaluate α}
    {next : α → Evaluate β}
    (settles : Settles (first >>= next).run result)
    (nextAppends : ∀ value, Appends (next value).run) :
    (∃ value,
      Settles first.run (.ok value) ∧ Settles (next value).run result) ∨
      ∃ error, Settles first.run (.error error) ∧ result = .error error := by
  have appends : ∀ early, Appends (ExceptT.bindCont next early) := by
    intro early
    cases early with
    | ok value =>
        exact nextAppends value
    | error error =>
        exact Appends.ofPure (Except.error error)
  change Settles (first.run >>= ExceptT.bindCont next) result at settles
  obtain ⟨early, firstSettles, settles⟩ := settles_bind.mp settles
  cases early with
  | ok value =>
      exact .inl ⟨value, firstSettles, settles⟩
  | error error =>
      exact .inr ⟨error, firstSettles, settles_pure.mp settles⟩

/-- A sequence of evaluations yields a value only through its first part. -/
theorem Check.Answers.of_evaluateBind
    {first : Evaluate α}
    {next : α → Evaluate β}
    (answers : Answers (first >>= next).run (.ok result)) :
    ∃ value,
      Answers first.run (.ok value) ∧ Answers (next value).run (.ok result) := by
  change Answers (first.run >>= ExceptT.bindCont next) (.ok result) at answers
  obtain ⟨early, firstAnswers, answers⟩ := answers.of_bind
  cases early with
  | ok value =>
      exact ⟨value, firstAnswers, answers⟩
  | error error =>
      cases answers_pure.mp answers

/-- A visit that may fail yields values only item by item. -/
theorem Check.Answers.of_evaluateMapM
    {visit : α → Evaluate β}
    {items : List α}
    {values : List β}
    (answers : Answers (items.mapM visit).run (.ok values)) :
    List.Forall₂ (fun item value => Answers (visit item).run (.ok value))
      items values := by
  induction items generalizing values with
  | nil =>
      cases answers_pure.mp answers
      exact .nil
  | cons item rest inductionHypothesis =>
      rw [List.mapM_cons] at answers
      obtain ⟨value, head, answers⟩ := answers.of_evaluateBind
      obtain ⟨others, tail, answers⟩ := answers.of_evaluateBind
      cases answers_pure.mp answers
      exact .cons head (inductionHypothesis tail)

/-- A lifted computation settles as the computation itself. -/
theorem Check.Settles.of_evaluateLift
    {computation : Check α}
    (settles : Settles (liftM computation : Evaluate α).run result) :
    ∃ value, result = .ok value ∧ Settles computation value := by
  change
    Settles (computation >>= fun value => pure (Except.ok value)) result
      at settles
  obtain ⟨value, settles, same⟩ := settles_bind.mp settles
  exact ⟨value, settles_pure.mp same, settles⟩

/-- Beyond the depth bound nothing settles. -/
theorem Evaluation.not_settles_exceeded
    {checker : Checker}
    {type : Ty}
    {outcome : Except UtilityError α} :
    ¬ Check.Settles (checker.failTooComplex type : Evaluate α).run outcome := by
  rintro ⟨added, run, quiet⟩
  cases run
  exact quiet _ (List.mem_singleton_self _) rfl

/-- A lifted computation yields what it settles with. -/
theorem Check.Settles.of_optionLift
    {computation : Check α}
    (settles : Settles (liftM computation : OptionT Check α).run result) :
    ∃ value, result = some value ∧ Settles computation value := by
  change
    Settles (computation >>= fun value => pure (some value)) result at settles
  obtain ⟨value, settles, same⟩ := settles_bind.mp settles
  exact ⟨value, settles_pure.mp same, settles⟩

/-- A sequence that may stop settles through its first part, or stops there. -/
theorem Check.Settles.of_optionBind_cases
    {first : OptionT Check α}
    {next : α → OptionT Check β}
    (settles : Settles (first >>= next).run result)
    (nextAppends : ∀ value, Appends (next value).run) :
    (∃ value,
      Settles first.run (some value) ∧ Settles (next value).run result) ∨
      Settles first.run none ∧ result = none := by
  change
    Settles
      (first.run >>= fun result =>
        match result with
        | some value => (next value).run
        | none => pure none) result at settles
  have appends :
      ∀ result : Option α,
        Appends
          (match result with
          | some value => (next value).run
          | none => pure none) := by
    intro result
    cases result with
    | some value =>
        exact nextAppends value
    | none =>
        exact Appends.ofPure none
  obtain ⟨early, firstSettles, settles⟩ := settles_bind.mp settles
  cases early with
  | some value =>
      exact .inl ⟨value, firstSettles, settles⟩
  | none =>
      exact .inr ⟨firstSettles, settles_pure.mp settles⟩

/-- A sequence that may stop yields a value only through one of its first part. -/
theorem Check.Settles.of_optionBind
    {first : OptionT Check α}
    {next : α → OptionT Check β}
    (settles : Settles (first >>= next).run (some result))
    (nextAppends : ∀ value, Appends (next value).run) :
    ∃ value,
      Settles first.run (some value) ∧
        Settles (next value).run (some result) := by
  rcases settles.of_optionBind_cases nextAppends with found | ⟨_, stopped⟩
  · exact found
  · cases stopped

/-- A visit that may stop yields values only item by item. -/
theorem Check.Settles.of_optionMapM
    {visit : α → OptionT Check β}
    [each : ∀ item, Appends (visit item).run]
    {items : List α}
    {values : List β}
    (settles : Settles (items.mapM visit).run (some values)) :
    List.Forall₂ (fun item value => Settles (visit item).run (some value))
      items values := by
  induction items generalizing values with
  | nil =>
      cases settles_pure.mp settles
      exact .nil
  | cons item rest inductionHypothesis =>
      rw [List.mapM_cons] at settles
      have appends : Appends (rest.mapM visit).run :=
        Check.Appends.ofOptionMapM visit rest each
      obtain ⟨value, head, settles⟩ :=
        settles.of_optionBind fun _ => inferInstance
      obtain ⟨others, tail, settles⟩ :=
        settles.of_optionBind fun _ => inferInstance
      cases settles_pure.mp settles
      exact .cons head (inductionHypothesis tail)

end Transformers

section Reports

instance
    (checker : Checker)
    (stage : Stage)
    (type : Ty) :
    Appends (checker.reportTooComplex stage type) :=
  Appends.ofReport rfl

instance
    (error : UtilityError) :
    Appends (Checker.reportFailure error) := by
  unfold Checker.reportFailure
  split
  · infer_instance
  · refine Appends.ofReport ?_
    cases kind : error.kind <;>
      simp [Diagnostic.isFallOff, UtilityErrorKind.code]

end Reports

section Normalization

/-- The three parts of a pass only add to the log. -/
class NormalPass.Reports
    (pass : NormalPass) :
    Prop where
  normalize :
    ∀ depth type, Accountable (pass.normalize depth type)
  inner :
    ∀ depth type, Accountable (pass.inner depth type)
  intersection :
    ∀ depth members, Accountable (pass.intersection depth members)

attribute [instance] NormalPass.Reports.normalize
  NormalPass.Reports.inner NormalPass.Reports.intersection

/-- Evaluating an application only adds to the log. -/
class Evaluator.Reports
    (evaluate : Evaluator) :
    Prop where
  run :
    ∀ application depth, Appends (evaluate application depth).run

attribute [instance] Evaluator.Reports.run

namespace NormalPass

section Parts

variable (pass : NormalPass) [pass.Reports] {mode : NormalMode}

instance :
    Accountable (pass.rebuild depth occurrence application) := by
  unfold rebuild
  infer_instance

instance :
    Accountable (pass.union arena depth members) := by
  unfold union
  infer_instance

instance :
    Accountable (pass.mergeProperty arena depth shape property) := by
  unfold mergeProperty
  split <;> infer_instance

instance :
    Accountable (pass.mergeIndex arena depth first second) := by
  unfold mergeIndex
  split <;> infer_instance

instance :
    Accountable (pass.mergeShape arena depth first second) := by
  unfold mergeShape
  infer_instance

instance :
    Accountable (pass.mergeObjects arena depth members) := by
  unfold mergeObjects
  split <;> infer_instance

instance :
    Accountable (pass.meetMembers arena depth types) := by
  unfold meetMembers
  split
  · infer_instance
  · dsimp only
    split
    · infer_instance
    · refine @Accountable.ofBind _ _ _ _ _ _ _ fun merged => ?_
      split <;> infer_instance

instance :
    Accountable (pass.nextIntersection arena depth members) := by
  unfold nextIntersection
  refine @Accountable.ofBind _ _ _ _ _ _ _ fun types => ?_
  dsimp only
  split <;> infer_instance

instance :
    Accountable (pass.normalizeShape depth shape) := by
  unfold normalizeShape
  refine @Accountable.ofBind _ _ _ _ _ _ _ fun properties => ?_
  refine @Accountable.ofBind _ _ _ _ _ _ ?_ _
  cases shape.index <;>
    (simp only [Option.mapM_none, Option.mapM_some]; infer_instance)

instance :
    Accountable (pass.normalizeSignature depth signature) := by
  unfold normalizeSignature
  infer_instance

instance
    [mode.evaluate.Reports] :
    Accountable
      (pass.normalizeApplication mode depth occurrence application) := by
  unfold normalizeApplication
  refine @Accountable.ofBind _ _ _ _ _ _ _ fun result => ?_
  cases result <;> (dsimp only; infer_instance)

instance
    [mode.evaluate.Reports] :
    Accountable (pass.normalizeNode mode depth type) := by
  unfold normalizeNode
  split <;> infer_instance

/-- The flag of normalization goes up together with a report. -/
instance :
    Accountable (reportOnce checker type) where
  appends state := by
    cases state with
    | false =>
        exact Appends.ofBind (checker.reportTooComplex .normalize type)
          fun value => pure (value, true)
    | true =>
        exact Appends.ofPure ((), true)
  reported {state value after added} run := by
    cases state with
    | false =>
        cases run
        refine .inr ⟨rfl, fun quiet => ?_⟩
        exact quiet _ (List.mem_singleton.mpr rfl) rfl
    | true =>
        cases run
        exact .inl rfl

instance
    [mode.evaluate.Reports] :
    (pass.next mode).Reports where
  normalize depth type := by
    change Accountable (pass.nextNormalize mode depth type)
    unfold nextNormalize
    infer_instance
  inner depth type := by
    change Accountable (pass.nextInner depth type)
    unfold nextInner
    split <;> infer_instance
  intersection depth members := by
    change Accountable (pass.nextIntersection mode.checker.arena depth members)
    infer_instance

end Parts

end NormalPass

/-- Normalization only adds to the log. -/
instance
    (mode : NormalMode)
    [mode.evaluate.Reports]
    (budget : Nat) :
    (normalPass mode budget).Reports := by
  induction budget with
  | zero =>
      exact
        { normalize := fun _ _ => ⟨fun _ => Appends.ofExhausted, nofun⟩
          inner := fun _ _ => ⟨fun _ => Appends.ofExhausted, nofun⟩
          intersection := fun _ _ => ⟨fun _ => Appends.ofExhausted, nofun⟩ }
  | succ budget inductionHypothesis =>
      rw [normalPass_succ]
      infer_instance

instance
    (mode : NormalMode)
    [mode.evaluate.Reports] :
    Appends (normalizeIn mode budget depth type) := by
  unfold normalizeIn
  rw [StateT.run'_eq, map_eq_pure_bind]
  have pass :=
    (inferInstance : Accountable
      ((normalPass mode budget).normalize depth type)).appends false
  exact @Appends.ofBind _ _ _ _ pass _

end Normalization

section Evaluation

namespace Evaluation

variable (evaluation : Evaluation) [evaluation.evaluate.Reports]

instance :
    Appends (evaluation.normalizeAt depth type) := by
  unfold normalizeAt
  infer_instance

instance :
    Appends (evaluation.normalizeOperand depth type) := by
  unfold normalizeOperand
  infer_instance

instance
    (checker : Checker)
    (type : Ty) :
    Appends (checker.failTooComplex type : Evaluate α).run := by
  unfold Checker.failTooComplex
  infer_instance

/-- Following references only adds to the log. -/
instance resolveWithin_appends
    (remaining depth : Nat)
    (type : Ty) :
    Appends (evaluation.resolveWithin remaining depth type).run := by
  induction remaining generalizing depth type with
  | zero =>
      unfold resolveWithin
      infer_instance
  | succ remaining inductionHypothesis =>
      cases type with
      | named reference =>
          unfold resolveWithin
          split <;> infer_instance
      | _ =>
          unfold resolveWithin
          infer_instance

instance :
    Appends (evaluation.resolve depth type).run := by
  unfold resolve
  infer_instance

instance :
    Appends (evaluation.mergeMembers depth members) := by
  unfold mergeMembers
  split
  · have appends :
        Appends
          (members.mapM fun member : Ty =>
            if member.isReference then
              evaluation.resolve depth member
            else
              (pure member : Evaluate Ty)).run :=
      Appends.ofEvaluateMapM _ _ fun member => inferInstance
    refine @Appends.ofBind _ _ _ _ appends fun result => ?_
    cases result <;> infer_instance
  · infer_instance

instance :
    Appends (evaluation.normalizeMerged depth type) := by
  unfold normalizeMerged
  refine @Appends.ofBind _ _ _ _ _ fun normalized => ?_
  split
  · refine @Appends.ofBind _ _ _ _ _ fun merged => ?_
    cases merged <;> infer_instance
  · infer_instance

/-- Looking behind references only adds to the log. -/
instance structuralWithin_appends
    (remaining depth : Nat)
    (type : Ty) :
    Appends (evaluation.structuralWithin remaining depth type).run := by
  induction remaining generalizing depth type with
  | zero =>
      unfold structuralWithin
      refine @Appends.ofEvaluateBind _ _ _ _ _ fun resolved => ?_
      cases resolved <;> (dsimp only; infer_instance)
  | succ remaining inductionHypothesis =>
      unfold structuralWithin
      refine @Appends.ofEvaluateBind _ _ _ _ _ fun resolved => ?_
      split <;> infer_instance

instance :
    Appends (evaluation.structural depth type).run := by
  unfold structural
  infer_instance

instance :
    Appends (failUtility utility cause : Evaluate α).run := by
  unfold failUtility
  infer_instance

instance :
    Appends (evaluation.objectBase utility depth base).run := by
  unfold objectBase
  refine @Appends.ofEvaluateBind _ _ _ _ _ fun type => ?_
  split <;> infer_instance

instance :
    Appends (evaluation.functionBase utility depth base).run := by
  unfold functionBase
  refine @Appends.ofEvaluateBind _ _ _ _ _ fun type => ?_
  split <;> infer_instance

instance :
    Appends (keyOf utility key).run := by
  unfold keyOf
  split <;> infer_instance

instance :
    Appends (evaluation.keySet utility keys).run := by
  unfold keySet
  split
  · infer_instance
  · split
    · split
      · exact Appends.ofEvaluateMapM _ _ fun key => inferInstance
      · infer_instance
    · exact Appends.ofEvaluateMapM _ _ fun key => inferInstance

instance :
    Appends (evaluation.keyedBase application depth).run := by
  unfold keyedBase
  split <;> infer_instance

instance :
    Appends (expectNoArguments application).run := by
  unfold expectNoArguments
  infer_instance

instance :
    Appends (evaluation.applyPick application depth).run := by
  unfold applyPick
  refine @Appends.ofEvaluateBind _ _ _ _ _ fun keyed => ?_
  obtain ⟨shape, keys⟩ := keyed
  dsimp only
  split <;> infer_instance

instance :
    Appends (evaluation.applyReadonly application depth).run := by
  unfold applyReadonly
  refine @Appends.ofEvaluateBind _ _ _ _ _ fun _ => ?_
  refine @Appends.ofEvaluateBind _ _ _ _ _ fun type => ?_
  split <;> infer_instance

/-- Applying a utility only adds to the log. -/
instance :
    Appends (evaluation.apply application depth).run := by
  unfold apply
  split
  · infer_instance
  split
  · infer_instance
  split
  · infer_instance
  · unfold applyOmit
    infer_instance
  · unfold applyOptional
    infer_instance
  · unfold applyOptional
    infer_instance
  · infer_instance
  · unfold applyReturnType
    infer_instance
  · unfold applyParameters
    infer_instance
  · unfold applyNonNullable
    infer_instance
  · infer_instance

end Evaluation

namespace Checker

variable (checker : Checker)

/-- Evaluating utilities only adds to the log. -/
instance
    (budget : Nat) :
    (checker.evaluateWithin budget).Reports := by
  induction budget with
  | zero =>
      exact ⟨fun _ _ => Appends.ofExhausted⟩
  | succ budget inductionHypothesis =>
      constructor
      intro application depth
      unfold evaluateWithin
      infer_instance

instance :
    checker.evaluation.evaluate.Reports := by
  unfold evaluation
  infer_instance

instance :
    Appends (checker.normalize type) := by
  unfold normalize
  infer_instance

instance :
    Appends (checker.structural depth type) := by
  unfold structural
  infer_instance

instance :
    Appends (checker.expand type) := by
  unfold expand
  refine @Appends.ofBind _ _ _ _ _ fun result => ?_
  cases result <;> (dsimp only; infer_instance)

instance :
    Appends (checker.tupleElement elements) := by
  unfold tupleElement
  infer_instance

/-- Computing the members of a type only adds to the log. -/
instance apparentWithin_appends
    (budget : Nat)
    (type : Ty) :
    Appends (checker.apparentWithin budget type) := by
  induction budget generalizing type with
  | zero =>
      exact Appends.ofExhausted
  | succ budget inductionHypothesis =>
      have visits :
          ∀ (shape : Shape Ty) (member : Ty),
            Appends (do
              match ← (checker.evaluation.resolve 0 member).run with
              | .error _ => return shape
              | .ok type =>
                  match ← checker.apparentWithin budget type with
                  | none => return shape
                  | some other => return shape.addMissing other) := by
        intro shape member
        refine @Appends.ofBind _ _ _ _ _ fun result => ?_
        cases result with
        | error _ =>
            dsimp only
            infer_instance
        | ok resolved =>
            refine @Appends.ofBind _ _ _ _ _ fun found => ?_
            cases found <;> (dsimp only; infer_instance)
      unfold apparentWithin
      split <;> infer_instance

instance :
    Appends (checker.apparent type) := by
  unfold apparent
  infer_instance

/-- Reading a property only adds to the log. -/
instance propertyWithin_appends
    (budget : Nat)
    (type : Ty)
    (name : String) :
    Appends (checker.propertyWithin budget type name) := by
  induction budget generalizing type with
  | zero =>
      exact Appends.ofExhausted
  | succ budget inductionHypothesis =>
      unfold propertyWithin
      refine @Appends.ofBind _ _ _ _ _ fun result => ?_
      split
      · infer_instance
      · case _ members =>
          have visits :
              Appends
                (members.mapM fun member =>
                  OptionT.mk
                    (checker.propertyWithin budget member name)).run :=
            Appends.ofOptionMapM _ _ fun member =>
              inductionHypothesis member
          refine @Appends.ofBind _ _ _ _ visits fun found => ?_
          cases found <;> (dsimp only; infer_instance)
      · infer_instance
      · refine @Appends.ofBind _ _ _ _ _ fun found => ?_
        cases found <;> (dsimp only; infer_instance)

instance :
    Appends (checker.propertyOf type name) := by
  unfold propertyOf
  infer_instance

end Checker

end Evaluation

section Comparison

namespace Relating

instance :
    Accountable (fail reason) := by
  unfold fail
  have leaves :
      Accountable
        (modify fun findings : Findings =>
          { findings with reasons := findings.reasons ++ [reason] } :
          Relating PUnit) :=
    Accountable.ofModify fun _ => rfl
  infer_instance

instance :
    Accountable (keepReasons count) := by
  unfold keepReasons
  exact Accountable.ofModify fun _ => rfl

variable (comparison : Relating Bool) [Accountable comparison]

instance :
    Accountable (orFail comparison reason) := by
  unfold orFail
  infer_instance

instance :
    Accountable (attempt comparison) := by
  unfold attempt
  infer_instance

instance :
    Accountable (silently comparison) := by
  unfold silently
  infer_instance

omit comparison in
/-- A run of comparisons only adds to the log when each of them does. -/
theorem allOf_accountable
    {comparisons : List (Relating Bool)}
    (each : ∀ comparison ∈ comparisons, Accountable comparison) :
    Accountable (allOf comparisons) := by
  induction comparisons with
  | nil =>
      unfold allOf
      infer_instance
  | cons comparison rest inductionHypothesis =>
      have head := each comparison (by simp)
      have tail :=
        inductionHypothesis fun other member => each other (by simp [member])
      unfold allOf
      infer_instance

omit comparison in
/-- A search for a comparison that holds only adds to the log. -/
theorem anyOf_accountable
    {comparisons : List (Relating Bool)}
    (each : ∀ comparison ∈ comparisons, Accountable comparison) :
    Accountable (anyOf comparisons) := by
  induction comparisons with
  | nil =>
      unfold anyOf
      infer_instance
  | cons comparison rest inductionHypothesis =>
      have head := each comparison (by simp)
      have tail :=
        inductionHypothesis fun other member => each other (by simp [member])
      unfold anyOf
      infer_instance

instance
    (items : List α)
    (visit : α → Relating Bool)
    [each : ∀ item, Accountable (visit item)] :
    Accountable (allOf (items.map visit)) := by
  refine allOf_accountable fun comparison member => ?_
  obtain ⟨item, _, rfl⟩ := List.mem_map.mp member
  exact each item

instance
    (items : List α)
    (visit : α → Relating Bool)
    [each : ∀ item, Accountable (visit item)] :
    Accountable (anyOf (items.map visit)) := by
  refine anyOf_accountable fun comparison member => ?_
  obtain ⟨item, _, rfl⟩ := List.mem_map.mp member
  exact each item

end Relating

open Relating

/-- Comparing two types only adds to the log. -/
class Comparison.Reports
    (compare : Comparison) :
    Prop where
  run :
    ∀ assumptions source target,
      Accountable (compare assumptions source target)

attribute [instance] Comparison.Reports.run

namespace RelationStep

variable (step : RelationStep) [step.compare.Reports]

instance :
    Accountable (step.expandReference type) := by
  unfold expandReference
  split
  · split <;> infer_instance
  · refine @Accountable.ofBind _ _ _ _ _ _ _ fun result => ?_
    cases result <;> (dsimp only; infer_instance)
  · infer_instance

instance :
    Accountable (step.viaReference assumptions source target) := by
  unfold viaReference
  dsimp only
  split
  · infer_instance
  split
  · infer_instance
  refine @Accountable.ofBind _ _ _ _ _ _ _ fun expandedSource => ?_
  cases expandedSource with
  | error reason =>
      dsimp only
      infer_instance
  | ok first =>
      refine @Accountable.ofBind _ _ _ _ _ _ _ fun expandedTarget => ?_
      cases expandedTarget <;> (dsimp only; infer_instance)

instance :
    Accountable (step.fromUnion assumptions source target) := by
  unfold fromUnion
  refine @Accountable.ofBind _ _ _ _ _ _ _ fun normalized => ?_
  split <;> infer_instance

instance :
    Accountable (step.toUnion assumptions source target) := by
  unfold toUnion
  refine @Accountable.ofBind _ _ _ _ _ _ _ fun normalized => ?_
  split <;> infer_instance

instance :
    Accountable (step.toIntersection assumptions source target) := by
  unfold toIntersection
  refine @Accountable.ofBind _ _ _ _ _ _ _ fun normalized => ?_
  split <;> infer_instance

instance :
    Accountable (step.fromIntersection assumptions source target) := by
  unfold fromIntersection
  refine @Accountable.ofBind _ _ _ _ _ _ _ fun normalized => ?_
  split
  · refine @Accountable.ofBind _ _ _ _ _ _ _ fun found => ?_
    refine @Accountable.ofIte _ _ _ _ _ _ _ _ ?_
    refine @Accountable.ofBind _ _ _ _ _ _ _ fun merged => ?_
    cases merged <;> (dsimp only; infer_instance)
  · infer_instance

instance :
    Accountable (step.toProperty assumptions source target members property) := by
  unfold toProperty
  split
  · infer_instance
  · dsimp only
    infer_instance

instance :
    Accountable (step.toIndex assumptions members index) := by
  unfold toIndex
  dsimp only
  refine @Accountable.ofBind _ _ _ _ _ _ _ fun fits => ?_
  split
  · split <;> infer_instance
  · infer_instance

instance :
    Accountable (step.toMembers assumptions source target members shape) := by
  unfold toMembers
  refine @Accountable.ofBind _ _ _ _ _ _ _ fun fits => ?_
  split
  · split <;> infer_instance
  · infer_instance

instance :
    Accountable (step.toObject assumptions source target shape) := by
  unfold toObject
  split
  · infer_instance
  split
  · infer_instance
  refine @Accountable.ofBind _ _ _ _ _ _ _ fun members => ?_
  cases members <;> (dsimp only; infer_instance)

/-- Every comparison of elements with one type only adds to the log. -/
theorem elementsTo_accountable
    {comparison : Relating Bool}
    (member :
      comparison ∈ step.elementsTo assumptions element position elements) :
    Accountable comparison := by
  induction elements generalizing position with
  | nil =>
      simp [elementsTo] at member
  | cons type rest inductionHypothesis =>
      rcases List.mem_cons.mp member with rfl | inRest
      · infer_instance
      · exact inductionHypothesis inRest

/-- Every comparison of elements in pairs only adds to the log. -/
theorem elementPairs_accountable
    {comparison : Relating Bool}
    (member :
      comparison ∈ step.elementPairs assumptions position first second) :
    Accountable comparison := by
  induction first generalizing position second with
  | nil =>
      simp [elementPairs] at member
  | cons type rest inductionHypothesis =>
      cases second with
      | nil =>
          simp [elementPairs] at member
      | cons other others =>
          rcases List.mem_cons.mp member with rfl | inRest
          · infer_instance
          · exact inductionHypothesis inRest

instance :
    Accountable (step.toArray assumptions source target element readonly) := by
  unfold toArray
  split
  · infer_instance
  · refine @Accountable.ofIte _ _ _ _ _ _ _ _ ?_
    exact allOf_accountable fun _ member => step.elementsTo_accountable member
  · infer_instance

instance :
    Accountable (step.toTuple assumptions source target elements readonly) := by
  unfold toTuple
  split
  · refine @Accountable.ofIte _ _ _ _ _ _ _ _ ?_
    refine @Accountable.ofIte _ _ _ _ _ _ _ _ ?_
    exact allOf_accountable fun _ member =>
      step.elementPairs_accountable member
  · infer_instance

instance :
    Accountable
      (step.toArgument assumptions bivariant parameter argument) := by
  unfold toArgument
  infer_instance

/-- Every comparison of a supplied parameter only adds to the log. -/
theorem suppliedParameters_accountable
    {comparison : Relating Bool}
    (member :
      comparison ∈
        step.suppliedParameters assumptions bivariant target position
          parameters) :
    Accountable comparison := by
  induction parameters generalizing position with
  | nil =>
      simp [suppliedParameters] at member
  | cons parameter rest inductionHypothesis =>
      rcases List.mem_cons.mp member with rfl | inRest
      · split <;> infer_instance
      · exact inductionHypothesis inRest

/-- Every comparison with a rest parameter only adds to the log. -/
theorem restParameters_accountable
    {comparison : Relating Bool}
    (member :
      comparison ∈
        step.restParameters assumptions bivariant rest position parameters) :
    Accountable comparison := by
  induction parameters generalizing position with
  | nil =>
      simp [restParameters] at member
  | cons parameter others inductionHypothesis =>
      rcases List.mem_cons.mp member with rfl | inRest
      · infer_instance
      · exact inductionHypothesis inRest

/-- Every comparison of rest parameters only adds to the log. -/
theorem restTo_accountable
    {comparison : Relating Bool}
    (member :
      comparison ∈ step.restTo assumptions bivariant source target) :
    Accountable comparison := by
  unfold restTo at member
  split at member
  · simp at member
  · rcases List.mem_append.mp member with positions | rests
    · exact step.restParameters_accountable positions
    · split at rests
      · simp at rests
      · rcases List.mem_singleton.mp rests with rfl
        infer_instance

instance :
    Accountable (step.resultTo assumptions source target) := by
  unfold resultTo
  infer_instance

instance :
    Accountable (step.toFunction assumptions source target) := by
  unfold toFunction
  split
  · refine allOf_accountable fun comparison member => ?_
    rcases List.mem_append.mp member with earlier | result
    · rcases List.mem_append.mp earlier with supplied | rest
      · exact step.suppliedParameters_accountable supplied
      · exact step.restTo_accountable rest
    · rcases List.mem_singleton.mp result with rfl
      infer_instance
  · infer_instance

instance :
    Accountable (step.compareShapes assumptions source target) := by
  unfold compareShapes
  split
  · unfold toPrimitive
    infer_instance
  · unfold toLiteral
    infer_instance
  all_goals infer_instance

instance :
    Accountable (step.relate assumptions source target) := by
  unfold relate
  infer_instance

end RelationStep

namespace Checker

variable (checker : Checker)

/-- The flag of a comparison goes up together with a report. -/
instance :
    Accountable (checker.failAtBound target) where
  appends state := by
    obtain ⟨reasons, tooComplex⟩ := state
    cases tooComplex with
    | false =>
        exact Appends.ofBind (checker.reportTooComplex .assign target)
          fun _ => pure (false, _)
    | true =>
        exact Appends.ofPure (false, _)
  reported {state value after added} run := by
    obtain ⟨reasons, tooComplex⟩ := state
    cases tooComplex with
    | false =>
        cases run
        refine .inr ⟨rfl, fun quiet => ?_⟩
        exact quiet _ (List.mem_singleton.mpr rfl) rfl
    | true =>
        cases run
        exact .inl rfl

/-- Comparing only adds to the log, however much of the bound is left. -/
instance
    (remaining : Nat) :
    Comparison.Reports (checker.compareWithin remaining) := by
  induction remaining with
  | zero =>
      constructor
      intro assumptions source target
      unfold compareWithin
      infer_instance
  | succ remaining inductionHypothesis =>
      constructor
      intro assumptions source target
      unfold compareWithin
      infer_instance

instance :
    Appends (checker.compare source target) :=
  ((inferInstance : Comparison.Reports
    (checker.compareWithin checker.options.maxDepth)).run
      {} source target).appends {}

instance :
    Appends (checker.isAssignable source target) := by
  unfold isAssignable
  infer_instance

instance :
    Appends (checker.assign source target) := by
  unfold assign
  infer_instance

end Checker

end Comparison

end StructuralTyping
