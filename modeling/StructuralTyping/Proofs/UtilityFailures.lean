import StructuralTyping.Proofs.Reporting

namespace StructuralTyping

/-!
# Failures of utilities are reported

The place where the depth bound is met reports it before it fails, and nothing
that works on references fails for the depth bound otherwise. So the application
that a failure surfaces at has to report the other kinds of failure only, and
still every failure has left a report of its kind.
-/

open Check

/--
An evaluation that owns up to the depth bound: what fails without a report of an
exceeded depth failed for another reason.
-/
class Candid
    (computation : Evaluate α) :
    Prop where
  appends : Appends computation.run
  other :
    ∀ {error : UtilityError},
      Settles computation.run (.error error) →
      error.kind ≠ .typeTooComplex

namespace Candid

instance ofPure
    (value : α) :
    Candid (pure value : Evaluate α) where
  appends := inferInstance
  other settles := by
    cases settles_pure.mp settles

/-- A failure of another kind does not hide an exceeded depth. -/
theorem ofThrow
    {error : UtilityError}
    (other : error.kind ≠ .typeTooComplex) :
    Candid (throw error : Evaluate α) where
  appends := inferInstance
  other settles := by
    cases settles_pure.mp settles
    exact other

instance ofExhausted :
    Candid (Check.exhausted : Check (Except UtilityError α)) where
  appends := Appends.ofExhausted
  other settles := absurd settles not_settles_exhausted

/-- The depth bound is reported before it makes an evaluation fail. -/
instance ofDepth
    (checker : Checker)
    (type : Ty) :
    Candid (checker.failTooComplex type : Evaluate α) where
  appends := inferInstance
  other := by
    rintro error ⟨added, run, quiet⟩
    cases run
    exact absurd rfl (quiet _ (List.mem_singleton_self _))

instance ofBind
    (first : Evaluate α)
    (next : α → Evaluate β)
    [head : Candid first]
    [tail : ∀ value, Candid (next value)] :
    Candid (first >>= next) where
  appends :=
    @Appends.ofEvaluateBind _ _ _ _ head.appends fun value =>
      (tail value).appends
  other settles := by
    rcases settles.of_evaluateBind fun value => (tail value).appends with
      ⟨value, _, settles⟩ | ⟨_, settles, ⟨⟩⟩
    · exact (tail value).other settles
    · exact head.other settles

/-- What cannot fail has nothing to own up to. -/
instance ofLift
    (computation : Check α)
    [Appends computation] :
    Candid (liftM computation : Evaluate α) where
  appends := inferInstance
  other settles := by
    obtain ⟨value, ⟨⟩, _⟩ := settles.of_evaluateLift

instance ofIte
    (condition : Prop)
    [Decidable condition]
    (first second : Evaluate α)
    [Candid first]
    [Candid second] :
    Candid (if condition then first else second) := by
  split <;> assumption

/-- Evaluating a list is candid when every item is. -/
theorem ofMapM
    {visit : α → Evaluate β}
    {items : List α}
    (each : ∀ item, Candid (visit item)) :
    Candid (items.mapM visit) := by
  induction items with
  | nil =>
      exact ofPure []
  | cons item rest inductionHypothesis =>
      rw [List.mapM_cons]
      infer_instance

end Candid

/-- Evaluating an application owns up to the depth bound. -/
class Evaluator.Candid
    (evaluate : Evaluator) :
    Prop where
  run :
    ∀ application depth,
      StructuralTyping.Candid (evaluate application depth)

attribute [instance] Evaluator.Candid.run

namespace Evaluation

variable
  (evaluation : Evaluation)
  [evaluation.evaluate.Reports]
  [evaluation.evaluate.Candid]

/-- Following references owns up to the depth bound. -/
instance resolveWithin_candid
    (remaining depth : Nat)
    (type : Ty) :
    Candid (evaluation.resolveWithin remaining depth type) := by
  induction remaining generalizing depth type with
  | zero =>
      unfold resolveWithin
      infer_instance
  | succ remaining inductionHypothesis =>
      cases type with
      | named reference =>
          unfold resolveWithin
          split
          · exact .ofThrow nofun
          · infer_instance
      | _ =>
          unfold resolveWithin
          infer_instance

instance :
    Candid (evaluation.resolve depth type) := by
  unfold resolve
  infer_instance

/-- Looking behind references owns up to the depth bound. -/
instance structuralWithin_candid
    (remaining depth : Nat)
    (type : Ty) :
    Candid (evaluation.structuralWithin remaining depth type) := by
  induction remaining generalizing depth type with
  | zero =>
      unfold structuralWithin
      refine @Candid.ofBind _ _ _ _ _ fun resolved => ?_
      cases resolved <;> (dsimp only; infer_instance)
  | succ remaining inductionHypothesis =>
      unfold structuralWithin
      refine @Candid.ofBind _ _ _ _ _ fun resolved => ?_
      cases resolved <;> (dsimp only; infer_instance)

instance :
    Candid (evaluation.structural depth type) := by
  unfold structural
  infer_instance

instance :
    Candid (evaluation.objectBase utility depth base) := by
  unfold objectBase
  refine @Candid.ofBind _ _ _ _ _ fun type => ?_
  split
  · infer_instance
  · exact .ofThrow nofun

instance :
    Candid (evaluation.functionBase utility depth base) := by
  unfold functionBase
  refine @Candid.ofBind _ _ _ _ _ fun type => ?_
  split
  · infer_instance
  · exact .ofThrow nofun

/-- A key is either a text or refused as an argument. -/
instance keyOf_candid
    (utility : String)
    (key : Ty) :
    Candid (keyOf utility key) := by
  unfold keyOf
  split
  · infer_instance
  · exact .ofThrow nofun

instance :
    Candid (evaluation.keySet utility keys) := by
  unfold keySet
  split
  · infer_instance
  · split
    · split
      · exact .ofMapM inferInstance
      · exact .ofThrow nofun
    · exact .ofMapM inferInstance

instance :
    Candid (evaluation.keyedBase application depth) := by
  unfold keyedBase
  split
  · infer_instance
  · exact .ofThrow nofun

instance expectNoArguments_candid
    (application : Application Ty) :
    Candid (expectNoArguments application) := by
  unfold expectNoArguments
  split
  · infer_instance
  · exact .ofThrow nofun

instance :
    Candid (evaluation.applyPick application depth) := by
  unfold applyPick
  refine @Candid.ofBind _ _ _ _ _ fun keyed => ?_
  obtain ⟨shape, keys⟩ := keyed
  dsimp only
  split
  · exact .ofThrow nofun
  · infer_instance

instance :
    Candid (evaluation.applyReadonly application depth) := by
  unfold applyReadonly
  refine @Candid.ofBind _ _ _ _ _ fun _ => ?_
  refine @Candid.ofBind _ _ _ _ _ fun type => ?_
  split
  · infer_instance
  · infer_instance
  · infer_instance
  · exact .ofThrow nofun

/-- Applying a utility owns up to the depth bound. -/
instance :
    Candid (evaluation.apply application depth) := by
  unfold apply
  split
  · exact .ofThrow nofun
  split
  · infer_instance
  split
  · infer_instance
  · unfold applyOmit
    infer_instance
  · unfold applyOptional
    infer_instance
  · unfold applyOptional
    infer_instance
  · infer_instance
  · unfold applyReturnType
    infer_instance
  · unfold applyParameters
    infer_instance
  · unfold applyNonNullable
    infer_instance
  · exact .ofThrow nofun

end Evaluation

namespace Checker

variable {checker : Checker}

instance
    (checker : Checker)
    (budget : Nat) :
    Evaluator.Candid (checker.evaluateWithin budget) := by
  induction budget with
  | zero =>
      exact ⟨fun _ _ => Candid.ofExhausted⟩
  | succ budget inductionHypothesis =>
      constructor
      intro application depth
      unfold evaluateWithin
      infer_instance

/-- Reporting a failure adds what the failure says, and nothing for the depth bound. -/
theorem reportFailure_run
    {error : UtilityError}
    {log after : Log}
    (run : reportFailure error log = .ok ((), after)) :
    error.kind = .typeTooComplex ∧ after = log ∨
      ∃ diagnostic : Diagnostic,
        diagnostic.code = error.kind.code ∧
          diagnostic.message = error.message ∧ after = log ++ [diagnostic] := by
  unfold reportFailure at run
  split at run
  · next bound =>
    cases run
    exact .inl ⟨bound, rfl⟩
  · cases run
    exact .inr ⟨_, rfl, rfl, rfl⟩

/--
A utility that fails, whatever it was applied to, keeps all that was reported
before and adds a report with the code of its kind of failure. Unless the depth
bound was exceeded, that report is the last one and says what the failure says.
-/
theorem applyUtility_reports
    {application : Application Ty}
    {error : UtilityError}
    {log after : Log}
    (run :
      checker.applyUtility application log = .ok (.error error, after)) :
    ∃ added,
      after = log ++ added ∧
        (∃ diagnostic ∈ added, diagnostic.code = error.kind.code) ∧
        (error.kind ≠ .typeTooComplex →
          ∃ earlier diagnostic,
            added = earlier ++ [diagnostic] ∧
              diagnostic.code = error.kind.code ∧
              diagnostic.message = error.message) := by
  obtain ⟨⟨outcome, between⟩, evaluates, reports⟩ :=
    Except.bind_eq_ok.mp run
  change
    (checker.evaluation.evaluate application 0).run log =
      .ok (outcome, between)
    at evaluates
  cases outcome with
  | ok => cases reports
  | error failure =>
      obtain ⟨⟨⟨⟩, reported⟩, reports, same⟩ :=
        Except.bind_eq_ok.mp reports
      cases same
      have appends :
          Appends (checker.evaluation.evaluate application 0).run :=
        inferInstanceAs
          (Appends (checker.evaluateWithin checker.budget application 0).run)
      have candid : Candid (checker.evaluation.evaluate application 0) :=
        inferInstanceAs
          (Candid (checker.evaluateWithin checker.budget application 0))
      rw [appends.shift log] at evaluates
      obtain ⟨⟨_, added⟩, fresh, same⟩ :=
        Except.map_eq_ok.mp evaluates
      cases same
      rcases reportFailure_run reports with
        ⟨bound, rfl⟩ | ⟨diagnostic, code, message, rfl⟩
      · refine ⟨added, rfl, ?_, fun other => absurd bound other⟩
        by_contra silent
        refine candid.other ⟨added, fresh, fun diagnostic member found => ?_⟩
          bound
        exact silent ⟨diagnostic, member, by rw [found, bound]; rfl⟩
      · exact ⟨added ++ [diagnostic], List.append_assoc .., by simp [code],
          fun _ => ⟨added, diagnostic, rfl, code, message⟩⟩

section Loops

/-- The reference to a name that is defined by making itself optional. -/
def loop : Ty :=
  .named { arena := 0, id := 0, name := "Loop" }

/-- The same reference made optional. -/
def optionalLoop : Application Ty :=
  { utility := "Partial", base := loop, arguments := [] }

/-- The definition of a name by making itself optional. -/
def optionalLoopArena : Arena :=
  { declarations :=
      [{ name := "Loop", definition := .generic none optionalLoop }] }

/-- Below nested applications too, the depth bound is not exceeded in silence. -/
theorem applyUtility_reports_loop :
    ∃ error : UtilityError,
      error.kind = .typeTooComplex ∧
        ∃ added,
          applyUtility
              { arena := optionalLoopArena, options := { maxDepth := 2 }
                budget := 9 }
              optionalLoop [] =
            .ok (.error error, added) ∧
          ∃ diagnostic ∈ added, diagnostic.code = .typeTooComplex := by
  have run :
      applyUtility
          { arena := optionalLoopArena, options := { maxDepth := 2 }
            budget := 9 }
          optionalLoop [] =
        .ok
          (.error
            { utility := ""
              cause := .depthExceeded 2 (.generic none optionalLoop) },
            [{ stage := .utility
               severity := .error
               code := .typeTooComplex
               message :=
                "type Partial<Loop> exceeds the recursion depth bound of 2"
               help :=
                "break the recursion with a named type so the cycle can be detected" }]) := by
    decide +kernel
  obtain ⟨added, same, reported, _⟩ := applyUtility_reports run
  exact ⟨_, rfl, _, run, same ▸ reported⟩

end Loops

end Checker

end StructuralTyping
