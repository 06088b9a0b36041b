import StructuralTyping.Proofs.FrameBalance

namespace StructuralTyping

/-!
# The end of a function body

A body that can end without a return is reported once, where the declared result
does not admit `undefined`. Which of the two reports it is depends on the last
statement of the body alone: each statement of a block settles what is pending
anew, so nothing that stands in front of the last statement or inside of it can
be blamed for the missing return.
-/

open Check
open Stateful (Accountable)

/-- All runs from a state that answer give the same answer. -/
theorem Check.Answers.unique_run
    [Flagged σ]
    {computation : StateT σ Check α}
    [accountable : Accountable computation]
    (first : Answers (computation state) value)
    (second : Answers (computation state) other) :
    value = other :=
  @Answers.unique _ _ _ _ (accountable.appends state) first second

/-- What answers adds ordinary reports to every log. -/
theorem Check.Appends.run_adds
    {computation : Check α}
    [appends : Appends computation]
    (run : computation log = .ok (value, after)) :
    ∃ added,
      after = log ++ added ∧ added.Ordinary ∧ Answers computation value := by
  have shifted := appends.shift log
  rw [run] at shifted
  obtain ⟨⟨answer, added⟩, fresh, same⟩ :=
    Except.map_eq_ok.mp shifted.symm
  cases same
  exact ⟨added, rfl, appends.ordinary fresh, ⟨[], added, fresh⟩⟩

/-- The reports about the end of a function. -/
def Log.fallOffs
    (log : Log) :
    Log :=
  log.filter Diagnostic.isFallOff

namespace Log

@[simp] theorem fallOffs_append
    (first second : Log) :
    fallOffs (first ++ second) = fallOffs first ++ fallOffs second :=
  List.filter_append ..

/-- Ordinary reports are not about the end of a function. -/
theorem Ordinary.fallOffs_eq
    {log : Log}
    (ordinary : log.Ordinary) :
    log.fallOffs = [] :=
  List.filter_eq_nil_iff.mpr fun diagnostic member => by
    simp [ordinary diagnostic member]

end Log

namespace Checker

variable {checker : Checker}

section Positions

/-- Where a walk through a block stands between two statements. -/
structure Position where
  /-- The scopes that are visible. -/
  scope : Scope
  /-- What the walk has recorded. -/
  walk : Walk
  /-- The bindings, narrowed by the facts that hold here. -/
  table : BindingTable

/-- A statement does not end the walk and leads to a further position. -/
def Steps
    (checker : Checker)
    (result : Ty)
    (before : Position)
    (statement : Statement)
    (after : Position) :
    Prop :=
  ∃ facts table,
    Answers
        (checker.walkStatement result before.scope statement
          { before.walk with pending := none } before.table)
        ((.continued after.scope facts, after.walk), table) ∧
      after.table = narrowedTable after.scope table facts

/-- None of the statements ends the walk, and together they lead further. -/
inductive Passes
    (checker : Checker)
    (result : Ty) :
    Position →
    List Statement →
    Position →
    Prop where
  | nil :
      Passes checker result position [] position
  | cons :
      Steps checker result before statement between →
      Passes checker result between rest after →
      Passes checker result before (statement :: rest) after

/-- A statement leads to one position at most. -/
theorem Steps.unique
    (first : Steps checker result before statement after)
    (second : Steps checker result before statement other) :
    after = other := by
  obtain ⟨facts, table, answers, same⟩ := first
  obtain ⟨otherFacts, otherTable, otherAnswers, otherSame⟩ := second
  have equal := answers.unique_run otherAnswers
  obtain ⟨scope, walk, narrowed⟩ := after
  obtain ⟨otherScope, otherWalk, otherNarrowed⟩ := other
  dsimp only at same otherSame equal
  simp only [Prod.mk.injEq, StatementOutcome.continued.injEq] at equal
  obtain ⟨⟨⟨rfl, rfl⟩, rfl⟩, rfl⟩ := equal
  rw [same, otherSame]

namespace Passes

/-- Statements lead to one position at most. -/
theorem unique
    (first : Passes checker result before statements after)
    (second : Passes checker result before statements other) :
    after = other := by
  induction first with
  | nil =>
      cases second
      rfl
  | cons steps _ inductionHypothesis =>
      obtain _ | ⟨otherSteps, otherRest⟩ := second
      cases steps.unique otherSteps
      exact inductionHypothesis otherRest

/-- The last statement leads on from where the others lead. -/
theorem last
    (passes :
      Passes checker result before (statements ++ [statement]) after) :
    ∃ between,
      Passes checker result before statements between ∧
        Steps checker result between statement after := by
  induction statements generalizing before with
  | nil =>
      obtain _ | ⟨steps, ends⟩ := passes
      cases ends
      exact ⟨before, .nil, steps⟩
  | cons first rest inductionHypothesis =>
      obtain _ | ⟨steps, others⟩ := passes
      obtain ⟨between, early, late⟩ := inductionHypothesis others
      exact ⟨between, .cons steps early, late⟩

end Passes

/-- A block that can end without a return is passed as a whole. -/
theorem walkBlock_passes
    {scope : Scope}
    {walk later : Walk}
    {table after : BindingTable}
    (answers :
      Answers (checker.walkBlock result scope statements walk table)
        ((false, later), after)) :
    ∃ position,
      Passes checker result ⟨scope, walk, table⟩ statements position ∧
        position.walk = later := by
  induction statements generalizing scope walk table after with
  | nil =>
      unfold walkBlock at answers
      cases answers_pure.mp answers
      exact ⟨_, .nil, rfl⟩
  | cons statement rest inductionHypothesis =>
      unfold walkBlock setPending at answers
      obtain ⟨_, _, _, pends, answers⟩ := answers.walkBetween
      cases answers_pure.mp pends
      obtain ⟨outcome, between, middle, walks, continues⟩ :=
        answers.walkBetween
      cases outcome with
      | returned =>
          cases answers_pure.mp continues
      | continued next facts =>
          obtain ⟨inner, goesOn, _⟩ := withFacts_answers continues
          obtain ⟨position, passes, same⟩ := inductionHypothesis goesOn
          exact ⟨position, .cons ⟨facts, middle, walks, rfl⟩ passes, same⟩

end Positions

section Pending

/--
At a position, a statement is a switch without default whose subject has a
coverage that its labels leave open.
-/
def LeavesOpen
    (checker : Checker)
    (position : Position)
    (statement : Statement) :
    Prop :=
  ∃ subject clauses subjectType coverage residual,
    statement = .switch subject clauses none ∧
      Answers (checker.typeOf position.scope subject position.table)
        (subjectType, position.table) ∧
      Answers
        (checker.switchCoverage? position.scope subject subjectType
          position.table)
        (some coverage, position.table) ∧
      Answers
        ((coverage.handleAll ((allLabels clauses).map CaseLabel.value)).residual
          checker)
        residual ∧
      residual.isNever = false

/-- What a switch leaves is what its coverage leaves. -/
theorem switchResidual_answers
    {coverage : Coverage}
    (answers : Answers (checker.switchResidual coverage) found) :
    Answers (coverage.residual checker) found.residual ∧
      found.exhaustive = found.residual.isNever := by
  unfold switchResidual Coverage.exhaustive at answers
  obtain ⟨exhaustive, tests, answers⟩ := answers.of_bind
  obtain ⟨residual, leaves, same⟩ := answers.of_bind
  cases answers_pure.mp same
  obtain ⟨again, leavesAgain, rest⟩ := tests.of_bind
  cases answers_pure.mp rest
  cases leavesAgain.unique leaves
  exact ⟨leaves, rfl⟩

/-- After a switch without default, what its coverage leaves open is pending. -/
theorem switch_pending
    {position after : Position}
    (steps :
      Steps checker result position (.switch subject clauses none) after) :
    after.walk.pending.isSome ↔
      LeavesOpen checker position (.switch subject clauses none) := by
  obtain ⟨facts, table, answers, _⟩ := steps
  unfold walkStatement at answers
  obtain ⟨subjectType, _, _, types, answers⟩ := answers.walkBetween
  obtain ⟨typed, rfl⟩ := types.liftedWalk
  cases Restores.same typed
  obtain ⟨coverage, _, _, covers, answers⟩ := answers.walkBetween
  obtain ⟨covered, rfl⟩ := covers.liftedWalk
  cases Restores.same covered
  obtain ⟨_, _, _, _, finishes⟩ := answers.walkBetween
  obtain ⟨residual, found, _, pending, _⟩ := finishSwitch_answers finishes
  rw [pending]
  constructor
  · intro isOpen
    obtain ⟨left, rfl, isPartial⟩ :
        ∃ left, residual = some left ∧ left.exhaustive = false := by
      cases residual with
      | none =>
          cases isOpen
      | some left =>
          refine ⟨left, rfl, ?_⟩
          simpa [Option.isSome_filter] using isOpen
    cases coverage with
    | none =>
        cases found
    | some coverage =>
        obtain ⟨leaves⟩ := found
        obtain ⟨same, exhausted⟩ := switchResidual_answers leaves
        exact ⟨subject, clauses, subjectType, coverage, left.residual, rfl,
          typed, covered, same, exhausted ▸ isPartial⟩
  · rintro ⟨_, _, otherType, otherCoverage, otherResidual, ⟨⟩, otherTyped,
      otherCovered, otherLeaves, isPartial⟩
    cases otherTyped.unique_run typed
    cases otherCovered.unique_run covered
    obtain ⟨leaves⟩ := found
    obtain ⟨same, exhausted⟩ := switchResidual_answers leaves
    cases otherLeaves.unique same
    simp [exhausted, isPartial]

/-- After any statement but a switch without default, nothing is pending. -/
theorem Steps.pending_none
    (steps : Steps checker result position statement after)
    (other :
      ∀ subject clauses, statement ≠ .switch subject clauses none) :
    after.walk.pending = none := by
  obtain ⟨facts, table, answers, _⟩ := steps
  obtain ⟨scope, walk, narrowed⟩ := after
  cases statement with
  | declare name ascription initial policy =>
      unfold walkStatement at answers
      obtain ⟨_, _, _, lifted, returns⟩ := answers.walkBetween
      obtain ⟨_, rfl⟩ := lifted.liftedWalk
      cases answers_pure.mp returns
      rfl
  | inspect label expression =>
      unfold walkStatement at answers
      obtain ⟨_, _, _, lifted, records⟩ := answers.walkBetween
      obtain ⟨_, rfl⟩ := lifted.liftedWalk
      obtain ⟨_, _, _, observes, returns⟩ := records.walkBetween
      cases answers_pure.mp observes
      cases answers_pure.mp returns
      rfl
  | «return» value =>
      unfold walkStatement at answers
      obtain ⟨_, _, _, _, returns⟩ := answers.walkBetween
      cases answers_pure.mp returns
  | choose guard positive negative =>
      unfold walkStatement at answers
      obtain ⟨_, _, _, _, continues⟩ := answers.walkBetween
      obtain ⟨_, _, _, _, finishes⟩ := continues.walkBetween
      exact (finishChoice_answers finishes).2.1
  | switch subject clauses otherwise =>
      cases otherwise with
      | none =>
          exact (other subject clauses rfl).elim
      | some body =>
          unfold walkStatement at answers
          obtain ⟨_, _, _, _, covers⟩ := answers.walkBetween
          obtain ⟨_, _, _, _, handles⟩ := covers.walkBetween
          obtain ⟨_, _, _, _, ends⟩ := handles.walkBetween
          obtain ⟨_, _, _, _, finishes⟩ := ends.walkBetween
          exact (finishTotalSwitch_answers finishes).2.1

/-- What is pending after a switch has been found open. -/
theorem switch_pending_open
    {position after : Position}
    (steps :
      Steps checker result position (.switch subject clauses none) after) :
    ∀ residual ∈ after.walk.pending, residual.exhaustive = false := by
  obtain ⟨facts, table, answers, _⟩ := steps
  unfold walkStatement at answers
  obtain ⟨_, _, _, _, covers⟩ := answers.walkBetween
  obtain ⟨_, _, _, _, handles⟩ := covers.walkBetween
  obtain ⟨_, _, _, _, finishes⟩ := handles.walkBetween
  obtain ⟨_, _, _, pending, _⟩ := finishSwitch_answers finishes
  intro residual member
  rw [pending] at member
  simpa using (Option.mem_filter_iff.mp member).2

/-- What is pending after a statement is decided by this statement alone. -/
theorem Steps.pending
    (steps : Steps checker result position statement after) :
    after.walk.pending.isSome ↔ LeavesOpen checker position statement := by
  by_cases isSwitch : ∃ subject clauses, statement = .switch subject clauses none
  · obtain ⟨subject, clauses, rfl⟩ := isSwitch
    exact switch_pending steps
  · rw [steps.pending_none fun subject clauses same =>
      isSwitch ⟨subject, clauses, same⟩]
    refine ⟨fun impossible => (nomatch impossible), ?_⟩
    rintro ⟨subject, clauses, _, _, _, same, _⟩
    exact (isSwitch ⟨subject, clauses, same⟩).elim

/-- What is pending after statements has been found open. -/
theorem Passes.pending_open
    (passes : Passes checker result before statements after)
    (isOpen : ∀ residual ∈ before.walk.pending, residual.exhaustive = false) :
    ∀ residual ∈ after.walk.pending, residual.exhaustive = false := by
  induction passes with
  | nil =>
      exact isOpen
  | @cons _ statement _ _ _ steps _ inductionHypothesis =>
      refine inductionHypothesis ?_
      by_cases isSwitch :
        ∃ subject clauses, statement = .switch subject clauses none
      · obtain ⟨subject, clauses, rfl⟩ := isSwitch
        exact switch_pending_open steps
      · rw [steps.pending_none fun subject clauses same =>
          isSwitch ⟨subject, clauses, same⟩]
        exact nofun

/-- Where the walk through a function body starts. -/
def Position.start
    (function : FunctionBody) :
    Position :=
  { scope := [] :: (Scope.ofTypes function.parameters).2
    walk := {}
    table := (Scope.ofTypes function.parameters).1 }

/--
The last statement of a body is a switch without default that leaves its
coverage open where the statements before lead.
-/
def EndsOpen
    (checker : Checker)
    (function : FunctionBody) :
    Prop :=
  ∃ before last position,
    function.body = before ++ [last] ∧
      Passes checker function.result (.start function) before position ∧
      LeavesOpen checker position last

/-- At the end of a body, what its last statement leaves open is pending. -/
theorem Passes.pending
    {function : FunctionBody}
    (passes :
      Passes checker function.result (.start function) function.body position) :
    position.walk.pending.isSome ↔ checker.EndsOpen function := by
  rcases List.eq_nil_or_concat function.body with empty | ⟨before, last, body⟩
  · rw [empty] at passes
    cases passes
    refine ⟨fun impossible => (nomatch impossible), ?_⟩
    rintro ⟨before, last, _, body, _⟩
    exact (List.append_ne_nil_of_right_ne_nil before (List.cons_ne_nil last [])
      (body.symm.trans empty)).elim
  · rw [List.concat_eq_append] at body
    rw [body] at passes
    obtain ⟨between, early, steps⟩ := passes.last
    rw [steps.pending]
    constructor
    · exact fun leaves => ⟨before, last, between, body, early, leaves⟩
    · rintro ⟨others, other, otherBetween, otherBody, otherEarly, leaves⟩
      obtain ⟨rfl, rfl⟩ :=
        List.append_singleton_inj.mp (body.symm.trans otherBody)
      cases early.unique otherEarly
      exact leaves

end Pending

section Reports

/-- Values of a declared result type cannot be missing. -/
def Demands
    (checker : Checker)
    (result : Ty) :
    Prop :=
  result.isAbsent = false ∧
    Answers (checker.isAssignable .undefined result) false

/-- One report about the end of a function, of which it is known what it says. -/
def ReportsOnce
    (added : Log)
    (isOpen : Prop) :
    Prop :=
  ∃ diagnostic,
    added.fallOffs = [diagnostic] ∧
      (diagnostic.code = .nonExhaustive ↔ isOpen)

/-- A residual that nothing handles is reported where a result is demanded. -/
theorem reportNonExhaustive_run
    {log after : Log}
    (demands : checker.Demands declared)
    (isOpen : result.exhaustive = false)
    (run :
      checker.reportNonExhaustive result declared span log =
        .ok (reported, after)) :
    reported = true ∧
      ∃ added, after = log ++ added ∧ ReportsOnce added True := by
  unfold reportNonExhaustive at run
  rw [if_neg (by simp [isOpen, demands.1])] at run
  obtain ⟨⟨accepts, between⟩, asks, rest⟩ := Except.bind_eq_ok.mp run
  obtain ⟨early, rfl, ordinary, answers⟩ := Appends.run_adds asks
  cases answers.unique demands.2
  cases rest
  refine ⟨rfl, early ++ [nonExhaustiveDiagnostic result span], by simp,
    nonExhaustiveDiagnostic result span, ?_, ?_⟩
  · rw [Log.fallOffs_append, ordinary.fallOffs_eq]
    rfl
  · exact iff_of_true rfl trivial

/-- Where a result is demanded, a missing return is reported once. -/
theorem reportFallOff_run
    {function : FunctionBody}
    {log after : Log}
    (isOpen : ∀ residual ∈ pending, residual.exhaustive = false)
    (run : checker.reportFallOff function pending log = .ok ((), after)) :
    ∃ added,
      after = log ++ added ∧
        (checker.Demands function.result →
          ReportsOnce added (pending.isSome = true)) ∧
        (¬ checker.Demands function.result → added.fallOffs = []) := by
  unfold reportFallOff at run
  split at run
  · next absent =>
    cases run
    exact ⟨[], by simp, fun demands => by simp [demands.1] at absent,
      fun _ => rfl⟩
  · next declared =>
    obtain ⟨⟨accepts, between⟩, asks, rest⟩ := Except.bind_eq_ok.mp run
    obtain ⟨early, rfl, ordinary, answers⟩ := Appends.run_adds asks
    cases accepts with
    | true =>
        cases rest
        exact ⟨early, rfl, fun demands => (nomatch answers.unique demands.2),
          fun _ => ordinary.fallOffs_eq⟩
    | false =>
        have demands : checker.Demands function.result :=
          ⟨by simpa using declared, answers⟩
        cases pending with
        | none =>
            cases rest
            refine ⟨early ++ [missingReturnDiagnostic function], by simp,
              fun _ =>
                ⟨missingReturnDiagnostic function, ?_, ?_⟩, fun none => (none demands).elim⟩
            · rw [Log.fallOffs_append, ordinary.fallOffs_eq]
              rfl
            · exact iff_of_false nofun nofun
        | some residual =>
            obtain ⟨⟨reported, middle⟩, reports, last⟩ :=
              Except.bind_eq_ok.mp rest
            obtain ⟨rfl, late, rfl, diagnostic, once, said⟩ :=
              reportNonExhaustive_run demands (isOpen residual rfl) reports
            cases last
            refine ⟨early ++ late, by simp, fun _ => ⟨diagnostic, ?_, ?_⟩,
              fun none => (none demands).elim⟩
            · rw [Log.fallOffs_append, ordinary.fallOffs_eq, once]
              rfl
            · exact said.trans (iff_of_true trivial rfl)

/-- The walk through a body adds ordinary reports, and the end is looked at last. -/
theorem checkFunction_run
    {function : FunctionBody}
    {report : FunctionReport}
    {log after : Log}
    (run : checker.checkFunction function log = .ok (report, after)) :
    ∃ returns walk table added,
      added.Ordinary ∧
        report.fallsThrough = !returns ∧
        Answers
          (checker.walkBlock function.result
            ([] :: (Scope.ofTypes function.parameters).2) function.body {}
            (Scope.ofTypes function.parameters).1)
          ((returns, walk), table) ∧
        if returns then after = log ++ added
        else
          checker.reportFallOff function walk.pending (log ++ added) =
            .ok ((), after) := by
  obtain ⟨⟨⟨⟨returns, walk⟩, table⟩, between⟩, walks, rest⟩ :=
    Except.bind_eq_ok.mp run
  have appends :=
    ((walkBlock_walks checker function.result
      ([] :: (Scope.ofTypes function.parameters).2) function.body).run
      {}).appends (Scope.ofTypes function.parameters).1
  obtain ⟨added, rfl, ordinary, answers⟩ := appends.run_adds walks
  cases returns with
  | true =>
      cases rest
      exact ⟨true, walk, table, added, ordinary, rfl, answers, rfl⟩
  | false =>
      obtain ⟨⟨_, middle⟩, reports, last⟩ := Except.bind_eq_ok.mp rest
      cases last
      exact ⟨false, walk, table, added, ordinary, rfl, answers, reports⟩

/--
A missing return is reported exactly, whatever the log before. A report about the
end of the function is added if and only if its body can end without a return and
its declared result does not admit `undefined`. There is one such report then,
and it names unhandled members if and only if the last statement of the body is a
switch without default that leaves its coverage open.
-/
theorem missing_return_reported
    (checker : Checker)
    (function : FunctionBody)
    (report : FunctionReport)
    (log after : Log)
    (run : checker.checkFunction function log = .ok (report, after)) :
    ∃ added,
      after = log ++ added ∧
        (added.fallOffs ≠ [] ↔
          report.fallsThrough = true ∧ checker.Demands function.result) ∧
        (added.fallOffs ≠ [] →
          ReportsOnce added (checker.EndsOpen function)) := by
  obtain ⟨returns, walk, table, early, ordinary, falls, walks, ends⟩ :=
    checkFunction_run run
  cases returns with
  | true =>
      exact ⟨early, ends, by simp [ordinary.fallOffs_eq, falls],
        fun some => (some ordinary.fallOffs_eq).elim⟩
  | false =>
      obtain ⟨position, passes, rfl⟩ := walkBlock_passes walks
      obtain ⟨late, same, demanded, notDemanded⟩ :=
        reportFallOff_run (passes.pending_open nofun) ends
      have lateOnly : (early ++ late).fallOffs = late.fallOffs := by
        rw [Log.fallOffs_append, ordinary.fallOffs_eq, List.nil_append]
      refine ⟨early ++ late, by simpa using same, ?_, ?_⟩ <;> rw [lateOnly]
      · constructor
        · intro some
          exact ⟨falls, by_contra fun none => some (notDemanded none)⟩
        · rintro ⟨_, demands⟩
          obtain ⟨diagnostic, once, _⟩ := demanded demands
          simp [once]
      · intro some
        obtain ⟨diagnostic, once, said⟩ :=
          demanded (by_contra fun none => some (notDemanded none))
        exact ⟨diagnostic, lateOnly.trans once, said.trans passes.pending⟩

/-- A clause that returns the subject for one text. -/
def subjectClause
    (label : String) :
    Clause Statement :=
  { labels := [⟨none, .string (.ofString label)⟩]
    body := [.return (some (.name "x"))] }

/-- A function with a switch in a branch and another one at its end. -/
def twoSwitches : FunctionBody :=
  { name := "twoSwitches"
    parameters :=
      [("x",
        .ofUnion
          [.ofLiteral (.string (.ofString "a")),
            .ofLiteral (.string (.ofString "b"))])]
    result := .string
    body :=
      [.choose (.name "x") [.switch (.name "x") [subjectClause "b"] none] [],
        .switch (.name "x") [subjectClause "a"] none] }

/-- One report names what the last switch leaves; the other switch has no share. -/
theorem missing_return_reported_twoSwitches :
    let checker : Checker := { budget := 8 }
    ∃ report after,
      checker.checkFunction twoSwitches [] = .ok (report, after) ∧
        report.fallsThrough = true ∧
        after.fallOffs ≠ [] ∧
        checker.EndsOpen twoSwitches := by
  intro checker
  have runs :
      (checker.checkFunction twoSwitches []).map (fun result =>
          (result.1.fallsThrough, result.2.fallOffs.map Diagnostic.code)) =
        .ok (true, [.nonExhaustive]) := by
    decide +kernel
  obtain ⟨⟨report, after⟩, run, same⟩ := Except.map_eq_ok.mp runs
  simp only [Prod.mk.injEq] at same
  obtain ⟨falls, codes⟩ := same
  obtain ⟨added, extended, reported, once⟩ :=
    missing_return_reported checker twoSwitches report [] after run
  rw [extended, List.nil_append] at run codes
  have some : added.fallOffs ≠ [] := by
    rintro none
    simp [none] at codes
  obtain ⟨diagnostic, only, said⟩ := once some
  refine ⟨report, added, run, falls, some, said.mp ?_⟩
  simpa [only] using codes

end Reports

end Checker

end StructuralTyping
