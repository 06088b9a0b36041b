import StructuralTyping.Proofs.CoverageMeaning
import StructuralTyping.Proofs.WalkPromises
import StructuralTyping.Proofs.WideningMeaning

namespace StructuralTyping

/-!
# Each statement keeps what the walk promises

Declarations, inspecting statements and returns on their own; conditionals and
switches when their bodies keep the promises. A conditional of which one body
always returns hands on the facts of the other branch, a switch of which all
clauses return those of a subject that equals no label. Exhausted coverage leaves
no such subject.
-/

open Check

open Stateful (Runs)

namespace Checker

section Soundness

variable {checker : Checker} {result : Ty} {scope : Scope}
variable {table : BindingTable}

/-- Typing an expression that may be left out gives the table back. -/
theorem typeOfOptional_restores
    {initial : Option Expression}
    (named : ScopeNamed scope table)
    (runs : Runs (checker.typeOfOptional scope initial) table type after) :
    after = table := by
  cases initial with
  | none =>
      exact runs.of_pure.2
  | some expression =>
      exact typeOf_restores named runs

/-- The type of an expression that may be left out holds its value. -/
theorem typeOfOptional_runs
    {initial : Option Expression}
    (fits : ScopeFits scope table)
    (supported : initial.all (Expression.supported false) = true)
    (declared :
      ∀ expression,
        initial = some expression →
        expression.TypingDeclared checker scope table)
    (runs : Runs (checker.typeOfOptional scope initial) table type after) :
    after = table ∧
      Fragment.narrowing.admits type = true ∧
      ∀ environment value,
        environment.Fits checker.arena (scope.view table) →
        EvaluatesOptional checker.arena environment initial value →
        value.NaNFree ∧ Belongs checker.arena type value := by
  cases initial with
  | none =>
      obtain ⟨rfl, rfl⟩ := runs.of_pure
      refine ⟨rfl, rfl, fun environment value _ evaluates => ?_⟩
      cases evaluates
      exact ⟨.undefined, .primitive rfl⟩
  | some expression =>
      have runs : Runs (checker.typeOf scope expression) table type after :=
        runs
      have types := typeOf_runs fits (by simpa using supported)
        (declared expression rfl) runs
      refine ⟨typeOf_restores fits.named runs, types.admits,
        fun environment value starts evaluates => ?_⟩
      cases evaluates with
      | present evaluates =>
          exact ⟨evaluates.nanFree starts.proper,
            types.belongs environment starts.proper starts.holds value
              evaluates⟩

/-- A declaration without ascription adds a binding of an inferred type. -/
theorem walkDeclaration_runs
    {ascription : Ty}
    (fits : ScopeFits scope table)
    (isAbsent : ascription.isAbsent = true)
    (supported : initial.all (Expression.supported false) = true)
    (declared :
      ∀ expression,
        initial = some expression →
        expression.TypingDeclared checker scope table)
    (runs :
      Runs (checker.walkDeclaration scope name ascription initial policy)
        table next after) :
    ∃ type,
      after = table ++ [Binding.inferred checker.arena name type policy] ∧
        Fragment.narrowing.admits type = true ∧
        (∀ environment value,
          environment.Fits checker.arena (scope.view table) →
          EvaluatesOptional checker.arena environment initial value →
          value.NaNFree ∧ Belongs checker.arena type value) ∧
        next = scope.declare name table.length := by
  unfold walkDeclaration at runs
  obtain ⟨type, _, types, infers⟩ := runs.of_bind fun _ => inferInstance
  obtain ⟨rfl, admitted, belongs⟩ :=
    typeOfOptional_runs fits supported declared types
  rw [if_pos isAbsent] at infers
  obtain ⟨_, _, chooses, adds⟩ := infers.of_bind fun _ => inferInstance
  obtain ⟨rfl, rfl⟩ := chooses.of_pure
  obtain ⟨_, _, appends, returns⟩ := adds.of_bind fun _ => inferInstance
  obtain ⟨rfl, rfl⟩ := returns.of_pure
  unfold BindingTable.add at appends
  obtain ⟨_, _, reads, writes⟩ := appends.of_bind fun _ => inferInstance
  obtain ⟨rfl, rfl⟩ := reads.of_get
  obtain ⟨_, _, sets, numbers⟩ := writes.of_bind fun _ => inferInstance
  cases sets.of_set
  obtain ⟨rfl, rfl⟩ := numbers.of_pure
  exact ⟨type, rfl, admitted, belongs, rfl⟩

/-- Walking a declaration is sound. -/
theorem declare_sound
    (supported :
      (Statement.declare name ascription initial policy).supported = true) :
    StatementSound checker result
      (.declare name ascription initial policy) := by
  intro scope table walk outcome later after fits declared runs
  simp only [Statement.supported, Bool.and_eq_true] at supported
  obtain ⟨isAbsent, initialSupported⟩ := supported
  unfold walkStatement at runs
  obtain ⟨next, between, middle, lifted, finishes⟩ :=
    runs.of_bind fun _ => inferInstance
  obtain ⟨rfl, rfl, rfl⟩ := finishes.of_pure
  obtain ⟨declares, rfl⟩ := lifted.of_lift
  obtain ⟨type, rfl, admitted, belongs, rfl⟩ :=
    walkDeclaration_runs fits isAbsent initialSupported declared declares
  let binding := Binding.inferred checker.arena name type policy
  have bindingAdmitted :
      Fragment.narrowing.admits binding.current = true :=
    WideningPolicy.admits_infer checker.arena policy admitted
  constructor
  · refine ⟨⟨_, rfl⟩, [], [], by simp, .nil, .nil, ?_⟩
    rintro visit ⟨environment, visits, ending, _, executes, visited⟩
    cases executes
    cases visited
  · intro impossible
    cases impossible
  · rintro _ _ ⟨⟩
    refine ⟨fits.declare bindingAdmitted, Facts.admitted_empty, ?_⟩
    intro environment visits between starts executes
    cases executes with
    | declare evaluates =>
        obtain ⟨proper, found⟩ := belongs environment _ starts evaluates
        have inferred : Belongs checker.arena binding.current _ :=
          WideningPolicy.belongs_infer policy admitted found
        exact ⟨starts.declare fits.named proper inferred, Facts.hold_empty⟩

/-- Walking an inspecting statement is sound. -/
theorem inspect_sound
    (supported : (Statement.inspect label expression).supported = true) :
    StatementSound checker result (.inspect label expression) := by
  intro scope table walk outcome later after fits declared runs
  unfold walkStatement at runs
  obtain ⟨type, between, middle, lifted, records⟩ :=
    runs.of_bind fun _ => inferInstance
  obtain ⟨typing, rfl⟩ := lifted.of_lift
  have types := typeOf_runs fits supported declared typing
  cases typeOf_restores fits.named typing
  obtain ⟨_, _, _, adds, returns⟩ := records.of_bind fun _ => inferInstance
  obtain ⟨rfl, rfl, rfl⟩ := returns.of_pure
  obtain ⟨rfl, rfl⟩ := adds.of_modify
  constructor
  · refine ⟨⟨[], by simp⟩, [0], [{ label, type }], rfl, by simp,
      .cons rfl .nil, ?_⟩
    rintro visit ⟨environment, visits, ending, starts, executes, visited⟩
    cases executes with
    | inspect evaluates =>
        cases List.mem_singleton.mp visited
        exact ⟨_, List.mem_singleton.mpr rfl, types.belongs environment
          starts.proper starts.holds _ evaluates⟩
  · intro impossible
    cases impossible
  · rintro _ _ ⟨⟩
    refine ⟨fits, Facts.admitted_empty, ?_⟩
    intro environment visits between starts executes
    cases executes
    exact ⟨starts, Facts.hold_empty⟩

/-- Walking a return is sound. -/
theorem return_sound
    {expression : Option Expression} :
    StatementSound checker result (.return expression) := by
  intro scope table walk outcome later after fits declared runs
  unfold walkStatement at runs
  obtain ⟨_, between, middle, lifted, returns⟩ :=
    runs.of_bind fun _ => inferInstance
  obtain ⟨rfl, rfl, rfl⟩ := returns.of_pure
  obtain ⟨checks, rfl⟩ := lifted.of_lift
  have same : after = table := by
    unfold walkReturn at checks
    obtain ⟨type, _, types, compares⟩ := checks.of_bind fun _ => inferInstance
    have unchanged : _ = table := typeOfOptional_restores fits.named types
    subst unchanged
    split at compares
    · exact compares.of_pure.2
    · exact compares.of_lift.2
  subst same
  constructor
  · refine (Walked.nothing rfl).weaken ?_
    rintro visit ⟨environment, visits, ending, _, executes, visited⟩
    cases executes
    cases visited
  · intro _ environment visits ending _ executes
    cases executes
    rfl
  · rintro _ _ ⟨⟩

/-- The environments that take a branch of a guard, if there is a guard. -/
def TakesOptional
    (arena : Arena)
    (branch : Bool)
    (environment : Environment) :
    Option Expression →
    Prop
  | none => True
  | some guard => TakesBranch arena guard branch environment

/-- A body on a branch runs with the bindings narrowed for it. -/
theorem walkBranch_runs
    {body : Walking α}
    {test : Option Expression}
    [Walks body]
    (runs :
      WalkRuns (checker.walkBranch scope test branch body) walk table value
        later after) :
    ∃ facts inner,
      checker.BranchFacts (scope.view table) branch facts test ∧
        WalkRuns body walk (narrowedTable scope table facts) value later
          inner ∧
        after =
          BindingTable.restoreAll inner
            (BindingTable.pushFacts table scope facts).1 := by
  cases test with
  | none =>
      exact ⟨{}, after, rfl, runs, rfl⟩
  | some guard =>
      exact onBranch_runs runs

/-- Walking a body on a branch is sound for the runs that take the branch. -/
theorem branch_walked
    {body : List Statement}
    {test : Option Expression}
    (sound : BlockSound checker result body)
    (fits : ScopeFits scope table)
    (guarded :
      ∀ guard,
        test = some guard →
        guard.supported true = true ∧
          guard.GuardsDeclared checker (scope.view table))
    (declared :
      ∀ facts,
        checker.BranchFacts (scope.view table) branch facts test →
        checker.BlockDeclared result ([] :: scope)
          (narrowedTable scope table facts) body)
    (runs :
      WalkRuns
        (checker.walkBranch scope test branch
          (checker.walkBlock result ([] :: scope) body))
        walk table returns later after) :
    BlockWalked checker.arena
      (fun environment =>
        environment.Fits checker.arena (scope.view table) ∧
          TakesOptional checker.arena branch environment test)
      body walk table returns later after := by
  obtain ⟨facts, inner, refined, bodyRuns, rfl⟩ := walkBranch_runs runs
  have proves :
      Proves checker.arena (scope.view table)
        (fun environment =>
          TakesOptional checker.arena branch environment test) facts := by
    cases test with
    | none =>
        cases refined
        exact proves_empty
    | some guard =>
        obtain ⟨supported, guardDeclared⟩ := guarded guard rfl
        exact refine_settles fits.admitted supported guardDeclared refined
  have entered := (fits.pushFacts proves.admitted).enter
  have inner := sound entered (declared facts refined) bodyRuns
  refine BlockWalked.weaken
    ⟨inner.walked.restore fits.named, inner.returned⟩ ?_
  rintro environment ⟨starts, taken⟩
  exact ⟨starts.proper, fits.holds_pushFacts starts.holds
    (proves.hold environment starts.proper starts.holds taken)⟩

/-- A conditional runs the body of the branch that its guard takes. -/
theorem executes_choose
    {arena : Arena}
    {guard : Expression}
    (executes :
      Executes arena environment (.choose guard positive negative) visits
        ending) :
    ∃ inner, ending = inner.leave environment ∧
      (TakesBranch arena guard true environment ∧
          ExecutesBlock arena environment positive visits inner ∨
        TakesBranch arena guard false environment ∧
          ∃ own,
            ExecutesBlock arena environment negative own inner ∧
              visits = own.map (Visit.shift (blockInspections positive))) := by
  cases executes with
  | positive evaluates truthy runs =>
      exact ⟨_, rfl, .inl ⟨⟨_, evaluates, truthy⟩, runs⟩⟩
  | negative evaluates falsy runs =>
      exact ⟨_, rfl, .inr ⟨⟨_, evaluates, falsy⟩, _, runs, rfl⟩⟩

/-- How a conditional goes on, by which of its bodies return. -/
theorem finishChoice_runs
    {guard : Expression}
    (runs :
      WalkRuns
        (checker.finishChoice scope guard positiveReturns negativeReturns)
        walk table outcome later after) :
    after = table ∧ later.observations = walk.observations ∧
      (positiveReturns = true ∧ negativeReturns = true ∧
          outcome = .returned ∨
        ∃ facts, outcome = .continued scope facts ∧
          (facts = {} ∨
            positiveReturns = !negativeReturns ∧
              Settles (checker.refine (scope.view table) guard negativeReturns)
                facts)) := by
  unfold finishChoice setPending at runs
  obtain ⟨_, _, _, pends, decides⟩ := runs.of_bind fun _ => inferInstance
  obtain ⟨rfl, rfl⟩ := pends.of_modify
  split at decides
  · next both =>
    obtain ⟨rfl, rfl, rfl⟩ := decides.of_pure
    rw [Bool.and_eq_true] at both
    exact ⟨rfl, rfl, .inl ⟨both.1, both.2, rfl⟩⟩
  · next notBoth =>
    split at decides
    · next one =>
      obtain ⟨facts, _, _, lifted, returns⟩ :=
        decides.of_bind fun _ => inferInstance
      obtain ⟨rfl, rfl, rfl⟩ := returns.of_pure
      obtain ⟨refines, rfl⟩ := lifted.of_lift
      obtain ⟨settles, rfl⟩ := refineScope_runs refines
      refine ⟨rfl, rfl, .inr ⟨facts, rfl, .inr ⟨?_, settles⟩⟩⟩
      cases positiveReturns <;> cases negativeReturns <;> simp_all
    · obtain ⟨rfl, rfl, rfl⟩ := decides.of_pure
      exact ⟨rfl, rfl, .inr ⟨{}, rfl, .inl rfl⟩⟩

/-- Walking a conditional is sound. -/
theorem choose_sound
    {guard : Expression}
    (supported : guard.supported true = true)
    (positiveSound : BlockSound checker result positive)
    (negativeSound : BlockSound checker result negative) :
    StatementSound checker result (.choose guard positive negative) := by
  intro scope table walk outcome later after fits declared runs
  obtain ⟨guardDeclared, positiveDeclared, negativeDeclared⟩ := declared
  unfold walkStatement at runs
  obtain ⟨positiveReturns, between, middle, positiveRuns, continues⟩ :=
    runs.of_bind fun _ => inferInstance
  obtain ⟨negativeReturns, last, final, negativeRuns, finishes⟩ :=
    continues.of_bind fun _ => inferInstance
  have positiveWalked :=
    branch_walked positiveSound fits
      (by rintro _ ⟨⟩; exact ⟨supported, guardDeclared⟩)
      (fun facts refined => by
        simpa using positiveDeclared [] facts refined)
      positiveRuns
  obtain ⟨extra, rfl⟩ := positiveWalked.walked.grows
  have sameView := Scope.view_append fits.named extra
  have negativeWalked :=
    branch_walked negativeSound (fits.append extra)
      (by
        rintro _ ⟨⟩
        exact ⟨supported, sameView ▸ guardDeclared⟩)
      (fun facts refined => by
        rw [sameView] at refined
        exact negativeDeclared extra facts refined)
      negativeRuns
  rw [sameView] at negativeWalked
  have walked := positiveWalked.walked.append negativeWalked.walked
  obtain ⟨more, rfl⟩ := walked.grows
  have lastView := Scope.view_append fits.named more
  obtain ⟨rfl, sameObservations, outcomes⟩ := finishChoice_runs finishes
  rw [lastView] at outcomes
  -- A run that is not over took a branch whose body does not always return.
  have ends :
      ∀ {environment : Environment} {visits between},
        environment.Fits checker.arena (scope.view table) →
        Executes checker.arena environment
          (.choose guard positive negative) visits (.completed between) →
        between = environment ∧
          (TakesBranch checker.arena guard true environment ∧
              positiveReturns ≠ true ∨
            TakesBranch checker.arena guard false environment ∧
              negativeReturns ≠ true) := by
    intro environment visits between starts executes
    obtain ⟨inner, leaves, branches⟩ := executes_choose executes
    obtain ⟨rfl, _, rfl⟩ := Ending.leave_eq_completed.mp leaves.symm
    refine ⟨rfl, ?_⟩
    rcases branches with ⟨taken, runs⟩ | ⟨taken, own, runs, _⟩
    · refine .inl ⟨taken, fun returns => ?_⟩
      cases positiveWalked.returned returns _ _ _ ⟨starts, taken⟩ runs
    · refine .inr ⟨taken, fun returns => ?_⟩
      cases negativeWalked.returned returns _ _ _ ⟨starts, taken⟩ runs
  constructor
  · refine (walked.congr rfl sameObservations).weaken ?_
    rintro visit ⟨environment, visits, ending, starts, executes, visited⟩
    obtain ⟨inner, _, ⟨taken, runs⟩ | ⟨taken, own, runs, rfl⟩⟩ :=
      executes_choose executes
    · exact .inl ⟨environment, visits, inner, ⟨starts, taken⟩, runs, visited⟩
    · obtain ⟨origin, inOwn, rfl⟩ := List.mem_map.mp visited
      exact .inr ⟨origin,
        ⟨environment, own, inner, ⟨starts, taken⟩, runs, inOwn⟩, rfl⟩
  · rintro rfl environment visits ending starts executes
    rcases outcomes with ⟨positiveReturn, negativeReturn, _⟩ | ⟨_, ⟨⟩, _⟩
    cases ending with
    | returned =>
        rfl
    | completed between =>
        obtain ⟨_, ⟨_, falls⟩ | ⟨_, falls⟩⟩ := ends starts executes
        · exact absurd positiveReturn falls
        · exact absurd negativeReturn falls
  · rintro next facts rfl
    rcases outcomes with ⟨_, _, ⟨⟩⟩ | ⟨_, ⟨⟩, empty | ⟨opposite, refined⟩⟩
    · subst empty
      refine ⟨fits.append more, Facts.admitted_empty, ?_⟩
      intro environment visits between starts executes
      obtain ⟨rfl, _⟩ := ends starts executes
      exact ⟨lastView ▸ starts, Facts.hold_empty⟩
    · have proves :=
        refine_settles fits.admitted supported guardDeclared refined
      refine ⟨fits.append more, proves.admitted, ?_⟩
      intro environment visits between starts executes
      obtain ⟨rfl, branches⟩ := ends starts executes
      refine ⟨lastView ▸ starts,
        proves.hold _ starts.proper starts.holds ?_⟩
      rcases branches with ⟨taken, falls⟩ | ⟨taken, falls⟩
      · cases negativeReturns <;> simp_all
      · cases negativeReturns <;> simp_all

/-- Comparing a supported subject with proper labels may guard something. -/
theorem supported_compareLabels
    {subject guard : Expression}
    {labels : List CaseLabel}
    (subjectSupported : subject.supported false = true)
    (proper : ∀ label ∈ labels, label.value.isNaN = false)
    (compared :
      anyLabel subject labels = some guard ∨
        noLabel subject labels = some guard) :
    guard.supported true = true := by
  have comparison :
      ∀ label : CaseLabel, label.value.isNaN = false →
        (Expression.constant
          (.literal label.occurrence label.value)).supported false = true := by
    intro label properLabel
    simp [Expression.supported, Fragment.admits, properLabel]
  have chain :
      ∀ {operator relation : Operator} {labels : List CaseLabel}
          {guard : Expression},
        operator = .or ∧ relation = .strictEqual ∨
          operator = .and ∧ relation = .strictNotEqual →
        (∀ label ∈ labels, label.value.isNaN = false) →
        guard.supported true = true →
        (labels.foldl
          (fun guard label =>
            .binary operator guard
              (.binary relation subject
                (.constant (.literal label.occurrence label.value))))
          guard).supported true = true := by
    intro operator relation labels
    induction labels with
    | nil =>
        exact fun _ _ supported => supported
    | cons label rest inductionHypothesis =>
        intro guard operators proper supported
        obtain ⟨properLabel, properRest⟩ := List.forall_mem_cons.mp proper
        have constant := comparison label properLabel
        refine inductionHypothesis operators properRest ?_
        rcases operators with ⟨rfl, rfl⟩ | ⟨rfl, rfl⟩ <;>
          simp only [Expression.supported, Bool.and_eq_true] at constant ⊢ <;>
          exact ⟨supported, subjectSupported, constant⟩
  cases labels with
  | nil =>
      rcases compared with compared | compared <;> cases compared
  | cons label rest =>
      obtain ⟨properLabel, properRest⟩ := List.forall_mem_cons.mp proper
      have constant := comparison label properLabel
      rcases compared with compared | compared <;> cases compared
      · refine chain (.inl ⟨rfl, rfl⟩) properRest ?_
        simp only [Expression.supported, Bool.and_eq_true] at constant ⊢
        exact ⟨subjectSupported, constant⟩
      · refine chain (.inr ⟨rfl, rfl⟩) properRest ?_
        simp only [Expression.supported, Bool.and_eq_true] at constant ⊢
        exact ⟨subjectSupported, constant⟩

/-- What walking the clauses of a switch promises about the clause that runs. -/
structure ClausesWalked
    (arena : Arena)
    (starts : Environment → Prop)
    (subject : Expression)
    (clauses : List (Clause Statement))
    (walk : Walk)
    (table : BindingTable)
    (returns : Bool)
    (later : Walk)
    (after : BindingTable) :
    Prop where
  walked :
    Walked arena (clauseInspections clauses)
      (fun visit =>
        ∃ environment value visits ending,
          starts environment ∧ Evaluates arena environment subject value ∧
            ExecutesClauses arena environment value clauses visits ending ∧
            visit ∈ visits)
      walk later table after
  returned :
    returns = true →
    ∀ environment value visits ending,
      starts environment →
      Evaluates arena environment subject value →
      ExecutesClauses arena environment value clauses visits ending →
      ending = .returned

/-- Walking clauses keeps its promise, whatever blocks were walked before. -/
def ClausesSound
    (checker : Checker)
    (result : Ty)
    (clauses : List (Clause Statement)) :
    Prop :=
  ∀ ⦃subject scope table extra walk returns later after⦄,
    subject.supported false = true →
    ScopeFits scope table →
    checker.ClausesDeclared result scope table subject clauses →
    WalkRuns (checker.walkClauses result scope subject clauses) walk
      (table ++ extra) returns later after →
    ClausesWalked checker.arena
      (Environment.Fits checker.arena (scope.view table)) subject clauses
      walk (table ++ extra) returns later after

/-- Walking no clauses is sound. -/
theorem clauses_nil_sound :
    ClausesSound checker result [] := by
  intro subject scope table extra walk returns later after _ fits _ runs
  unfold walkClauses at runs
  obtain ⟨rfl, rfl, rfl⟩ := runs.of_pure
  constructor
  · refine (Walked.nothing rfl).weaken ?_
    rintro visit ⟨_, _, _, _, _, _, executes, _⟩
    cases executes
  · intro _ _ _ _ _ _ _ executes
    cases executes

/-- Walking one more clause is sound. -/
theorem clauses_cons_sound
    (proper : ∀ label ∈ labels, label.value.isNaN = false)
    (bodySound : BlockSound checker result body)
    (restSound : ClausesSound checker result rest) :
    ClausesSound checker result (⟨labels, body⟩ :: rest) := by
  intro subject scope table extra walk returns later after supported fits
    declared runs
  obtain ⟨bodyDeclared, restDeclared⟩ := declared
  have sameView := Scope.view_append fits.named extra
  unfold walkClauses at runs
  dsimp only at runs
  obtain ⟨bodyReturns, between, middle, bodyWalked, continues⟩ :
      ∃ bodyReturns between middle,
        BlockWalked checker.arena
          (fun environment =>
            environment.Fits checker.arena (scope.view table) ∧
              ∃ value,
                Evaluates checker.arena environment subject value ∧
                  SomeMatches value labels)
          body walk (table ++ extra) bodyReturns between middle ∧
        WalkRuns
          (checker.walkClauses result scope subject rest >>= fun restReturns =>
            pure (bodyReturns && restReturns))
          between middle returns later after := by
    split at runs
    · next chained =>
      -- A clause without labels is not walked, and no value selects it.
      have noLabels : labels = [] := by
        cases labels with
        | nil =>
            rfl
        | cons label others =>
            cases chained
      subst noLabels
      obtain ⟨bodyReturns, between, middle, skips, continues⟩ :=
        runs.of_bind fun _ => inferInstance
      obtain ⟨rfl, rfl, rfl⟩ := skips.of_pure
      refine ⟨_, _, _, ⟨?_, ?_⟩, continues⟩
      · refine (Walked.nothing rfl).weaken ?_
        rintro visit ⟨_, _, _, ⟨_, _, _, label, impossible, _⟩, _, _⟩
        cases impossible
      · rintro _ _ _ _ ⟨_, _, _, label, impossible, _⟩ _
        cases impossible
    · next guard chained =>
      obtain ⟨guardDeclared, blockDeclared⟩ := bodyDeclared guard chained
      obtain ⟨bodyReturns, between, middle, bodyRuns, continues⟩ :=
        runs.of_bind fun _ => inferInstance
      have guardSupported :=
        supported_compareLabels supported proper (.inl chained)
      have walked :=
        branch_walked bodySound (fits.append extra)
          (by
            rintro _ ⟨⟩
            exact ⟨guardSupported, sameView ▸ guardDeclared⟩)
          (fun facts refined => by
            rw [sameView] at refined
            exact blockDeclared extra facts refined)
          bodyRuns
      rw [sameView] at walked
      refine ⟨bodyReturns, between, middle, walked.weaken ?_, continues⟩
      rintro environment ⟨starts, value, evaluates, found⟩
      exact ⟨starts, .ofBool true,
        evaluates_anyLabel proper evaluates found chained, rfl⟩
  obtain ⟨restReturns, last, final, restRuns, finishes⟩ :=
    continues.of_bind fun _ => inferInstance
  obtain ⟨rfl, rfl, rfl⟩ := finishes.of_pure
  obtain ⟨more, same⟩ := bodyWalked.walked.grows
  rw [List.append_assoc] at same
  subst same
  have restWalked := restSound supported fits restDeclared restRuns
  constructor
  · refine (bodyWalked.walked.append restWalked.walked).weaken ?_
    rintro visit
      ⟨environment, value, visits, ending, starts, evaluates, executes,
        visited⟩
    cases executes with
    | here found runs =>
        exact .inl ⟨environment, visits, ending,
          ⟨starts, value, evaluates, found⟩, runs, visited⟩
    | later _ runs =>
        obtain ⟨origin, inOwn, rfl⟩ := List.mem_map.mp visited
        exact .inr ⟨origin, ⟨environment, value, _, ending, starts, evaluates,
          runs, inOwn⟩, rfl⟩
  · intro allReturn environment value visits ending starts evaluates executes
    rw [Bool.and_eq_true] at allReturn
    cases executes with
    | here found runs =>
        exact bodyWalked.returned allReturn.1 environment visits ending
          ⟨starts, value, evaluates, found⟩ runs
    | later _ runs =>
        exact restWalked.returned allReturn.2 environment value _ ending starts
          evaluates runs

/-- Coverage that was started, if any, describes the values of a subject. -/
def CoversSubject
    (arena : Arena)
    (view : View)
    (subject : Expression)
    (started : Option Coverage) :
    Prop :=
  ∀ coverage,
    started = some coverage →
    coverage.handled = [] ∧
      coverage.Describes arena fun value =>
        ∃ environment : Environment,
          environment.Fits arena view ∧
            Evaluates arena environment subject value

/-- Coverage of a type without discriminator describes a subject of the type. -/
theorem coverage?_settles
    {subject : Expression}
    {subjectType : Ty}
    {view : View}
    (discriminated :
      ∀ union,
        Settles (checker.discriminant? subjectType) (some union) →
        union.discriminator ≠ "")
    (types : Types checker.arena view subject subjectType)
    (settles : Settles (checker.coverage? subjectType) found) :
    CoversSubject checker.arena view subject
      (found.filter fun coverage => coverage.discriminator.isEmpty) := by
  intro coverage isFound
  obtain ⟨rfl, isEmpty⟩ := Option.filter_eq_some_iff.mp isFound
  unfold coverage? at settles
  obtain ⟨union, takes, settles⟩ := settles.of_bind fun union => by
    cases union <;> (dsimp only; infer_instance)
  cases union with
  | some union =>
      cases settles_pure.mp settles
      exact absurd (String.isEmpty_iff.mp isEmpty) (discriminated union takes)
  | none =>
      obtain ⟨fresh, describes⟩ :=
        literalCoverage?_settles types.admits settles
      refine ⟨fresh, describes.admits, ?_⟩
      rintro value ⟨environment, starts, evaluates⟩
      exact describes.selects value
        (types.belongs environment starts.proper starts.holds value evaluates)

/-- Starting coverage leaves the table alone and describes the subject. -/
theorem switchCoverage?_runs
    {subject : Expression}
    {subjectType : Ty}
    (fits : ScopeFits scope table)
    (named : checker.SubjectNamed scope table subject)
    (typing : Runs (checker.typeOf scope subject) table subjectType table)
    (types : Types checker.arena (scope.view table) subject subjectType)
    (runs :
      Runs (checker.switchCoverage? scope subject subjectType) table
        started after) :
    after = table ∧
      CoversSubject checker.arena (scope.view table) subject started := by
  unfold switchCoverage? at runs
  split at runs
  · next name property chained =>
    obtain ⟨_, _, reads, looks⟩ := runs.of_bind fun _ => by
      split <;> infer_instance
    obtain ⟨rfl, rfl⟩ := reads.of_get
    split at looks
    · obtain ⟨rfl, rfl⟩ := looks.of_pure
      exact ⟨rfl, by simp [CoversSubject]⟩
    · next type shown =>
      obtain ⟨settles, rfl⟩ := looks.of_lift
      refine ⟨rfl, fun coverage isFound => ?_⟩
      subst isFound
      obtain ⟨fresh, describes⟩ :=
        @coverageOn?_settles _ _ _ _ chained (fits.admitted.lookup shown)
          settles
      refine ⟨fresh, describes.admits, ?_⟩
      rintro found ⟨environment, starts, evaluates⟩
      obtain ⟨value, valued, accesses⟩ := evaluates.accesses
      exact describes.selects found
        ⟨value, starts.holds.lookup shown valued, accesses⟩
  · obtain ⟨rfl, rfl⟩ := runs.of_pure
    exact ⟨rfl, by simp [CoversSubject]⟩
  · next notMember notProperty =>
    obtain ⟨found, _, lifted, returns⟩ := runs.of_bind fun _ => inferInstance
    obtain ⟨settles, rfl⟩ := lifted.of_lift
    obtain ⟨rfl, rfl⟩ := returns.of_pure
    refine ⟨rfl, coverage?_settles (fun union takes => ?_) types settles⟩
    unfold SubjectNamed at named
    split at named
    · next operand property chained =>
      exact absurd rfl (notProperty operand property chained)
    · exact named subjectType _ union typing takes

/-- How a switch with a default goes on. -/
theorem finishTotalSwitch_runs
    (runs :
      WalkRuns (finishTotalSwitch scope allReturn) walk table outcome later
        after) :
    after = table ∧ later.observations = walk.observations ∧
      (allReturn = true ∧ outcome = .returned ∨
        outcome = .continued scope {}) := by
  unfold finishTotalSwitch setPending at runs
  obtain ⟨_, _, _, pends, returns⟩ := runs.of_bind fun _ => inferInstance
  obtain ⟨rfl, rfl⟩ := pends.of_modify
  obtain ⟨rfl, rfl, rfl⟩ := returns.of_pure
  cases allReturn <;> simp

/-- How a switch without default goes on, once its residual is known. -/
def decideSwitch
    (checker : Checker)
    (scope : Scope)
    (noneMatched : Option Expression)
    (allReturn : Bool)
    (residual : Option Exhaustiveness) :
    Walking StatementOutcome := do
  if residual.any Exhaustiveness.exhaustive then
    setPending none
    return if allReturn then .returned else .continued scope {}
  else
    setPending residual
    match allReturn, noneMatched with
    | true, some guard =>
        return .continued scope (← checker.refineScope scope guard true)
    | _, _ => return .continued scope {}

instance
    {residual : Option Exhaustiveness} :
    Walks (decideSwitch checker scope noneMatched allReturn residual) := by
  unfold decideSwitch
  split
  · infer_instance
  · refine @Walks.ofBind _ _ _ _ _ fun _ => ?_
    split <;> infer_instance

/-- A switch without coverage leaves nothing known unhandled. -/
theorem finishSwitch_none :
    checker.finishSwitch scope none noneMatched allReturn =
      decideSwitch checker scope noneMatched allReturn none :=
  rfl

/-- A switch with coverage is decided by what that leaves unhandled. -/
theorem finishSwitch_some :
    checker.finishSwitch scope (some coverage) noneMatched allReturn =
      liftM (checker.switchResidual coverage) >>= fun residual =>
        decideSwitch checker scope noneMatched allReturn (some residual) :=
  rfl

/-- What the walk goes on with after a switch without default. -/
theorem decideSwitch_runs
    {residual : Option Exhaustiveness}
    (runs :
      WalkRuns (decideSwitch checker scope noneMatched allReturn residual)
        walk table outcome later after) :
    after = table ∧ later.observations = walk.observations ∧
      (allReturn = true ∧ outcome = .returned ∧
          residual.any Exhaustiveness.exhaustive = true ∨
        ∃ facts, outcome = .continued scope facts ∧
          (facts = {} ∨
            allReturn = true ∧
              ∃ guard,
                noneMatched = some guard ∧
                  Settles (checker.refine (scope.view table) guard true)
                    facts)) := by
  unfold decideSwitch setPending at runs
  split at runs
  · next exhausted =>
    obtain ⟨_, _, _, pends, returns⟩ := runs.of_bind fun _ => inferInstance
    obtain ⟨rfl, rfl⟩ := pends.of_modify
    obtain ⟨rfl, rfl, rfl⟩ := returns.of_pure
    refine ⟨rfl, rfl, ?_⟩
    cases allReturn with
    | true => exact .inl ⟨rfl, rfl, exhausted⟩
    | false => exact .inr ⟨{}, rfl, .inl rfl⟩
  · obtain ⟨_, _, _, pends, continues⟩ := runs.of_bind fun _ => by
      split <;> infer_instance
    obtain ⟨rfl, rfl⟩ := pends.of_modify
    split at continues
    · next guard =>
      obtain ⟨facts, _, _, lifted, returns⟩ :=
        continues.of_bind fun _ => inferInstance
      obtain ⟨rfl, rfl, rfl⟩ := returns.of_pure
      obtain ⟨refines, rfl⟩ := lifted.of_lift
      obtain ⟨settles, rfl⟩ := refineScope_runs refines
      exact ⟨rfl, rfl, .inr ⟨facts, rfl, .inr ⟨rfl, guard, rfl, settles⟩⟩⟩
    · obtain ⟨rfl, rfl, rfl⟩ := continues.of_pure
      exact ⟨rfl, rfl, .inr ⟨{}, rfl, .inl rfl⟩⟩

/-- How a switch without default goes on. -/
theorem finishSwitch_runs
    (runs :
      WalkRuns
        (checker.finishSwitch scope coverage noneMatched allReturn)
        walk table outcome later after) :
    after = table ∧ later.observations = walk.observations ∧
      (allReturn = true ∧ outcome = .returned ∧
          (∃ handled,
            coverage = some handled ∧
              Settles (handled.exhaustive checker) true) ∨
        ∃ facts, outcome = .continued scope facts ∧
          (facts = {} ∨
            allReturn = true ∧
              ∃ guard,
                noneMatched = some guard ∧
                  Settles (checker.refine (scope.view table) guard true)
                    facts)) := by
  cases coverage with
  | none =>
      rw [finishSwitch_none] at runs
      obtain ⟨rfl, same, ⟨_, _, impossible⟩ | continues⟩ :=
        decideSwitch_runs runs
      · cases impossible
      · exact ⟨rfl, same, .inr continues⟩
  | some handled =>
      rw [finishSwitch_some] at runs
      obtain ⟨residual, _, _, lifted, decides⟩ :=
        runs.of_bind fun _ => inferInstance
      obtain ⟨settles, rfl, rfl⟩ := lifted.of_liftCheck
      obtain ⟨rfl, same, ⟨allReturn, returned, exhausted⟩ | continues⟩ :=
        decideSwitch_runs decides
      · refine ⟨rfl, same, .inl ⟨allReturn, returned, handled, rfl, ?_⟩⟩
        unfold switchResidual at settles
        obtain ⟨exhaustive, decided, settles⟩ := settles_bind.mp settles
        obtain ⟨_, _, settles⟩ := settles_bind.mp settles
        cases settles_pure.mp settles
        have isTrue : exhaustive = true := exhausted
        exact isTrue ▸ decided
      · exact ⟨rfl, same, .inr continues⟩

/-- A switch runs a clause, its default or nothing. -/
theorem executes_switch
    {arena : Arena}
    {environment : Environment}
    {subject : Expression}
    (executes :
      Executes arena environment (.switch subject clauses otherwise) visits
        ending) :
    ∃ value,
      Evaluates arena environment subject value ∧
        ((∃ inner,
            ExecutesClauses arena environment value clauses visits inner ∧
              ending = inner.leave environment) ∨
          NoneMatches value (allLabels clauses) ∧
            ((∃ body own inner,
                otherwise = some body ∧
                  ExecutesBlock arena environment body own inner ∧
                  visits =
                    own.map (Visit.shift (clauseInspections clauses)) ∧
                  ending = inner.leave environment) ∨
              otherwise = none ∧ visits = [] ∧
                ending = .completed environment)) := by
  cases executes with
  | clause evaluates runs =>
      exact ⟨_, evaluates, .inl ⟨_, runs, rfl⟩⟩
  | otherwise evaluates unmatched runs =>
      exact ⟨_, evaluates, .inr ⟨unmatched, .inl ⟨_, _, _, rfl, runs, rfl,
        rfl⟩⟩⟩
  | unmatched evaluates unmatched =>
      exact ⟨_, evaluates, .inr ⟨unmatched, .inr ⟨rfl, rfl, rfl⟩⟩⟩

/-- The labels of a switch that some clause has to offer are proper. -/
theorem proper_allLabels
    {clauses : List (Clause Statement)}
    (supported : clausesSupported clauses = true) :
    ∀ label ∈ allLabels clauses, label.value.isNaN = false := by
  induction clauses with
  | nil =>
      simp [allLabels]
  | cons clause rest inductionHypothesis =>
      obtain ⟨labels, body⟩ := clause
      simp only [clausesSupported, Bool.and_eq_true] at supported
      intro label member
      rcases List.mem_append.mp member with here | inRest
      · simpa using List.all_eq_true.mp supported.1.1 label here
      · exact inductionHypothesis supported.2 label inRest

/-- A switch is typed, its coverage is started and its clauses are walked. -/
theorem switch_starts
    {subject : Expression}
    {finish : Option Coverage → Bool → Walking StatementOutcome}
    [∀ coverage allReturn, Walks (finish coverage allReturn)]
    (fits : ScopeFits scope table)
    (supported : subject.supported false = true)
    (declared : subject.TypingDeclared checker scope table)
    (named : checker.SubjectNamed scope table subject)
    (clausesDeclared :
      checker.ClausesDeclared result scope table subject clauses)
    (clausesSound : ClausesSound checker result clauses)
    (runs :
      WalkRuns
        (do
          let subjectType ← checker.typeOf scope subject
          let coverage ← checker.switchCoverage? scope subject subjectType
          let allReturn ← checker.walkClauses result scope subject clauses
          finish coverage allReturn)
        walk table outcome later after) :
    ∃ started allReturn between middle,
      CoversSubject checker.arena (scope.view table) subject started ∧
        ClausesWalked checker.arena
          (Environment.Fits checker.arena (scope.view table)) subject clauses
          walk table allReturn between middle ∧
        WalkRuns (finish started allReturn) between middle outcome later
          after := by
  obtain ⟨subjectType, _, _, types, covers⟩ :=
    runs.of_bind fun _ => inferInstance
  obtain ⟨typing, rfl⟩ := types.of_lift
  cases typeOf_restores fits.named typing
  have subjectTypes := typeOf_runs fits supported declared typing
  obtain ⟨started, _, _, starts, walks⟩ :=
    covers.of_bind fun _ => inferInstance
  obtain ⟨starting, rfl⟩ := starts.of_lift
  obtain ⟨rfl, describes⟩ :=
    switchCoverage?_runs fits named typing subjectTypes starting
  obtain ⟨allReturn, between, middle, clausesRun, continues⟩ :=
    walks.of_bind fun _ => inferInstance
  have walked :=
    @clausesSound subject scope _ [] _ allReturn between middle supported
      fits clausesDeclared (by simpa using clausesRun)
  rw [List.append_nil] at walked
  exact ⟨started, allReturn, between, middle, describes, walked, continues⟩

/-- Walking a switch with a default is sound. -/
theorem switch_total_sound
    {subject : Expression}
    (supported : subject.supported false = true)
    (proper : ∀ label ∈ allLabels clauses, label.value.isNaN = false)
    (clausesSound : ClausesSound checker result clauses)
    (bodySound : BlockSound checker result body) :
    StatementSound checker result
      (.switch subject clauses (some body)) := by
  intro scope table walk outcome later after fits declared runs
  obtain ⟨subjectDeclared, named, clausesDeclared, noneDeclared,
    bodyDeclared⟩ := declared
  unfold walkStatement at runs
  obtain ⟨_, allReturn, between, middle, _, clausesWalked, continues⟩ :=
    switch_starts fits supported subjectDeclared named clausesDeclared
      clausesSound runs
  obtain ⟨extra, rfl⟩ := clausesWalked.walked.grows
  have sameView := Scope.view_append fits.named extra
  obtain ⟨bodyReturns, last, final, bodyRuns, finishes⟩ :=
    continues.of_bind fun _ => inferInstance
  have bodyWalked :=
    branch_walked bodySound (fits.append extra)
      (fun guard chained =>
        ⟨supported_compareLabels supported proper (.inr chained),
          sameView ▸ noneDeclared guard chained⟩)
      (fun facts refined => by
        rw [sameView] at refined
        exact bodyDeclared extra facts refined)
      bodyRuns
  rw [sameView] at bodyWalked
  have takes :
      ∀ {environment : Environment} {value},
        Evaluates checker.arena environment subject value →
        NoneMatches value (allLabels clauses) →
        TakesOptional checker.arena true environment
          (noLabel subject (allLabels clauses)) := by
    intro environment value evaluates unmatched
    cases chained : noLabel subject (allLabels clauses) with
    | none => trivial
    | some guard =>
        exact ⟨.ofBool true,
          evaluates_noLabel proper evaluates unmatched chained, rfl⟩
  have walked := clausesWalked.walked.append bodyWalked.walked
  obtain ⟨more, rfl⟩ := walked.grows
  have lastView := Scope.view_append fits.named more
  obtain ⟨rfl, sameObservations, outcomes⟩ := finishTotalSwitch_runs finishes
  constructor
  · refine (walked.congr rfl sameObservations).weaken ?_
    rintro visit ⟨environment, visits, ending, starts, executes, visited⟩
    obtain ⟨value, evaluates, ⟨inner, runs, _⟩ | ⟨unmatched,
      ⟨_, own, inner, ⟨⟩, runs, rfl, _⟩ | ⟨⟨⟩, _⟩⟩⟩ :=
        executes_switch executes
    · exact .inl ⟨environment, value, visits, inner, starts, evaluates, runs,
        visited⟩
    · obtain ⟨origin, inOwn, rfl⟩ := List.mem_map.mp visited
      exact .inr ⟨origin, ⟨environment, own, inner,
        ⟨starts, takes evaluates unmatched⟩, runs, inOwn⟩, rfl⟩
  · rintro rfl environment visits ending starts executes
    rcases outcomes with ⟨allReturn, _⟩ | ⟨⟨⟩⟩
    rw [Bool.and_eq_true] at allReturn
    obtain ⟨value, evaluates, ⟨inner, runs, rfl⟩ | ⟨unmatched,
      ⟨_, own, inner, ⟨⟩, runs, _, rfl⟩ | ⟨⟨⟩, _⟩⟩⟩ :=
        executes_switch executes
    · exact Ending.leave_eq_returned.mpr
        (clausesWalked.returned allReturn.1 _ _ _ _ starts evaluates runs)
    · exact Ending.leave_eq_returned.mpr
        (bodyWalked.returned allReturn.2 _ _ _
          ⟨starts, takes evaluates unmatched⟩ runs)
  · rintro next facts rfl
    rcases outcomes with ⟨_, ⟨⟩⟩ | ⟨⟨⟩⟩
    refine ⟨fits.append more, Facts.admitted_empty, ?_⟩
    intro environment visits between starts executes
    obtain ⟨value, _, ⟨inner, _, leaves⟩ | ⟨_,
      ⟨_, _, inner, _, _, _, leaves⟩ | ⟨⟨⟩, _⟩⟩⟩ :=
        executes_switch executes
    · obtain ⟨rfl, _⟩ := Ending.leave_eq_completed.mp leaves.symm
      exact ⟨lastView ▸ starts, Facts.hold_empty⟩
    · obtain ⟨rfl, _⟩ := Ending.leave_eq_completed.mp leaves.symm
      exact ⟨lastView ▸ starts, Facts.hold_empty⟩

/-- Walking a switch without default is sound. -/
theorem switch_partial_sound
    {subject : Expression}
    (supported : subject.supported false = true)
    (proper : ∀ label ∈ allLabels clauses, label.value.isNaN = false)
    (clausesSound : ClausesSound checker result clauses) :
    StatementSound checker result (.switch subject clauses none) := by
  intro scope table walk outcome later after fits declared runs
  obtain ⟨subjectDeclared, named, clausesDeclared, noneDeclared, _⟩ := declared
  unfold walkStatement at runs
  obtain ⟨started, allReturn, between, middle, covers, clausesWalked,
    finishes⟩ :=
      switch_starts fits supported subjectDeclared named clausesDeclared
        clausesSound runs
  obtain ⟨extra, rfl⟩ := clausesWalked.walked.grows
  have sameView := Scope.view_append fits.named extra
  obtain ⟨rfl, sameObservations, outcomes⟩ := finishSwitch_runs finishes
  rw [sameView] at outcomes
  -- Exhausted coverage leaves no value that equals none of the labels.
  have exhausted :
      ∀ {handled environment value},
        handledCoverage started (allLabels clauses) = some handled →
        Settles (handled.exhaustive checker) true →
        environment.Fits checker.arena (scope.view table) →
        Evaluates checker.arena environment subject value →
        SomeMatches value (allLabels clauses) := by
    intro handled environment value isHandled settles starts evaluates
    obtain ⟨coverage, isStarted, rfl⟩ := Option.map_eq_some_iff.mp isHandled
    obtain ⟨fresh, describes⟩ := covers coverage isStarted
    obtain ⟨literal, inLabels, equal⟩ :=
      describes.equals_label fresh settles ⟨environment, starts, evaluates⟩
    obtain ⟨label, inClauses, rfl⟩ := List.mem_map.mp inLabels
    exact ⟨label, inClauses, equal⟩
  constructor
  · simp only [Statement.inspections, otherwiseInspections, List.append_nil]
    refine (clausesWalked.walked.congr rfl sameObservations).weaken ?_
    rintro visit ⟨environment, visits, ending, starts, executes, visited⟩
    obtain ⟨value, evaluates, ⟨inner, runs, _⟩ | ⟨_,
      ⟨_, _, _, ⟨⟩, _⟩ | ⟨_, rfl, _⟩⟩⟩ :=
        executes_switch executes
    · exact ⟨environment, value, visits, inner, starts, evaluates, runs,
        visited⟩
    · cases visited
  · rintro rfl environment visits ending starts executes
    rcases outcomes with ⟨allReturn, _, handled, isHandled, settles⟩ |
      ⟨_, ⟨⟩, _⟩
    obtain ⟨value, evaluates, ⟨inner, runs, rfl⟩ | ⟨unmatched, _⟩⟩ :=
      executes_switch executes
    · exact Ending.leave_eq_returned.mpr
        (clausesWalked.returned allReturn _ _ _ _ starts evaluates runs)
    · exact absurd (exhausted isHandled settles starts evaluates)
        unmatched.not_someMatches
  · rintro next facts rfl
    -- A run that is not over ran a clause to its end, or none matched.
    have ends :
        ∀ {environment : Environment} {visits between},
          environment.Fits checker.arena (scope.view table) →
          Executes checker.arena environment
            (.switch subject clauses none) visits (.completed between) →
          between = environment ∧
            (allReturn = true →
              ∃ value,
                Evaluates checker.arena environment subject value ∧
                  NoneMatches value (allLabels clauses)) := by
      intro environment visits between starts executes
      obtain ⟨value, evaluates, ⟨inner, runs, leaves⟩ | ⟨unmatched,
        ⟨_, _, _, ⟨⟩, _⟩ | ⟨_, _, ⟨⟩⟩⟩⟩ :=
          executes_switch executes
      · obtain ⟨rfl, _, rfl⟩ := Ending.leave_eq_completed.mp leaves.symm
        refine ⟨rfl, fun allReturn => ?_⟩
        cases clausesWalked.returned allReturn _ _ _ _ starts evaluates runs
      · exact ⟨rfl, fun _ => ⟨value, evaluates, unmatched⟩⟩
    rcases outcomes with ⟨_, ⟨⟩, _⟩ |
      ⟨_, ⟨⟩, empty | ⟨allReturn, guard, chained, refined⟩⟩
    · subst empty
      refine ⟨fits.append extra, Facts.admitted_empty, ?_⟩
      intro environment visits between starts executes
      obtain ⟨rfl, _⟩ := ends starts executes
      exact ⟨sameView ▸ starts, Facts.hold_empty⟩
    · have proves :=
        refine_settles fits.admitted
          (supported_compareLabels supported proper (.inr chained))
          (noneDeclared guard chained) refined
      refine ⟨fits.append extra, proves.admitted, ?_⟩
      intro environment visits between starts executes
      obtain ⟨rfl, unmatched⟩ := ends starts executes
      obtain ⟨value, evaluates, unmatched⟩ := unmatched allReturn
      refine ⟨sameView ▸ starts, proves.hold _ starts.proper starts.holds ?_⟩
      exact ⟨.ofBool true,
        evaluates_noLabel proper evaluates unmatched chained, rfl⟩

end Soundness

end Checker

end StructuralTyping
