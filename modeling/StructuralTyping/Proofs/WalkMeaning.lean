import StructuralTyping.Proofs.WalkStatements

namespace StructuralTyping

/-!
# The walk through a body is sound

Whatever an inspecting statement sees in a run belongs to the type that the walk
recorded for it, and a body that a run leaves without returning is one that the
walk lets fall through.
-/

open Check

open Stateful (Runs)

namespace Checker

section Soundness

variable {checker : Checker} {result : Ty}

/-- Walking an empty block is sound. -/
theorem block_nil_sound :
    BlockSound checker result [] := by
  intro scope table walk returns later after fits _ runs
  unfold walkBlock at runs
  obtain ⟨rfl, rfl, rfl⟩ := runs.of_pure
  constructor
  · refine (Walked.nothing rfl).weaken ?_
    rintro visit ⟨_, _, _, _, executes, visited⟩
    cases executes
    cases visited
  · intro impossible
    cases impossible

/-- Walking one more statement of a block is sound. -/
theorem block_cons_sound
    (statementSound : StatementSound checker result statement)
    (restSound : BlockSound checker result rest) :
    BlockSound checker result (statement :: rest) := by
  intro scope table walk returns later after fits declared runs
  obtain ⟨statementDeclared, restDeclared⟩ := declared
  unfold walkBlock setPending at runs
  obtain ⟨_, _, _, pends, walks⟩ := runs.of_bind fun _ => by
    refine @Walks.ofBind _ _ _ _ _ fun outcome => ?_
    cases outcome <;> (dsimp only; infer_instance)
  obtain ⟨rfl, sameTable⟩ := pends.of_modify
  rw [sameTable] at walks
  obtain ⟨outcome, between, middle, statementRuns, continues⟩ :=
    walks.of_bind fun outcome => by
      cases outcome <;> (dsimp only; infer_instance)
  have first := statementSound fits statementDeclared statementRuns
  cases outcome with
  | returned =>
      obtain ⟨rfl, rfl, rfl⟩ := continues.of_pure
      -- The rest is not walked, and no run comes to it.
      have stops :
          ∀ {environment : Environment} {visits ending},
            environment.Fits checker.arena (scope.view table) →
            ExecutesBlock checker.arena environment (statement :: rest) visits
              ending →
            ending = .returned ∧
              Executes checker.arena environment statement visits
                .returned := by
        intro environment visits ending starts executes
        cases executes with
        | returns runs =>
            exact ⟨rfl, runs⟩
        | continues runs _ =>
            cases first.returned rfl _ _ _ starts runs
      constructor
      · obtain ⟨grows, numbers, added, same, recorded⟩ := first.walked
        refine ⟨grows, numbers, added, same, recorded.ordered, ?_, ?_⟩
        · refine recorded.labelled.imp fun number observation labelled => ?_
          rw [blockInspections, List.getElem?_append_left
            (List.getElem?_eq_some_iff.mp labelled).1]
          exact labelled
        · rintro visit ⟨environment, visits, ending, starts, runs, visited⟩
          exact recorded.holds visit ⟨environment, visits, .returned, starts,
            (stops starts runs).2, visited⟩
      · intro _ environment visits ending starts executes
        exact (stops starts executes).1
  | continued next facts =>
      obtain ⟨nextFits, factsAdmitted, handsOn⟩ := first.continued next facts rfl
      obtain ⟨inner, bodyRuns, rfl⟩ := withFacts_runs continues
      have restWalked :=
        restSound (nextFits.pushFacts factsAdmitted)
          (restDeclared _ next facts _ _ statementRuns) bodyRuns
      have handed :
          ∀ {environment : Environment} {visits between},
            environment.Fits checker.arena (scope.view table) →
            Executes checker.arena environment statement visits
              (.completed between) →
            between.Fits checker.arena
              (next.view (narrowedTable next middle facts)) := by
        intro environment visits between starts executes
        obtain ⟨fitsNext, factsHold⟩ := handsOn _ _ _ starts executes
        exact ⟨fitsNext.proper,
          nextFits.holds_pushFacts fitsNext.holds factsHold⟩
      constructor
      · have both :=
          first.walked.append (restWalked.walked.restore nextFits.named)
        have whole :
            Walked checker.arena (blockInspections (statement :: rest)) _ walk
              later table _ :=
          both.congr rfl rfl
        refine whole.weaken ?_
        rintro visit ⟨environment, visits, ending, starts, executes, visited⟩
        cases executes with
        | returns runs =>
            exact .inl ⟨environment, visits, .returned, starts, runs, visited⟩
        | continues runs restRuns =>
            rcases List.mem_append.mp visited with early | late
            · exact .inl ⟨environment, _, _, starts, runs, early⟩
            · obtain ⟨origin, inLate, rfl⟩ := List.mem_map.mp late
              exact .inr ⟨origin, ⟨_, _, ending, handed starts runs, restRuns,
                inLate⟩, rfl⟩
      · intro allReturn environment visits ending starts executes
        cases executes with
        | returns _ =>
            rfl
        | continues runs restRuns =>
            exact restWalked.returned allReturn _ _ _ (handed starts runs)
              restRuns

mutual

/-- Walking a supported statement is sound. -/
theorem statement_sound
    (checker : Checker)
    (result : Ty) :
    (statement : Statement) →
    statement.supported = true →
    StatementSound checker result statement
  | .declare _ _ _ _, supported => declare_sound supported
  | .inspect _ _, supported => inspect_sound supported
  | .return _, _ => return_sound
  | .choose guard positive negative, supported => by
      simp only [Statement.supported, Bool.and_eq_true] at supported
      exact choose_sound supported.1.1
        (block_sound checker result positive supported.1.2)
        (block_sound checker result negative supported.2)
  | .switch subject clauses none, supported => by
      simp only [Statement.supported, Bool.and_eq_true] at supported
      exact switch_partial_sound supported.1.1
        (proper_allLabels supported.1.2)
        (clauses_sound checker result clauses supported.1.2)
  | .switch subject clauses (some body), supported => by
      simp only [Statement.supported, Bool.and_eq_true] at supported
      exact switch_total_sound supported.1.1 (proper_allLabels supported.1.2)
        (clauses_sound checker result clauses supported.1.2)
        (block_sound checker result body supported.2)

/-- Walking a supported block is sound. -/
theorem block_sound
    (checker : Checker)
    (result : Ty) :
    (statements : List Statement) →
    blockSupported statements = true →
    BlockSound checker result statements
  | [], _ => block_nil_sound
  | statement :: rest, supported => by
      simp only [blockSupported, Bool.and_eq_true] at supported
      exact block_cons_sound
        (statement_sound checker result statement supported.1)
        (block_sound checker result rest supported.2)

/-- Walking supported clauses is sound. -/
theorem clauses_sound
    (checker : Checker)
    (result : Ty) :
    (clauses : List (Clause Statement)) →
    clausesSupported clauses = true →
    ClausesSound checker result clauses
  | [], _ => clauses_nil_sound
  | ⟨labels, body⟩ :: rest, supported => by
      simp only [clausesSupported, Bool.and_eq_true, List.all_eq_true,
        Bool.not_eq_true'] at supported
      exact clauses_cons_sound supported.1.1
        (block_sound checker result body supported.1.2)
        (clauses_sound checker result rest supported.2)

end

end Soundness

/-- Declare one more parameter. -/
def declareParameter
    (state : BindingTable × Scope)
    (parameter : String × Ty) :
    BindingTable × Scope :=
  (state.1 ++ [{ name := parameter.1, declared := parameter.2 }],
    state.2.declare parameter.1 state.1.length)

/-- Give one more argument its name, which hides an earlier one. -/
def declareArgument
    (environment : Environment)
    (entry : (String × Ty) × Value) :
    Environment :=
  environment.declare entry.1.1 entry.2

/-- The environment in which a body runs on arguments. -/
def argumentEnvironment
    (parameters : List (String × Ty))
    (arguments : List Value) :
    Environment :=
  (parameters.zip arguments).foldl declareArgument (fun _ => none)

/-- Values that belong to the types of their parameters. -/
def ArgumentsBelong
    (arena : Arena) :
    List (String × Ty) →
    List Value →
    Prop :=
  List.Forall₂ fun parameter value =>
    value.NaNFree ∧ Belongs arena parameter.2 value

/-- Declaring parameters with types of the fragment stays within it. -/
theorem fits_declareParameters
    {parameters : List (String × Ty)}
    {state : BindingTable × Scope}
    (admitted :
      ∀ parameter ∈ parameters, Fragment.narrowing.admits parameter.2 = true)
    (fits : ScopeFits state.2 state.1) :
    ScopeFits (parameters.foldl declareParameter state).2
      (parameters.foldl declareParameter state).1 := by
  induction parameters generalizing state with
  | nil =>
      exact fits
  | cons parameter rest inductionHypothesis =>
      obtain ⟨head, tail⟩ := List.forall_mem_cons.mp admitted
      let binding : Binding :=
        { name := parameter.1, declared := parameter.2 }
      have current : Fragment.narrowing.admits binding.current = true := head
      exact inductionHypothesis tail (fits.declare current)

/-- Arguments of the types of their parameters fit the scope of a body. -/
theorem fits_declareArguments
    {arena : Arena}
    {parameters : List (String × Ty)}
    {arguments : List Value}
    {state : BindingTable × Scope}
    {environment : Environment}
    (named : ScopeNamed state.2 state.1)
    (belong : ArgumentsBelong arena parameters arguments)
    (starts : environment.Fits arena (state.2.view state.1)) :
    ((parameters.zip arguments).foldl declareArgument environment).Fits arena
      ((parameters.foldl declareParameter state).2.view
        (parameters.foldl declareParameter state).1) := by
  induction belong generalizing state environment with
  | nil =>
      exact starts
  | @cons parameter value _ _ head _ inductionHypothesis =>
      let binding : Binding :=
        { name := parameter.1, declared := parameter.2 }
      have belongs : Belongs arena binding.current value := head.2
      exact inductionHypothesis (named.declare binding)
        (starts.declare named head.1 belongs)

/-- Checking a function walks its body once. -/
theorem checkFunction_settles
    {checker : Checker}
    {function : FunctionBody}
    {report : FunctionReport}
    (settles : Settles (checker.checkFunction function) report) :
    ∃ returns walk after,
      WalkRuns
          (checker.walkBlock function.result
            ([] :: (Scope.ofTypes function.parameters).2) function.body)
          {} (Scope.ofTypes function.parameters).1 returns walk after ∧
        report =
          { observations := walk.observations, fallsThrough := !returns } := by
  unfold checkFunction at settles
  obtain ⟨⟨⟨returns, walk⟩, after⟩, walks, settles⟩ :=
    (@settles_bind _ _ _ _ (fun result => by
      dsimp only
      split
      · infer_instance
      · exact .bind inferInstance fun _ => inferInstance) _).mp settles
  refine ⟨returns, walk, after, walks, ?_⟩
  dsimp only at settles
  split at settles
  · exact settles_pure.mp settles
  · obtain ⟨_, _, settles⟩ := settles_bind.mp settles
    exact settles_pure.mp settles

/--
The walk through a function body is sound. Its observations stand for the
inspecting statements of some numbers, in their order. Whenever the body runs on
arguments of the parameter types, each inspecting statement it reaches has such
a number, and the value there belongs to the type observed for it. If some run
ends without returning, the body is found to fall through.
-/
theorem checkFunction_sound
    (checker : Checker)
    (function : FunctionBody)
    (report : FunctionReport)
    (before added : Log)
    (parametersAdmitted :
      ∀ parameter ∈ function.parameters,
        Fragment.narrowing.admits parameter.2 = true)
    (supported : blockSupported function.body = true)
    (declared :
      checker.BlockDeclared function.result
        ([] :: (Scope.ofTypes function.parameters).2)
        (Scope.ofTypes function.parameters).1 function.body)
    (run :
      checker.checkFunction function before = .ok (report, before ++ added))
    (quiet : Log.Quiet added) :
    ∃ numbers : List Nat,
      numbers.Pairwise (· < ·) ∧
        List.Forall₂
          (fun number observation =>
            (blockInspections function.body)[number]? =
              some observation.label)
          numbers report.observations ∧
        ∀ arguments visits ending,
          ArgumentsBelong checker.arena function.parameters arguments →
          ExecutesBlock checker.arena
            (argumentEnvironment function.parameters arguments) function.body
            visits ending →
          (∀ visit ∈ visits,
            ∃ observation,
              (visit.number, observation) ∈
                  numbers.zip report.observations ∧
                Belongs checker.arena observation.type visit.value) ∧
            ∀ environment,
              ending = .completed environment → report.fallsThrough = true := by
  obtain ⟨returns, walk, after, runs, rfl⟩ :=
    checkFunction_settles (settles_of_run run quiet)
  have noNames : ScopeFits [[]] [] := by
    constructor
    · rintro name slot ⟨⟩
    · refine ⟨Facts.admitted_empty, ?_⟩
      rintro name type ⟨⟩
  have fits :
      ScopeFits (Scope.ofTypes function.parameters).2
        (Scope.ofTypes function.parameters).1 :=
    @fits_declareParameters _ ([], [[]]) parametersAdmitted noNames
  have walked :=
    block_sound checker function.result function.body supported fits.enter
      declared runs
  obtain ⟨_, numbers, observations, same, recorded⟩ := walked.walked
  rw [List.nil_append] at same
  subst same
  refine ⟨numbers, recorded.ordered, recorded.labelled, ?_⟩
  intro arguments visits ending belong executes
  have starts :
      (argumentEnvironment function.parameters arguments).Fits checker.arena
        ((Scope.ofTypes function.parameters).2.view
          (Scope.ofTypes function.parameters).1) := by
    refine @fits_declareArguments _ _ _ ([], [[]]) _ noNames.named belong
      ⟨?_, ?_, ?_⟩
    · rintro name value ⟨⟩
    · exact Facts.hold_empty
    · rintro name type value ⟨⟩
  constructor
  · intro visit visited
    exact recorded.holds visit ⟨_, visits, ending, starts, executes, visited⟩
  · rintro environment rfl
    cases returns with
    | false =>
        rfl
    | true =>
        cases walked.returned rfl _ _ _ starts executes

section Texts

/-- A clause with one label that returns its subject after inspecting it. -/
def inspectingClause
    (label : String) :
    Clause Statement :=
  { labels := [⟨none, .string (.ofString label)⟩]
    body := [.inspect label (.name "x"), .return (some (.name "x"))] }

/-- One of two texts, or `null`. -/
def textOrNull : Ty :=
  .ofUnion
    [.ofLiteral (.string (.ofString "a")),
      .ofLiteral (.string (.ofString "b")), .null]

/-- A function that tells two texts apart and falls through for `null`. -/
def tellApart : FunctionBody :=
  { name := "tellApart"
    parameters := [("x", textOrNull)]
    result := .absent
    body :=
      [.switch (.name "x") [inspectingClause "a", inspectingClause "b"] none,
        .inspect "rest" (.name "x")] }

/-- On `null` the function reaches its last statement, where `null` is left. -/
theorem checkFunction_sound_tellApart :
    ∃ report : FunctionReport,
      Checker.checkFunction { budget := 8 } tellApart [] =
          .ok (report, []) ∧
        report.fallsThrough = true ∧
        ∃ observation ∈ report.observations,
          observation.label = "rest" ∧
            Belongs {} observation.type .null := by
  let checker : Checker := { budget := 8 }
  let report : FunctionReport :=
    { observations :=
        [⟨"a", .ofLiteral (.string (.ofString "a"))⟩,
          ⟨"b", .ofLiteral (.string (.ofString "b"))⟩, ⟨"rest", .null⟩]
      fallsThrough := true }
  have run : checker.checkFunction tellApart [] = .ok (report, []) := by
    decide +kernel
  have declared :
      checker.BlockDeclared tellApart.result
        ([] :: (Scope.ofTypes tellApart.parameters).2)
        (Scope.ofTypes tellApart.parameters).1 tellApart.body := by
    have clause :
        ∀ {scope : Scope} {table label guard},
          anyLabel (.name "x") (inspectingClause label).labels =
            some guard →
          guard.GuardsDeclared checker (scope.view table) ∧
            ∀ extra facts,
              Settles (checker.refine (scope.view table) guard true) facts →
              checker.BlockDeclared tellApart.result ([] :: scope)
                (narrowedTable scope (table ++ extra) facts)
                (inspectingClause label).body := by
      rintro scope table label guard ⟨⟩
      exact ⟨⟨trivial, trivial⟩, fun _ _ _ => ⟨trivial, fun _ _ _ _ _ _ =>
        ⟨trivial, fun _ _ _ _ _ _ => trivial⟩⟩⟩
    refine ⟨⟨trivial, ?_, ⟨fun _ => clause, fun _ => clause, trivial⟩, ?_,
      trivial⟩, fun _ _ _ _ _ _ => ⟨trivial, fun _ _ _ _ _ _ => trivial⟩⟩
    · rintro type after union ⟨added, typed, _⟩ ⟨more, taken, _⟩
      cases typed
      have untagged :
          checker.discriminant? textOrNull [] = .ok (none, []) := by
        decide +kernel
      cases untagged.symm.trans taken
    · rintro guard ⟨⟩
      exact ⟨⟨trivial, trivial⟩, fun _ _ => ⟨trivial, trivial⟩⟩
  obtain ⟨numbers, _, labelled, sound⟩ :=
    checkFunction_sound checker tellApart report [] []
      (by decide +kernel) (by decide +kernel) declared run Log.quiet_nil
  let environment := argumentEnvironment tellApart.parameters [.null]
  have belong : ArgumentsBelong {} tellApart.parameters [.null] :=
    .cons ⟨.null, holds_union.mpr ⟨.null, by simp, .primitive rfl⟩⟩ .nil
  have unmatched :
      NoneMatches .null
        (allLabels [inspectingClause "a", inspectingClause "b"]) :=
    fun _ _ => .distinct (by rintro _ ⟨⟩) (by rintro _ ⟨⟩)
  have rest :
      ExecutesBlock {} environment [.inspect "rest" (.name "x")]
        [⟨0, .null⟩] (.completed environment) :=
    ExecutesBlock.continues (.inspect (.name rfl)) .done
  have first :
      Executes {} environment
        (.switch (.name "x") [inspectingClause "a", inspectingClause "b"]
          none)
        [] (.completed environment) :=
    .unmatched (.name rfl) unmatched
  have executes := ExecutesBlock.continues first rest
  obtain ⟨visits, falls⟩ := sound [.null] _ _ belong executes
  obtain ⟨observation, paired, belongs⟩ :=
    visits ⟨2, .null⟩ (List.mem_singleton.mpr rfl)
  have label : some "rest" = some observation.label :=
    (List.forall₂_iff_zip.mp labelled).2 paired
  exact ⟨report, run, falls _ rfl, observation, (List.of_mem_zip paired).2,
    (Option.some.inj label).symm, belongs⟩

end Texts

section EmptyName

/-- An object with a literal under the empty name. -/
def unnamedTag
    (tag : String) :
    Ty :=
  .ofShape
    { properties :=
        [{ name := "", type := .ofLiteral (.string (.ofString tag)) }] }

/-- A clause with one label that returns. -/
def returningClause
    (label : String) :
    Clause Statement :=
  { labels := [⟨none, .string (.ofString label)⟩]
    body := [.return none] }

/-- A switch on objects, with the literals of their unnamed property as labels. -/
def switchOnObjects : FunctionBody :=
  { name := "switchOnObjects"
    parameters := [("x", .ofUnion [unnamedTag "a", unnamedTag "b"])]
    result := .absent
    body :=
      [.switch (.name "x") [returningClause "a", returningClause "b"] none] }

/--
No object equals a text, so every run leaves the switch without returning. The
walk takes the objects for the literals of their unnamed property and finds the
switch exhausted.
-/
theorem checkFunction_misses_fall_through :
    Checker.checkFunction { budget := 8 } switchOnObjects [] =
        .ok ({ observations := [], fallsThrough := false }, []) ∧
      ∃ argument environment,
        ArgumentsBelong {} switchOnObjects.parameters [argument] ∧
          ExecutesBlock {}
            (argumentEnvironment switchOnObjects.parameters [argument])
            switchOnObjects.body [] (.completed environment) := by
  refine ⟨by decide +kernel, .object [("", .ofString "a")],
    argumentEnvironment switchOnObjects.parameters
      [.object [("", .ofString "a")]], .cons ⟨?_, ?_⟩ .nil, ?_⟩
  · refine .object fun entry member => ?_
    cases List.mem_singleton.mp member
    exact .constant rfl
  · refine .union (List.mem_cons_self) (holds_object.mpr ⟨rfl, ?_⟩)
    intro property member
    cases List.mem_singleton.mp member
    exact .inr (.literal rfl)
  · refine .continues (.unmatched (.name rfl) ?_) .done
    intro label _
    exact .distinct (by rintro _ ⟨⟩) (by rintro ⟨⟩)

end EmptyName

end Checker

end StructuralTyping