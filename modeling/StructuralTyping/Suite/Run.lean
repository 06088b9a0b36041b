import StructuralTyping.Suite

namespace StructuralTyping

/-!
# Running suites

Every check is run by a checker of its own. The answer to its question, and the
codes of the diagnostics where they are stated, are compared with what the
check expects; a check without a failure has passed. A run that was cancelled
skips its checks.
-/

/-- The answer to a question beside the expected one, and what differs. -/
structure Verdict where
  got : String
  want : String := ""
  failures : List String := []
  deriving Repr, DecidableEq

/-- A failure, if an answer is not the expected one. -/
def Verdict.compare
    (what got want : String) :
    List String :=
  if got = want then
    []
  else
    [what ++ ": got " ++ got ++ ", want " ++ want]

/-- A verdict by comparison of two texts. -/
def Verdict.of
    (what got want : String) :
    Verdict :=
  { got, want, failures := Verdict.compare what got want }

/-- The written form of a truth value. -/
def truthText
    (value : Bool) :
    String :=
  if value then "true" else "false"

/-- Texts in order and without repetitions. -/
def sortedUnique
    (texts : List String) :
    List String :=
  (texts.mergeSort fun first second => decide (first ≤ second)).eraseReps

namespace Question

/-- Normalize a type; doing so once more should change nothing. -/
def normalizeVerdict
    (checker : Checker)
    (type : Ty)
    (expected : String) :
    Check Verdict := do
  let once ← checker.normalize type
  let twice ← checker.normalize once
  let unstable :=
    if checker.arena.identical once twice then
      []
    else
      ["not idempotent: " ++ once.shown ++ " normalizes to " ++ twice.shown]
  let mismatch :=
    if expected.isEmpty then
      []
    else
      Verdict.compare "normalized" once.text expected
  return {
    got := once.text
    want := expected
    failures := unstable ++ mismatch }

/-- Apply a utility, which may be expected to fail with a code. -/
def utilityVerdict
    (checker : Checker)
    (application : Application Ty)
    (expectation : Expectation) :
    Check Verdict := do
  let error := expectation.error
  let unexpected (got : String) := "expected " ++ error ++ ", got " ++ got
  match ← checker.applyUtility application, error.isEmpty with
  | .ok type, true =>
      return .of application.utility type.text expectation.type
  | .error cause, true =>
      return {
        got := cause.message
        want := expectation.type
        failures := [cause.message] }
  | .ok type, false =>
      return {
        got := type.text
        want := error
        failures := [unexpected type.shown] }
  | .error cause, false =>
      let reported := (← get).hasCode (.ofName error)
      return {
        got := cause.message
        want := error
        failures := if reported then [] else [unexpected cause.message] }

/-- Check what constants leave over of a type. -/
def exhaustiveVerdict
    (checker : Checker)
    (type : Ty)
    (handled : List Literal)
    (expectation : Expectation) :
    Check Verdict := do
  let result ← checker.checkExhaustive type handled
  let exhaustive := truthText result.exhaustive
  let flag := expectation.flag.map truthText
  let wantedFlag := flag.toList.map ("exhaustive=" ++ ·)
  let wantedResidual := expectation.residual.toList.map ("residual=" ++ ·)
  let flagFailures :=
    flag.toList.flatMap (Verdict.compare "exhaustive" exhaustive ·)
  let residualFailures :=
    expectation.residual.toList.flatMap
      (Verdict.compare "residual" result.residual.text ·)
  return {
    got :=
      "exhaustive=" ++ exhaustive ++ " residual=" ++ result.residual.shown
    want := " ".intercalate (wantedFlag ++ wantedResidual)
    failures := flagFailures ++ residualFailures }

/-- What is shown for a label that was not reached. -/
def notReached : String :=
  "<not reached>"

/-- Check a function body and compare the types that it observes, by label. -/
def functionVerdict
    (checker : Checker)
    (body : FunctionBody)
    (expectation : Expectation) :
    Check Verdict := do
  let report ← checker.checkFunction body
  let labels := sortedUnique (expectation.observed.map Prod.fst)
  let got (label : String) :=
    ((report.observed? label).map Ty.text).getD notReached
  let want (label : String) :=
    (expectation.observed.lookup label).getD ""
  let list (texts : String → String) :=
    " ".intercalate (labels.map fun label => label ++ "=" ++ texts label)
  return {
    got := list got
    want := list want
    failures :=
      labels.flatMap fun label =>
        Verdict.compare ("inspect " ++ label) (got label) (want label) }

/-- Answer a question and compare the answer with what is expected. -/
def verdict
    (checker : Checker)
    (expectation : Expectation) :
    Question →
    Check Verdict
  | assignable source target expected => do
      let got ← checker.isAssignable source target
      return .of "assignable" (truthText got) (truthText expected)
  | normalize type => normalizeVerdict checker type expectation.type
  | utility application => utilityVerdict checker application expectation
  | exhaustive type handled =>
      exhaustiveVerdict checker type handled expectation
  | narrow binding guard branch => do
      let got ← checker.narrow binding guard branch
      let what :=
        binding.name ++ " on " ++ truthText branch ++ " branch of " ++
          Expression.shownText guard.text?
      return .of what got.text expectation.type
  | typeof scope expression => do
      let (table, scope) := Scope.ofTypes scope
      let (got, _) ← (checker.typeOf scope expression).run table
      return .of (Expression.shownText expression.text?) got.text
        expectation.type
  | function body => functionVerdict checker body expectation

end Question

/-- The outcome of a check. -/
structure CheckResult where
  name : String
  kind : String
  line : Nat
  skipped : Bool := false
  got : String := ""
  want : String := ""
  failures : List String := []
  diagnostics : List Diagnostic := []
  deriving Repr, DecidableEq

/-- Whether a check was run and nothing in it failed. -/
def CheckResult.passed
    (result : CheckResult) :
    Bool :=
  !result.skipped && result.failures.isEmpty

/-- How many checks passed, failed and were skipped. -/
structure Summary where
  passed : Nat := 0
  failed : Nat := 0
  skipped : Nat := 0
  deriving Repr, DecidableEq

namespace Summary

/-- Count the outcomes of checks. -/
def ofResults
    (results : List CheckResult) :
    Summary :=
  let skipped := results.countP CheckResult.skipped
  let passed := results.countP CheckResult.passed
  { passed, skipped, failed := results.length - skipped - passed }

/-- Whether every check passed. -/
def isOk
    (summary : Summary) :
    Bool :=
  summary.failed = 0 && summary.skipped = 0

/-- The outcomes of two runs together. -/
def add
    (first second : Summary) :
    Summary :=
  { passed := first.passed + second.passed
    failed := first.failed + second.failed
    skipped := first.skipped + second.skipped }

/-- The counts in words; failed and skipped checks only if there are any. -/
def line
    (summary : Summary) :
    String :=
  let counted (count : Nat) (what : String) :=
    toString count ++ " " ++ what
  let others :=
    [(summary.failed, "failed"), (summary.skipped, "skipped")].filter
      fun (count, _) => 0 < count
  ", ".intercalate
    (counted summary.passed "passed" ::
      others.map fun (count, what) => counted count what)

end Summary

/-- How suites are run. -/
structure Runner where
  options : Options := {}
  /-- Bounds the steps of each question. -/
  budget : Nat
  /-- Whether the run was called off before it began. -/
  cancelled : Bool := false
  deriving Repr, DecidableEq

namespace Runner

/-- Why a run did not take place. -/
def error?
    (runner : Runner) :
    Option String :=
  if runner.cancelled then some "context canceled" else none

/-- The checker for the checks of a suite. -/
def checker
    (runner : Runner)
    (suite : Suite) :
    Checker :=
  { arena := suite.arena
    options :=
      { runner.options with
        strictNullChecks :=
          suite.strictNullChecks.getD runner.options.strictNullChecks }
    budget := runner.budget }

/-- Compare the codes of diagnostics with those that are stated. -/
def codeFailures
    (diagnostics : List Diagnostic) :
    Option (List String) →
    List String
  | none => []
  | some codes =>
      let reported := diagnostics.map fun diagnostic => diagnostic.code.name
      Verdict.compare "codes"
        (",".intercalate (sortedUnique reported))
        (",".intercalate (sortedUnique codes))

/-- Run a check, unless it halts. -/
def runCheck
    (checker : Checker)
    (check : SuiteCheck) :
    Except Halt CheckResult := do
  let (verdict, log) ←
    (check.question.verdict checker check.expectation).run []
  let diagnostics := log.sorted
  return {
    name := check.name
    kind := check.question.kind
    line := check.line
    got := verdict.got
    want := verdict.want
    failures :=
      verdict.failures ++ codeFailures diagnostics check.expectation.codes
    diagnostics }

/-- The result of a check that is skipped. -/
def skip
    (check : SuiteCheck) :
    CheckResult :=
  { name := check.name
    kind := check.question.kind
    line := check.line
    skipped := true }

/-- Run the checks of a suite in order. -/
def run
    (runner : Runner)
    (suite : Suite) :
    Except Halt (List CheckResult) :=
  if runner.cancelled then
    .ok (suite.checks.map skip)
  else
    suite.checks.mapM (runCheck (runner.checker suite))

end Runner

end StructuralTyping
