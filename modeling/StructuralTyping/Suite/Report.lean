import StructuralTyping.Report.Table
import StructuralTyping.Suite.Run

namespace StructuralTyping

/-!
# Reports on suites

The results of a suite as a table, followed by the failures and diagnostics of
the checks that failed.
-/

namespace CheckResult

/-- The outcome of a check in one word. -/
def status
    (result : CheckResult) :
    String :=
  if result.skipped then
    "SKIP"
  else if result.passed then
    "PASS"
  else
    "FAIL"

/-- The row of a check. -/
def row
    (result : CheckResult) :
    List String :=
  [result.name, result.kind, result.status, result.got, result.want]

/-- The failures and diagnostics of a check, if it failed. -/
def details
    (result : CheckResult) :
    String :=
  if result.passed || result.skipped then
    ""
  else
    let failures :=
      result.failures.map fun failure =>
        "  " ++ result.name ++ " (line " ++ toString result.line ++ "): " ++
          failure ++ "\n"
    String.join failures ++ Diagnostic.renderAll "    " result.diagnostics

/-- The table of results; its footer counts the checks that passed. -/
def table
    (results : List CheckResult) :
    Table :=
  let summary := Summary.ofResults results
  { columns :=
      [ { title := "CHECK" },
        { title := "KIND" },
        { title := "STATUS"
          alignment := .center
          footer :=
            toString summary.passed ++ "/" ++ toString results.length },
        { title := "GOT" },
        { title := "WANT" } ]
    rows := results.map row }

/-- The report on a suite. -/
def report
    (results : List CheckResult) :
    String :=
  (table results).render ++ String.join (results.map details)

end CheckResult

end StructuralTyping
