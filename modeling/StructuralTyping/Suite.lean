import StructuralTyping.Suite.Question
import StructuralTyping.Yaml.Document

namespace StructuralTyping

/-!
# Suites

A suite declares named types and lists checks about them. It is read from a
document whose root is a record: all names are declared before any of them is
defined, so that definitions may refer to each other.
-/

/-- A suite of checks over an arena. -/
structure Suite where
  arena : Arena
  /-- Takes the place of the option of the same name. -/
  strictNullChecks : Option Bool
  checks : List SuiteCheck
  deriving Repr

/-- The fixed part of a suite as it was written. -/
structure SuiteFields where
  strictNullChecks : Option Bool
  types : Option Yaml.Node
  checks : List Yaml.Node
  deriving Repr

/-- The names of the options of a suite and their forms. -/
def SuiteFields.optionForms : List (String × Yaml.Form) :=
  [("strict_null_checks", .scalar)]

/-- The names of the fields of a suite and their forms. -/
def SuiteFields.forms : List (String × Yaml.Form) :=
  [ ("options", .record optionForms), ("types", .node),
    ("checks", .list .node) ]

/--
The fields of a suite, if those with a fixed form have it. The document around
its root counts as a node, too.
-/
def SuiteFields.ofNode?
    (node : Yaml.Node) :
    Option SuiteFields := do
  guard ((Yaml.Form.record forms).admits { nodes := 1 } node)
  let fields ← Yaml.Record.ofNode? (forms.map Prod.fst) node
  let options : Yaml.Record ←
    match fields.node? "options" with
    | none => pure []
    | some node => Yaml.Record.ofNode? (optionForms.map Prod.fst) node
  let strictNullChecks ← options.maybeFlag? "strict_null_checks"
  let checks ← fields.maybeItems? "checks"
  return {
    strictNullChecks
    types := fields.node? "types"
    checks := checks.getD [] }

namespace Decode

/-- The arena in which the keys of a mapping are declared. -/
def declaredNames
    (entries : List (Yaml.Node × Yaml.Node)) :
    Arena :=
  entries.foldl (fun arena (key, _) => (arena.declare key.text).2) {}

/-- Define the keys of a mapping by its values, in order. -/
def defineNames
    (arena : Arena) :
    List (Yaml.Node × Yaml.Node) →
    Decode Arena
  | [] => return arena
  | (key, value) :: rest => do
      let name := key.text
      let definition ← within (.definition name) (type arena value)
      let (reference, arena) := arena.declare name
      match arena.define reference definition with
      | .ok arena => defineNames arena rest
      | .error error => stop (.undefinable error)

/-- The arena of the named types of a suite. -/
def arena :
    Option Yaml.Node →
    Decode Arena
  | none => return {}
  | some (.mapping _ entries) => defineNames (declaredNames entries) entries
  | some node => fault node.line .mappingExpected

/-- The checks of a suite, the first of which has the given position. -/
def checks
    (arena : Arena)
    (position : Nat) :
    List Yaml.Node →
    Decode (List SuiteCheck)
  | [] => return []
  | node :: rest => do
      let first ← check arena position node
      return first :: (← checks arena (position + 1) rest)

/-- The suite with the given fields. -/
def suite
    (fields : SuiteFields) :
    Decode Suite := do
  let arena ← arena fields.types
  if arena.undefinedNames.isEmpty then
    let checks ← checks arena 1 fields.checks
    return { arena, strictNullChecks := fields.strictNullChecks, checks }
  else
    stop (.undefinedNames arena.undefinedNames)

end Decode

namespace Suite

/-- The suite that a document describes. -/
def ofNode
    (node : Yaml.Node) :
    Except Problem Suite :=
  match SuiteFields.ofNode? node with
  | none => .error .malformedPart
  | some fields => (Decode.suite fields).run' 0

/-- Read a suite from a text. -/
def read
    (text : String) :
    Except Problem Suite :=
  match Yaml.Node.read? text with
  | none => .error .malformedText
  | some node => ofNode node

/-- The wording of the refusal of a suite. -/
def refusal
    (problem : Problem) :
    String :=
  "invalid suite: " ++ problem.message

end Suite

end StructuralTyping
