import StructuralTyping.Text.Template

namespace StructuralTyping

/-!
# Diagnostics

A diagnostic is a structured finding: which part of the checker made it, how
serious it is, a stable code, a message and optional explanations. Hosts may
supply stages, severities and codes of their own.
-/

/-- The part of the checker that made a finding. -/
inductive Stage where
  | assign
  | normalize
  | utility
  | narrow
  | exhaustive
  | other (name : String)
  deriving Repr, DecidableEq

/-- How serious a finding is. -/
inductive Severity where
  | error
  | warning
  | note
  | other (name : String)
  deriving Repr, DecidableEq

/-- The stable identifier of a kind of finding. -/
inductive Code where
  | unsupportedUtility
  | invalidArgument
  | unknownProperty
  | typeTooComplex
  | typeMismatch
  | nonExhaustive
  | missingReturn
  | undefinedBinding
  | unresolvedType
  | other (name : String)
  deriving Repr, DecidableEq

/-- The name of a stage. -/
def Stage.name :
    Stage →
    String
  | assign => "assign"
  | normalize => "normalize"
  | utility => "utility"
  | narrow => "narrow"
  | exhaustive => "exhaustive"
  | other name => name

/-- The stage of the given name. -/
def Stage.ofName
    (name : String) :
    Stage :=
  ([assign, normalize, utility, narrow, exhaustive].find?
    fun stage => stage.name == name).getD (other name)

/-- The name of a severity. -/
def Severity.name :
    Severity →
    String
  | error => "error"
  | warning => "warning"
  | note => "note"
  | other name => name

/-- The severity of the given name. -/
def Severity.ofName
    (name : String) :
    Severity :=
  ([error, warning, note].find?
    fun severity => severity.name == name).getD (other name)

/-- The name of a code. -/
def Code.name :
    Code →
    String
  | unsupportedUtility => "TYPE_UNSUPPORTED_UTILITY"
  | invalidArgument => "TYPE_INVALID_ARGUMENT"
  | unknownProperty => "TYPE_UNKNOWN_PROPERTY"
  | typeTooComplex => "TYPE_TOO_COMPLEX"
  | typeMismatch => "TYPE_MISMATCH"
  | nonExhaustive => "TYPE_NON_EXHAUSTIVE"
  | missingReturn => "TYPE_MISSING_RETURN"
  | undefinedBinding => "TYPE_UNDEFINED_BINDING"
  | unresolvedType => "TYPE_UNRESOLVED"
  | other name => name

/-- The code of the given name. -/
def Code.ofName
    (name : String) :
    Code :=
  ([unsupportedUtility, invalidArgument, unknownProperty, typeTooComplex,
      typeMismatch, nonExhaustive, missingReturn, undefinedBinding,
      unresolvedType].find?
    fun code => code.name == name).getD (other name)

/-- A source location supplied by the host; the zero span means none. -/
structure Span where
  file : String := ""
  line : Int := 0
  column : Int := 0
  start : Int := 0
  stop : Int := 0
  deriving Repr, DecidableEq

namespace Span

/-- The written form of a location. -/
def text
    (span : Span) :
    String :=
  let position := toString span.line ++ ":" ++ toString span.column
  if span.file.isEmpty then
    position
  else
    span.file ++ ":" ++ position

/-- Whether the span points into a source. -/
def isValid
    (span : Span) :
    Bool :=
  decide (0 < span.line ∧ 0 < span.column)

end Span

/-- A code as a value in the lines of a report. -/
def Code.templateValue
    (code : Code) :
    Text.TemplateValue :=
  .text "diag.Code" code.name

/-- A location as a value in the lines of a report. -/
def Span.templateValue
    (span : Span) :
    Text.TemplateValue :=
  .record "diag.Span" span.text
    [ ("Filename", .text "string" span.file), ("Line", .integer span.line),
      ("Column", .integer span.column), ("Start", .integer span.start),
      ("End", .integer span.stop) ]

/-- A line of a report: a template and the values for it. -/
structure ReportLine where
  template : String
  values : List Text.TemplateValue
  deriving Repr

namespace ReportLine

/-- A text as a value in a line. -/
def textValue
    (text : String) :
    Text.TemplateValue :=
  .text "string" text

/-- A line after an indent, with a line end. -/
def text
    (indent : String)
    (line : ReportLine) :
    String :=
  Text.fill (indent ++ line.template ++ "\n") line.values

end ReportLine

/-- One step of the path that led to a failure. -/
structure ProofStep where
  message : String
  span : Span := {}
  deriving Repr, DecidableEq

/-- A finding of the checker. -/
structure Diagnostic where
  stage : Stage
  severity : Severity
  code : Code
  message : String
  span : Span := {}
  notes : List String := []
  help : String := ""
  proof : List ProofStep := []
  deriving Repr, DecidableEq

namespace Diagnostic

/-- The one-line form of a diagnostic. -/
def text
    (diagnostic : Diagnostic) :
    String :=
  let finding :=
    diagnostic.severity.name ++ "[" ++ diagnostic.code.name ++ "]: " ++
      diagnostic.message
  if diagnostic.span.isValid then
    diagnostic.span.text ++ ": " ++ finding
  else
    finding

/-- The severity in reports; a finding without one counts as an error. -/
def reportedSeverity
    (diagnostic : Diagnostic) :
    String :=
  if diagnostic.severity.name.isEmpty then
    Severity.error.name
  else
    diagnostic.severity.name

/-- The head line: severity, code if there is one, and message. -/
def headLine
    (diagnostic : Diagnostic) :
    ReportLine :=
  let severity := ReportLine.textValue diagnostic.reportedSeverity
  let message := ReportLine.textValue diagnostic.message
  if diagnostic.code.name.isEmpty then
    { template := "%s: %s", values := [severity, message] }
  else
    { template := "%s[%s]: %s"
      values := [severity, diagnostic.code.templateValue, message] }

/-- A line with an explanation. -/
def noteLine
    (note : String) :
    ReportLine :=
  { template := "  = note: %s", values := [ReportLine.textValue note] }

/-- The lines of one proof step. -/
def stepLines
    (step : ProofStep) :
    List ReportLine :=
  noteLine step.message ::
    if step.span.isValid then
      [{ template := "           at %s", values := [step.span.templateValue] }]
    else
      []

/-- The layout of a diagnostic: head, location, proof, notes and help. -/
def lines
    (diagnostic : Diagnostic) :
    List ReportLine :=
  let location : List ReportLine :=
    if diagnostic.span.isValid then
      [ { template := "  --> %s"
          values := [diagnostic.span.templateValue] } ]
    else
      []
  let help : List ReportLine :=
    if diagnostic.help.isEmpty then
      []
    else
      [ { template := "help: %s"
          values := [ReportLine.textValue diagnostic.help] } ]
  diagnostic.headLine ::
    (location ++ diagnostic.proof.flatMap stepLines ++
      diagnostic.notes.map noteLine ++ help)

/-- Join lines, each after an indent and with a line end. -/
def layout
    (indent : String)
    (lines : List ReportLine) :
    String :=
  String.join (lines.map (ReportLine.text indent))

/-- The layout of a diagnostic as one text. -/
def render
    (diagnostic : Diagnostic) :
    String :=
  layout "" diagnostic.lines

/--
Render a list of diagnostics with an indent, blank lines between them. The
indent is part of the template of every line, so places in it take values.
-/
def renderAll
    (indent : String)
    (diagnostics : List Diagnostic) :
    String :=
  String.join
    ((diagnostics.map fun diagnostic => layout indent diagnostic.lines).intersperse
      (layout indent [{ template := "", values := [] }]))

/-- Report order by position: line first, then column. -/
def atOrBefore
    (first second : Diagnostic) :
    Bool :=
  if first.span.line = second.span.line then
    decide (first.span.column ≤ second.span.column)
  else
    decide (first.span.line < second.span.line)

end Diagnostic

/-- Everything reported so far, in report order. -/
abbrev Log :=
  List Diagnostic

namespace Log

/-- The diagnostics by position; those at one position keep report order. -/
def sorted
    (log : Log) :
    List Diagnostic :=
  log.mergeSort Diagnostic.atOrBefore

/-- Whether an error was reported. -/
def hasErrors
    (log : Log) :
    Bool :=
  log.any fun diagnostic => diagnostic.severity == .error

/-- Whether a diagnostic with the code was reported. -/
def hasCode
    (log : Log)
    (code : Code) :
    Bool :=
  log.any fun diagnostic => diagnostic.code == code

end Log

end StructuralTyping
