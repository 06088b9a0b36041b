import StructuralTyping.Arena
import StructuralTyping.Diagnostic
import StructuralTyping.Ty.Text

namespace StructuralTyping

/-!
# The checker

A checker answers questions about types over one arena and one set of options.
Its computations keep a log of diagnostics. Some of the questions can run on
forever on self-referential definitions; every computation therefore has a
budget of steps, and running out of it is no answer at all rather than a wrong
one. There is no answer either where the program panics.
-/

/-- The options of a checker. -/
structure Options where
  /-- How deep comparison, normalization and evaluation may nest. -/
  maxDepth : Nat := 100
  /-- Whether `null` and `undefined` stay out of types that do not name them. -/
  strictNullChecks : Bool := true
  deriving Repr, DecidableEq

/-- The depth bound used when none is given. -/
def Options.defaultMaxDepth : Nat :=
  100

/-- Options as requested by a host; a bound below one means the default. -/
def Options.ofRequest
    (maxDepth : Int)
    (strictNullChecks : Bool) :
    Options :=
  { maxDepth :=
      if maxDepth ≤ 0 then Options.defaultMaxDepth else maxDepth.toNat
    strictNullChecks }

/-- A checker over an arena. `budget` bounds the steps of one question. -/
structure Checker where
  arena : Arena := {}
  options : Options := {}
  budget : Nat
  deriving Repr, DecidableEq

/-- Why a computation has no answer. -/
inductive Halt where
  /-- Its budget of steps ran out. -/
  | exhausted
  /-- A list of some length was read at an index that it does not have. -/
  | outOfRange (index length : Nat)
  deriving Repr, DecidableEq

/-- The wording of what a computation halted for. -/
def Halt.message :
    Halt →
    String
  | exhausted => "the budget ran out"
  | outOfRange index length =>
      "runtime error: index out of range [" ++ toString index ++
        "] with length " ++ toString length

/-- A computation that keeps a log, unless it halts without an answer. -/
abbrev Check :=
  StateT Log (Except Halt)

namespace Check

/-- There is no answer. -/
def halt
    (reason : Halt) :
    Check α :=
  fun _ => .error reason

/-- The budget ran out. -/
def exhausted :
    Check α :=
  halt .exhausted

/-- The item of a list at an index, if the list is long enough. -/
def item
    (items : List α)
    (index : Nat) :
    Check α :=
  match items[index]? with
  | some item => return item
  | none => halt (.outOfRange index items.length)

/-- Add a diagnostic to the log. -/
def report
    (diagnostic : Diagnostic) :
    Check Unit :=
  modify (· ++ [diagnostic])

end Check

/-- The four kinds of utility failure. -/
inductive UtilityErrorKind where
  | unsupportedUtility
  | invalidArgument
  | unknownProperty
  | typeTooComplex
  deriving Repr, DecidableEq

namespace UtilityErrorKind

/-- The name of a kind of failure in messages. -/
def name :
    UtilityErrorKind →
    String
  | unsupportedUtility => "unsupported utility"
  | invalidArgument => "invalid argument"
  | unknownProperty => "unknown property"
  | typeTooComplex => "type too complex"

/-- The diagnostic code of a kind of failure. -/
def code :
    UtilityErrorKind →
    Code
  | unsupportedUtility => .unsupportedUtility
  | invalidArgument => .invalidArgument
  | unknownProperty => .unknownProperty
  | typeTooComplex => .typeTooComplex

end UtilityErrorKind

/-- Why a utility application or a reference could not be evaluated. -/
inductive UtilityCause where
  | unrecognised (utility : String)
  | missingBase
  | keySetExpected (given : Nat)
  | singleArgumentExpected (given : Nat)
  | notObject (base : Ty)
  | notContainer (base : Ty)
  | notFunction (base : Ty)
  | unresolvedKeySet (reference : Reference)
  | notStringKey (key : Ty)
  | unknownKey (key : Text.RawText) (object : Ty)
  | undefinedName (name : String)
  | depthExceeded (bound : Nat) (type : Ty)
  deriving Repr, DecidableEq

namespace UtilityCause

/-- The kind of failure a cause belongs to. -/
def kind :
    UtilityCause →
    UtilityErrorKind
  | unrecognised _ => .unsupportedUtility
  | unknownKey _ _ => .unknownProperty
  | depthExceeded _ _ => .typeTooComplex
  | _ => .invalidArgument

/-- The wording of a cause. -/
def detail :
    UtilityCause →
    String
  | unrecognised utility =>
      Text.quoted utility ++ " is not a recognised utility"
  | missingBase => "missing base type"
  | keySetExpected given =>
      "expects a base and a key set, got " ++ toString given ++ " arguments"
  | singleArgumentExpected given =>
      "expects a single type argument, got " ++ toString given
  | notObject base => base.shown ++ " is not an object type"
  | notContainer base =>
      base.shown ++ " is not an object, array or tuple type"
  | notFunction base => base.shown ++ " is not a function type"
  | unresolvedKeySet reference =>
      "key set " ++ reference.name ++ " cannot be resolved"
  | notStringKey key => "key " ++ key.shown ++ " is not a string literal"
  | unknownKey key object =>
      "property " ++ key.quoted ++ " does not exist on " ++ object.shown
  | undefinedName name =>
      "type " ++ name ++ " is declared but never defined"
  | depthExceeded bound type =>
      "depth bound " ++ toString bound ++ " exceeded at " ++ type.shown

end UtilityCause

/--
The failure of an evaluation. `utility` is empty where the failure belongs to
no particular utility.
-/
structure UtilityError where
  utility : String
  cause : UtilityCause
  deriving Repr, DecidableEq

namespace UtilityError

/-- The kind of a failure. -/
def kind
    (error : UtilityError) :
    UtilityErrorKind :=
  error.cause.kind

/-- The wording of a failure. -/
def message
    (error : UtilityError) :
    String :=
  let place := if error.utility.isEmpty then "" else error.utility ++ ": "
  place ++ error.kind.name ++ ": " ++ error.cause.detail

end UtilityError

/-- A computation that may fail with a utility error and keeps its log then. -/
abbrev Evaluate :=
  ExceptT UtilityError Check

/-- Evaluates a utility application met at a nesting depth. -/
abbrev Evaluator :=
  Application Ty → (depth : Nat) → Evaluate Ty

namespace Checker

/-- The diagnostic that the depth bound was exceeded at a type. -/
def depthDiagnostic
    (checker : Checker)
    (stage : Stage)
    (type : Ty) :
    Diagnostic :=
  { stage
    severity := .error
    code := .typeTooComplex
    message :=
      "type " ++ type.shown ++ " exceeds the recursion depth bound of " ++
        toString checker.options.maxDepth
    help :=
      "break the recursion with a named type so the cycle can be detected" }

/-- Report that the depth bound was exceeded at a type. -/
def reportTooComplex
    (checker : Checker)
    (stage : Stage)
    (type : Ty) :
    Check Unit :=
  Check.report (checker.depthDiagnostic stage type)

/-- Report that the depth bound was exceeded at a type, and fail. -/
def failTooComplex
    (checker : Checker)
    (type : Ty) :
    Evaluate α := do
  checker.reportTooComplex .utility type
  throw
    { utility := ""
      cause := .depthExceeded checker.options.maxDepth type }

/--
Report a failed evaluation. An exceeded depth bound has been reported where it
was met.
-/
def reportFailure
    (error : UtilityError) :
    Check Unit :=
  if error.kind = .typeTooComplex then
    return ()
  else
    Check.report
      { stage := .utility
        severity := .error
        code := error.kind.code
        message := error.message }

end Checker

end StructuralTyping
