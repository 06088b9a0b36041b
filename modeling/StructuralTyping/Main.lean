import StructuralTyping.Command
import StructuralTyping.Version

namespace StructuralTyping

/-!
# The program

Reads the files that a command names, runs the command and prints the outcome.
-/

/-- Bounds the steps of each question that the program puts to a checker. -/
def programBudget : Nat :=
  1000000000

/-- What the program says about itself. -/
def programVersion : Version :=
  { version := "devel", toolchain := "Lean 4" }

/-- The text of a file, or the reason why it cannot be read. -/
def readText
    (file : String) :
    IO (String × Except ReadFailure String) := do
  try
    return (file, .ok (← IO.FS.readFile file))
  catch
    | .noFileOrDirectory .. => return (file, .error .missing)
    | error => return (file, .error (.other (toString error)))

/-- Print an error and fail. -/
def failWith
    (message : String) :
    IO UInt32 := do
  IO.eprintln ("error: " ++ message)
  return 1

/-- Print why there is no outcome, and fail as a program that panics. -/
def panicWith
    (message : String) :
    IO UInt32 := do
  IO.eprintln ("panic: " ++ message)
  return 2

/-- Run the check command. -/
def runCheckCommand
    (words : List String) :
    IO UInt32 := do
  match CheckCommand.ofWords words with
  | .error error => failWith error.message
  | .ok command => do
      let files ← command.files.mapM readText
      match CommandOutcome.ofCommand command programBudget files with
      | .error halt => panicWith halt.message
      | .ok outcome => do
          IO.print outcome.output
          match outcome.error with
          | none => return 0
          | some error => failWith error.message

end StructuralTyping

/-- The program: `check` runs suites, `version` says what the program is. -/
def main
    (words : List String) :
    IO UInt32 := do
  match words with
  | "check" :: words => StructuralTyping.runCheckCommand words
  | ["version"] => do
      IO.println StructuralTyping.programVersion.text
      return 0
  | _ => StructuralTyping.failWith "usage: check <suite>... | version"
