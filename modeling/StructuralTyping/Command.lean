import StructuralTyping.Folder
import StructuralTyping.Number.Integer
import StructuralTyping.Suite.Report

namespace StructuralTyping

/-!
# The check command

The command that runs suites: its flags, which may stand between the names of
files, what it prints, and how it may fail. What was printed before a failure
stays printed.
-/

/-- A flag of the command. -/
inductive Flag where
  | parallel
  | maxDepth
  | strictNullChecks
  | timeout
  | help
  deriving Repr, DecidableEq

namespace Flag

/-- The name of a flag. -/
def name :
    Flag →
    String
  | parallel => "parallel"
  | maxDepth => "max-depth"
  | strictNullChecks => "strict-null-checks"
  | timeout => "timeout"
  | help => "help"

/-- The flag of the given name. -/
def ofName?
    (name : String) :
    Option Flag :=
  [parallel, maxDepth, strictNullChecks, timeout, help].find? fun flag =>
    flag.name == name

/-- The letter that stands for a flag, if there is one. -/
def letter? :
    Flag →
    Option Char
  | parallel => some 'p'
  | help => some 'h'
  | _ => none

/-- The flag of one letter. -/
def ofLetter?
    (letter : Char) :
    Option Flag :=
  [parallel, help].find? fun flag => flag.letter? == some letter

/-- The value of a flag that stands alone, if it may do so. -/
def impliedValue? :
    Flag →
    Option String
  | strictNullChecks => some "true"
  | help => some "true"
  | _ => none

/-- The spellings of a flag in messages. -/
def shown
    (flag : Flag) :
    String :=
  match flag.letter? with
  | some letter => String.ofList ['-', letter] ++ ", --" ++ flag.name
  | none => "--" ++ flag.name

/-- What a flag is for, and what its value is without it. -/
def description :
    Flag →
    String
  | parallel => "number of checks to run in parallel (default 4)"
  | maxDepth => "recursion bound before TYPE_TOO_COMPLEX (default 100)"
  | strictNullChecks =>
      "keep null and undefined out of types that do not name them " ++
        "(default true)"
  | timeout => "seconds allowed per suite, 0 for no limit (default 60)"
  | help => "help for check"

/-- The columns that the spellings of flags take up. -/
def usageWidth : Nat :=
  26

/-- The line about a flag in the description of the command. -/
def usage
    (flag : Flag) :
    String :=
  let indent := if flag.letter?.isSome then "  " else "      "
  let value := if flag.impliedValue?.isSome then "" else " int"
  let spelling := indent ++ flag.shown ++ value
  let gap := List.replicate (usageWidth - spelling.length + 3) ' '
  spelling ++ String.ofList gap ++ flag.description

end Flag

/-- Why the value of a flag was refused. -/
inductive ValueError where
  | notInteger
  | outOfRange
  | notTruthValue
  deriving Repr, DecidableEq

/-- How the command may fail. -/
inductive CommandError where
  | badFlag (text : String)
  | unknownFlag (name : String)
  | unknownLetter (letter : Char) (text : String)
  | valueMissing (text : String)
  | letterValueMissing (letter : Char) (text : String)
  | valueRefused (flag : Flag) (value : String) (error : ValueError)
  | noFiles
  | unreadable (file : String) (failure : ReadFailure)
  | invalidSuite (file : String) (problem : Problem)
  | checksFailed (summary : Summary)
  deriving Repr, DecidableEq

/-- The wording of the refusal of a value. -/
def ValueError.message
    (value : String) :
    ValueError →
    String
  | notInteger =>
      "strconv.ParseInt: parsing " ++ Text.quoted value ++ ": invalid syntax"
  | outOfRange =>
      "strconv.ParseInt: parsing " ++ Text.quoted value ++
        ": value out of range"
  | notTruthValue =>
      "strconv.ParseBool: parsing " ++ Text.quoted value ++
        ": invalid syntax"

/--
A letter in messages, between single quotes. Only the first byte of a letter
beyond ASCII is looked at, and its text begins with one and the same byte.
-/
def shownLetter
    (letter : Char) :
    String :=
  Text.quotedCharacter
    (if letter.toNat < 0x80 then letter else Char.ofNat 0xc3)

/-- The wording of a failure. -/
def CommandError.message :
    CommandError →
    String
  | badFlag text => "bad flag syntax: " ++ text
  | unknownFlag name => "unknown flag: --" ++ name
  | unknownLetter letter text =>
      "unknown shorthand flag: " ++ shownLetter letter ++ " in " ++ text
  | valueMissing text => "flag needs an argument: " ++ text
  | letterValueMissing letter text =>
      "flag needs an argument: " ++ shownLetter letter ++ " in " ++ text
  | valueRefused flag value error =>
      "invalid argument " ++ Text.quoted value ++ " for " ++
        Text.quoted flag.shown ++ " flag: " ++ error.message value
  | noFiles => "requires at least 1 arg(s), only received 0"
  | unreadable file failure =>
      "read suite " ++ file ++ ": " ++ failure.message file
  | invalidSuite file problem => file ++ ": " ++ Suite.refusal problem
  | checksFailed summary =>
      toString summary.failed ++ " failed, " ++ toString summary.skipped ++
        " skipped"

/-- A request to run suites. -/
structure CheckCommand where
  files : List String := []
  parallel : Int := 4
  maxDepth : Int := Options.defaultMaxDepth
  strictNullChecks : Bool := true
  /-- The seconds allowed for a suite; none below one is a limit. -/
  timeout : Int := 60
  /-- Whether only the use of the command is asked for. -/
  help : Bool := false
  deriving Repr, DecidableEq

namespace CheckCommand

/-- Read the integer value of a flag. -/
def integerValue
    (flag : Flag)
    (value : String) :
    Except CommandError Int :=
  match Integer.word value.toList with
  | .ok number => .ok number
  | .error .malformed => .error (.valueRefused flag value .notInteger)
  | .error .outOfRange => .error (.valueRefused flag value .outOfRange)

/-- The spellings of truth values of flags. -/
def truthValues : List (String × Bool) :=
  [ ("1", true), ("t", true), ("T", true), ("true", true), ("True", true),
    ("TRUE", true), ("0", false), ("f", false), ("F", false),
    ("false", false), ("False", false), ("FALSE", false) ]

/-- Read the truth value of a flag. -/
def truthValue
    (flag : Flag)
    (value : String) :
    Except CommandError Bool :=
  match truthValues.lookup value with
  | some truth => .ok truth
  | none => .error (.valueRefused flag value .notTruthValue)

/-- Set a flag. -/
def set
    (command : CheckCommand)
    (flag : Flag)
    (value : String) :
    Except CommandError CheckCommand := do
  match flag with
  | .parallel =>
      return { command with parallel := ← integerValue flag value }
  | .maxDepth =>
      return { command with maxDepth := ← integerValue flag value }
  | .strictNullChecks =>
      return { command with strictNullChecks := ← truthValue flag value }
  | .timeout =>
      return { command with timeout := ← integerValue flag value }
  | .help => return { command with help := ← truthValue flag value }

/-- Set flags in order. -/
def setAll
    (command : CheckCommand)
    (settings : List (Flag × String)) :
    Except CommandError CheckCommand :=
  settings.foldlM (fun command (flag, value) => command.set flag value) command

/-- What a word of the command line says. -/
inductive Word where
  | file (name : String)
  /-- All words that follow are names of files. -/
  | endOfFlags
  | settings (settings : List (Flag × String))
  /--
  Some settings, and a flag whose value is the next word; the error if there is
  none.
  -/
  | settingBefore
      (settings : List (Flag × String))
      (flag : Flag)
      (missing : CommandError)
  deriving Repr, DecidableEq

namespace Word

/-- A flag by its name, given the letters after the two dashes. -/
def ofLongFlag
    (letters : List Char) :
    Except CommandError Word :=
  let text := "--" ++ String.ofList letters
  if letters.head?.any fun letter => letter = '-' || letter = '=' then
    .error (.badFlag text)
  else
    let name := String.ofList (letters.takeWhile (· ≠ '='))
    match Flag.ofName? name, letters.dropWhile (· ≠ '=') with
    | none, _ => .error (.unknownFlag name)
    | some flag, _ :: value => .ok (.settings [(flag, String.ofList value)])
    | some flag, [] =>
        match flag.impliedValue? with
        | some value => .ok (.settings [(flag, value)])
        | none => .ok (.settingBefore [] flag (.valueMissing text))

/-- What the short flags of a test run begin with; they mean nothing here. -/
def testMark : List Char :=
  "test.".toList

/--
Flags by their letters, given the letters after the dash and the settings
before them. A flag with an implied value leaves what follows it to further
flags, unless that is an equals sign and a value.
-/
def ofShortFlags
    (before : List (Flag × String)) :
    List Char →
    Except CommandError Word
  | [] => .ok (.settings before)
  | letter :: letters =>
      let text := "-" ++ String.ofList (letter :: letters)
      if testMark.isPrefixOf (letter :: letters) then
        .ok (.settings before)
      else
        match Flag.ofLetter? letter with
        | none => .error (.unknownLetter letter text)
        | some flag =>
            match letters, flag.impliedValue? with
            | '=' :: first :: rest, _ =>
                let value := String.ofList (first :: rest)
                .ok (.settings (before ++ [(flag, value)]))
            | letters, some value =>
                ofShortFlags (before ++ [(flag, value)]) letters
            | [], none =>
                .ok (.settingBefore before flag
                  (.letterValueMissing letter text))
            | letters, none =>
                .ok (.settings (before ++ [(flag, String.ofList letters)]))

/-- What a word says. -/
def ofText
    (text : String) :
    Except CommandError Word :=
  match text.toList with
  | ['-', '-'] => .ok .endOfFlags
  | '-' :: '-' :: letters => ofLongFlag letters
  | '-' :: letter :: letters => ofShortFlags [] (letter :: letters)
  | _ => .ok (.file text)

end Word

/-- Read the words of a command line. -/
def readWords
    (command : CheckCommand) :
    List String →
    Except CommandError CheckCommand
  | [] => .ok command
  | word :: rest => do
      match ← Word.ofText word with
      | .file name =>
          readWords { command with files := command.files ++ [name] } rest
      | .endOfFlags => return { command with files := command.files ++ rest }
      | .settings settings => readWords (← command.setAll settings) rest
      | .settingBefore settings flag missing =>
          let command ← command.setAll settings
          match rest with
          | [] => throw missing
          | value :: rest => readWords (← command.set flag value) rest

/-- Read a command line, which has to name a file or ask for help. -/
def ofWords
    (words : List String) :
    Except CommandError CheckCommand := do
  let command ← readWords {} words
  if command.files.isEmpty && !command.help then
    throw .noFiles
  else
    return command

/-- How the suites of a command are run. -/
def runner
    (command : CheckCommand)
    (budget : Nat) :
    Runner :=
  { options :=
      Options.ofRequest command.maxDepth command.strictNullChecks
    budget }

end CheckCommand

/-- What the command is for and how it is called. -/
def CheckCommand.purpose : List String :=
  [ "Run one or more YAML check suites.",
    "",
    "Each suite declares named types and a list of checks. A check states what",
    "it exercises (assignable, normalize, utility, exhaustive, narrow, typeof",
    "or function) and the result it expects. The command prints a table per",
    "suite and exits non-zero when any check fails.",
    "",
    "Usage:",
    "  check <suite.yaml>... [flags]",
    "",
    "Flags:" ]

/-- How the command is used: its purpose, and its flags in the order of names. -/
def CheckCommand.usage : String :=
  let flags : List Flag :=
    [.help, .maxDepth, .parallel, .strictNullChecks, .timeout]
  String.join ((purpose ++ flags.map Flag.usage).map (· ++ "\n"))

/-- What a command printed and how it failed, if it did. -/
structure CommandOutcome where
  output : String := ""
  error : Option CommandError := none
  deriving Repr, DecidableEq

namespace CommandOutcome

/-- The end of a run: the counts of all suites. -/
def ofSummary
    (summary : Summary) :
    CommandOutcome :=
  { output := summary.line ++ "\n"
    error := if summary.isOk then none else some (.checksFailed summary) }

/--
Run suites in order, given their files with the text of each or the reason why
it cannot be read, and the counts of the suites before them.
-/
def ofFiles
    (runner : Runner)
    (before : Summary) :
    List (String × Except ReadFailure String) →
    Except Halt CommandOutcome
  | [] => .ok (ofSummary before)
  | (file, .error failure) :: _ =>
      .ok { error := some (.unreadable file failure) }
  | (file, .ok text) :: rest =>
      match Suite.read text with
      | .error problem => .ok { error := some (.invalidSuite file problem) }
      | .ok suite => do
          let results ← runner.run suite
          let summary := before.add (.ofResults results)
          let outcome ← ofFiles runner summary rest
          let report := file ++ "\n" ++ CheckResult.report results
          return { outcome with output := report ++ outcome.output }

/-- Run a command, given its files as above. -/
def ofCommand
    (command : CheckCommand)
    (budget : Nat)
    (files : List (String × Except ReadFailure String)) :
    Except Halt CommandOutcome :=
  if command.help then
    .ok { output := CheckCommand.usage }
  else
    ofFiles (command.runner budget) {} files

end CommandOutcome

end StructuralTyping
