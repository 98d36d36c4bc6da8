import ProjectLint.CommandLine.Arguments
import ProjectLint.CommandLine.Usage
import ProjectLint.Json.Display
import ProjectLint.Lint

/-!
Running the command. The status is 0 if nothing was found, 1 if something was, and 2 if linting
failed for a reason that is reported.
-/

namespace ProjectLint.CommandLine

/-- How a run ends: with a status, with a status right after the arguments were read, or with a
failure that is not reported. -/
inductive Ending where
  | status (code : Nat)
  | early (code : Nat)
  | failed (failure : Failure)

/-- A run: how it ends, and what it prints. -/
structure Run where
  ending : Ending
  stdout : Text
  stderr : Text

/-- A setting that may be given with a value. -/
def textSetting : Option Value → Setting
  | some value => .text (value.getD [])
  | none => .unset

def Arguments.options (arguments : Arguments) : LintOptions where
  directory := textSetting arguments.cwd
  ignore := .ofTexts (arguments.ignore.map (·.getD []))
  parser := textSetting arguments.parser

def Arguments.patterns (arguments : Arguments) : Patterns :=
  .ofTexts arguments.files

def Arguments.linter (arguments : Arguments) : Linter where
  config := {
    configFile :=
      match arguments.config with
      | some (some file) => if file = [] then none else some (.ofText file)
      | _ => none
    usesOwnFiles := arguments.eslintrc }

/-- One line for a message about a file. -/
def messageLine (file : FileReport) (message : Message) : Text :=
  let rule : Text :=
    if message.rule.isBlank then []
    else (" (" : Text) ++ message.rule.display ++ [.scalar ')']
  file.path.display ++ .scalar ':' :: signedDecimal message.line ++
    .scalar ':' :: signedDecimal message.column ++
    .scalar ':' :: .scalar ' ' :: message.message.display ++ rule

def reportLines (report : Report) : List Text :=
  report.files.flatMap fun file => file.messages.map (messageLine file)

/-- The files that a run would lint, or the report of a run. -/
inductive Product where
  | files (paths : List Path)
  | report (report : Report)

/-- Does what arguments ask for. -/
def produce (arguments : Arguments) (stdin : Text) : Action Product := do
  let linter := arguments.linter
  if arguments.listFiles then
    let resolved ← linter.resolve arguments.options
    return .files (← Linter.findFiles arguments.patterns resolved)
  else if arguments.stdin then
    return .report (← linter.lintText stdin arguments.options)
  else
    return .report (← linter.lintFiles arguments.patterns arguments.options)

def failureLines (failure : Failure) : List Text :=
  let first := ("Error: " : Text) ++ failure.message?.getD []
  match failure with
  | .engine _ stderr => if stderr = [] then [first] else [first, stderr.trimRight]
  | _ => [first]

/-- The status for a report: 1 if it counts errors or warnings. -/
def statusOf (report : Report) : Nat :=
  if report.errors ≠ 0 || report.warnings ≠ 0 then 1 else 0

/-- The notes of a session as lines, if they are asked for. -/
def noteLines (arguments : Arguments) (session : Session) : List Text :=
  if arguments.verbose then session.notes.map Note.line else []

/-- Whether a text can be printed. -/
def canPrint (host : Host) (text : Text) : Bool :=
  text.all host.printable

/-- Prints lines, after which a run ends with a status. A line that cannot be printed ends the run
there. -/
def printLines (host : Host) (code : Nat) (lines : List Text) : Ending × Text :=
  (if lines.all (canPrint host) then .status code else .failed .unprintable,
    unlines (lines.takeWhile (canPrint host)))

def runArguments (arguments : Arguments) (stdin : Text) (session : Session) : Run × Session :=
  if arguments.version then (⟨.status 0, unlines [version], []⟩, session)
  else
    match produce arguments stdin session with
    | .ok (.files paths) session =>
        let (ending, stdout) := printLines session.host 0 (paths.map (·.toText))
        (⟨ending, stdout, unlines (noteLines arguments session)⟩, session)
    | .ok (.report report) session =>
        let (ending, stdout) := printLines session.host (statusOf report) (reportLines report)
        (⟨ending, stdout, unlines (noteLines arguments session)⟩, session)
    | .error failure session =>
        if failure.isReported then
          (⟨.status 2, [], unlines (noteLines arguments session ++ failureLines failure)⟩, session)
        else (⟨.failed failure, [], unlines (noteLines arguments session)⟩, session)

def run (arguments : List Text) (stdin : Text) (session : Session) : Run × Session :=
  match read arguments with
  | .help => (⟨.early 0, help, []⟩, session)
  | .misuse misuse =>
      (⟨.early 2, [], usage ++ unlines [("stdlint: error: " : Text) ++ misuse.message]⟩, session)
  | .run arguments => runArguments arguments stdin session

end ProjectLint.CommandLine
