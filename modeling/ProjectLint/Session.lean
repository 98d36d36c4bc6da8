import ProjectLint.Engine.Report
import ProjectLint.FileSystem.TextFile
import ProjectLint.Engine.Config

/-!
What an operation works on and leaves behind: the file system, the outcomes of the engine starts to
come, and two records, one of notes on how decisions were made and one of events. A failure ends an
operation and keeps what was recorded before it.
-/

namespace ProjectLint

/-- A note on how a decision was made. -/
inductive Note where
  | manifestUnchecked (path : Path) (reason : Text)
  | manifestSkipped (path : Path) (reason : Text)
  | settingsFound (command : Text) (path : Path)
  | noIgnoreFile (directory : Path) (reason : Text)
  | sourceAdded (name : Text) (patterns : Nat)
  | discovered (files globs : Nat)
  | projectRoot (path : Path)
  | configWritten (parser : Text) (path : Path)
  | engineStarting (command : List Text)
  | linting (files : Nat) (directory : Path)

namespace Note

def channel : Note → Text
  | manifestUnchecked _ _ | manifestSkipped _ _ | settingsFound _ _ => "stdlint.manifest"
  | noIgnoreFile _ _ | sourceAdded _ _ => "stdlint.file_resolver.gitignore"
  | discovered _ _ => "stdlint.file_resolver.resolver"
  | projectRoot _ | configWritten _ _ => "stdlint.options"
  | engineStarting _ => "stdlint.engine"
  | linting _ _ => "stdlint.linter"

def wording : Note → Text
  | manifestUnchecked path reason =>
      ("Cannot check manifest " : Text) ++ path.toText ++ (": " : Text) ++ reason
  | manifestSkipped path reason =>
      ("Skipping unreadable manifest " : Text) ++ path.toText ++ (": " : Text) ++ reason
  | settingsFound command path =>
      ("Using " : Text) ++ command.quoted ++ (" settings from " : Text) ++ path.toText
  | noIgnoreFile directory reason =>
      ("No usable .gitignore in " : Text) ++ directory.toText ++ (": " : Text) ++ reason
  | sourceAdded name patterns =>
      ("Ignore source " : Text) ++ name.quoted ++ (": " : Text) ++ decimal patterns ++
        (" pattern(s)" : Text)
  | discovered files globs =>
      ("Discovered " : Text) ++ decimal files ++ (" file(s) from " : Text) ++ decimal globs ++
        (" pattern(s)" : Text)
  | projectRoot path => ("Project root: " : Text) ++ path.toText
  | configWritten parser path =>
      ("Wrote engine config with parser " : Text) ++ parser.quoted ++ (" to " : Text) ++ path.toText
  | engineStarting command => ("Running: " : Text) ++ Text.join [.scalar ' '] command
  | linting files directory =>
      ("Linting " : Text) ++ decimal files ++ (" file(s) in " : Text) ++ directory.toText

/-- A note as a line of the log. -/
def line (note : Note) : Text :=
  ("DEBUG " : Text) ++ note.channel ++ (": " : Text) ++ note.wording

end Note

/-- What comes of starting an engine: it ends with a status and output, the system does not start
it, or the start is given up for another reason, such as an argument that no program can be given. -/
inductive EngineOutcome where
  | finished (status : Int) (stdout stderr : Text)
  | notStarted (fault : StartFault)
  | raised (kind wording : Text)

/-- The outcome of a start for which none was prepared: an empty report. -/
def EngineOutcome.quiet : EngineOutcome :=
  .finished 0 "[]" []

/-- A callback of a caller, told from others by its number. -/
structure Callback where
  number : Nat
deriving DecidableEq

/-- Something that can be observed from outside. -/
inductive Event where
  | filesFound (paths : List Path)
  | engineStarted (command : List Text) (input : Option Text)
  | returned
  | callback (callback : Callback) (outcome : Except Failure Report)
  | taskDone
  | nextTick

/-- What runs the operations: how deep the values of a document may be nested, which depends on how
deep the calls are by then; the places of the searches of a discovery in the order in which they
end, those that are not named last; and the code points that can be printed. -/
structure Host where
  nesting : Nat := 990
  finishing : List Nat := []
  printable : CodePoint → Bool := fun _ => true

/-- The state of the world around the operations. -/
structure Session where
  files : FileSystem
  temporary : Path
  stamp : Text
  unreadable : Option Text := none
  host : Host := {}
  outcomes : List EngineOutcome := []
  notes : List Note := []
  events : List Event := []

/-- The document in a file, if the file holds a text. -/
def Session.document (session : Session) (path : Path) :
    Except TextFault (Except Json.Fault Json) :=
  (session.files.readText path).map (Json.read (.nested session.host.nesting))

/-- An operation that changes a session and may fail. -/
abbrev Action := EStateM Failure Session

namespace Action

def note (note : Note) : Action Unit :=
  modify fun session => { session with notes := session.notes ++ [note] }

def event (event : Event) : Action Unit :=
  modify fun session => { session with events := session.events ++ [event] }

/-- The result of a computation that may fail. -/
def lift {α : Type} : Except Failure α → Action α
  | .ok a => pure a
  | .error failure => throw failure

def resolve (path : Path) : Action Path := do
  match (← get).files.resolve path with
  | .ok path => return path
  | .error fault => throw (Failure.ofResolveFault fault)

/-- The path of the working directory. -/
def workingPath : Action Path := do
  match (← get).files.workingPath with
  | .ok path => return path
  | .error errno => throw (.refused errno none)

end Action
end ProjectLint
