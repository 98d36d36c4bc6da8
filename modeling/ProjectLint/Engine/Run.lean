import ProjectLint.Session

/-!
Running an engine on a text or on files. The engine ends with status 0 or 1 if it worked; 1 means
that it found something.
-/

namespace ProjectLint.Engine

/-- Starts a command and takes the next outcome that is prepared. -/
def start (command : List Text) (input : Option Text) : Action EngineOutcome := do
  Action.event (.engineStarted command input)
  let session ← get
  match session.outcomes with
  | [] => return .quiet
  | outcome :: rest =>
      set { session with outcomes := rest }
      return outcome

/-- What is made of an outcome where values may be nested to some depth. -/
def report (nesting : Nat) (executable : Text) : EngineOutcome → Except Failure Report
  | .notStarted fault => .error (.engine (.notStarted executable fault) [])
  | .raised kind wording => .error (.raised kind wording)
  | .finished status stdout stderr =>
      if status ≠ 0 && status ≠ 1 then .error (.engine (.badStatus executable status) stderr)
      else
        match Json.read (.nested nesting) stdout with
        | .error (.malformed defect line column offset) =>
            .error (.engine (.unreadable executable (.malformed defect line column offset)) stderr)
        | .error fault => .error (.unloadable fault)
        | .ok value =>
            match Report.ofJson value with
            | .error fault => .error (.report fault)
            | .ok report => .ok report

/-- Runs a command and reads its report. A parser that is no text cannot stand in a command. -/
def run (config : EngineConfig) (command : List Text) (input : Option Text) : Action Report := do
  if config.parser.isUnusable then throw .notText
  Action.note (.engineStarting command)
  let outcome ← start command input
  Action.lift (report (← get).host.nesting config.executable outcome)

/-- Lints a text, which may be given a file name. -/
def runOnText (config : EngineConfig) (text : Text) (fileName : Option Text) : Action Report :=
  let name : List Text :=
    match fileName with
    | some name => if name = [] then [] else ["--stdin-filename", name]
    | none => []
  run config (config.baseCommand ++ [("--stdin" : Text)] ++ name) (some text)

/-- Lints files. Without any the engine is not started. -/
def runOnFiles (config : EngineConfig) (files : List Path) : Action Report :=
  if files.isEmpty then pure .empty
  else run config (config.baseCommand ++ files.map (·.toText)) none

end ProjectLint.Engine
