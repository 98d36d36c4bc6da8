import ProjectLint.Options.Resolve
import ProjectLint.Engine.Run

/-!
Linting a text or files. Each call puts its own options together, finds its files and runs its own
engine.
-/

namespace ProjectLint

/-- The engines that can be run: the one that is a program, and any other, known by what it gives
for a text and for files. -/
inductive EngineKind where
  | eslint
  | other (onText : EngineConfig → Text → Except Failure Report)
      (onFiles : EngineConfig → List Path → Except Failure Report)

/-- A linter: the command whose settings it reads, the configuration of its engine, and which
engine it is. -/
structure Linter where
  command : Text := "stdlint"
  config : EngineConfig := {}
  engine : EngineKind := .eslint

/-- The configuration that a caller gives for an engine: none, one, or something else. -/
inductive ConfigArgument where
  | absent
  | given (config : EngineConfig)
  | unusable

/-- A linter with what a caller gives. -/
def Linter.create (command : Text) (config : ConfigArgument) (engine : EngineKind) :
    Except Failure Linter :=
  match config with
  | .absent => .ok { command, engine }
  | .given config => .ok { command, config, engine }
  | .unusable => .error (.config .missing)

namespace Discovery

/-- Finds files from a directory with some sources of ignore patterns. -/
def find (directory : Path) (set : IgnoreSet) (patterns : List Pattern) : Action Glob.Reached := do
  let directory ← Action.resolve directory
  let session ← get
  let process := match session.files.workingPath with
    | .ok path => path
    | .error _ => .absolute []
  let scope := ⟨session.files, set, ⟨process, directory⟩, session.unreadable⟩
  let found ← Action.lift (discover scope session.host.finishing patterns)
  Action.note (.discovered found.paths.length patterns.length)
  return found

end Discovery

namespace Linter

def resolve (linter : Linter) (options : LintOptions) : Action ResolvedOptions :=
  options.resolve linter.command linter.config

/-- The patterns that are searched for: the default globs if none is given. -/
def searched (patterns : List Pattern) : List Pattern :=
  if patterns.isEmpty then Discovery.defaultGlobs.map .text else patterns

/-- The files that are found. -/
def findListed (patterns : List Pattern) (resolved : ResolvedOptions) : Action (List Path) := do
  return (← Discovery.find resolved.directory resolved.ignored (searched patterns)).paths

def findFiles (patterns : Patterns) (resolved : ResolvedOptions) : Action (List Path) := do
  findListed (← Action.lift patterns.toList) resolved

def executeOnText (linter : Linter) (config : EngineConfig) (text : Text) : Action Report :=
  match linter.engine with
  | .eslint => Engine.runOnText config text none
  | .other onText _ => Action.lift (onText config text)

def executeOnFiles (linter : Linter) (config : EngineConfig) (files : List Path) : Action Report :=
  match linter.engine with
  | .eslint => Engine.runOnFiles config files
  | .other _ onFiles => Action.lift (onFiles config files)

def lintText (linter : Linter) (text : Text) (options : LintOptions) : Action Report := do
  let resolved ← linter.resolve options
  linter.executeOnText resolved.engine text

/-- Lints the files that are found, with options that are put together. -/
def lintFound (linter : Linter) (patterns : List Pattern) (resolved : ResolvedOptions) :
    Action Report := do
  let files ← findListed patterns resolved
  Action.note (.linting files.length resolved.directory)
  if resolved.reportsFiles then Action.event (.filesFound files)
  linter.executeOnFiles resolved.engine files

def lintFiles (linter : Linter) (patterns : Patterns) (options : LintOptions) :
    Action Report := do
  let resolved ← linter.resolve options
  linter.lintFound (← Action.lift patterns.toList) resolved

end Linter
end ProjectLint
