import ProjectLint.Options.ParserFile
import ProjectLint.Manifest.Search
import ProjectLint.Discovery

/-!
The options of one call, put together from the defaults, what the caller asks for, the manifest and
the ignore file of the project. The sources of ignore patterns come in this order. Manifest and
ignore file count only inside a project, which is a directory with a manifest and what lies below.
-/

namespace ProjectLint

/-- What a caller can ask for: the directory of the call, ignore patterns, a parser, and to be told
of the files before they are linted. -/
structure LintOptions where
  directory : Setting := .unset
  ignore : Patterns := .none
  parser : Setting := .unset
  reportsFiles : Bool := false

/-- The options that a call works with. -/
structure ResolvedOptions where
  directory : Path
  ignored : IgnoreSet
  engine : EngineConfig
  root : Option Path
  reportsFiles : Bool

namespace IgnoreSet

/-- Adds a source of the patterns that are not empty; nothing changes if none is left. -/
def add (set : IgnoreSet) (name : Text) (patterns : List Pattern) (whileGlobbing : Bool)
    (base : Option Path) : Action IgnoreSet := do
  match Source.of? name patterns whileGlobbing base with
  | none => return set
  | some source =>
      Action.note (.sourceAdded name source.patterns.length)
      return set ++ [source]

end IgnoreSet

namespace LintOptions

/-- The directory that a call starts from. Without one it is the working directory. -/
def startDirectory (options : LintOptions) : Action Path := do
  if options.directory.isBlank then Action.workingPath
  else
    match options.directory with
    | .text directory => return .ofText directory
    | .unset | .other _ => throw .notText

/-- The sources and the parser that a project gives, added to those of the caller. -/
def withProject (command : Text) (directory root : Path) (set : IgnoreSet) (parser : Setting) :
    Action (IgnoreSet × Setting) := do
  Action.note (.projectRoot root)
  let (set, parser) ←
    match ← Manifest.findBlock command directory with
    | none => pure (set, parser)
    | some (_, block) => do
        let set ← set.add "package.json" ((block.ignore.getD []).map .text) true none
        pure (set, parser.orText block.parser)
  match ← Manifest.readIgnoreFile root with
  | none => return (set, parser)
  | some lines => return (← set.add ".gitignore" (lines.map .text) false (some root), parser)

/-- The configuration of an engine with a parser, if one is given. -/
def withParser (config : EngineConfig) (parser : Setting) : Action EngineConfig :=
  if parser.isBlank then pure config else ParserFile.choose config parser

/-- Puts the options of a call together. -/
def resolve (options : LintOptions) (command : Text) (config : EngineConfig) :
    Action ResolvedOptions := do
  let directory ← Action.resolve (← options.startDirectory)
  let set ← IgnoreSet.add [] "defaults" (Discovery.defaultIgnored.map .text) true none
  let set ← set.add "options" (← Action.lift options.ignore.toList) true none
  let root ← Manifest.findRoot directory
  let (set, parser) ←
    match root with
    | none => pure (set, options.parser)
    | some root => withProject command directory root set options.parser
  let engine ← withParser config parser
  return ⟨directory, set, engine, root, options.reportsFiles⟩

end LintOptions
end ProjectLint
