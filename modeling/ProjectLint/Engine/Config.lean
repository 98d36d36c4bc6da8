import ProjectLint.Path.Basic
import ProjectLint.Setting

/-!
The configuration of an engine and the command line that it becomes.
-/

namespace ProjectLint

/-- How an engine is run: its configuration file, whether it also looks for configuration files of
its own, the syntax parser that it uses, the program, and more arguments. -/
structure EngineConfig where
  configFile : Option Path := none
  usesOwnFiles : Bool := false
  parser : Setting := .unset
  executable : Text := "eslint"
  extraArguments : List Text := []

namespace EngineConfig

/-- The command that every run starts with. A parser without a name is left out. -/
def baseCommand (config : EngineConfig) : List Text :=
  let own : List Text := if config.usesOwnFiles then [] else ["--no-eslintrc"]
  let file : List Text :=
    match config.configFile with
    | some path => ["--config", path.toText]
    | none => []
  let parser : List Text :=
    match config.parser with
    | .text name => if name = [] then [] else ["--parser", name]
    | .unset | .other _ => []
  [config.executable, "--format", "json"] ++ own ++ file ++ parser ++ config.extraArguments

end EngineConfig
end ProjectLint
