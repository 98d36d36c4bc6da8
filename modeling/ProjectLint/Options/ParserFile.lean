import ProjectLint.Session
import ProjectLint.FileSystem.TextFile
import ProjectLint.FileSystem.Change
import ProjectLint.Json.Printer

/-!
Choosing a parser for an engine whose configuration is in a file. The file stays as it is: a copy
with the parser set is written to the temporary directory and used in its place. The copy is
written under a name of its own first and then moved to where it belongs.
-/

namespace ProjectLint.ParserFile

/-- A parser name as a part of a file name: slashes of both kinds and colons become underscores. -/
def safeName (parser : Text) : Text :=
  parser.map fun c =>
    if c = .scalar '\\' || c = .scalar '/' || c = .scalar ':' then .scalar '_' else c

/-- The file name of the copy for a parser. -/
def copyName (parser : Text) : Text :=
  (".eslintrc-" : Text) ++ safeName parser

/-- The fields of a configuration file. -/
def readConfig (path : Path) : Action Json.Fields := do
  match (← get).document path with
  | .error (.path (.refused errno)) =>
      throw (.config (.unreadable path.toText (.refused errno path.toText)))
  | .error (.path fault) => throw (.spelling fault)
  | .error (.undecodable fault) => throw (.undecodable fault)
  | .ok (.error (.malformed defect line column offset)) =>
      throw (.config (.unreadable path.toText
        (.malformed (.malformed defect line column offset))))
  | .ok (.error fault) => throw (.unloadable fault)
  | .ok (.ok (.object fields)) => return fields
  | .ok (.ok _) => throw (.config (.notObject path.toText))

/-- Writes a file in the temporary directory by way of another one beside it. A directory that
stands where the file belongs is left, and so is then the other file. -/
def writeAtomically (name : Text) (content : Utf8.Bytes) : Action Path := do
  let session ← get
  let goal := session.temporary.child name
  let partialPath := session.temporary.child (name ++ session.stamp ++ (".partial" : Text))
  match session.files.writeFile partialPath content with
  | .error fault => throw (Failure.ofPathFault partialPath.toText fault)
  | .ok files =>
      set { session with files }
      match files.isDirectory goal with
      | .error errno => throw (.refused errno goal.toText)
      | .ok true => throw (.destinationIsDirectory goal.toText)
      | .ok false =>
          match files.move partialPath goal with
          | .error fault => throw (Failure.ofPathFault goal.toText fault)
          | .ok files =>
              set { session with files }
              return goal

/-- Writes the copy of a configuration file with a parser set, and gives its path. -/
def write (path : Path) (parser : Text) : Action Path := do
  let fields ← readConfig path
  let copy := Json.object (Json.Fields.set "parser" (.string parser) fields)
  let goal ← writeAtomically (copyName parser) (Utf8.encode copy.write)
  Action.note (.configWritten parser goal)
  return goal

/-- Writes the copy for a setting. One that is no text gives the copy no name. -/
def writeSetting (path : Path) : Setting → Action Path
  | .text parser => write path parser
  | .unset | .other _ => do
      let _ ← readConfig path
      throw .notText

/-- The configuration of an engine with a parser chosen: in its file if it has one, and as an
argument if not. -/
def choose (config : EngineConfig) (parser : Setting) : Action EngineConfig := do
  match config.configFile with
  | none => return { config with parser }
  | some path => return { config with configFile := some (← writeSetting path parser) }

end ProjectLint.ParserFile
