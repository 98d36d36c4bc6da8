import ProjectLint.Session
import ProjectLint.FileSystem.TextFile
import ProjectLint.Ignore.File
import ProjectLint.Manifest.Block

/-!
Finding manifests. The root of a project is the nearest directory, going up, that holds a manifest;
the settings come from the nearest manifest that has a block for the command.
-/

namespace ProjectLint.Manifest

def fileName : Text := "package.json"

def ignoreFileName : Text := ".gitignore"

/-- Whether there is a manifest at a path. One that cannot be checked counts as missing. -/
def exists? (path : Path) : Action Bool := do
  match (← get).files.isFile path with
  | .ok found => return found
  | .error errno =>
      Action.note (.manifestUnchecked path (refusalText errno (some path.toText)))
      return false

/-- The first of some directories that holds a manifest. -/
def firstRoot? : List Path → Action (Option Path)
  | [] => return none
  | directory :: rest => do
      if ← exists? (directory.child fileName) then return some directory
      else firstRoot? rest

/-- The root of the project that a directory belongs to. -/
def findRoot (start : Path) : Action (Option Path) := do
  firstRoot? (← Action.resolve start).ancestors

/-- The fields of a manifest. One that cannot be read as text or as JSON is skipped, and so is one
that is no object. -/
def read (path : Path) : Action (Option Json.Fields) := do
  match (← get).document path with
  | .error (.path (.refused errno)) =>
      Action.note (.manifestSkipped path (refusalText errno (some path.toText)))
      return none
  | .error (.path fault) => throw (.spelling fault)
  | .error (.undecodable fault) =>
      Action.note (.manifestSkipped path fault.message)
      return none
  | .ok (.error (.malformed defect line column offset)) =>
      let fault := Json.Fault.malformed defect line column offset
      Action.note (.manifestSkipped path fault.message)
      return none
  | .ok (.error fault) => throw (.unloadable fault)
  | .ok (.ok (.object fields)) => return some fields
  | .ok (.ok _) => return none

/-- The first manifest in some directories that has a block for a command, with that block. -/
def firstBlock? (command : Text) : List Path → Action (Option (Path × Block))
  | [] => return none
  | directory :: rest => do
      let path := directory.child fileName
      if ← exists? path then
        match (← read path).bind (Json.Fields.get? command) with
        | some (.object fields) =>
            Action.note (.settingsFound command path)
            return some (path, .ofFields fields)
        | _ => firstBlock? command rest
      else firstBlock? command rest

/-- The manifest that holds the settings of a command for a directory, and these settings. -/
def findBlock (command : Text) (start : Path) : Action (Option (Path × Block)) := do
  firstBlock? command (← Action.resolve start).ancestors

/-- The patterns of the ignore file in a directory; none if there is no such file, it cannot be
read, or it has no patterns. -/
def readIgnoreFile (directory : Path) : Action (Option (List Text)) := do
  let path := directory.child ignoreFileName
  match (← get).files.readText path with
  | .error (.path (.refused errno)) =>
      Action.note (.noIgnoreFile directory (refusalText errno (some path.toText)))
      return none
  | .error (.path fault) => throw (.spelling fault)
  | .error (.undecodable fault) =>
      Action.note (.noIgnoreFile directory fault.message)
      return none
  | .ok text =>
      let patterns := IgnoreFile.patterns text
      return if patterns.isEmpty then none else some patterns

end ProjectLint.Manifest
