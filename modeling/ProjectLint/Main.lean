import ProjectLint.CommandLine.Run

/-!
The command itself. It takes a picture of the part of the disk that a run can depend on, runs on
the picture, prints, and writes back the files that the run has made. Nothing is decided here.
Programs are not started from here, so an engine is reported as one that cannot be started.
-/

namespace ProjectLint.Main

/-- The node for an entry of a directory on disk. A link leads to the canonical path of what it
names, or, if it leads nowhere, to itself. -/
partial def load (entry : IO.FS.DirEntry) : IO Node := do
  let real ← try (some <$> IO.FS.realPath entry.path) catch _ => pure none
  match real with
  | none => return .link (.ofString entry.fileName)
  | some real =>
      let inPlace ← IO.FS.realPath entry.root
      if real.toString ≠ (inPlace / entry.fileName).toString then
        return .link (.ofString real.toString)
      else if ← entry.path.isDir then
        let mut entries : Entries := []
        for inner in ← entry.path.readDir do
          entries := Node.putEntry (.ofString inner.fileName) (← load inner) entries
        return .directory entries
      else
        return .file (← IO.FS.readBinFile entry.path).toList

/-- Adds a file on disk to a picture, if it can be read. -/
def addFile (files : FileSystem) (path : Path) : IO FileSystem := do
  try
    let content ← IO.FS.readBinFile path.toText.display
    let files := (files.makeDirectories path.parent).files
    match files.writeFile path content.toList with
    | .ok files => return files
    | .error _ => return files
  catch _ => return files

/-- Adds a directory on disk to a picture with all that is below it, and the manifests and ignore
files of the directories above it. -/
def addTree (files : FileSystem) (path : Path) : IO FileSystem := do
  let mut files := (files.makeDirectories path).files
  for directory in path.ancestors do
    files ← addFile files (directory.child Manifest.fileName)
    files ← addFile files (directory.child Manifest.ignoreFileName)
  let real ← try (some <$> IO.FS.realPath path.toText.display) catch _ => pure none
  match real with
  | none => return files
  | some real =>
      if ← real.isDir then
        for entry in ← real.readDir do
          let place := path.parts ++ [Text.ofString entry.fileName]
          files := files.put (← load entry) place
      return files

/-- The picture of the disk for some arguments: the working directory, the directory that is asked
for, and the configuration file. -/
def picture (arguments : CommandLine.Arguments) : IO FileSystem := do
  let directory := Path.ofText (.ofString (← IO.currentDir).toString)
  let mut files ← addTree { FileSystem.empty with directory := directory.parts } directory
  if let some (some cwd) := arguments.cwd then
    let path := Path.absolute (Path.collapse (directory.under (.ofText cwd)).parts)
    unless directory.parts.isPrefixOf path.parts do
      files ← addTree files path
  if let some (some config) := arguments.config then
    files ← addFile files (Path.absolute (Path.collapse (directory.under (.ofText config)).parts))
  return files

/-- A name that is not in use: letters and digits at random. -/
def freshStamp : IO Text := do
  let mut stamp : Text := []
  for _ in [0:13] do
    let n ← IO.rand 0 35
    stamp := CodePoint.ofNat (if n < 10 then 48 + n else 87 + n) :: stamp
  return stamp

/-- Writes the files that a run has made or changed in the temporary directory. -/
def writeBack (before : FileSystem) (after : Session) : IO Unit := do
  for (name, node) in (after.files.entries? after.temporary).getD [] do
    let path := after.temporary.child name
    if let .file content := node then
      unless (before.readBytes path).toOption = some content do
        IO.FS.writeBinFile path.toText.display ⟨content.toArray⟩

/-- Prints what a run prints and gives its status. -/
def report (run : CommandLine.Run) : IO UInt32 := do
  IO.print run.stdout.display
  IO.eprint run.stderr.display
  match run.ending with
  | .status code | .early code => return .ofNat code
  | .failed failure =>
      IO.eprintln ((failure.message?.getD "The run failed.").display)
      return 1

def run (arguments : List Text) : IO UInt32 := do
  let temporary := Path.ofText (.ofString ((← IO.getEnv "TMPDIR").getD "/tmp"))
  let stamp ← freshStamp
  match CommandLine.read arguments with
  | .run parsed =>
      let files := ((← picture parsed).makeDirectories temporary).files
      let input ← if parsed.stdin then (← IO.getStdin).readToEnd else pure ""
      let unavailable : EngineOutcome :=
        .notStarted ⟨38, "Function not implemented", some parsed.linter.config.executable⟩
      let session : Session := { files, temporary, stamp, outcomes := [unavailable] }
      let (run, session) := CommandLine.runArguments parsed (.ofString input) session
      writeBack files session
      report run
  | _ =>
      let session : Session := { files := .empty, temporary, stamp }
      report (CommandLine.run arguments [] session).1

end ProjectLint.Main

def main (arguments : List String) : IO UInt32 :=
  ProjectLint.Main.run (arguments.map ProjectLint.Text.ofString)
