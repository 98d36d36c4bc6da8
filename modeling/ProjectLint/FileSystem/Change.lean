import ProjectLint.FileSystem.Lookup

/-!
Changing the tree of files.
-/

namespace ProjectLint.FileSystem

/-- Puts a node where a path leads, in place of what is there, but not of a directory. -/
def replace (fs : FileSystem) (aim : Aim) (path : Path) (node : Node) :
    Except PathFault FileSystem :=
  match fs.spot aim path with
  | .error fault => .error fault
  | .ok (.free place) => .ok (fs.put node place)
  | .ok (.taken place) =>
      match fs.find? place with
      | some (.directory _) => .error (.refused .isDirectory)
      | _ => .ok (fs.put node place)

/-- Writes a file, a new one or over an old one, through a link to the file that it names,
also one that is not there yet. -/
def writeFile (fs : FileSystem) (path : Path) (content : Utf8.Bytes) :
    Except PathFault FileSystem :=
  fs.replace .file path (.file content)

/-- Moves what is at one path to another, over a file or a link that is there. -/
def move (fs : FileSystem) (source goal : Path) : Except PathFault FileSystem :=
  match fs.locate .entry source with
  | .error fault => .error fault
  | .ok origin =>
      match fs.find? origin with
      | none => .error (.refused .notFound)
      | some node => (fs.remove origin).replace .entry goal node

/-- Puts a node where a path leads, if the name there is free. -/
def supply (fs : FileSystem) (path : Path) (node : Node) : Except PathFault FileSystem :=
  match fs.spot .entry path with
  | .error fault => .error fault
  | .ok (.taken _) => .error (.refused .exists)
  | .ok (.free place) => .ok (fs.put node place)

/-- What comes of making directories: the tree with those that could be made, and the first path at
which it could not be done, if there is one. -/
structure Made where
  files : FileSystem
  fault : Option (Path × PathFault)

/-- Makes a directory in one that exists. A directory that is there already stays. -/
def ensureDirectory (fs : FileSystem) (path : Path) : Made :=
  match fs.supply path (.directory []) with
  | .ok fs => ⟨fs, none⟩
  | .error fault =>
      match fs.isDirectory path with
      | .ok true => ⟨fs, none⟩
      | .ok false => ⟨fs, some (path, fault)⟩
      | .error errno => ⟨fs, some (path, .refused errno)⟩

/-- Makes the first of some directories of which each lies in the next one. Those after it are made
if they are missing. -/
def ensureChain (fs : FileSystem) : List Path → Made
  | [] => ⟨fs, none⟩
  | path :: above =>
      match fs.ensureDirectory path with
      | ⟨_, some (_, .refused .notFound)⟩ =>
          match ensureChain fs above with
          | ⟨fs, none⟩ => fs.ensureDirectory path
          | made => made
      | made => made

/-- Makes a directory and those missing above it. What exists stays. -/
def makeDirectories (fs : FileSystem) (path : Path) : Made :=
  fs.ensureChain path.ancestors

/-- Makes a link, if its name is free. -/
def makeLink (fs : FileSystem) (path : Path) (target : Text) : Except PathFault FileSystem :=
  fs.supply path (.link target.asName)

/-- Takes away what is at a path, a link itself and not what it names. A directory stays. -/
def removeFile (fs : FileSystem) (path : Path) : Except PathFault FileSystem :=
  match fs.locate .entry path with
  | .error fault => .error fault
  | .ok place =>
      match fs.find? place with
      | none => .error (.refused .notFound)
      | some (.directory _) => .error (.refused .isDirectory)
      | some _ => .ok (fs.remove place)

/-- Makes the directory that a path names the working directory. -/
def changeDirectory (fs : FileSystem) (path : Path) : Except PathFault FileSystem :=
  match fs.locate .named path with
  | .error fault => .error fault
  | .ok place =>
      match fs.find? place with
      | some (.directory _) => .ok { fs with directory := place }
      | _ => .error (.refused .notDirectory)

end ProjectLint.FileSystem
