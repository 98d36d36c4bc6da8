import ProjectLint.FileSystem.Resolve
import ProjectLint.Failure
import ProjectLint.Glob.Segment

/-!
Walking a tree of directories from the top. Hidden names are left out, links to directories are
not entered, and directories that a test prunes are left out with all that is below them. So are
directories whose path is too long for the system.
-/

namespace ProjectLint.Glob

/-- A directory met on a walk, and the files in it that are not hidden. -/
structure Visit where
  directory : Path
  files : List Path
deriving DecidableEq

/-- A test of directories that says which ones a walk leaves out. -/
abbrev Pruning := Path → Except Failure Bool

/-- Whether an entry counts as a directory: it is one, or a link that leads to one. -/
def countsAsDirectory (fs : FileSystem) (here : Path) (name : Text) : Node → Bool
  | .directory _ => true
  | .link _ => (fs.entries? (here.child name)).isSome
  | .file _ => false

/-- The names of the directories among entries that are neither hidden nor pruned. -/
def openNames (fs : FileSystem) (pruned : Pruning) (here : Path) :
    List (Text × Node) → Except Failure (List Text)
  | [] => .ok []
  | (name, node) :: rest =>
      if countsAsDirectory fs here name node && !isHidden name then
        match pruned (here.child name) with
        | .error failure => .error failure
        | .ok skip =>
            match openNames fs pruned here rest with
            | .error failure => .error failure
            | .ok names => .ok (if skip then names else name :: names)
      else openNames fs pruned here rest

/-- The files among entries that are not hidden; whatever does not count as a directory is one. -/
def shownFiles (fs : FileSystem) (here : Path) (entries : Entries) : List Path :=
  (entries.filter fun entry =>
    !countsAsDirectory fs here entry.1 entry.2 && !isHidden entry.1).map fun entry =>
      here.child entry.1

mutual

def walkNode (fs : FileSystem) (pruned : Pruning) (here : Path) :
    Node → Except Failure (List Visit)
  | .directory entries =>
      if isTooLong here.toText then .ok []
      else
        match openNames fs pruned here entries with
        | .error failure => .error failure
        | .ok names =>
            match walkEntries fs pruned here names entries with
            | .error failure => .error failure
            | .ok visits => .ok (⟨here, shownFiles fs here entries⟩ :: visits)
  | .file _ | .link _ => .ok []

/-- The visits of the directories among entries whose names are open. -/
def walkEntries (fs : FileSystem) (pruned : Pruning) (here : Path)
    (names : List Text) : List (Text × Node) → Except Failure (List Visit)
  | [] => .ok []
  | (name, node) :: rest =>
      if names.contains name then
        match walkNode fs pruned (here.child name) node with
        | .error failure => .error failure
        | .ok visits =>
            match walkEntries fs pruned here names rest with
            | .error failure => .error failure
            | .ok others => .ok (visits ++ others)
      else walkEntries fs pruned here names rest

end

/-- The visits of a walk that starts at a path; none if it names no directory. -/
def walk (fs : FileSystem) (pruned : Pruning) (start : Path) :
    Except Failure (List Visit) :=
  match fs.node? start with
  | .ok node => walkNode fs pruned start node
  | .error _ => .ok []

end ProjectLint.Glob
