import ProjectLint.FileSystem.Tree

/-!
Finding what a path names. Components are followed one by one from the root or from the working
directory. A link is replaced by its target, at most forty times for one path.
-/

namespace ProjectLint

/-- How many links are followed for one path. -/
def maxLinks : Nat := 40

/-- Where the target of a link in a directory starts from. -/
def linkStart (place : Place) (target : Text) : Place :=
  if target.head? = some (.scalar '/') then [] else place

/-- What a path is followed for. This decides how its end is taken: for an `entry` a link there is
meant itself, for what is `named` it is followed, and so it is for a `file` to write, which may be a
new one and so cannot have a slash after its name. -/
inductive Aim where
  | entry
  | named
  | file
deriving DecidableEq

namespace FileSystem

/-- How far components lead without following a link: to a place, to a free name in a directory, to
a link with the components after it, or to a refusal. -/
inductive Reach where
  | arrived (place : Place)
  | free (place : Place)
  | atLink (place : Place) (target : Text) (rest : List Text)
  | refused (errno : Errno)

/-- Whether nothing but slashes comes after a component. -/
def endsInSlash (rest : List Text) : Bool :=
  !rest.isEmpty && rest.all List.isEmpty

/-- Follows components to the end or to the first link. Only directories can be gone through. A last
name that a slash follows is a directory's, whether there is one or not, so no file can be written
there. `trail` holds the names from the root to where the walk stands, the last one first, and
`node` what is there. -/
def reach (fs : FileSystem) (aim : Aim) (trail : List Text) (node : Option Node) :
    List Text → Reach
  | [] => .arrived trail.reverse
  | part :: rest =>
      match node with
      | none => .refused .notFound
      | some (.directory entries) =>
          if part = [] || part = selfPart then reach fs aim trail node rest
          else if part = parentPart then
            reach fs aim trail.tail (fs.find? trail.tail.reverse) rest
          else if aim = .file && endsInSlash rest then .refused .isDirectory
          else if maxNameBytes < part.nameLength then .refused .nameTooLong
          else
            let here := part.asName :: trail
            match Node.entryNamed? part.asName entries with
            | none => if rest.isEmpty then .free here.reverse else .refused .notFound
            | some (.link target) =>
                if rest.isEmpty && aim = .entry then .arrived here.reverse
                else .atLink trail.reverse target rest
            | some inner => reach fs aim here (some inner) rest
      | some _ => .refused .notDirectory

/-- What a path leads to: a place, or a free name in a directory. -/
inductive Spot where
  | taken (place : Place)
  | free (place : Place)

/-- Follows components, replacing at most `budget` links. -/
def follow (fs : FileSystem) (aim : Aim) : (budget : Nat) → Place → List Text →
    Except Errno Spot
  | budget, place, parts =>
      match fs.reach aim place.reverse (fs.find? place) parts with
      | .arrived place => .ok (.taken place)
      | .free place => .ok (.free place)
      | .refused errno => .error errno
      | .atLink place target rest =>
          match budget with
          | 0 => .error .tooManyLinks
          | budget + 1 =>
              follow fs aim budget (linkStart place target) (target.split '/' ++ rest)

/-- What a path leads to. -/
def spot (fs : FileSystem) (aim : Aim) (path : Path) : Except PathFault Spot :=
  match checkSpelling path.toText with
  | .error fault => .error fault
  | .ok () =>
      if isTooLong path.toText then .error (.refused .nameTooLong)
      else
        match fs.follow aim maxLinks (if path.isAbsolute then [] else fs.directory) path.parts with
        | .ok spot => .ok spot
        | .error errno => .error (.refused errno)

/-- The place that a path leads to, with something there. -/
def locate (fs : FileSystem) (aim : Aim) (path : Path) : Except PathFault Place :=
  match fs.spot aim path with
  | .ok (.taken place) => .ok place
  | .ok (.free _) => .error (.refused .notFound)
  | .error fault => .error fault

/-- The node that a path names, links followed. -/
def node? (fs : FileSystem) (path : Path) : Except PathFault Node :=
  match fs.locate .named path with
  | .error fault => .error fault
  | .ok place =>
      match fs.find? place with
      | some node => .ok node
      | none => .error (.refused .notFound)

/-- Whether there is anything at a path, a link that leads nowhere included. -/
def hasEntry (fs : FileSystem) (path : Path) : Bool :=
  match fs.locate .entry path with
  | .ok place => (fs.find? place).isSome
  | .error _ => false

/-- Whether a path names a node that passes a test. That it is missing, or lies behind a file or a
ring of links, or cannot be spelled is an answer; that a name is too long is a refusal. -/
def names (fs : FileSystem) (test : Node → Bool) (path : Path) : Except Errno Bool :=
  match fs.node? path with
  | .ok node => .ok (test node)
  | .error (.refused .nameTooLong) => .error .nameTooLong
  | .error _ => .ok false

def isFile (fs : FileSystem) (path : Path) : Except Errno Bool :=
  fs.names (fun node => match node with | .file _ => true | _ => false) path

def isDirectory (fs : FileSystem) (path : Path) : Except Errno Bool :=
  fs.names (fun node => match node with | .directory _ => true | _ => false) path

/-- The bytes of the file that a path names. -/
def readBytes (fs : FileSystem) (path : Path) : Except PathFault Utf8.Bytes :=
  match fs.node? path with
  | .ok (.file content) => .ok content
  | .ok _ => .error (.refused .isDirectory)
  | .error fault => .error fault

/-- The entries of the directory that a path names; none if there is no such directory. -/
def entries? (fs : FileSystem) (path : Path) : Option Entries :=
  match fs.node? path with
  | .ok (.directory entries) => some entries
  | _ => none

/-- The path of the working directory; it may have been removed. -/
def workingPath (fs : FileSystem) : Except Errno Path :=
  match fs.find? fs.directory with
  | some _ => .ok (.absolute fs.directory)
  | none => .error .notFound

end FileSystem
end ProjectLint
