import ProjectLint.FileSystem.Lookup

/-!
The canonical form of a path: absolute, without links and without `..`. Components that do not
exist are kept. A ring of links has no canonical form. A relative path stays relative until a link
with an absolute target is met, and links are told apart by how they are spelled. Where a link has
led once it leads for the rest of the way.
-/

namespace ProjectLint

/-- Why a path has no canonical form: the working directory is gone, links lead in a ring, links lie
too deep inside one another, or a component cannot be spelled. -/
inductive ResolveFault where
  | noDirectory (errno : Errno)
  | ring (path : Path)
  | tooDeep
  | spelling (fault : PathFault)
deriving DecidableEq

namespace Path

/-- The path of the parent directory. In a relative path a `..` stays if nothing stands before it
that it could take away. -/
def up (p : Path) : Path :=
  match p.parts.getLast? with
  | none => if p.isAbsolute then p else p.child parentPart
  | some part => if part = parentPart then p.child parentPart else p.parent

/-- Where the target of a link starts from. -/
def targetStart (p : Path) (target : Text) : Path :=
  if target.head? = some (.scalar '/') then .absolute [] else p

/-- A path with components put after it. Read as one text they can be an absolute path, which then
stands alone. -/
def rejoin (p : Path) (rest : List Text) : Path :=
  p.under (.ofText (Text.join [.scalar '/'] rest))

end Path

namespace FileSystem

/-- How far components lead when missing ones count as directories. -/
inductive Stroll where
  | arrived (path : Path)
  | atLink (path : Path) (name target : Text) (rest : List Text)
  | unspelled (fault : PathFault)

/-- The place of a path that leads through no link. -/
def placeOf (fs : FileSystem) (path : Path) : Place :=
  let parts := path.parts.map Text.asName
  if path.isAbsolute then parts else Path.collapse (fs.directory ++ parts)

/-- The target of the link at a path that leads through no other link. -/
def linkTarget? (fs : FileSystem) (path : Path) : Option Text :=
  match fs.find? (fs.placeOf path) with
  | some (.link target) => if isTooLong path.toText then none else some target
  | _ => none

/-- Follows components from a path to the end or to the first link. -/
def stroll (fs : FileSystem) (path : Path) : List Text → Stroll
  | [] => .arrived path
  | part :: rest =>
      if part = [] || part = selfPart then stroll fs path rest
      else if part = parentPart then stroll fs path.up rest
      else
        match checkSpelling part with
        | .error fault => .unspelled fault
        | .ok () =>
            match fs.linkTarget? (path.child part) with
            | some target => .atLink path part target rest
            | none => stroll fs (path.child part) rest

/-- The links whose targets have been followed to the end, and where they lead. -/
abbrev Known := List (Path × Path)

/-- What becomes of components: a path without links and the links known by then; or a ring, with
the components that were left when it was found; or no answer. -/
inductive Settled where
  | path (path : Path) (known : Known)
  | ring (path : Path)
  | tooDeep
  | unspelled (fault : PathFault)

/-- How many links can lie inside one another. -/
def maxNesting : Nat := 985

/-- Replaces all links, `active` being those whose targets are being followed. -/
def settle (fs : FileSystem) : (fuel : Nat) → (active : List Path) → Known → Path → List Text →
    Settled
  | 0, _, _, _, _ => .tooDeep
  | fuel + 1, active, known, path, parts =>
      match fs.stroll path parts with
      | .arrived path => .path path known
      | .unspelled fault => .unspelled fault
      | .atLink path name target rest =>
          let here := path.child name
          match known.lookup here with
          | some goal => settle fs fuel active known goal rest
          | none =>
              if active.contains here then .ring (here.rejoin rest)
              else if maxNesting ≤ active.length then .tooDeep
              else
                match settle fs fuel (here :: active) known (path.targetStart target)
                    (target.split '/') with
                | .path goal known => settle fs fuel active ((here, goal) :: known) goal rest
                | .ring path => .ring (path.rejoin rest)
                | .tooDeep => .tooDeep
                | .unspelled fault => .unspelled fault

/-- Enough steps to replace all links on the way through some components: one for each of them, and
for each link inside another one for each component of its target. -/
def settleFuel (fs : FileSystem) (parts : List Text) : Nat :=
  (maxNesting + 1) * (fs.root.longestTarget + 2) + parts.length + 1

/-- A path as it is found without a link, made absolute by its components alone. -/
def finish (fs : FileSystem) (path : Path) : Except ResolveFault Path :=
  match if path.isAbsolute then .ok ⟨path.anchor, []⟩ else fs.workingPath with
  | .error errno => .error (.noDirectory errno)
  | .ok start => .ok ⟨start.anchor, Path.collapse (start.under path).parts⟩

/-- The canonical form of a path. What a ring leaves is refused only if following it still runs in
a ring. -/
def resolve (fs : FileSystem) (path : Path) : Except ResolveFault Path :=
  let start : Path := if path.isAbsolute then .absolute [] else ⟨.relative, []⟩
  match fs.settle (fs.settleFuel path.parts) [] [] start path.parts with
  | .unspelled fault => .error (.spelling fault)
  | .tooDeep => .error .tooDeep
  | .path path _ => fs.finish path
  | .ring path =>
      match fs.finish path with
      | .error fault => .error fault
      | .ok path =>
          match fs.locate .named path with
          | .error (.refused .tooManyLinks) => .error (.ring path)
          | .error .zeroByte => .error (.spelling .zeroByte)
          | .error .surrogate => .error (.spelling .surrogate)
          | _ => .ok path

end FileSystem
end ProjectLint
