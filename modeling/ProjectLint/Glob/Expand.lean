import ProjectLint.Glob.Walk
import ProjectLint.Ignore.Source
import ProjectLint.Path.Distinct

/-!
Expanding a glob component by component. Each component takes every path reached so far to the
paths it can lead to; `**` leads to a directory itself and to all directories below it, and as the
last component also to the files in them. A test `pruned` says which directories `**` leaves out
with all that is below them; `expand` takes those whose whole content is ignored. Main statement:
components can be followed in two parts.
-/

namespace ProjectLint.Glob

/-- The component that leads through any number of directories. -/
def anyDepth : Text := [.scalar '*', .scalar '*']

/-- What an expansion depends on: the tree of files, the sources of ignore patterns, where paths
are seen from, and a component that cannot be read, if there is one. -/
structure Scope where
  files : FileSystem
  ignored : IgnoreSet
  viewpoint : Viewpoint
  unreadable : Option Text

/-- The paths that an expansion reaches, and the directories that its walks visit. -/
structure Reached where
  paths : List Path
  walked : List Path

/-- Two steps of an expansion taken together. -/
def Reached.append (a b : Reached) : Reached :=
  ⟨a.paths ++ b.paths, a.walked ++ b.walked⟩

/-- The names that a component other than `**` matches in a directory. -/
def namesIn (fs : FileSystem) (directory : Path) (segment : Text) : List Text :=
  if hasWildcard segment then
    (((fs.entries? directory).getD []).map (·.1)).filter (matchesName segment)
  else if fs.hasEntry (directory.child segment) then [segment]
  else []

/-- Where one component leads from one path. `last` tells whether it is the last one of a glob. -/
def stepFrom (scope : Scope) (pruned : Pruning) (segment : Text) (last : Bool) (start : Path) :
    Except Failure Reached :=
  if segment = anyDepth then
    match walk scope.files pruned start with
    | .error failure => .error failure
    | .ok visits =>
        .ok ⟨visits.flatMap fun visit => visit.directory :: if last then visit.files else [],
          visits.map (·.directory)⟩
  else if scope.unreadable = some segment then .error (.unreadableSegment segment)
  else .ok ⟨(namesIn scope.files start segment).map start.child, []⟩

/-- Where one component leads from several paths. -/
def step (scope : Scope) (pruned : Pruning) (segment : Text) (last : Bool) :
    List Path → Except Failure Reached
  | [] => .ok ⟨[], []⟩
  | start :: starts =>
      match stepFrom scope pruned segment last start with
      | .error failure => .error failure
      | .ok first =>
          match step scope pruned segment last starts with
          | .error failure => .error failure
          | .ok others => .ok (first.append others)

/-- Where components lead, one after the other, each path being followed once. `final` tells whether
they are the end of a glob. -/
def steps (scope : Scope) (pruned : Pruning) (final : Bool) :
    List Text → List Path → Except Failure Reached
  | [], starts => .ok ⟨starts, []⟩
  | segment :: rest, starts =>
      match step scope pruned segment (final && rest.isEmpty) starts with
      | .error failure => .error failure
      | .ok reached =>
          match steps scope pruned final rest (Path.firstOccurrences reached.paths) with
          | .error failure => .error failure
          | .ok others => .ok ⟨others.paths, reached.walked ++ others.walked⟩

theorem steps_append (scope : Scope) (pruned : Pruning) (final : Bool) (segments : List Text)
    {others : List Text} (h : others ≠ []) (starts : List Path) :
    steps scope pruned final (segments ++ others) starts =
      match steps scope pruned false segments starts with
      | .error failure => .error failure
      | .ok reached =>
          match steps scope pruned final others reached.paths with
          | .error failure => .error failure
          | .ok ends => .ok ⟨ends.paths, reached.walked ++ ends.walked⟩ := by
  induction segments generalizing starts with
  | nil =>
      simp only [List.nil_append, steps]
      cases steps scope pruned final others starts <;> simp
  | cons segment segments ih =>
      have hlast : (segments ++ others).isEmpty = false := by
        cases segments <;> cases others <;> simp_all
      simp only [List.cons_append, steps, hlast, Bool.and_false, Bool.false_and]
      cases step scope pruned segment false starts with
      | error failure => rfl
      | ok reached =>
          simp only [ih]
          cases steps scope pruned false segments (Path.firstOccurrences reached.paths) with
          | error failure => rfl
          | ok middle =>
              simp only
              cases steps scope pruned final others middle.paths with
              | error failure => rfl
              | ok ends => simp [List.append_assoc]

/-- The canonical forms of those paths that are files and not ignored while globbing. -/
def keepFiles (scope : Scope) : List Path → Except Failure (List Path)
  | [] => .ok []
  | path :: paths =>
      match scope.files.isFile path with
      | .error errno => .error (.refused errno (some path.toText))
      | .ok false => keepFiles scope paths
      | .ok true =>
          match scope.ignored.ignoresWhileGlobbing scope.viewpoint path with
          | .error failure => .error failure
          | .ok true => keepFiles scope paths
          | .ok false =>
              match scope.files.resolve path with
              | .error fault => .error (Failure.ofResolveFault fault)
              | .ok resolved =>
                  match keepFiles scope paths with
                  | .error failure => .error failure
                  | .ok kept => .ok (resolved :: kept)

/-- Where the components of a glob start: the directory of the call, or the root if it is
absolute. -/
def Scope.start (scope : Scope) (glob : Path) : Path :=
  if glob.isAbsolute then ⟨glob.anchor, []⟩ else scope.viewpoint.call

/-- The files that a glob finds when directories are left out by a test. -/
def expandPruning (pruned : Pruning) (scope : Scope) (glob : Path) : Except Failure Reached :=
  match steps scope pruned true glob.parts [scope.start glob] with
  | .error failure => .error failure
  | .ok reached =>
      match keepFiles scope reached.paths with
      | .error failure => .error failure
      | .ok files => .ok ⟨files, reached.walked⟩

/-- The files that a glob finds. Directories whose whole content is ignored are left out. -/
def expand (scope : Scope) (glob : Path) : Except Failure Reached :=
  expandPruning (scope.ignored.prunes scope.viewpoint) scope glob

end ProjectLint.Glob
