import ProjectLint.Ignore.Rule
import ProjectLint.Path.Relative

/-!
Named sources of ignore patterns, and ordered sets of them. Each source decides on its own, and a
path is ignored if any source ignores it, so a negated line takes back paths of its own source only.
-/

namespace ProjectLint

/-- A source of patterns. They are matched against paths relative to `base`, or to the directory of
the call if there is none; a source with a base knows nothing of paths outside it. `whileGlobbing`
tells whether they count already while globs are expanded. -/
structure Source where
  name : Text
  patterns : List Pattern
  whileGlobbing : Bool
  base : Option Path

/-- Where a call takes place: the working directory of the process, and the directory of the call,
which paths are seen from. -/
structure Viewpoint where
  process : Path
  call : Path

namespace Source

/-- How paths outside the directory that they are seen from start. -/
def outside : Text := [.scalar '.', .scalar '.', .scalar '/']

/-- A path as a source sees it; none if it lies outside the base. -/
def view? (source : Source) (viewpoint : Viewpoint) (path : Path) : Option Text :=
  match source.base with
  | none => some (Path.relativeTo viewpoint.process path viewpoint.call)
  | some base =>
      let seen := Path.relativeTo viewpoint.process path base
      if seen = parentPart || outside.isPrefixOf seen then none else some seen

def rules (source : Source) : Except Failure (List Rule) :=
  Rule.ofPatterns source.patterns

/-- The end of a pattern for everything below a directory. -/
def everythingBelow : Text := [.scalar '/', .scalar '*', .scalar '*']

/-- A pattern as it is for directories: one for everything below a directory finds the directory. -/
def folderPattern : Pattern → Pattern
  | .text line =>
      .text (if everythingBelow.isSuffixOf line then line.take (line.length - 2) else line)
  | .other value => .other value

/-- Whether one of some patterns is a negated line. They are asked in order, and one that is no text
cannot be asked. -/
def anyNegated : List Pattern → Except Failure Bool
  | [] => .ok false
  | .other _ :: _ => .error .noFields
  | .text line :: rest =>
      if line.head? = some (.scalar '!') then .ok true else anyNegated rest

/-- The patterns that find directories whose whole content is ignored. A negated line could take
back something below, so a source that has one finds none. -/
def folderPatterns (source : Source) : Except Failure (List Pattern) :=
  match anyNegated source.patterns with
  | .error failure => .error failure
  | .ok true => .ok []
  | .ok false => .ok (source.patterns.map folderPattern)

def folderRules (source : Source) : Except Failure (List Rule) :=
  match source.folderPatterns with
  | .error failure => .error failure
  | .ok patterns => Rule.ofPatterns patterns

def ignores (source : Source) (viewpoint : Viewpoint) (path : Path) : Except Failure Bool :=
  match source.view? viewpoint path with
  | none => .ok false
  | some seen =>
      match source.rules with
      | .error failure => .error failure
      | .ok rules => .ok (Rule.decides rules seen)

/-- Whether a source ignores everything in a directory. The directory that paths are seen from is
never ignored as a whole. -/
def ignoresFolder (source : Source) (viewpoint : Viewpoint) (path : Path) : Except Failure Bool :=
  match source.view? viewpoint path with
  | none => .ok false
  | some seen =>
      if seen = selfPart then .ok false
      else
        match source.folderRules with
        | .error failure => .error failure
        | .ok rules => .ok (Rule.decides rules (seen ++ [.scalar '/']))

/-- A source of the patterns that are not blank, if any is left. -/
def of? (name : Text) (patterns : List Pattern) (whileGlobbing : Bool) (base : Option Path) :
    Option Source :=
  let kept := patterns.filter (!·.isBlank)
  if kept.isEmpty then none else some ⟨name, kept, whileGlobbing, base⟩

end Source

/-- Sources of ignore patterns in the order in which they were added. -/
abbrev IgnoreSet := List Source

namespace IgnoreSet

/-- The patterns that count while globs are expanded. -/
def globPatterns (set : IgnoreSet) : List Pattern :=
  (set.filter (·.whileGlobbing)).flatMap (·.patterns)

def allPatterns (set : IgnoreSet) : List Pattern :=
  set.flatMap (·.patterns)

/-- Whether a test holds of any source. Sources after the first one that passes are not asked. -/
def anySource (test : Source → Except Failure Bool) : List Source → Except Failure Bool
  | [] => .ok false
  | source :: rest =>
      match test source with
      | .error failure => .error failure
      | .ok true => .ok true
      | .ok false => anySource test rest

def ignores (set : IgnoreSet) (viewpoint : Viewpoint) (path : Path) : Except Failure Bool :=
  anySource (·.ignores viewpoint path) set

def ignoresWhileGlobbing (set : IgnoreSet) (viewpoint : Viewpoint) (path : Path) :
    Except Failure Bool :=
  anySource (·.ignores viewpoint path) (set.filter (·.whileGlobbing))

/-- Whether the expansion of globs may leave out a directory as a whole. -/
def prunes (set : IgnoreSet) (viewpoint : Viewpoint) (path : Path) : Except Failure Bool :=
  anySource (·.ignoresFolder viewpoint path) (set.filter (·.whileGlobbing))

/-- The paths that are not ignored. -/
def keep (set : IgnoreSet) (viewpoint : Viewpoint) : List Path → Except Failure (List Path)
  | [] => .ok []
  | path :: paths =>
      match set.ignores viewpoint path with
      | .error failure => .error failure
      | .ok ignored =>
          match keep set viewpoint paths with
          | .error failure => .error failure
          | .ok kept => .ok (if ignored then kept else path :: kept)

end IgnoreSet
end ProjectLint
