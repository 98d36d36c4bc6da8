import ProjectLint.Glob.Expand
import ProjectLint.Pattern

/-!
Discovery of files: the files that globs find, less those that are ignored. A file is given by its
canonical path, once, where it is found first.
-/

namespace ProjectLint.Discovery

/-- The globs that are expanded if no pattern is given. -/
def defaultGlobs : List Text := ["**/*.js", "**/*.jsx"]

/-- The patterns that are always ignored. -/
def defaultIgnored : List Text := ["coverage/**", "node_modules/**", "**/*.min.js", "**/bundle.js"]

/-- Expands a pattern as a glob. One that is no text fails. -/
def expandOne (scope : Glob.Scope) : Pattern → Except Failure Glob.Reached
  | .other _ => .error .notText
  | .text text => Glob.expand scope (Path.ofText text)

/-- What searches find together, in their order, if all of them succeed. -/
def gather : List (Except Failure Glob.Reached) → Except Failure Glob.Reached
  | [] => .ok ⟨[], []⟩
  | .error failure :: _ => .error failure
  | .ok reached :: rest =>
      match gather rest with
      | .error failure => .error failure
      | .ok others => .ok (reached.append others)

/-- The failure at the first of some places where there is one. -/
def failureAt? (results : List (Except Failure Glob.Reached)) (places : List Nat) :
    Option Failure :=
  places.findSome? fun (place : Nat) =>
    match results[place]? with
    | some (.error failure) => some failure
    | _ => none

/-- Expands patterns as globs, all at the same time. The first failure in time ends the whole:
`finishing` gives the places of the searches in the order in which they end, and the searches that
it does not name end after these, in the order of the patterns. -/
def expandAll (scope : Glob.Scope) (finishing : List Nat) (patterns : List Pattern) :
    Except Failure Glob.Reached :=
  let results := patterns.map (expandOne scope)
  match gather results with
  | .ok reached => .ok reached
  | .error failure => .error ((failureAt? results finishing).getD failure)

/-- The files that patterns find and no source ignores, and the directories walked on the way. -/
def discover (scope : Glob.Scope) (finishing : List Nat) (patterns : List Pattern) :
    Except Failure Glob.Reached :=
  match expandAll scope finishing patterns with
  | .error failure => .error failure
  | .ok reached =>
      match scope.ignored.keep scope.viewpoint (Path.firstOccurrences reached.paths) with
      | .error failure => .error failure
      | .ok files => .ok ⟨files, reached.walked⟩

end ProjectLint.Discovery
