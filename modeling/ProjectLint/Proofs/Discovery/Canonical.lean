import ProjectLint.Proofs.Discovery.Distribution
import ProjectLint.Proofs.FileSystem.Existing
import ProjectLint.Proofs.Glob.Reach
import ProjectLint.Proofs.Ignore.Compiled
import ProjectLint.Proofs.Manifest.Nearest
import ProjectLint.Proofs.Path.Distinct

/-!
What discovered files are given by. Each path is the canonical form of a path that names a file, and
so it leads to that file itself if every link on the way can be looked at. Paths are told apart by
how they are spelled; if all names are given as the system gives them back, that tells files apart.
Main statement: a discovery gives canonical paths of files that no source ignores, each once, in the
order in which the patterns find them.
-/

namespace ProjectLint

namespace FileSystem

variable {fs : FileSystem}

/-- Whether a path consists of the names on the way to a file and is its own canonical form. A path
that is too long cannot be passed to the system, canonical or not. -/
structure IsCanonicalFile (fs : FileSystem) (path : Path) : Prop where
  resolved : fs.resolve path = .ok path
  file : ∃ place content, Spells path place ∧ fs.find? place = some (.file content)
  found : isTooLong path.toText = false → fs.isFile path = .ok true

/-- The canonical form of a path that names a file leads to that file. -/
theorem isCanonicalFile_of_resolve (hlinks : fs.LinksShow) {path canonical : Path}
    (hplain : path.Plain) (habsolute : path.isAbsolute = true) (hfile : fs.isFile path = .ok true)
    (h : fs.resolve path = .ok canonical) : fs.IsCanonicalFile canonical := by
  obtain ⟨content, hnode⟩ := isFile_eq_true.1 hfile
  obtain ⟨place, hplace, hfind⟩ := node?_eq_ok.1 hnode
  obtain ⟨found, hfound, hspells⟩ := resolve_of_locate hlinks (.inl habsolute) hplace
  cases hfound.symm.trans h
  have hcanonical := (plain_resolve hplain h).1
  have hlink : ∀ target, Node.file content ≠ .link target := by simp
  refine ⟨resolve_of_spells hcanonical hspells hfind hlink, ⟨place, content, hspells, hfind⟩, ?_⟩
  intro hshort
  have hlocate := locate_of_spells hcanonical hspells hfind hlink hshort
  exact isFile_eq_true.2 ⟨content, node?_eq_ok.2 ⟨place, hlocate, hfind⟩⟩

/-- Whether a component of a path is given back by the system as it is. -/
def IsExact (part : Text) : Prop :=
  IsComponent part ∧ part.asName = part

theorem isExact_of_isEntryName {name : Text} (h : isEntryName name = true) : IsExact name :=
  ⟨isComponent_of_isEntryName h, asName_of_isEntryName h⟩

theorem supplies_isExact (h : ∀ place target, fs.find? place = some (.link target) →
    (Path.ofText target).Consists IsExact) : fs.Supplies IsExact where
  component := fun _ => And.left
  parent := ⟨isComponent_parentPart, by decide⟩
  target := h
  working := by
    intro path hpath
    rw [workingPath] at hpath
    split at hpath
    next node hnode =>
      cases hpath
      exact fun part hpart => isExact_of_isEntryName
        ((Node.wellFormed_of_find? fs.wellFormed_root hnode).2 part hpart)
    next => cases hpath

/-- Names on the way to a place that are given back as they are can only be those of the place. -/
theorem Spells.eq_absolute {path : Path} {place : Place} (hpath : Spells path place)
    (hexact : path.Consists IsExact) : path = .absolute place := by
  obtain ⟨anchor, parts⟩ := path
  obtain ⟨rfl, -, -, hnames⟩ := hpath
  have hsame : parts.map Text.asName = parts :=
    (List.map_congr_left fun part hpart => (hexact part hpart).2).trans (List.map_id' parts)
  rw [← hnames, hsame]
  rfl

end FileSystem

namespace Discovery

/-- Whether paths are those of a list that pass a test, each once, in the order in which they first
occur there. -/
structure FirstOf (whole : List Path) (keep : Path → Prop) (paths : List Path) : Prop where
  mem : ∀ path, path ∈ paths ↔ path ∈ whole ∧ keep path
  nodup : paths.Nodup
  ordered : paths.Pairwise fun p q => whole.idxOf p < whole.idxOf q

/-- Whether the names in a directory, in globs and in the targets of links are spelled as the system
gives them back. -/
structure GivenExactly (s : Session) (directory : Path) (patterns : List Pattern) : Prop where
  directory : ∀ part ∈ directory.parts, part.asName = part
  patterns : ∀ text, .text text ∈ patterns → ∀ part ∈ (Path.ofText text).parts,
    Glob.hasWildcard part = false → part.asName = part
  targets : ∀ place target, s.files.find? place = some (.link target) →
    ∀ part ∈ (Path.ofText target).parts, part.asName = part

variable {scope : Glob.Scope} {finishing : List Nat} {found : Glob.Reached}
  {patterns : List Pattern}

/-- The paths that are discovered are canonical forms of paths that name files, which consist of
components of some kind if all components that are given are of that kind. -/
theorem exists_candidate {kind : Text → Prop}
    (h : discover scope finishing patterns = .ok found)
    (hentry : ∀ name, isEntryName name = true → kind name)
    (hcall : scope.viewpoint.call.isAbsolute = true ∧ scope.viewpoint.call.Consists kind)
    (hpatterns : ∀ text, .text text ∈ patterns → ∀ part ∈ (Path.ofText text).parts,
      Glob.hasWildcard part = false → kind part) {path : Path} (hmem : path ∈ found.paths) :
    ∃ candidate, candidate.isAbsolute = true ∧ candidate.Consists kind ∧
      scope.files.isFile candidate = .ok true ∧ scope.files.resolve candidate = .ok path := by
  obtain ⟨reached, kept, hreached, hkept, rfl⟩ := discover_eq_ok.1 h
  obtain ⟨hpath, -⟩ := (IgnoreSet.mem_keep hkept).1 hmem
  obtain ⟨_, hpattern, first, ⟨text, rfl, hfirst⟩, hpath⟩ :=
    (mem_expandAll hreached).1 (Path.mem_firstOccurrences.1 hpath)
  have hkind := Glob.keptBySteps_consists scope.files hentry (hpatterns text hpattern)
  have hstart : (scope.start (.ofText text)).isAbsolute = true ∧
      (scope.start (.ofText text)).Consists kind := by
    rw [Glob.Scope.start]
    split
    next habsolute => exact ⟨habsolute, Path.consists_nil kind _⟩
    next => exact hcall
  obtain ⟨candidate, ⟨habsolute, hconsists⟩, hfile, hresolve⟩ :=
    Glob.exists_candidate hkind.isAbsolute hstart hfirst hpath
  exact ⟨candidate, habsolute, hconsists, hfile, hresolve⟩

/-- If names are given exactly, those of the paths that are discovered are so too. -/
theorem GivenExactly.consists_found {s : Session} {directory canonical : Path} {set : IgnoreSet}
    (hexact : GivenExactly s directory patterns) (hplain : directory.Plain)
    (hcanonical : s.files.resolve directory = .ok canonical)
    (h : discover (scopeIn s set canonical) finishing
      patterns = .ok found) : ∀ path ∈ found.paths, path.Consists FileSystem.IsExact := by
  have hfs : s.files.Supplies FileSystem.IsExact := FileSystem.supplies_isExact
    fun place target htarget part hpart =>
      ⟨Path.plain_ofText target part hpart, hexact.targets place target htarget part hpart⟩
  have hcall : canonical.Consists FileSystem.IsExact := FileSystem.consists_resolve hfs
    (fun part hpart => ⟨hplain part hpart, hexact.directory part hpart⟩) hcanonical
  have habsolute := (FileSystem.plain_resolve hplain hcanonical).2
  intro path hpath
  obtain ⟨candidate, -, hcandidate, -, hresolve⟩ := exists_candidate h
    (fun _ => FileSystem.isExact_of_isEntryName) ⟨habsolute, hcall⟩
    (fun text htext part hpart hliteral => ⟨Path.plain_ofText text part hpart,
      hexact.patterns text htext part hpart hliteral⟩) hpath
  exact FileSystem.consists_resolve hfs hcandidate hresolve

/-- Of what the patterns expand to a discovery takes the first occurrences that no source
ignores. -/
theorem firstOf_discover (h : discover scope finishing patterns = .ok found) :
    ∃ expansions, List.Forall₂ (Expands scope) patterns expansions ∧
      FirstOf (expansions.flatMap (·.paths))
        (fun path => ∀ source ∈ scope.ignored, source.ignores scope.viewpoint path = .ok false)
        found.paths := by
  obtain ⟨reached, kept, hreached, hkept, rfl⟩ := discover_eq_ok.1 h
  obtain ⟨expansions, hexpansions, rfl⟩ := expandAll_eq_ok.1 hreached
  obtain ⟨-, rfl⟩ := IgnoreSet.keep_eq_ok.1 hkept
  refine ⟨expansions, hexpansions, ?_, ?_, ?_⟩
  · intro path
    rw [List.mem_filter, Path.mem_firstOccurrences, IgnoreSet.keeps_eq_true, IgnoreSet.ignores,
      IgnoreSet.anySource_eq_false]
  · exact (Path.nodup_firstOccurrences _).filter _
  · exact (Path.pairwise_firstOccurrences _).filter _

/-- A discovery gives absolute paths of what the patterns expand to, those that no source ignores,
each once, where it occurs first. If every link can be looked at, they are canonical paths of files.
If names are given exactly, no two of them consist of the names on the way to one place. -/
theorem discovered_canonical {directory : Path} {set : IgnoreSet} {s t : Session}
    (hplain : directory.Plain) (h : find directory set patterns s = .ok found t) :
    ∃ canonical expansions, s.files.resolve directory = .ok canonical ∧
      List.Forall₂ (Expands (scopeIn s set canonical))
        patterns expansions ∧
      FirstOf (expansions.flatMap (·.paths))
        (fun path => ∀ source ∈ set,
          source.ignores ⟨processPath s.files, canonical⟩ path = .ok false) found.paths ∧
      (∀ path ∈ found.paths, path.isAbsolute = true) ∧
      (s.files.LinksShow → ∀ path ∈ found.paths, s.files.IsCanonicalFile path) ∧
      (GivenExactly s directory patterns →
        ∀ p ∈ found.paths, ∀ q ∈ found.paths, ∀ place,
          FileSystem.Spells p place → FileSystem.Spells q place → p = q) := by
  obtain ⟨canonical, hcanonical, hfound⟩ := find_eq_ok h
  obtain ⟨hcall, habsolute⟩ := FileSystem.plain_resolve hplain hcanonical
  obtain ⟨expansions, hexpansions, hfirst⟩ := firstOf_discover hfound
  have hplainCandidate : ∀ path ∈ found.paths, ∃ candidate, candidate.isAbsolute = true ∧
      candidate.Plain ∧ s.files.isFile candidate = .ok true ∧
        s.files.resolve candidate = .ok path := by
    intro path hpath
    exact exists_candidate hfound (fun _ => isComponent_of_isEntryName) ⟨habsolute, hcall⟩
      (fun text _ part hpart _ => Path.plain_ofText text part hpart) hpath
  refine ⟨canonical, expansions, hcanonical, hexpansions, hfirst, ?_, ?_, ?_⟩
  · intro path hpath
    obtain ⟨candidate, -, hcandidate, -, hresolve⟩ := hplainCandidate path hpath
    exact (FileSystem.plain_resolve hcandidate hresolve).2
  · intro hlinks path hpath
    obtain ⟨candidate, hroot, hcandidate, hfile, hresolve⟩ := hplainCandidate path hpath
    exact FileSystem.isCanonicalFile_of_resolve hlinks hcandidate hroot hfile hresolve
  · intro hexact p hp q hq place hplace hother
    have hpathExact := hexact.consists_found hplain hcanonical hfound
    rw [hplace.eq_absolute (hpathExact p hp), hother.eq_absolute (hpathExact q hq)]

theorem lists_of_discover {s : Session} {directory canonical : Path} {set : IgnoreSet}
    {paths : List Path} (hresolve : s.files.resolve directory = .ok canonical)
    (h : (discover (scopeIn s set canonical) s.host.finishing patterns).toOption.map (·.paths) =
      some paths) : Lists s directory set patterns paths := by
  cases hfound : discover (scopeIn s set canonical) s.host.finishing patterns with
  | error failure =>
      rw [hfound] at h
      cases h
  | ok found =>
      rw [hfound] at h
      exact lists_iff.2 ⟨canonical, found, hresolve, hfound, Option.some.inj h⟩

/-- A file whose name has a letter of two bytes. -/
def accentedSession : Session where
  files := ⟨[("é.js", .file [])], [], by decide +kernel⟩
  temporary := .absolute ["tmp"]
  stamp := "1"

/-- The name of that file, with each byte of the letter spelled on its own. -/
def bytewiseName : Text :=
  [.surrogate 0x4C3, .surrogate 0x4A9] ++ (".js" : Text)

/-- A file beside a directory that a link leads to whose own path is too long for the system. -/
def behindLongLink : Entries :=
  Manifest.deepEntries [(Manifest.longName 'b', .link "/d/sub")] 15 ++
    ([("d", .directory [("g.js", .file []), ("sub", .directory [])]),
      ("k", .link (Path.absolute (List.replicate 15 (Manifest.longName 'a'))).toText)] : Entries)

def behindLongLinkSession : Session where
  files := ⟨behindLongLink, [], by decide +kernel⟩
  temporary := .absolute ["tmp"]
  stamp := "1"

/-- A path through that link to the file. -/
def throughLongLink : Path :=
  ⟨.relative, ["k", Manifest.longName 'b', parentPart, "g.js"]⟩

/-- Two spellings of a name give one file twice. A path through a long link names a file, and the
canonical form of it names none. -/
theorem spellings_and_long_links :
    (∃ p q place, Lists accentedSession (.absolute []) [] [.text "*.js", .text bytewiseName]
        [p, q] ∧ p ≠ q ∧ FileSystem.Spells p place ∧ FileSystem.Spells q place) ∧
      ∃ path, Lists behindLongLinkSession (.absolute []) [] [.text throughLongLink.toText] [path] ∧
        behindLongLinkSession.files.isFile path = .ok false ∧
        ∀ place, FileSystem.Spells path place → behindLongLinkSession.files.find? place = none := by
  constructor
  · have hroot : accentedSession.files.resolve (.absolute []) = .ok (.absolute []) := by
      decide +kernel
    refine ⟨.absolute ["é.js"], .absolute [bytewiseName], ["é.js"], ?_, by decide, ?_, ?_⟩
    · exact lists_of_discover hroot (by decide +kernel)
    · exact ⟨rfl, by decide, List.forall_mem_singleton.2 rfl, by decide +kernel⟩
    · exact ⟨rfl, by decide, List.forall_mem_singleton.2 rfl, by decide +kernel⟩
  · have hroot : behindLongLinkSession.files.resolve (.absolute []) = .ok (.absolute []) := by
      decide +kernel
    refine ⟨.absolute (List.replicate 15 (Manifest.longName 'a') ++ [("g.js" : Text)]), ?_, ?_, ?_⟩
    · exact lists_of_discover hroot (by decide +kernel)
    · decide +kernel
    · rintro place ⟨-, -, -, rfl⟩
      exact Option.isNone_iff_eq_none.1 (by decide +kernel)

/-- Globs that reach one directory through a link, after a step into it and back, and by its own
name. -/
def crossingGlobs : List Pattern :=
  [.text "here/../here/*.json", .text "*.json", .text "sub/*.json"]

theorem givenExactly_crossingGlobs :
    GivenExactly Manifest.nestedProjects (.absolute []) crossingGlobs where
  directory := by
    intro part hpart
    cases hpart
  patterns := by
    have hparts : ∀ pattern ∈ crossingGlobs, ∀ text, pattern = .text text →
        ∀ part ∈ (Path.ofText text).parts, Glob.hasWildcard part = false →
          part.asName = part := by
      rw [crossingGlobs, List.forall_mem_cons, List.forall_mem_cons, List.forall_mem_singleton]
      refine ⟨?_, ?_, ?_⟩ <;> rintro _ ⟨⟩ <;> decide
    exact fun text htext => hparts _ htext text rfl
  targets := by
    intro place target htarget
    obtain ⟨-, rfl⟩ := Manifest.eq_of_link_nestedProjects htarget
    decide

/-- A source that ignores what lies in the outer directory, and nothing deeper. -/
def outerSource : Source :=
  ⟨"outer", [.text "/*.json"], false, some (.absolute [])⟩

set_option maxRecDepth 4000 in
/-- A file that the globs reach in three ways is given once, by the name of its directory. -/
theorem crossing_globs_discover :
    ∃ found t, find (.absolute []) [outerSource] crossingGlobs Manifest.nestedProjects =
        .ok found t ∧
      (Path.absolute []).Plain ∧ Manifest.nestedProjects.files.LinksShow ∧
      GivenExactly Manifest.nestedProjects (.absolute []) crossingGlobs ∧
      found.paths = [.absolute ["sub", "package.json"]] ∧
      Manifest.nestedProjects.files.IsCanonicalFile (.absolute ["sub", "package.json"]) ∧
      ∀ p ∈ found.paths, ∀ q ∈ found.paths, ∀ place,
        FileSystem.Spells p place → FileSystem.Spells q place → p = q := by
  have hfind : ∃ found t, find (.absolute []) [outerSource] crossingGlobs
      Manifest.nestedProjects = .ok found t ∧
        found.paths = [.absolute ["sub", "package.json"]] := ⟨_, _, rfl, rfl⟩
  obtain ⟨found, t, hfind, hpaths⟩ := hfind
  have hplain : (Path.absolute []).Plain := Path.plain_nil _
  obtain ⟨canonical, expansions, -, -, -, -, hcanonical, hunique⟩ :=
    discovered_canonical hplain hfind
  have hlinks := Manifest.linksShow_nestedProjects
  refine ⟨found, t, hfind, hplain, hlinks, givenExactly_crossingGlobs, hpaths, ?_,
    hunique givenExactly_crossingGlobs⟩
  exact hcanonical hlinks _ (by simp [hpaths])

end Discovery
end ProjectLint
