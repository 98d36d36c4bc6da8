import ProjectLint.Proofs.Discovery.Found
import ProjectLint.Proofs.Path.Distinct

/-!
Discovery with several lists of patterns. Of what the patterns find, the first occurrences are taken
and then those that no source ignores; the two can be exchanged. Main statement: a list of patterns
with another one after it lists what the first one lists, and then what the other one lists and the
first one does not.
-/

namespace ProjectLint.Discovery

variable {scope : Glob.Scope} {finishing : List Nat} {found : Glob.Reached}
  {patterns others : List Pattern}

/-- The kept first occurrences in two lists are those in the first one and the new ones of those in
the second one. -/
theorem filter_firstOccurrences_append (keep : Path → Bool) (paths more : List Path) :
    (Path.firstOccurrences (paths ++ more)).filter keep =
      (Path.firstOccurrences paths).filter keep ++
        ((Path.firstOccurrences more).filter keep).filter
          (· ∉ (Path.firstOccurrences paths).filter keep) := by
  rw [Path.firstOccurrences_append, List.filter_append, List.filter_filter, List.filter_filter]
  congr 1
  refine List.filter_congr fun path _ => ?_
  cases hkeep : keep path <;> simp [hkeep, Path.mem_firstOccurrences]

theorem discover_append_eq_ok :
    discover scope finishing (patterns ++ others) = .ok found ↔
      ∃ first second, discover scope finishing patterns = .ok first ∧
        discover scope finishing others = .ok second ∧
        found = ⟨first.paths ++ second.paths.filter (· ∉ first.paths),
          first.walked ++ second.walked⟩ := by
  simp only [discover_eq_ok, expandAll_append_eq_ok, IgnoreSet.keep_eq_ok,
    Path.mem_firstOccurrences]
  constructor
  · rintro ⟨_, _, ⟨first, second, hfirst, hsecond, rfl⟩, ⟨hanswers, rfl⟩, rfl⟩
    obtain ⟨hpaths, hmore⟩ := List.forall_mem_append.1 hanswers
    refine ⟨_, _, ⟨first, _, hfirst, ⟨hpaths, rfl⟩, rfl⟩,
      ⟨second, _, hsecond, ⟨hmore, rfl⟩, rfl⟩, ?_⟩
    rw [Glob.Reached.append, filter_firstOccurrences_append]
  · rintro ⟨_, _, ⟨first, _, hfirst, ⟨hpaths, rfl⟩, rfl⟩,
      ⟨second, _, hsecond, ⟨hmore, rfl⟩, rfl⟩, rfl⟩
    refine ⟨_, _, ⟨first, second, hfirst, hsecond, rfl⟩,
      ⟨List.forall_mem_append.2 ⟨hpaths, hmore⟩, rfl⟩, ?_⟩
    rw [Glob.Reached.append, filter_firstOccurrences_append]

/-- Patterns that are all among others discover nothing but what these do. -/
theorem exists_discover_of_subset {first : Glob.Reached} (hsubset : others ⊆ patterns)
    (h : discover scope finishing patterns = .ok first) :
    ∃ second, discover scope finishing others = .ok second ∧ second.paths ⊆ first.paths := by
  obtain ⟨reached, kept, hreached, hkept, rfl⟩ := discover_eq_ok.1 h
  have hexpands := exists_expandAll.1 ⟨reached, hreached⟩
  obtain ⟨more, hmore⟩ := exists_expandAll.2 fun pattern hmem => hexpands pattern (hsubset hmem)
  have hpaths : ∀ path ∈ more.paths, path ∈ reached.paths := by
    intro path hpath
    obtain ⟨pattern, hmem, hpattern⟩ := (mem_expandAll hmore).1 hpath
    exact (mem_expandAll hreached).2 ⟨pattern, hsubset hmem, hpattern⟩
  obtain ⟨hanswers, -⟩ := IgnoreSet.keep_eq_ok.1 hkept
  have hkeep := IgnoreSet.keep_eq_ok.2 ⟨fun path hpath => hanswers path
    (Path.mem_firstOccurrences.2 (hpaths path (Path.mem_firstOccurrences.1 hpath))), rfl⟩
  refine ⟨_, discover_eq_ok.2 ⟨more, _, hmore, hkeep, rfl⟩, fun path hpath => ?_⟩
  obtain ⟨hmem, hignored⟩ := (IgnoreSet.mem_keep hkeep).1 hpath
  exact (IgnoreSet.mem_keep hkept).2
    ⟨Path.mem_firstOccurrences.2 (hpaths path (Path.mem_firstOccurrences.1 hmem)), hignored⟩

/-- What a discovery from a directory lists in a session. -/
def Lists (s : Session) (directory : Path) (set : IgnoreSet) (patterns : List Pattern)
    (paths : List Path) : Prop :=
  ∃ found t, find directory set patterns s = .ok found t ∧ found.paths = paths

variable {s : Session} {directory : Path} {set : IgnoreSet} {paths first second : List Path}

theorem lists_iff : Lists s directory set patterns paths ↔
    ∃ canonical found, s.files.resolve directory = .ok canonical ∧
      discover (scopeIn s set canonical) s.host.finishing
        patterns = .ok found ∧ found.paths = paths := by
  constructor
  · rintro ⟨found, t, hfind, hpaths⟩
    obtain ⟨canonical, hresolve, hfound⟩ := find_eq_ok hfind
    exact ⟨canonical, found, hresolve, hfound, hpaths⟩
  · rintro ⟨canonical, found, hresolve, hfound, hpaths⟩
    obtain ⟨t, hfind⟩ := exists_find_eq_ok.2 ⟨canonical, hresolve, hfound⟩
    exact ⟨found, t, hfind, hpaths⟩

theorem lists_append : Lists s directory set (patterns ++ others) paths ↔
    ∃ first second, Lists s directory set patterns first ∧ Lists s directory set others second ∧
      paths = first ++ second.filter (· ∉ first) := by
  simp only [lists_iff, discover_append_eq_ok]
  constructor
  · rintro ⟨canonical, _, hresolve, ⟨first, second, hfirst, hsecond, rfl⟩, rfl⟩
    exact ⟨_, _, ⟨canonical, first, hresolve, hfirst, rfl⟩,
      ⟨canonical, second, hresolve, hsecond, rfl⟩, rfl⟩
  · rintro ⟨_, _, ⟨canonical, first, hresolve, hfirst, rfl⟩, ⟨other, second, hother, hsecond, rfl⟩,
      rfl⟩
    rw [hresolve, Except.ok.injEq] at hother
    subst hother
    exact ⟨canonical, _, hresolve, ⟨first, second, hfirst, hsecond, rfl⟩, rfl⟩

theorem Lists.append (hfirst : Lists s directory set patterns first)
    (hsecond : Lists s directory set others second) (hsubset : second ⊆ first) :
    Lists s directory set (patterns ++ others) first := by
  refine lists_append.2 ⟨first, second, hfirst, hsecond, ?_⟩
  rw [List.filter_eq_nil_iff.2 fun path hpath => by simpa using hsubset hpath, List.append_nil]

theorem lists_append_of_subset (hsubset : others ⊆ patterns) :
    Lists s directory set (patterns ++ others) paths ↔ Lists s directory set patterns paths := by
  have hrepeated : ∀ {first}, Lists s directory set patterns first →
      Lists s directory set (patterns ++ others) first := by
    intro first hfirst
    obtain ⟨canonical, found, hresolve, hfound, rfl⟩ := lists_iff.1 hfirst
    obtain ⟨second, hsecond, hpaths⟩ := exists_discover_of_subset hsubset hfound
    exact hfirst.append (lists_iff.2 ⟨canonical, second, hresolve, hsecond, rfl⟩) hpaths
  refine ⟨fun h => ?_, hrepeated⟩
  obtain ⟨first, second, hfirst, -, -⟩ := lists_append.1 h
  obtain ⟨found, t, hfound, rfl⟩ := h
  obtain ⟨again, u, hagain, rfl⟩ := hrepeated hfirst
  rw [hfound, EStateM.Result.ok.injEq] at hagain
  rwa [hagain.1]

/-- Discovery distributes over lists of patterns: it fails if it fails for one of them, and else
lists what it lists for the first one and then what is new in the second one. So patterns that come
again change nothing, and neither do patterns that list nothing new. -/
theorem discovery_distributes (s : Session) (directory : Path) (set : IgnoreSet)
    (patterns others : List Pattern) :
    (∀ paths, Lists s directory set (patterns ++ others) paths ↔
      ∃ first second, Lists s directory set patterns first ∧
        Lists s directory set others second ∧ paths = first ++ second.filter (· ∉ first)) ∧
    (∀ first second, Lists s directory set patterns first → Lists s directory set others second →
      second ⊆ first → Lists s directory set (patterns ++ others) first) ∧
    ∀ repeated paths, repeated ⊆ patterns →
      (Lists s directory set (patterns ++ repeated ++ others) paths ↔
        Lists s directory set (patterns ++ others) paths) := by
  refine ⟨fun paths => lists_append, fun first second hfirst hsecond => hfirst.append hsecond, ?_⟩
  intro repeated paths hrepeated
  rw [lists_append, lists_append]
  simp only [lists_append_of_subset hrepeated]

/-- Two files, and a link to the first one of them. -/
def linkedModules : Entries :=
  [("a.js", .file []), ("b.js", .file []), ("c.js", .link "a.js")]

theorem wellFormed_linkedModules : Node.entriesWellFormed linkedModules = true := by
  rfl

def linkedModulesSession : Session where
  files := ⟨linkedModules, [], wellFormed_linkedModules⟩
  temporary := .absolute ["tmp"]
  stamp := "1"

set_option maxRecDepth 4000 in
/-- A link to a file that is listed already adds nothing, and neither does a link that comes
again. -/
theorem linked_distributes :
    Lists linkedModulesSession (.absolute []) [] ([.text "*.js"] ++ [.text "c.js"])
        [.absolute ["a.js"], .absolute ["b.js"]] ∧
      Lists linkedModulesSession (.absolute []) []
        ([.text "c.js"] ++ [.text "c.js"] ++ [.text "b.js"])
        [.absolute ["a.js"], .absolute ["b.js"]] := by
  have hall : Lists linkedModulesSession (.absolute []) [] [.text "*.js"]
      [.absolute ["a.js"], .absolute ["b.js"]] := ⟨_, _, rfl, rfl⟩
  have hlink : Lists linkedModulesSession (.absolute []) [] [.text "c.js"]
      [.absolute ["a.js"]] := ⟨_, _, rfl, rfl⟩
  have hboth : Lists linkedModulesSession (.absolute []) [] ([.text "c.js"] ++ [.text "b.js"])
      [.absolute ["a.js"], .absolute ["b.js"]] := ⟨_, _, rfl, rfl⟩
  obtain ⟨-, hadd, -⟩ :=
    discovery_distributes linkedModulesSession (.absolute []) [] [.text "*.js"] [.text "c.js"]
  obtain ⟨-, -, hrepeat⟩ :=
    discovery_distributes linkedModulesSession (.absolute []) [] [.text "c.js"] [.text "b.js"]
  exact ⟨hadd _ _ hall hlink (by simp), (hrepeat [.text "c.js"] _ (by simp)).2 hboth⟩

end ProjectLint.Discovery
