import ProjectLint.Proofs.Glob.Meaning
import ProjectLint.Proofs.Discovery.Found

/-!
Sources of ignore patterns act as a union. A path is ignored, and a directory pruned, if any source
says so. Main statement: the order of sources that can be read does not matter for what is found,
and another source, whatever it is, can only take files away.
-/

namespace ProjectLint

namespace IgnoreSet

variable {set others : IgnoreSet}

/-- Sources that can be read ignore and prune the same in any order. -/
theorem tests_eq_of_perm (hset : ∀ source ∈ set, source.Compiles) (hperm : set.Perm others)
    (viewpoint : Viewpoint) :
    others.ignores viewpoint = set.ignores viewpoint ∧
      others.ignoresWhileGlobbing viewpoint = set.ignoresWhileGlobbing viewpoint ∧
      others.prunes viewpoint = set.prunes viewpoint := by
  have hglobbing : ∀ source ∈ set.filter (·.whileGlobbing), source.Compiles :=
    fun source hmem => hset source (List.mem_filter.1 hmem).1
  refine ⟨funext fun path => ?_, funext fun path => ?_, funext fun path => ?_⟩
  · exact anySource_perm
      (fun source hmem => Source.exists_ignores (hset source hmem) viewpoint path) hperm
  · exact anySource_perm
      (fun source hmem => Source.exists_ignores (hglobbing source hmem) viewpoint path)
      (hperm.filter _)
  · exact anySource_perm
      (fun source hmem => Source.exists_ignoresFolder (hglobbing source hmem) viewpoint path)
      (hperm.filter _)

variable {fewer : IgnoreSet} {viewpoint : Viewpoint} {path : Path}

theorem ignores_of_sublist (h : fewer.Sublist set)
    (hpath : set.ignores viewpoint path = .ok false) : fewer.ignores viewpoint path = .ok false :=
  anySource_eq_false.2 fun source hmem => anySource_eq_false.1 hpath source (h.mem hmem)

theorem ignoresWhileGlobbing_of_sublist (h : fewer.Sublist set)
    (hpath : set.ignoresWhileGlobbing viewpoint path = .ok false) :
    fewer.ignoresWhileGlobbing viewpoint path = .ok false :=
  anySource_eq_false.2 fun source hmem =>
    anySource_eq_false.1 hpath source ((h.filter _).mem hmem)

theorem prunes_of_sublist (h : fewer.Sublist set)
    (hpath : set.prunes viewpoint path = .ok false) : fewer.prunes viewpoint path = .ok false :=
  anySource_eq_false.2 fun source hmem =>
    anySource_eq_false.1 hpath source ((h.filter _).mem hmem)

theorem keep_congr (h : others.ignores viewpoint = set.ignores viewpoint) (paths : List Path) :
    others.keep viewpoint paths = set.keep viewpoint paths := by
  induction paths with
  | nil => rfl
  | cons path paths ih => rw [keep, keep, h, ih]

end IgnoreSet

namespace Glob

variable {scope other : Scope}

/-- Steps look at the files only, and at what cannot be read. -/
theorem steps_congr (hfiles : other.files = scope.files)
    (hunreadable : other.unreadable = scope.unreadable) (pruned : Pruning) (final : Bool)
    (segments : List Text) (starts : List Path) :
    steps other pruned final segments starts = steps scope pruned final segments starts := by
  have hfrom : ∀ segment last start,
      stepFrom other pruned segment last start = stepFrom scope pruned segment last start := by
    intro segment last start
    rw [stepFrom, stepFrom, hfiles, hunreadable]
  have hstep : ∀ segment last starts,
      step other pruned segment last starts = step scope pruned segment last starts := by
    intro segment last starts
    induction starts with
    | nil => rfl
    | cons start starts ih => rw [step, step, hfrom, ih]
  induction segments generalizing starts with
  | nil => rfl
  | cons segment segments ih => simp only [steps, hstep, ih]

variable {files : FileSystem} {set others fewer : IgnoreSet} {viewpoint : Viewpoint}
  {unreadable : Option Text}

theorem expand_congr
    (hignores : others.ignoresWhileGlobbing viewpoint = set.ignoresWhileGlobbing viewpoint)
    (hprunes : others.prunes viewpoint = set.prunes viewpoint) (glob : Path) :
    expand ⟨files, others, viewpoint, unreadable⟩ glob =
      expand ⟨files, set, viewpoint, unreadable⟩ glob := by
  have hkeep : ∀ paths, keepFiles ⟨files, others, viewpoint, unreadable⟩ paths =
      keepFiles ⟨files, set, viewpoint, unreadable⟩ paths := by
    intro paths
    induction paths with
    | nil => rfl
    | cons path paths ih => simp only [keepFiles, hignores, ih]
  have hsteps : ∀ starts, steps ⟨files, others, viewpoint, unreadable⟩ (set.prunes viewpoint) true
      glob.parts starts = steps ⟨files, set, viewpoint, unreadable⟩ (set.prunes viewpoint) true
        glob.parts starts :=
    @steps_congr ⟨files, set, viewpoint, unreadable⟩ ⟨files, others, viewpoint, unreadable⟩ rfl rfl
      _ _ _
  simp only [expand, expandPruning, hprunes, hsteps, hkeep]
  rfl

theorem Descent.mono {fs : FileSystem} {enters wider : Path → Prop}
    (h : ∀ p, enters p → wider p) {p q : Path} (hdescent : Descent fs enters p q) :
    Descent fs wider p q := by
  induction hdescent with
  | here hlist => exact .here hlist
  | child _ hentries hmem hhidden henters hlist ih =>
      exact .child ih hentries hmem hhidden (h _ henters) hlist

theorem Leads.mono {fs : FileSystem} {enters wider : Path → Prop}
    (h : ∀ p, enters p → wider p) {last : Bool} {segment : Text} {p q : Path}
    (hleads : Leads fs enters last segment p q) : Leads fs wider last segment p q := by
  cases hleads with
  | listed hne hwild hentries hmem hmatch => exact .listed hne hwild hentries hmem hmatch
  | spelled hwild hentry => exact .spelled hwild hentry
  | directory hdescent => exact .directory (hdescent.mono h)
  | file hdescent hentries hmem hfile hhidden =>
      exact .file (hdescent.mono h) hentries hmem hfile hhidden

theorem Follows.mono {fs : FileSystem} {enters wider : Path → Prop}
    (h : ∀ p, enters p → wider p) {final : Bool} {segments : List Text} {p q : Path}
    (hfollows : Follows fs enters final segments p q) : Follows fs wider final segments p q := by
  induction segments generalizing p with
  | nil => exact hfollows
  | cons segment segments ih =>
      obtain ⟨middle, hleads, hrest⟩ := hfollows
      exact ⟨middle, hleads.mono h, ih hrest⟩

/-- What a glob finds with some sources it finds with fewer of them. -/
theorem mem_expand_of_sublist (hfewer : fewer.Sublist set) {glob path : Path}
    {found wider : Reached} (hfound : expand ⟨files, set, viewpoint, unreadable⟩ glob = .ok found)
    (hwider : expand ⟨files, fewer, viewpoint, unreadable⟩ glob = .ok wider)
    (hmem : path ∈ found.paths) : path ∈ wider.paths := by
  obtain ⟨reached, kept, hreached, hkept, rfl⟩ := expandPruning_eq_ok.1 hfound
  obtain ⟨others, more, hothers, hmore, rfl⟩ := expandPruning_eq_ok.1 hwider
  obtain ⟨candidate, hcandidate, hfile, hignored, hresolve⟩ := (mem_keepFiles hkept).1 hmem
  obtain ⟨start, hstart, hfollows⟩ := (mem_steps hreached).1 hcandidate
  have hentered : Follows files (Pruning.enters (fewer.prunes viewpoint)) true glob.parts start
      candidate := hfollows.mono fun p hp => IgnoreSet.prunes_of_sublist hfewer hp
  have hcandidate := (mem_steps hothers).2 ⟨start, hstart, hentered⟩
  exact (mem_keepFiles hmore).2 ⟨candidate, hcandidate, hfile,
    IgnoreSet.ignoresWhileGlobbing_of_sublist hfewer hignored, hresolve⟩

end Glob

namespace Discovery

variable {files : FileSystem} {set others fewer : IgnoreSet} {viewpoint : Viewpoint}
  {unreadable : Option Text} {finishing : List Nat}

/-- What is discovered does not depend on the order of sources that can be read. -/
theorem discover_perm (hset : ∀ source ∈ set, source.Compiles) (hperm : set.Perm others)
    (finishing : List Nat) (patterns : List Pattern) :
    discover ⟨files, others, viewpoint, unreadable⟩ finishing patterns =
      discover ⟨files, set, viewpoint, unreadable⟩ finishing patterns := by
  obtain ⟨hignores, hglobbing, hprunes⟩ := IgnoreSet.tests_eq_of_perm hset hperm viewpoint
  have hone : expandOne ⟨files, others, viewpoint, unreadable⟩ =
      expandOne ⟨files, set, viewpoint, unreadable⟩ := by
    funext pattern
    cases pattern with
    | other value => rfl
    | text text => rw [expandOne, expandOne, Glob.expand_congr hglobbing hprunes]
  simp only [discover, expandAll, hone, IgnoreSet.keep_congr hignores]

theorem mem_expandAll_of_sublist (hfewer : fewer.Sublist set) {patterns : List Pattern}
    {found wider : Glob.Reached} {path : Path}
    (hfound : expandAll ⟨files, set, viewpoint, unreadable⟩ finishing patterns = .ok found)
    (hwider : expandAll ⟨files, fewer, viewpoint, unreadable⟩ finishing patterns = .ok wider)
    (hmem : path ∈ found.paths) : path ∈ wider.paths := by
  obtain ⟨pattern, hpattern, first, ⟨text, rfl, hfirst⟩, hpath⟩ := (mem_expandAll hfound).1 hmem
  obtain ⟨other, hexpands⟩ := exists_expandAll.1 ⟨wider, hwider⟩ _ hpattern
  obtain ⟨_, htext, hother⟩ := id hexpands
  cases htext
  exact (mem_expandAll hwider).2 ⟨_, hpattern, other, hexpands,
    Glob.mem_expand_of_sublist hfewer hfirst hother hpath⟩

theorem mem_discover_of_sublist (hfewer : fewer.Sublist set) {patterns : List Pattern}
    {found wider : Glob.Reached} {path : Path}
    (hfound : discover ⟨files, set, viewpoint, unreadable⟩ finishing patterns = .ok found)
    (hwider : discover ⟨files, fewer, viewpoint, unreadable⟩ finishing patterns = .ok wider)
    (hmem : path ∈ found.paths) : path ∈ wider.paths := by
  obtain ⟨reached, kept, hreached, hkept, rfl⟩ := discover_eq_ok.1 hfound
  obtain ⟨others, more, hothers, hmore, rfl⟩ := discover_eq_ok.1 hwider
  obtain ⟨hpath, hignored⟩ := (IgnoreSet.mem_keep hkept).1 hmem
  have hwiderPath := mem_expandAll_of_sublist hfewer hreached hothers
    (Path.mem_firstOccurrences.1 hpath)
  exact (IgnoreSet.mem_keep hmore).2
    ⟨Path.mem_firstOccurrences.2 hwiderPath, IgnoreSet.ignores_of_sublist hfewer hignored⟩

/-- The order of sources that can be read does not matter for what is found, and another source can
only take files away. -/
theorem sources_unite :
    (∀ (set others : IgnoreSet) (directory : Path) (patterns : List Pattern),
      (∀ source ∈ set, source.Compiles) → set.Perm others →
        find directory others patterns = find directory set patterns) ∧
    ∀ (before after : IgnoreSet) (source : Source) (directory : Path) (patterns : List Pattern)
      (s t u : Session) (found wider : Glob.Reached),
      find directory (before ++ source :: after) patterns s = .ok found t →
        find directory (before ++ after) patterns s = .ok wider u →
          ∀ path ∈ found.paths, path ∈ wider.paths := by
  constructor
  · intro set others directory patterns hset hperm
    simp only [find, discover_perm hset hperm]
  · intro before after source directory patterns s t u found wider hfound hwider path hmem
    obtain ⟨canonical, hcanonical, hfound⟩ := find_eq_ok hfound
    obtain ⟨other, hother, hwider⟩ := find_eq_ok hwider
    rw [hcanonical, Except.ok.injEq] at hother
    subst hother
    have hfewer : (before ++ after).Sublist (before ++ source :: after) :=
      (List.Sublist.refl before).append (List.sublist_cons_self source after)
    exact mem_discover_of_sublist hfewer hfound hwider hmem

/-- A generated directory, a file that is taken back and another file. -/
def besideGenerated : Entries :=
  [("a.js", .file []), ("b.js", .file []), ("dist", .directory [("d.js", .file [])])]

theorem wellFormed_besideGenerated : Node.entriesWellFormed besideGenerated = true := by
  rfl

/-- A session in which that is all there is. -/
def besideGeneratedSession : Session where
  files := ⟨besideGenerated, [], wellFormed_besideGenerated⟩
  temporary := .absolute ["tmp"]
  stamp := "1"

/-- A source that counts already while globs are expanded. -/
def generatedSource : Source :=
  ⟨"generated", [.text "dist/**"], true, none⟩

/-- A source with a negated line, which takes back nothing of another source. -/
def lateSource : Source :=
  ⟨"late", [.text "b.js", .text "!dist/d.js"], false, some (.absolute [])⟩

theorem compiles_generatedSource : generatedSource.Compiles := by
  intro pattern hpattern
  rw [List.mem_singleton.1 hpattern]
  exact ⟨_, _, rfl, rfl⟩

theorem compiles_lateSource : lateSource.Compiles := by
  intro pattern hpattern
  rcases List.mem_cons.1 hpattern with rfl | hpattern
  · exact ⟨_, _, rfl, rfl⟩
  · rw [List.mem_singleton.1 hpattern]
    exact ⟨_, _, rfl, rfl⟩

set_option maxRecDepth 4000 in
theorem generated_unites :
    (∀ source ∈ [generatedSource, lateSource], source.Compiles) ∧
      find (.absolute []) [lateSource, generatedSource] [.text "**/*.js"] =
        find (.absolute []) [generatedSource, lateSource] [.text "**/*.js"] ∧
      ∃ (found wider : Glob.Reached) (t u : Session),
        find (.absolute []) [generatedSource, lateSource] [.text "**/*.js"]
            besideGeneratedSession = .ok found t ∧
          find (.absolute []) [generatedSource] [.text "**/*.js"] besideGeneratedSession =
              .ok wider u ∧
            found.paths = [.absolute ["a.js"]] ∧
              wider.paths = [.absolute ["a.js"], .absolute ["b.js"]] ∧
                ∀ path ∈ found.paths, path ∈ wider.paths := by
  have hcompile : ∀ source ∈ [generatedSource, lateSource], source.Compiles := by
    intro source hmem
    rcases List.mem_cons.1 hmem with rfl | hmem
    · exact compiles_generatedSource
    · rw [List.mem_singleton.1 hmem]
      exact compiles_lateSource
  have hfound : ∃ found t, find (.absolute []) [generatedSource, lateSource] [.text "**/*.js"]
      besideGeneratedSession = .ok found t ∧ found.paths = [.absolute ["a.js"]] := ⟨_, _, rfl, rfl⟩
  have hwider : ∃ wider u, find (.absolute []) [generatedSource] [.text "**/*.js"]
      besideGeneratedSession = .ok wider u ∧
        wider.paths = [.absolute ["a.js"], .absolute ["b.js"]] := ⟨_, _, rfl, rfl⟩
  obtain ⟨found, t, hfound, hpaths⟩ := hfound
  obtain ⟨wider, u, hwider, hmore⟩ := hwider
  exact ⟨hcompile, sources_unite.1 _ _ _ _ hcompile (List.Perm.swap _ _ _), found, wider, t, u,
    hfound, hwider, hpaths, hmore,
    sources_unite.2 [generatedSource] [] lateSource _ _ _ _ _ _ _ hfound hwider⟩

end Discovery

end ProjectLint
