import Mathlib.Data.List.Forall2
import ProjectLint.Lint
import ProjectLint.Proofs.Action
import ProjectLint.Proofs.Glob.Reach

/-!
What it takes for a discovery to end well: each pattern is expanded, and then each path that was
found is asked about. Main statements: how a list of patterns, or of paths to ask about, that is not
empty comes down to its first one and the rest; and whatever is found is the canonical form of a file
that no source ignores. Looking for files shows nothing outside.
-/

namespace ProjectLint

open ProjectLint.Action

namespace IgnoreSet

variable {set : IgnoreSet} {viewpoint : Viewpoint} {path : Path} {paths kept : List Path}

theorem keep_cons_eq_ok : set.keep viewpoint (path :: paths) = .ok kept ↔
    ∃ ignored others, set.ignores viewpoint path = .ok ignored ∧
      set.keep viewpoint paths = .ok others ∧
        kept = if ignored then others else path :: others := by
  rw [keep]
  cases set.ignores viewpoint path with
  | error failure => simp
  | ok ignored => cases set.keep viewpoint paths <;> simp [eq_comm]

/-- Whether a path is one that no source ignores. -/
def keeps (set : IgnoreSet) (viewpoint : Viewpoint) (path : Path) : Bool :=
  match set.ignores viewpoint path with
  | .ok ignored => !ignored
  | .error _ => false

/-- The paths are kept that no source ignores, as long as the sources answer for all of them. -/
theorem keep_eq_ok : set.keep viewpoint paths = .ok kept ↔
    (∀ path ∈ paths, ∃ ignored, set.ignores viewpoint path = .ok ignored) ∧
      kept = paths.filter (set.keeps viewpoint) := by
  induction paths generalizing kept with
  | nil => simp [keep, eq_comm]
  | cons path paths ih =>
      rw [keep_cons_eq_ok, List.forall_mem_cons]
      constructor
      · rintro ⟨ignored, others, hpath, hrest, rfl⟩
        obtain ⟨hothers, rfl⟩ := ih.1 hrest
        have hkeeps : set.keeps viewpoint path = !ignored := by rw [keeps, hpath]
        refine ⟨⟨⟨ignored, hpath⟩, hothers⟩, ?_⟩
        cases ignored <;> simp [hkeeps]
      · rintro ⟨⟨⟨ignored, hpath⟩, hothers⟩, rfl⟩
        have hkeeps : set.keeps viewpoint path = !ignored := by rw [keeps, hpath]
        refine ⟨ignored, _, hpath, ih.2 ⟨hothers, rfl⟩, ?_⟩
        cases ignored <;> simp [hkeeps]

theorem keeps_eq_true :
    set.keeps viewpoint path = true ↔ set.ignores viewpoint path = .ok false := by
  rw [keeps]
  cases set.ignores viewpoint path <;> simp

theorem mem_keep (h : set.keep viewpoint paths = .ok kept) :
    path ∈ kept ↔ path ∈ paths ∧ set.ignores viewpoint path = .ok false := by
  obtain ⟨-, rfl⟩ := keep_eq_ok.1 h
  rw [List.mem_filter, keeps_eq_true]

end IgnoreSet

namespace Discovery

variable {scope : Glob.Scope} {finishing : List Nat} {patterns others : List Pattern}
  {found : Glob.Reached} {failure : Failure} {path : Path}

section Searches

variable {results : List (Except Failure Glob.Reached)}

/-- Searches find something together if all of them succeed. -/
theorem gather_eq_ok : gather results = .ok found ↔
    ∃ expansions : List Glob.Reached, results = expansions.map .ok ∧
      found = ⟨expansions.flatMap (·.paths), expansions.flatMap (·.walked)⟩ := by
  induction results generalizing found with
  | nil => simp [gather, eq_comm]
  | cons result results ih =>
      constructor
      · intro h
        cases result with
        | error failure => cases h
        | ok first =>
            rw [gather] at h
            cases hrest : gather results with
            | error failure => simp [hrest] at h
            | ok rest =>
                obtain ⟨expansions, rfl, rfl⟩ := ih.1 hrest
                simp only [hrest, Except.ok.injEq] at h
                exact ⟨first :: expansions, rfl, h.symm⟩
      · rintro ⟨_ | ⟨first, expansions⟩, hresults, rfl⟩
        · cases hresults
        · obtain ⟨rfl, hrest⟩ := List.cons.inj hresults
          rw [gather, ih.2 ⟨expansions, hrest, rfl⟩]
          rfl

theorem mem_of_gather_eq_error (h : gather results = .error failure) :
    Except.error failure ∈ results := by
  induction results with
  | nil => cases h
  | cons result results ih =>
      rw [gather.eq_def] at h
      cases result with
      | error other =>
          cases h
          exact List.mem_cons_self
      | ok first =>
          cases hrest : gather results with
          | error other =>
              simp only [hrest] at h
              cases h
              exact List.mem_cons_of_mem _ (ih hrest)
          | ok rest => simp [hrest] at h

theorem mem_of_failureAt? {places : List Nat} (h : failureAt? results places = some failure) :
    Except.error failure ∈ results := by
  obtain ⟨place, -, hplace⟩ := List.exists_of_findSome?_eq_some h
  split at hplace
  · rename_i other hresult
    cases hplace
    exact List.mem_of_getElem? hresult
  · cases hplace

end Searches

/-- What a pattern expands to. -/
def Expands (scope : Glob.Scope) (pattern : Pattern) (found : Glob.Reached) : Prop :=
  ∃ text, pattern = .text text ∧ Glob.expand scope (.ofText text) = .ok found

theorem expandOne_eq_ok {pattern : Pattern} :
    expandOne scope pattern = .ok found ↔ Expands scope pattern found := by
  cases pattern <;> simp [expandOne, Expands]

theorem expandAll_eq_ok : expandAll scope finishing patterns = .ok found ↔
    ∃ expansions, List.Forall₂ (Expands scope) patterns expansions ∧
      found = ⟨expansions.flatMap (·.paths), expansions.flatMap (·.walked)⟩ := by
  have hgather : expandAll scope finishing patterns = .ok found ↔
      gather (patterns.map (expandOne scope)) = .ok found := by
    rw [expandAll]
    cases gather (patterns.map (expandOne scope)) <;> simp
  have hall : ∀ expansions, patterns.map (expandOne scope) = expansions.map .ok ↔
      List.Forall₂ (Expands scope) patterns expansions := by
    intro expansions
    rw [← List.forall₂_eq_eq_eq, List.forall₂_map_left_iff, List.forall₂_map_right_iff]
    simp only [expandOne_eq_ok]
  simp only [hgather, gather_eq_ok, hall]

/-- The failure of a whole is that of one of the patterns, whichever search ends first. -/
theorem of_expandAll_eq_error (h : expandAll scope finishing patterns = .error failure) :
    ∃ pattern ∈ patterns, expandOne scope pattern = .error failure := by
  rw [expandAll] at h
  refine List.mem_map.1 ?_
  cases hgather : gather (patterns.map (expandOne scope)) with
  | ok reached => simp [hgather] at h
  | error first =>
      simp only [hgather, Except.error.injEq] at h
      cases hearlier : failureAt? (patterns.map (expandOne scope)) finishing with
      | none =>
          rw [hearlier, Option.getD_none] at h
          exact h ▸ mem_of_gather_eq_error hgather
      | some earlier =>
          rw [hearlier, Option.getD_some] at h
          exact h ▸ mem_of_failureAt? hearlier

theorem exists_expandAll :
    (∃ found, expandAll scope finishing patterns = .ok found) ↔
      ∀ pattern ∈ patterns, ∃ found, Expands scope pattern found := by
  constructor
  · rintro ⟨found, h⟩
    obtain ⟨expansions, hexpansions, -⟩ := expandAll_eq_ok.1 h
    clear h
    induction hexpansions with
    | nil => simp
    | cons hfirst _ ih => exact List.forall_mem_cons.2 ⟨⟨_, hfirst⟩, ih⟩
  · intro hexpands
    cases h : expandAll scope finishing patterns with
    | ok found => exact ⟨found, rfl⟩
    | error failure =>
        obtain ⟨pattern, hmem, hfails⟩ := of_expandAll_eq_error h
        obtain ⟨found, hfound⟩ := hexpands pattern hmem
        cases hfails.symm.trans (expandOne_eq_ok.2 hfound)

theorem expandAll_append_eq_ok :
    expandAll scope finishing (patterns ++ others) = .ok found ↔
      ∃ first second, expandAll scope finishing patterns = .ok first ∧
        expandAll scope finishing others = .ok second ∧ found = first.append second := by
  simp only [expandAll_eq_ok]
  constructor
  · rintro ⟨expansions, hall, rfl⟩
    have hlength := hall.length_eq
    refine ⟨_, _, ⟨_, List.forall₂_take_append _ _ _ hall.flip |>.flip, rfl⟩,
      ⟨_, List.forall₂_drop_append _ _ _ hall.flip |>.flip, rfl⟩, ?_⟩
    rw [Glob.Reached.append, ← List.flatMap_append, ← List.flatMap_append, List.take_append_drop]
  · rintro ⟨_, _, ⟨first, hfirst, rfl⟩, ⟨second, hsecond, rfl⟩, rfl⟩
    exact ⟨first ++ second, List.rel_append hfirst hsecond,
      by simp only [Glob.Reached.append, List.flatMap_append]⟩

/-- Several patterns find what any of them finds. -/
theorem mem_expandAll (h : expandAll scope finishing patterns = .ok found) :
    path ∈ found.paths ↔
      ∃ pattern ∈ patterns, ∃ first, Expands scope pattern first ∧ path ∈ first.paths := by
  obtain ⟨expansions, hexpansions, rfl⟩ := expandAll_eq_ok.1 h
  clear h
  induction hexpansions with
  | nil => simp
  | @cons pattern first patterns expansions hfirst _ ih =>
      have hexpands : ∀ other, Expands scope pattern other ↔ other = first := by
        intro other
        rw [← expandOne_eq_ok, expandOne_eq_ok.2 hfirst, Except.ok.injEq, eq_comm]
      simp [ih, hexpands]

theorem exists_expand_of_mem_expandAll (h : expandAll scope finishing patterns = .ok found)
    (hmem : path ∈ found.paths) :
    ∃ text first, Glob.expand scope (.ofText text) = .ok first ∧ path ∈ first.paths := by
  obtain ⟨_, -, first, ⟨text, -, hfirst⟩, hpath⟩ := (mem_expandAll h).1 hmem
  exact ⟨text, first, hfirst, hpath⟩

theorem discover_eq_ok : discover scope finishing patterns = .ok found ↔
    ∃ reached files, expandAll scope finishing patterns = .ok reached ∧
      scope.ignored.keep scope.viewpoint (Path.firstOccurrences reached.paths) = .ok files ∧
        found = ⟨files, reached.walked⟩ := by
  rw [discover]
  cases expandAll scope finishing patterns with
  | error failure => simp
  | ok reached =>
      cases hkeep : scope.ignored.keep scope.viewpoint (Path.firstOccurrences reached.paths) <;>
        simp [hkeep, eq_comm (a := found)]

/-- Whether the search for one of some patterns fails for a reason. -/
def Fails (scope : Glob.Scope) (patterns : List Pattern) (failure : Failure) : Prop :=
  ∃ pattern ∈ patterns, expandOne scope pattern = .error failure

/-- What is found does not depend on the order in which the searches end. That order only decides
which of the searches that fail gives the failure. -/
theorem discover_of_other (scope : Glob.Scope) (finishing other : List Nat)
    (patterns : List Pattern) :
    discover scope other patterns = discover scope finishing patterns ∨
      ∃ first second, discover scope finishing patterns = .error first ∧
        discover scope other patterns = .error second ∧ Fails scope patterns first ∧
          Fails scope patterns second := by
  cases hfirst : expandAll scope finishing patterns with
  | ok reached =>
      have hsecond : expandAll scope other patterns = .ok reached :=
        expandAll_eq_ok.2 (expandAll_eq_ok.1 hfirst)
      exact Or.inl (by rw [discover, discover, hfirst, hsecond])
  | error first =>
      cases hsecond : expandAll scope other patterns with
      | ok reached => cases hfirst.symm.trans (expandAll_eq_ok.2 (expandAll_eq_ok.1 hsecond))
      | error second =>
          refine Or.inr ⟨first, second, ?_, ?_, of_expandAll_eq_error hfirst,
            of_expandAll_eq_error hsecond⟩
          · rw [discover, hfirst]
          · rw [discover, hsecond]

/-- What is discovered are canonical forms of files that no source ignores. -/
theorem of_mem_discover (hcall : scope.viewpoint.call.Plain)
    (h : discover scope finishing patterns = .ok found) (hmem : path ∈ found.paths) :
    Glob.IsFileOf scope.files path ∧ scope.ignored.ignores scope.viewpoint path = .ok false := by
  obtain ⟨expanded, kept, hexpanded, hkeep, rfl⟩ := discover_eq_ok.1 h
  obtain ⟨hpath, hkept⟩ := (IgnoreSet.mem_keep hkeep).1 hmem
  obtain ⟨text, first, hfirst, hfound⟩ :=
    exists_expand_of_mem_expandAll hexpanded (Path.mem_firstOccurrences.1 hpath)
  exact ⟨Glob.isFileOf_of_mem_expand hcall hfirst hfound, hkept⟩

/-- The working directory of the process, or the root if that directory is gone. -/
def processPath (fs : FileSystem) : Path :=
  match fs.workingPath with
  | .ok path => path
  | .error _ => .absolute []

/-- What a search from a directory looks at in a session. -/
def scopeIn (s : Session) (set : IgnoreSet) (directory : Path) : Glob.Scope :=
  ⟨s.files, set, ⟨processPath s.files, directory⟩, s.unreadable⟩

theorem find_apply (directory : Path) (set : IgnoreSet) (patterns : List Pattern) (s : Session) :
    find directory set patterns s =
      match s.files.resolve directory with
      | .error fault => .error (.ofResolveFault fault) s
      | .ok canonical =>
          match discover (scopeIn s set canonical) s.host.finishing patterns with
          | .error failure => .error failure s
          | .ok found =>
              .ok found
                { s with notes := s.notes ++ [.discovered found.paths.length patterns.length] } := by
  rw [find, bind_apply, Action.resolve, get_bind_apply]
  cases s.files.resolve directory with
  | error fault => rfl
  | ok canonical =>
      dsimp only
      show (lift (discover (scopeIn s set canonical) s.host.finishing patterns) >>= fun found => _) s
        = _
      rw [bind_apply]
      cases discover (scopeIn s set canonical) s.host.finishing patterns <;> rfl

theorem exists_find_eq_ok {directory : Path} {set : IgnoreSet} {patterns : List Pattern}
    {s : Session} : (∃ t, find directory set patterns s = .ok found t) ↔
      ∃ canonical, s.files.resolve directory = .ok canonical ∧
        discover (scopeIn s set canonical) s.host.finishing patterns = .ok found := by
  rw [find_apply]
  cases s.files.resolve directory with
  | error fault => simp
  | ok canonical =>
      simp only [Except.ok.injEq, exists_eq_left']
      cases discover (scopeIn s set canonical) s.host.finishing patterns <;> simp

theorem find_eq_ok {directory : Path} {set : IgnoreSet} {patterns : List Pattern}
    {s t : Session} (h : find directory set patterns s = .ok found t) :
    ∃ canonical, s.files.resolve directory = .ok canonical ∧
      discover (scopeIn s set canonical) s.host.finishing patterns = .ok found :=
  exists_find_eq_ok.1 ⟨t, h⟩

theorem silent_find (directory : Path) (set : IgnoreSet) (patterns : List Pattern) :
    Silent (find directory set patterns) := by
  refine shows_bind ((observes_resolve directory).shows _) fun canonical => ?_
  refine shows_bind (fun s => ⟨[], (List.append_nil _).symm, by simp⟩) fun session => ?_
  refine shows_bind ((observes_lift _).shows _) fun found => ?_
  exact shows_bind ((observes_note _).shows _) fun _ => (observes_pure found).shows _

end Discovery

/-- The files of a call are seen from the canonical form of its directory. -/
theorem Linter.of_findFiles {patterns : Patterns} {resolved : ResolvedOptions} {s t : Session}
    {paths : List Path} (hplain : resolved.directory.Plain)
    (h : findFiles patterns resolved s = .ok paths t) :
    ∃ directory, s.files.resolve resolved.directory = .ok directory ∧
      ∀ path ∈ paths, Glob.IsFileOf s.files path ∧
        resolved.ignored.ignores ⟨Discovery.processPath s.files, directory⟩ path = .ok false := by
  obtain ⟨listed, u, hlisted, h⟩ := bind_eq_ok.1 h
  obtain ⟨-, rfl⟩ := lift_eq_ok.1 hlisted
  obtain ⟨found, v, hfind, h⟩ := bind_eq_ok.1 h
  obtain ⟨rfl, -⟩ := pure_eq_ok.1 h
  obtain ⟨directory, hcanonical, hdiscover⟩ := Discovery.find_eq_ok hfind
  obtain ⟨hcall, -⟩ := FileSystem.plain_resolve hplain hcanonical
  exact ⟨directory, hcanonical, fun path hmem => Discovery.of_mem_discover hcall hdiscover hmem⟩

theorem Linter.silent_findListed (patterns : List Pattern) (resolved : ResolvedOptions) :
    Silent (findListed patterns resolved) :=
  shows_bind (Discovery.silent_find _ _ _) fun _ => (observes_pure _).shows _

end ProjectLint
