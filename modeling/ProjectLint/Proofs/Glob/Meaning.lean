import ProjectLint.Proofs.Glob.SafePruning

/-!
What a glob means, apart from how it is expanded. A component leads from a path to an entry of the
directory that is there, and `**` leads down through directories that are no links and neither
hidden nor pruned. A glob relates its start to every path that its components lead to one after the
other. Main statement: a glob finds the canonical forms of those paths that are files and are not
ignored, each path once; if the system does not answer for one of the paths, its refusal ends the
expansion.
-/

namespace ProjectLint.Glob

variable {fs : FileSystem} {pruned : Pruning}

/-- The directories that a `**` leads to from one: that itself, and those to which it is led down
through entries that are directories, are not hidden, and may be entered. -/
inductive Descent (fs : FileSystem) (enters : Path → Prop) (start : Path) : Path → Prop
  | here : (fs.entries? start).isSome = true → Descent fs enters start start
  | child {p : Path} {entries inner : Entries} {name : Text} :
      Descent fs enters start p → fs.entries? p = some entries →
        (name, .directory inner) ∈ entries → isHidden name = false → enters (p.child name) →
          (fs.entries? (p.child name)).isSome = true → Descent fs enters start (p.child name)

/-- Where a component of a glob leads. As the last component a `**` leads to files too, which are
all that does not count as a directory. -/
inductive Leads (fs : FileSystem) (enters : Path → Prop) : (last : Bool) → Text → Path → Path → Prop
  | listed {last : Bool} {segment name : Text} {p : Path} {entries : Entries} {node : Node} :
      segment ≠ anyDepth → hasWildcard segment = true → fs.entries? p = some entries →
        (name, node) ∈ entries → matchesName segment name = true →
          Leads fs enters last segment p (p.child name)
  | spelled {last : Bool} {segment : Text} {p : Path} :
      hasWildcard segment = false → fs.hasEntry (p.child segment) = true →
        Leads fs enters last segment p (p.child segment)
  | directory {last : Bool} {p q : Path} :
      Descent fs enters p q → Leads fs enters last anyDepth p q
  | file {p q : Path} {entries : Entries} {name : Text} {node : Node} :
      Descent fs enters p q → fs.entries? q = some entries → (name, node) ∈ entries →
        countsAsDirectory fs q name node = false → isHidden name = false →
          Leads fs enters true anyDepth p (q.child name)

/-- Where components of a glob lead, one after the other. -/
def Follows (fs : FileSystem) (enters : Path → Prop) (final : Bool) :
    List Text → Path → Path → Prop
  | [], p, q => q = p
  | segment :: rest, p, q =>
      ∃ middle, Leads fs enters (final && rest.isEmpty) segment p middle ∧
        Follows fs enters final rest middle q

/-- The directories that a test lets a walk enter. -/
def Pruning.enters (pruned : Pruning) (p : Path) : Prop :=
  pruned p = .ok false

/-- The name of a directory that is neither hidden nor pruned is an open one. -/
theorem mem_openNames {here : Path} {entries inner : Entries} {names : List Text} {name : Text}
    (h : openNames fs pruned here entries = .ok names) (hmem : (name, .directory inner) ∈ entries)
    (hhidden : isHidden name = false) (henters : pruned.enters (here.child name)) :
    name ∈ names := by
  induction entries generalizing names with
  | nil => cases hmem
  | cons entry entries ih =>
      obtain ⟨others, hothers, hnames⟩ := openNames_cons_eq_ok.1 h
      rcases List.mem_cons.1 hmem with rfl | hmem
      · have hskip : pruned (here.child name) = .ok false := henters
        simp [countsAsDirectory, hhidden, hskip] at hnames
        simp [hnames]
      · have hname := ih hothers hmem
        split at hnames
        next =>
          obtain ⟨skip, -, rfl⟩ := hnames
          cases skip <;> simp [hname]
        next => rwa [hnames]

/-- A walk over entries goes into each one whose name is open. -/
theorem walkNode_of_walkEntries {here : Path} {names : List Text} {entries : Entries}
    {visits : List Visit} {name : Text} {node : Node} (hname : name ∈ names)
    (hmem : (name, node) ∈ entries) (h : walkEntries fs pruned here names entries = .ok visits) :
    ∃ inner, walkNode fs pruned (here.child name) node = .ok inner ∧
      ∀ visit ∈ inner, visit ∈ visits := by
  induction entries generalizing visits with
  | nil => cases hmem
  | cons entry entries ih =>
      obtain ⟨first, others, hfirst, hothers, rfl⟩ := walkEntries_cons_eq_ok.1 h
      rcases List.mem_cons.1 hmem with rfl | hmem
      · rw [if_pos hname] at hfirst
        exact ⟨first, hfirst, fun visit => List.mem_append_left _⟩
      · obtain ⟨inner, hinner, hsubset⟩ := ih hmem hothers
        exact ⟨inner, hinner, fun visit hvisit => List.mem_append_right _ (hsubset visit hvisit)⟩

/-- Whether walks from visited directories make no other visits. -/
def HasSubwalks (fs : FileSystem) (pruned : Pruning) (visits : List Visit) : Prop :=
  ∀ visit ∈ visits, ∃ inner, walk fs pruned visit.directory = .ok inner ∧
    ∀ other ∈ inner, other ∈ visits

theorem HasSubwalks.append {visits others : List Visit} (h : HasSubwalks fs pruned visits)
    (hothers : HasSubwalks fs pruned others) : HasSubwalks fs pruned (visits ++ others) := by
  intro visit hvisit
  rcases List.mem_append.1 hvisit with hvisit | hvisit
  · obtain ⟨inner, hinner, hsubset⟩ := h visit hvisit
    exact ⟨inner, hinner, fun other hother => List.mem_append_left _ (hsubset other hother)⟩
  · obtain ⟨inner, hinner, hsubset⟩ := hothers visit hvisit
    exact ⟨inner, hinner, fun other hother => List.mem_append_right _ (hsubset other hother)⟩

mutual

theorem hasSubwalks_walkNode {here : Path} {node : Node} {visits : List Visit}
    (hnode : isTooLong here.toText = false → fs.node? here = .ok node)
    (h : walkNode fs pruned here node = .ok visits) : HasSubwalks fs pruned visits := by
  cases node with
  | file _ | link _ => simp_all [walkNode, HasSubwalks]
  | directory entries =>
      have hwhole := h
      obtain rfl | ⟨names, others, hshort, hopen, hwalk, rfl⟩ := of_walkNode_directory_eq_ok h
      · exact fun visit hvisit => by cases hvisit
      · have hhere := hnode hshort
        intro visit hvisit
        rcases List.mem_cons.1 hvisit with rfl | hvisit
        · exact ⟨_, by rw [walk, hhere]; exact hwhole, fun _ => id⟩
        · obtain ⟨inner, hinner, hsubset⟩ :=
            hasSubwalks_walkEntries hhere (fun _ => id) hwalk visit hvisit
          exact ⟨inner, hinner, fun other hother =>
            List.mem_cons_of_mem _ (hsubset other hother)⟩

theorem hasSubwalks_walkEntries {here : Path} {whole entries : Entries} {names : List Text}
    {visits : List Visit} (hhere : fs.node? here = .ok (.directory whole))
    (hwhole : ∀ entry ∈ entries, entry ∈ whole)
    (h : walkEntries fs pruned here names entries = .ok visits) :
    HasSubwalks fs pruned visits := by
  cases entries with
  | nil =>
      simp only [walkEntries, Except.ok.injEq] at h
      subst h
      exact fun visit hvisit => by cases hvisit
  | cons entry rest =>
      obtain ⟨name, node⟩ := entry
      obtain ⟨hentry, hrest⟩ := List.forall_mem_cons.1 hwhole
      obtain ⟨first, others, hfirst, hothers, rfl⟩ := walkEntries_cons_eq_ok.1 h
      refine HasSubwalks.append ?_ (hasSubwalks_walkEntries hhere hrest hothers)
      cases node with
      | file _ | link _ =>
          have hnone : first = [] := by
            simp_all [walkNode]
          exact fun visit hvisit => by simp [hnone] at hvisit
      | directory inner =>
          split at hfirst
          next =>
            exact hasSubwalks_walkNode
              (FileSystem.node?_child hhere hentry fun target => by simp) hfirst
          next => exact fun visit hvisit => by simp [hfirst] at hvisit

end

theorem hasSubwalks_walk {start : Path} {visits : List Visit}
    (h : walk fs pruned start = .ok visits) : HasSubwalks fs pruned visits := by
  rw [walk] at h
  cases hnode : fs.node? start with
  | error fault =>
      simp only [hnode, Except.ok.injEq] at h
      subst h
      exact fun visit hvisit => by cases hvisit
  | ok node =>
      simp only [hnode] at h
      exact hasSubwalks_walkNode (fun _ => hnode) h

theorem isTooLong_of_node? {p : Path} {node : Node} (h : fs.node? p = .ok node) :
    isTooLong p.toText = false := by
  obtain ⟨place, hlocate, -⟩ := FileSystem.node?_eq_ok.1 h
  exact FileSystem.isTooLong_of_locate hlocate

/-- Visits go on from each directory to those in it that may be entered. -/
theorem HasSubwalks.mem_child {visits : List Visit} (h : HasSubwalks fs pruned visits)
    {visit : Visit} (hvisit : visit ∈ visits) {entries inner : Entries} {name : Text}
    (hnode : fs.node? visit.directory = .ok (.directory entries))
    (hmem : (name, .directory inner) ∈ entries) (hhidden : isHidden name = false)
    (henters : pruned.enters (visit.directory.child name))
    (hshort : isTooLong (visit.directory.child name).toText = false) :
    ∃ other ∈ visits, other.directory = visit.directory.child name := by
  obtain ⟨deeper, hwalk, hsubset⟩ := h visit hvisit
  rw [walk, hnode] at hwalk
  obtain ⟨names, others, hopen, hbelow, rfl⟩ :=
    (walkNode_directory_eq_ok (isTooLong_of_node? hnode)).1 hwalk
  obtain ⟨visits, hvisits, hothers⟩ := walkNode_of_walkEntries
    (mem_openNames hopen hmem hhidden henters) hmem hbelow
  obtain ⟨other, hother, heq⟩ := mem_walkNode_self hshort hvisits
  exact ⟨other, hsubset other (List.mem_cons_of_mem _ (hothers other hother)), heq⟩

/-- A walk visits the directories that a `**` leads to. -/
theorem mem_walk {start p : Path} {visits : List Visit} (h : walk fs pruned start = .ok visits) :
    (∃ visit ∈ visits, visit.directory = p) ↔ Descent fs pruned.enters start p := by
  constructor
  · rintro ⟨visit, hvisit, rfl⟩
    -- A directory whose path is too long is met on the way, but cannot be listed.
    let good : Path → Prop := fun p =>
      (fs.entries? p).isSome = true → Descent fs pruned.enters start p
    have hkept : KeptByWalks fs pruned good := by
      intro p entries inner name hp hnode hmem hhidden henters hlist
      have hentries := FileSystem.entries?_eq_some.2 hnode
      exact .child (hp (by rw [hentries]; rfl)) hentries hmem hhidden henters hlist
    have hstart : good start := .here
    obtain ⟨hdirectory, entries, hnode, -⟩ := forall_walk hkept hstart h visit hvisit
    exact hdirectory (by rw [FileSystem.entries?_eq_some.2 hnode]; rfl)
  · intro hdescent
    have hsubwalks := hasSubwalks_walk h
    rw [walk] at h
    cases hnode : fs.node? start with
    | error fault =>
        have hnone : fs.entries? start = none := by rw [FileSystem.entries?, hnode]
        exfalso
        induction hdescent with
        | here hlist => simp [hnone] at hlist
        | child _ _ _ _ _ _ ih => exact ih
    | ok node =>
        rw [hnode] at h
        induction hdescent with
        | here hlist =>
            obtain ⟨entries, hentries⟩ := Option.isSome_iff_exists.1 hlist
            rw [FileSystem.entries?_eq_some, hnode, Except.ok.injEq] at hentries
            subst hentries
            exact mem_walkNode_self (isTooLong_of_node? hnode) h
        | child _ hentries hmem hhidden henters hlist ih =>
            obtain ⟨visit, hvisit, rfl⟩ := ih
            obtain ⟨inner, hinner⟩ := Option.isSome_iff_exists.1 hlist
            have hshort := isTooLong_of_node? (FileSystem.entries?_eq_some.1 hinner)
            exact hsubwalks.mem_child hvisit (FileSystem.entries?_eq_some.1 hentries) hmem hhidden
              henters hshort

theorem entries_of_mem_walk {start : Path} {visits : List Visit} {visit : Visit}
    (h : walk fs pruned start = .ok visits) (hvisit : visit ∈ visits) :
    ∃ entries, fs.entries? visit.directory = some entries ∧
      visit.files = shownFiles fs visit.directory entries := by
  obtain ⟨-, entries, hnode, hfiles⟩ := descends_of_walk h visit hvisit
  exact ⟨entries, FileSystem.entries?_eq_some.2 hnode, hfiles⟩

variable {scope : Scope}

/-- A `**` leads to what a walk visits, and at the end of a glob to the files there too. -/
theorem mem_flatMap_paths {last : Bool} {start q : Path} {visits : List Visit}
    (h : walk fs pruned start = .ok visits) :
    q ∈ visits.flatMap (Visit.paths last) ↔ Leads fs pruned.enters last anyDepth start q := by
  rw [List.mem_flatMap]
  constructor
  · rintro ⟨visit, hvisit, hq⟩
    have hdescent := (mem_walk h).1 ⟨visit, hvisit, rfl⟩
    obtain ⟨entries, hentries, hfiles⟩ := entries_of_mem_walk h hvisit
    rcases (mem_visitPaths hfiles).1 hq with rfl | ⟨rfl, name, node, hmem, hfile, hhidden, rfl⟩
    · exact .directory hdescent
    · exact .file hdescent hentries hmem hfile hhidden
  · intro hleads
    cases hleads with
    | listed hne => exact absurd rfl hne
    | spelled hwild => cases hwild
    | directory hdescent =>
        obtain ⟨visit, hvisit, rfl⟩ := (mem_walk h).2 hdescent
        exact ⟨visit, hvisit, List.mem_cons_self⟩
    | file hdescent hentries hmem hfile hhidden =>
        obtain ⟨visit, hvisit, rfl⟩ := (mem_walk h).2 hdescent
        obtain ⟨others, hothers, hfiles⟩ := entries_of_mem_walk h hvisit
        obtain rfl := Option.some.inj (hentries.symm.trans hothers)
        exact ⟨visit, hvisit,
          (mem_visitPaths hfiles).2 (Or.inr ⟨rfl, _, _, hmem, hfile, hhidden, rfl⟩)⟩

theorem mem_map_namesIn {enters : Path → Prop} {segment : Text} {last : Bool} {p q : Path}
    (hdepth : segment ≠ anyDepth) :
    q ∈ (namesIn fs p segment).map p.child ↔ Leads fs enters last segment p q := by
  rw [List.mem_map]
  constructor
  · rintro ⟨name, hname, rfl⟩
    rcases mem_namesIn.1 hname with
      ⟨hwild, entries, node, hentries, hmem, hmatch⟩ | ⟨hwild, rfl, hentry⟩
    · exact .listed hdepth hwild hentries hmem hmatch
    · exact .spelled hwild hentry
  · intro hleads
    cases hleads with
    | listed _ hwild hentries hmem hmatch =>
        exact ⟨_, mem_namesIn.2 (Or.inl ⟨hwild, _, _, hentries, hmem, hmatch⟩), rfl⟩
    | spelled hwild hentry =>
        exact ⟨segment, mem_namesIn.2 (Or.inr ⟨hwild, rfl, hentry⟩), rfl⟩
    | directory _ | file _ _ _ _ _ => exact absurd rfl hdepth

/-- A step from one path reaches what its component leads to. -/
theorem mem_stepFrom {segment : Text} {last : Bool} {p q : Path} {reached : Reached}
    (h : stepFrom scope pruned segment last p = .ok reached) :
    q ∈ reached.paths ↔ Leads scope.files pruned.enters last segment p q := by
  rcases stepFrom_eq_ok.1 h with ⟨rfl, visits, hwalk, rfl⟩ | ⟨hdepth, -, rfl⟩
  · exact mem_flatMap_paths hwalk
  · exact mem_map_namesIn hdepth

theorem exists_stepFrom {segment : Text} {last : Bool} {starts : List Path} {reached : Reached}
    {start : Path} (h : step scope pruned segment last starts = .ok reached)
    (hstart : start ∈ starts) : ∃ first, stepFrom scope pruned segment last start = .ok first := by
  induction starts generalizing reached with
  | nil => cases hstart
  | cons other starts ih =>
      obtain ⟨first, others, hfirst, hothers, -⟩ := step_cons_eq_ok.1 h
      rcases List.mem_cons.1 hstart with rfl | hstart
      · exact ⟨first, hfirst⟩
      · exact ih hothers hstart

/-- An expansion reaches exactly those paths to which its components lead. -/
theorem mem_steps {segments : List Text} {final : Bool} {starts : List Path} {reached : Reached}
    {q : Path} (h : steps scope pruned final segments starts = .ok reached) :
    q ∈ reached.paths ↔ ∃ p ∈ starts, Follows scope.files pruned.enters final segments p q := by
  induction segments generalizing starts reached with
  | nil =>
      simp only [steps, Except.ok.injEq] at h
      subst h
      simp [Follows]
  | cons segment segments ih =>
      obtain ⟨first, ends, hfirst, hends, rfl⟩ := steps_cons_eq_ok.1 h
      refine (ih hends).trans ⟨?_, ?_⟩
      · rintro ⟨middle, hmiddle, hfollows⟩
        obtain ⟨p, hp, leads, hleads, hmiddle⟩ :=
          of_mem_step hfirst (Path.mem_firstOccurrences.1 hmiddle)
        exact ⟨p, hp, middle, (mem_stepFrom hleads).1 hmiddle, hfollows⟩
      · rintro ⟨p, hp, middle, hleads, hfollows⟩
        obtain ⟨found, hfound⟩ := exists_stepFrom hfirst hp
        have hmiddle := mem_step hfirst hp hfound ((mem_stepFrom hfound).2 hleads)
        exact ⟨middle, Path.mem_firstOccurrences.2 hmiddle, hfollows⟩

theorem nodup_steps {segments : List Text} {final : Bool} {starts : List Path} {reached : Reached}
    (hstarts : starts.Nodup) (h : steps scope pruned final segments starts = .ok reached) :
    reached.paths.Nodup := by
  induction segments generalizing starts reached with
  | nil =>
      simp only [steps, Except.ok.injEq] at h
      subst h
      exact hstarts
  | cons segment segments ih =>
      obtain ⟨first, ends, -, hends, rfl⟩ := steps_cons_eq_ok.1 h
      have hnodup := ih (Path.nodup_firstOccurrences _) hends
      exact hnodup

/-- Whether the components of a glob lead from its start to a path. -/
def Scope.Relates (scope : Scope) (glob p : Path) : Prop :=
  Follows scope.files (Pruning.enters (scope.ignored.prunes scope.viewpoint)) true glob.parts
    (scope.start glob) p

/-- Whether a glob is to find a path: it leads there, to a file that is not ignored. -/
structure Scope.Selects (scope : Scope) (glob p : Path) : Prop where
  related : scope.Relates glob p
  isFile : scope.files.isFile p = .ok true
  kept : scope.ignored.ignoresWhileGlobbing scope.viewpoint p = .ok false

/-- What the system refuses for a path: to say whether it is a file, or to give the canonical form
of a file that is to be found. -/
inductive Scope.Refuses (scope : Scope) (p : Path) : Failure → Prop
  | check {errno : Errno} : scope.files.isFile p = .error errno →
      Refuses scope p (.refused errno (some p.toText))
  | resolve {fault : ResolveFault} : scope.files.isFile p = .ok true →
      scope.ignored.ignoresWhileGlobbing scope.viewpoint p = .ok false →
        scope.files.resolve p = .error fault → Refuses scope p (Failure.ofResolveFault fault)

theorem exists_stepFrom_eq_ok (hreadable : scope.unreadable = none)
    (hanswers : ∀ p, ∃ answer, pruned p = .ok answer) (segment : Text) (last : Bool)
    (start : Path) : ∃ reached, stepFrom scope pruned segment last start = .ok reached := by
  by_cases hdepth : segment = anyDepth
  · subst hdepth
    obtain ⟨visits, hvisits⟩ := exists_walk hanswers start
    exact ⟨_, stepFrom_of_walk hvisits⟩
  · exact ⟨_, stepFrom_of_ne hdepth hreadable pruned last start⟩

theorem exists_steps (hreadable : scope.unreadable = none)
    (hanswers : ∀ p, ∃ answer, pruned p = .ok answer) (segments : List Text) (final : Bool)
    (starts : List Path) : ∃ reached, steps scope pruned final segments starts = .ok reached := by
  induction segments generalizing starts with
  | nil => exact ⟨_, rfl⟩
  | cons segment segments ih =>
      have hfrom := exists_stepFrom_eq_ok hreadable hanswers segment (final && segments.isEmpty)
      obtain ⟨first, hfirst, -⟩ := step_eq_ok (fun p => (hfrom p).choose_spec) starts
      obtain ⟨ends, hends⟩ := ih (Path.firstOccurrences first.paths)
      exact ⟨_, steps_cons_eq_ok.2 ⟨first, ends, hfirst, hends, rfl⟩⟩

/-- An expansion comes to an end whatever it reaches, and it reaches what its components lead to. -/
theorem exists_steps_of_compiles (hset : scope.ignored.Compiles)
    (hreadable : scope.unreadable = none) (glob : Path) :
    ∃ reached, steps scope (scope.ignored.prunes scope.viewpoint) true glob.parts
        [scope.start glob] = .ok reached ∧
      reached.paths.Nodup ∧ ∀ p, p ∈ reached.paths ↔ scope.Relates glob p := by
  have hanswers : ∀ p, ∃ answer, scope.ignored.prunes scope.viewpoint p = .ok answer := by
    intro p
    obtain ⟨answer, hanswer, -⟩ := IgnoreSet.prunes_of_compiles hset scope.viewpoint p
    exact ⟨answer, hanswer⟩
  obtain ⟨reached, hreached⟩ := exists_steps hreadable hanswers glob.parts true [scope.start glob]
  refine ⟨reached, hreached, nodup_steps (by simp) hreached, fun p => ?_⟩
  rw [mem_steps hreached]
  simp [Scope.Relates]

theorem keepOne_eq_error_iff_refuses (hset : scope.ignored.Compiles) {p : Path}
    {failure : Failure} : keepOne scope p = .error failure ↔ scope.Refuses p failure := by
  obtain ⟨answer, hanswer, -⟩ :=
    IgnoreSet.ignoresWhileGlobbing_of_compiles hset scope.viewpoint p
  rw [keepOne_eq_error]
  constructor
  · rintro (⟨errno, hfile, rfl⟩ | ⟨hfile, hfailure | ⟨hkept, fault, hresolve, rfl⟩⟩)
    · exact .check hfile
    · cases hanswer.symm.trans hfailure
    · exact .resolve hfile hkept hresolve
  · intro hrefuses
    cases hrefuses with
    | check hfile => exact Or.inl ⟨_, hfile, rfl⟩
    | resolve hfile hkept hresolve => exact Or.inr ⟨hfile, Or.inr ⟨hkept, _, hresolve, rfl⟩⟩

/-- The kept paths of an expansion, each taken to its canonical form. -/
theorem map_resolve_kept (paths : List Path) :
    (paths.filter fun p => (kept? scope p).isSome).map scope.files.resolve =
      (paths.filterMap (kept? scope)).map .ok := by
  induction paths with
  | nil => rfl
  | cons p paths ih =>
      cases hkept : kept? scope p with
      | none => simp [hkept, ih]
      | some file =>
          have hresolve := (keepOne_eq_some.1 (kept?_eq_some.1 hkept)).2.2
          simp [hkept, hresolve, ih]

/-- What is kept of paths of which none is refused are those files that are not ignored. -/
theorem isSome_kept? {p : Path} (h : ∀ failure, keepOne scope p ≠ .error failure) :
    (kept? scope p).isSome = true ↔ scope.files.isFile p = .ok true ∧
      scope.ignored.ignoresWhileGlobbing scope.viewpoint p = .ok false := by
  simp only [Option.isSome_iff_exists, kept?_eq_some, keepOne_eq_some]
  constructor
  · rintro ⟨file, hfile, hkept, -⟩
    exact ⟨hfile, hkept⟩
  · rintro ⟨hfile, hkept⟩
    cases hresolve : scope.files.resolve p with
    | ok file => exact ⟨file, hfile, hkept, rfl⟩
    | error fault =>
        exact absurd (keepOne_eq_error.2 (Or.inr ⟨hfile, Or.inr ⟨hkept, fault, hresolve, rfl⟩⟩))
          (h _)

/-- A glob finds the canonical forms of those paths that it selects, each path once. The system's
refusal for a path to which the glob leads is the failure of the whole expansion. -/
theorem expand_selects (hset : scope.ignored.Compiles) (hreadable : scope.unreadable = none)
    (glob : Path) :
    ((∀ p failure, scope.Relates glob p → ¬scope.Refuses p failure) →
      ∃ paths files : List Path, paths.Nodup ∧ (∀ p, p ∈ paths ↔ scope.Selects glob p) ∧
        paths.map scope.files.resolve = files.map .ok ∧ Finds (expand scope glob) files) ∧
    ∀ p failure, scope.Relates glob p → scope.Refuses p failure →
      ∃ q refusal, scope.Relates glob q ∧ scope.Refuses q refusal ∧
        expand scope glob = .error refusal := by
  obtain ⟨reached, hreached, hnodup, hmem⟩ := exists_steps_of_compiles hset hreadable glob
  -- The steps always end, so only the keeping of files can fail, and it does so where the system
  -- refuses one of the paths that are reached.
  cases hkeep : keepFiles scope reached.paths with
  | ok kept =>
      obtain ⟨hall, rfl⟩ := keepFiles_eq_ok.1 hkeep
      have hnone : ∀ p failure, scope.Relates glob p → keepOne scope p ≠ .error failure := by
        intro p failure hrelated hone
        cases (hall p ((hmem p).2 hrelated)).symm.trans hone
      refine ⟨fun _ => ⟨reached.paths.filter fun p => (kept? scope p).isSome, _, hnodup.filter _, ?_,
        map_resolve_kept reached.paths, (finds_expandPruning hreached _).2 hkeep⟩, ?_⟩
      · intro p
        rw [List.mem_filter, hmem]
        constructor
        · rintro ⟨hrelated, hkept⟩
          obtain ⟨hfile, hfound⟩ := (isSome_kept? (hnone p · hrelated)).1 hkept
          exact ⟨hrelated, hfile, hfound⟩
        · rintro ⟨hrelated, hfile, hfound⟩
          exact ⟨hrelated, (isSome_kept? (hnone p · hrelated)).2 ⟨hfile, hfound⟩⟩
      · intro p failure hrelated hrefuses
        exact absurd ((keepOne_eq_error_iff_refuses hset).2 hrefuses) (hnone p failure hrelated)
  | error failure =>
      obtain ⟨q, hq, hone⟩ := of_keepFiles_eq_error hkeep
      have hrefuses := (keepOne_eq_error_iff_refuses hset).1 hone
      have hrelated := (hmem q).1 hq
      refine ⟨fun hnone => absurd hrefuses (hnone q failure hrelated), ?_⟩
      rintro - - - -
      refine ⟨q, failure, hrelated, hrefuses, ?_⟩
      rw [expand, expandPruning, hreached]
      simp only [hkeep]

/-- A directory with a link to itself, a hidden directory and modules, and a link beside it. -/
def linkedSource : Entries :=
  [("lib", .link "src"),
    ("src", .directory [(".git", .directory [("h.js", .file [])]), ("a.js", .file []),
      ("loop", .link "."), ("node_modules", .directory [("x.js", .file [])])])]

theorem wellFormed_linkedSource : Node.entriesWellFormed linkedSource = true := by
  rfl

/-- What globs are expanded in, with the built-in lines as the only source. -/
def linkedScope : Scope :=
  ⟨⟨linkedSource, [], wellFormed_linkedSource⟩, [Source.builtIn], atRoot, none⟩

/-- One file is found twice, by two paths. -/
theorem linked_selected :
    linkedScope.ignored.Compiles ∧ linkedScope.unreadable = none ∧
      ∃ paths : List Path, paths.Nodup ∧
        (∀ p, p ∈ paths ↔ linkedScope.Selects (.ofText "*/**") p) ∧
        paths.map linkedScope.files.resolve =
          [.ok (.absolute ["src", "a.js"]), .ok (.absolute ["src", "a.js"])] := by
  have hfinds : Finds (expand linkedScope (.ofText "*/**"))
      [.absolute ["src", "a.js"], .absolute ["src", "a.js"]] := ⟨_, rfl⟩
  have hcompiles : linkedScope.ignored.Compiles := compiles_builtIn
  obtain ⟨hselects, hrefuses⟩ := expand_selects hcompiles rfl (.ofText "*/**")
  obtain ⟨walked, hfound⟩ := hfinds
  have hnone : ∀ p failure, linkedScope.Relates (.ofText "*/**") p →
      ¬linkedScope.Refuses p failure := by
    intro p failure hrelated hrefused
    obtain ⟨_, refusal, -, -, herror⟩ := hrefuses p failure hrelated hrefused
    rw [hfound] at herror
    cases herror
  obtain ⟨paths, files, hnodup, hmem, hresolve, walked', hfiles⟩ := hselects hnone
  rw [hfound, Except.ok.injEq, Reached.mk.injEq] at hfiles
  refine ⟨hcompiles, rfl, paths, hnodup, hmem, ?_⟩
  rw [hresolve, ← hfiles.1]
  rfl

/-- A file beside a link to a name that is too long for the system. -/
def besideLongTarget : Entries :=
  [("a.js", .file []), ("b.js", .link (List.replicate 300 (.scalar 'x')))]

theorem wellFormed_besideLongTarget : Node.entriesWellFormed besideLongTarget = true := by
  rfl

/-- What globs are expanded in, with no source. -/
def longTargetScope : Scope :=
  ⟨⟨besideLongTarget, [], wellFormed_besideLongTarget⟩, [], atRoot, none⟩

set_option maxRecDepth 4000 in
/-- A file is selected, but nothing is found, since the system does not say whether the link leads
to a file. -/
theorem long_target_ends_expansion :
    longTargetScope.ignored.Compiles ∧
      longTargetScope.Selects (.ofText "*.js") (.absolute ["a.js"]) ∧
        expand longTargetScope (.ofText "*.js") = .error (.refused .nameTooLong (some "/b.js")) := by
  have hnoSource : longTargetScope.ignored.Compiles := by
    intro source hmem
    cases hmem
  refine ⟨hnoSource, ⟨⟨.absolute ["a.js"], ?_, rfl⟩, rfl, rfl⟩, rfl⟩
  have hmem : (("a.js", .file []) : Text × Node) ∈ besideLongTarget := List.mem_cons_self
  exact .listed (by decide) rfl rfl hmem rfl

end ProjectLint.Glob
