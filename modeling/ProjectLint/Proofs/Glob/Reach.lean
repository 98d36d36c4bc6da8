import ProjectLint.Glob.Expand
import ProjectLint.Proofs.FileSystem.Follow
import ProjectLint.Proofs.Glob.Kept

/-!
What an expansion can reach. A walk goes from a directory to the directories in it that are neither
hidden nor pruned; a component that is no `**` goes to an entry or to the name that it spells. Main
statement: what holds of the start of an expansion and is kept by each such step holds of every path
that it reaches.
-/

namespace ProjectLint.Glob

section

variable {scope : Scope} {pruned : Pruning} {reached : Reached}

/-- The paths that a visit gives to an expansion. -/
def Visit.paths (last : Bool) (visit : Visit) : List Path :=
  visit.directory :: if last then visit.files else []

/-- A component other than `**` goes to names in a directory, and `**` to what a walk visits. -/
theorem stepFrom_eq_ok {segment : Text} {last : Bool} {start : Path} :
    stepFrom scope pruned segment last start = .ok reached ↔
      (segment = anyDepth ∧ ∃ visits, walk scope.files pruned start = .ok visits ∧
        reached = ⟨visits.flatMap (Visit.paths last), visits.map (·.directory)⟩) ∨
      (segment ≠ anyDepth ∧ scope.unreadable ≠ some segment ∧
        reached = ⟨(namesIn scope.files start segment).map start.child, []⟩) := by
  rw [stepFrom]
  by_cases hdepth : segment = anyDepth
  · cases hwalk : walk scope.files pruned start with
    | error failure => simp [hdepth]
    | ok visits =>
        simp only [hdepth, if_true, true_and, ne_eq, not_true_eq_false, false_and, or_false,
          Except.ok.injEq, exists_eq_left']
        exact eq_comm
  · by_cases hreadable : scope.unreadable = some segment
    · simp [hdepth, hreadable]
    · simp [hdepth, hreadable, eq_comm (a := reached)]

theorem stepFrom_of_walk {last : Bool} {start : Path} {visits : List Visit}
    (h : walk scope.files pruned start = .ok visits) :
    stepFrom scope pruned anyDepth last start =
      .ok ⟨visits.flatMap (Visit.paths last), visits.map (·.directory)⟩ :=
  stepFrom_eq_ok.2 (Or.inl ⟨rfl, visits, h, rfl⟩)

theorem stepFrom_of_ne {segment : Text} (hdepth : segment ≠ anyDepth)
    (hreadable : scope.unreadable = none) (pruned : Pruning) (last : Bool) (start : Path) :
    stepFrom scope pruned segment last start =
      .ok ⟨(namesIn scope.files start segment).map start.child, []⟩ :=
  stepFrom_eq_ok.2 (Or.inr ⟨hdepth, by simp [hreadable], rfl⟩)

theorem step_cons_eq_ok {segment : Text} {last : Bool} {start : Path} {starts : List Path} :
    step scope pruned segment last (start :: starts) = .ok reached ↔
      ∃ first others, stepFrom scope pruned segment last start = .ok first ∧
        step scope pruned segment last starts = .ok others ∧ reached = first.append others := by
  rw [step]
  cases stepFrom scope pruned segment last start with
  | error failure => simp
  | ok first => cases step scope pruned segment last starts <;> simp [eq_comm]

theorem steps_cons_eq_ok {segment : Text} {segments : List Text} {final : Bool}
    {starts : List Path} :
    steps scope pruned final (segment :: segments) starts = .ok reached ↔
      ∃ first ends, step scope pruned segment (final && segments.isEmpty) starts = .ok first ∧
        steps scope pruned final segments (Path.firstOccurrences first.paths) = .ok ends ∧
          reached = ⟨ends.paths, first.walked ++ ends.walked⟩ := by
  rw [steps]
  cases step scope pruned segment (final && segments.isEmpty) starts with
  | error failure => simp
  | ok first =>
      cases hends : steps scope pruned final segments (Path.firstOccurrences first.paths) <;>
        simp [hends, eq_comm (a := reached)]

theorem expandPruning_eq_ok {glob : Path} {found : Reached} :
    expandPruning pruned scope glob = .ok found ↔
      ∃ reached files, steps scope pruned true glob.parts [scope.start glob] = .ok reached ∧
        keepFiles scope reached.paths = .ok files ∧ found = ⟨files, reached.walked⟩ := by
  rw [expandPruning]
  cases steps scope pruned true glob.parts [scope.start glob] with
  | error failure => simp
  | ok reached =>
      cases hfiles : keepFiles scope reached.paths <;> simp [hfiles, eq_comm (a := found)]

end

variable {fs : FileSystem} {pruned : Pruning} {good : Path → Prop}

theorem openNames_cons_eq_ok {here : Path} {name : Text} {node : Node} {entries : Entries}
    {names : List Text} :
    openNames fs pruned here ((name, node) :: entries) = .ok names ↔
      ∃ others, openNames fs pruned here entries = .ok others ∧
        if (countsAsDirectory fs here name node && !isHidden name) = true then
          ∃ skip, pruned (here.child name) = .ok skip ∧
            names = if skip then others else name :: others
        else names = others := by
  rw [openNames]
  by_cases hshown : (countsAsDirectory fs here name node && !isHidden name) = true
  · simp only [if_pos hshown]
    cases pruned (here.child name) with
    | error failure => simp
    | ok skip => cases openNames fs pruned here entries <;> simp [eq_comm]
  · simp only [if_neg hshown]
    simp [eq_comm]

theorem walkNode_directory_eq_ok {here : Path} {entries : Entries} {visits : List Visit}
    (hshort : isTooLong here.toText = false) :
    walkNode fs pruned here (.directory entries) = .ok visits ↔
      ∃ names others, openNames fs pruned here entries = .ok names ∧
        walkEntries fs pruned here names entries = .ok others ∧
          visits = ⟨here, shownFiles fs here entries⟩ :: others := by
  rw [walkNode, hshort]
  cases openNames fs pruned here entries with
  | error failure => simp
  | ok names => cases hwalk : walkEntries fs pruned here names entries <;> simp [hwalk, eq_comm]

/-- A directory whose path is too long is not visited. -/
theorem of_walkNode_directory_eq_ok {here : Path} {entries : Entries} {visits : List Visit}
    (h : walkNode fs pruned here (.directory entries) = .ok visits) :
    visits = [] ∨ ∃ names others, isTooLong here.toText = false ∧
      openNames fs pruned here entries = .ok names ∧
        walkEntries fs pruned here names entries = .ok others ∧
          visits = ⟨here, shownFiles fs here entries⟩ :: others := by
  cases hlong : isTooLong here.toText with
  | true => simp_all [walkNode]
  | false =>
      obtain ⟨names, others, hopen, hwalk, rfl⟩ := (walkNode_directory_eq_ok hlong).1 h
      exact Or.inr ⟨names, others, rfl, hopen, hwalk, rfl⟩

theorem walkEntries_cons_eq_ok {here : Path} {names : List Text} {name : Text} {node : Node}
    {entries : Entries} {visits : List Visit} :
    walkEntries fs pruned here names ((name, node) :: entries) = .ok visits ↔
      ∃ first others, (if name ∈ names then walkNode fs pruned (here.child name) node = .ok first
          else first = []) ∧
        walkEntries fs pruned here names entries = .ok others ∧ visits = first ++ others := by
  rw [walkEntries]
  by_cases hname : name ∈ names
  · simp only [List.contains_iff_mem, if_pos hname]
    cases walkNode fs pruned (here.child name) node with
    | error failure => simp
    | ok first => cases walkEntries fs pruned here names entries <;> simp [eq_comm]
  · simp [hname, eq_comm]

/-- An open name is one of a directory that is neither hidden nor pruned. -/
theorem of_mem_openNames {here : Path} {entries : Entries} {names : List Text} {name : Text}
    (h : openNames fs pruned here entries = .ok names) (hmem : name ∈ names) :
    isHidden name = false ∧ pruned (here.child name) = .ok false := by
  induction entries generalizing names with
  | nil =>
      simp only [openNames, Except.ok.injEq] at h
      subst h
      cases hmem
  | cons entry entries ih =>
      obtain ⟨others, hothers, hnames⟩ := openNames_cons_eq_ok.1 h
      split at hnames
      next hshown =>
        obtain ⟨skip, hskip, rfl⟩ := hnames
        cases skip with
        | true => exact ih hothers hmem
        | false =>
            rcases List.mem_cons.1 hmem with rfl | hmem
            · simp only [Bool.and_eq_true, Bool.not_eq_true'] at hshown
              exact ⟨hshown.2, hskip⟩
            · exact ih hothers hmem
      next =>
        subst hnames
        exact ih hothers hmem

/-- What is kept by going down into a directory that is neither hidden nor pruned. -/
def KeptByWalks (fs : FileSystem) (pruned : Pruning) (good : Path → Prop) : Prop :=
  ∀ {p : Path} {entries inner : Entries} {name : Text}, good p →
    fs.node? p = .ok (.directory entries) → (name, .directory inner) ∈ entries →
      isHidden name = false → pruned (p.child name) = .ok false → good (p.child name)

/-- A visit of a directory that a path names, with its files. -/
def Visit.Holds (fs : FileSystem) (good : Path → Prop) (visit : Visit) : Prop :=
  good visit.directory ∧ ∃ entries, fs.node? visit.directory = .ok (.directory entries) ∧
    visit.files = shownFiles fs visit.directory entries

mutual

theorem forall_walkNode (hkept : KeptByWalks fs pruned good) {here : Path} {node : Node}
    {visits : List Visit} (hgood : good here)
    (hnode : isTooLong here.toText = false → fs.node? here = .ok node)
    (h : walkNode fs pruned here node = .ok visits) : ∀ visit ∈ visits, visit.Holds fs good := by
  cases node with
  | file _ | link _ => simp_all [walkNode]
  | directory entries =>
      obtain rfl | ⟨names, others, hshort, hopen, hwalk, rfl⟩ := of_walkNode_directory_eq_ok h
      · simp
      · intro visit hvisit
        rcases List.mem_cons.1 hvisit with rfl | hvisit
        · exact ⟨hgood, entries, hnode hshort, rfl⟩
        · exact forall_walkEntries hkept hgood (hnode hshort) (fun _ => id)
            (fun name => of_mem_openNames hopen) hwalk visit hvisit

theorem forall_walkEntries (hkept : KeptByWalks fs pruned good) {here : Path}
    {whole entries : Entries} {names : List Text} {visits : List Visit} (hgood : good here)
    (hhere : fs.node? here = .ok (.directory whole)) (hwhole : ∀ entry ∈ entries, entry ∈ whole)
    (hopen : ∀ name ∈ names, isHidden name = false ∧ pruned (here.child name) = .ok false)
    (h : walkEntries fs pruned here names entries = .ok visits) :
    ∀ visit ∈ visits, visit.Holds fs good := by
  cases entries with
  | nil =>
      simp only [walkEntries, Except.ok.injEq] at h
      subst h
      simp
  | cons entry rest =>
      obtain ⟨name, node⟩ := entry
      obtain ⟨hentry, hrest⟩ := List.forall_mem_cons.1 hwhole
      obtain ⟨first, others, hfirst, hothers, rfl⟩ := walkEntries_cons_eq_ok.1 h
      intro visit hvisit
      rcases List.mem_append.1 hvisit with hvisit | hvisit
      · split at hfirst
        next hname =>
          obtain ⟨hhidden, hpruned⟩ := hopen name hname
          cases node with
          | file _ | link _ => simp_all [walkNode]
          | directory inner =>
              exact forall_walkNode hkept (hkept hgood hhere hentry hhidden hpruned)
                (FileSystem.node?_child hhere hentry fun target => by simp) hfirst visit hvisit
        next =>
          subst hfirst
          cases hvisit
      · exact forall_walkEntries hkept hgood hhere hrest hopen hothers visit hvisit

end

theorem forall_walk (hkept : KeptByWalks fs pruned good) {start : Path} {visits : List Visit}
    (hgood : good start) (h : walk fs pruned start = .ok visits) :
    ∀ visit ∈ visits, visit.Holds fs good := by
  rw [walk] at h
  cases hnode : fs.node? start with
  | error fault =>
      simp only [hnode, Except.ok.injEq] at h
      subst h
      simp
  | ok node =>
      simp only [hnode] at h
      exact forall_walkNode hkept hgood (fun _ => hnode) h

theorem mem_shownFiles {here path : Path} {entries : Entries} :
    path ∈ shownFiles fs here entries ↔
      ∃ name node, (name, node) ∈ entries ∧ countsAsDirectory fs here name node = false ∧
        isHidden name = false ∧ path = here.child name := by
  simp only [shownFiles, List.mem_map, List.mem_filter, Bool.and_eq_true, Bool.not_eq_true',
    Prod.exists]
  constructor
  · rintro ⟨name, node, ⟨hmem, hfile, hshown⟩, rfl⟩
    exact ⟨name, node, hmem, hfile, hshown, rfl⟩
  · rintro ⟨name, node, hmem, hfile, hshown, rfl⟩
    exact ⟨name, node, ⟨hmem, hfile, hshown⟩, rfl⟩

/-- A visit gives its directory to an expansion, and at the end of a glob the files there too. -/
theorem mem_visitPaths {visit : Visit} {entries : Entries} {last : Bool} {path : Path}
    (h : visit.files = shownFiles fs visit.directory entries) :
    path ∈ visit.paths last ↔ path = visit.directory ∨ last = true ∧
      ∃ name node, (name, node) ∈ entries ∧
        countsAsDirectory fs visit.directory name node = false ∧ isHidden name = false ∧
          path = visit.directory.child name := by
  rw [Visit.paths, List.mem_cons, h]
  cases last with
  | false => simp
  | true => simp only [if_true, mem_shownFiles, true_and]

/-- Only a component with a wildcard looks at the entries; any other is tried as a name. -/
theorem mem_namesIn {directory : Path} {segment name : Text} :
    name ∈ namesIn fs directory segment ↔
      (hasWildcard segment = true ∧ ∃ entries node, fs.entries? directory = some entries ∧
        (name, node) ∈ entries ∧ matchesName segment name = true) ∨
      (hasWildcard segment = false ∧ name = segment ∧
        fs.hasEntry (directory.child segment) = true) := by
  rw [namesIn]
  cases hasWildcard segment with
  | true => cases fs.entries? directory <;> simp
  | false => cases fs.hasEntry (directory.child segment) <;> simp

variable {scope : Scope}

theorem of_mem_step {segment : Text} {last : Bool} {starts : List Path} {reached : Reached}
    {path : Path} (h : step scope pruned segment last starts = .ok reached)
    (hmem : path ∈ reached.paths) :
    ∃ start ∈ starts, ∃ first, stepFrom scope pruned segment last start = .ok first ∧
      path ∈ first.paths := by
  induction starts generalizing reached with
  | nil =>
      simp only [step, Except.ok.injEq] at h
      subst h
      cases hmem
  | cons start starts ih =>
      obtain ⟨first, others, hfirst, hothers, rfl⟩ := step_cons_eq_ok.1 h
      rcases List.mem_append.1 hmem with hmem | hmem
      · exact ⟨start, by simp, first, hfirst, hmem⟩
      · obtain ⟨found, hfound, rest⟩ := ih hothers hmem
        exact ⟨found, List.mem_cons_of_mem _ hfound, rest⟩

/-- What is kept by going to an entry, or by adding a component of the glob. -/
structure KeptBySteps (fs : FileSystem) (segments : List Text) (good : Path → Prop) : Prop where
  entry : ∀ {p : Path} {entries : Entries} {name : Text} {node : Node}, good p →
    fs.node? p = .ok (.directory entries) → (name, node) ∈ entries → good (p.child name)
  segment : ∀ {p : Path} {segment : Text}, good p → segment ∈ segments →
    hasWildcard segment = false → fs.hasEntry (p.child segment) = true → good (p.child segment)

/-- Paths keep consisting of components of some kind, if names of entries are of that kind and
whatever is tried as a name. -/
theorem keptBySteps_consists (fs : FileSystem) {kind : Text → Prop} {segments : List Text}
    (hentry : ∀ name, isEntryName name = true → kind name)
    (hsegments : ∀ segment ∈ segments, hasWildcard segment = false → kind segment) :
    KeptBySteps fs segments (Path.Consists kind) where
  entry hp hnode hmem := hp.child (hentry _ (FileSystem.isEntryName_of_node? hnode hmem))
  segment hp hmem hwild _ := hp.child (hsegments _ hmem hwild)

theorem KeptBySteps.isAbsolute {segments : List Text} (h : KeptBySteps fs segments good) :
    KeptBySteps fs segments fun p => p.isAbsolute = true ∧ good p where
  entry hp hnode hmem := ⟨hp.1, h.entry hp.2 hnode hmem⟩
  segment hp hmem hwild hentry := ⟨hp.1, h.segment hp.2 hmem hwild hentry⟩

theorem forall_stepFrom {segments : List Text} (hkept : KeptBySteps scope.files segments good)
    {segment : Text} (hsegment : segment ∈ segments) {last : Bool} {start : Path}
    {reached : Reached} (hgood : good start)
    (h : stepFrom scope pruned segment last start = .ok reached) :
    ∀ path ∈ reached.paths, good path := by
  rcases stepFrom_eq_ok.1 h with ⟨-, visits, hwalk, rfl⟩ | ⟨-, -, rfl⟩
  · have hvisits : ∀ visit ∈ visits, visit.Holds scope.files good :=
      forall_walk (fun hp hnode hmem _ _ => hkept.entry hp hnode hmem) hgood hwalk
    intro path hpath
    obtain ⟨visit, hvisit, hpath⟩ := List.mem_flatMap.1 hpath
    obtain ⟨hdirectory, entries, hnode, hfiles⟩ := hvisits visit hvisit
    rcases (mem_visitPaths hfiles).1 hpath with rfl | ⟨-, name, node, hmem, -, -, rfl⟩
    · exact hdirectory
    · exact hkept.entry hdirectory hnode hmem
  · intro path hpath
    obtain ⟨name, hname, rfl⟩ := List.mem_map.1 hpath
    rcases mem_namesIn.1 hname with ⟨-, entries, node, hentries, hmem, -⟩ | ⟨hwild, rfl, hentry⟩
    · exact hkept.entry hgood (FileSystem.entries?_eq_some.1 hentries) hmem
    · exact hkept.segment hgood hsegment hwild hentry

theorem KeptBySteps.tail {segment : Text} {segments : List Text}
    (h : KeptBySteps fs (segment :: segments) good) : KeptBySteps fs segments good :=
  ⟨h.entry, fun hp hmem => h.segment hp (List.mem_cons_of_mem _ hmem)⟩

/-- What holds of the starts of an expansion and is kept by its steps holds of what it reaches. -/
theorem forall_steps {segments : List Text} (hkept : KeptBySteps scope.files segments good)
    {final : Bool} {starts : List Path} {reached : Reached} (hgood : ∀ path ∈ starts, good path)
    (h : steps scope pruned final segments starts = .ok reached) :
    ∀ path ∈ reached.paths, good path := by
  induction segments generalizing starts reached with
  | nil =>
      simp only [steps, Except.ok.injEq] at h
      subst h
      exact hgood
  | cons segment segments ih =>
      obtain ⟨first, ends, hfirst, hends, rfl⟩ := steps_cons_eq_ok.1 h
      have hstarts : ∀ path ∈ Path.firstOccurrences first.paths, good path := by
        intro path hpath
        obtain ⟨start, hstart, found, hfound, hpath⟩ :=
          of_mem_step hfirst (Path.mem_firstOccurrences.1 hpath)
        exact forall_stepFrom hkept (by simp) (hgood start hstart) hfound path hpath
      have hreached := ih hkept.tail hstarts hends
      exact hreached

/-- Each path that a glob finds is the canonical form of a file that its components reach. -/
theorem exists_candidate {glob path : Path} {found : Reached}
    (hkept : KeptBySteps scope.files glob.parts good) (hstart : good (scope.start glob))
    (h : expand scope glob = .ok found) (hmem : path ∈ found.paths) :
    ∃ candidate, good candidate ∧ scope.files.isFile candidate = .ok true ∧
      scope.files.resolve candidate = .ok path := by
  obtain ⟨reached, kept, hreached, hkeep, rfl⟩ := expandPruning_eq_ok.1 h
  obtain ⟨candidate, hcandidate, hfile, -, hresolve⟩ := (mem_keepFiles hkeep).1 hmem
  exact ⟨candidate, forall_steps hkept (by simpa using hstart) hreached candidate hcandidate, hfile,
    hresolve⟩

/-- Whether a path is the canonical form of a file that a plain path leads to. -/
def IsFileOf (fs : FileSystem) (path : Path) : Prop :=
  ∃ reached : Path, reached.Plain ∧ fs.isFile reached = .ok true ∧ fs.resolve reached = .ok path

theorem isFileOf_of_mem_expand {text : Text} {found : Reached} {path : Path}
    (hcall : scope.viewpoint.call.Plain) (h : expand scope (.ofText text) = .ok found)
    (hmem : path ∈ found.paths) : IsFileOf scope.files path := by
  have hstart : (scope.start (.ofText text)).Plain := by
    rw [Scope.start]
    split
    · exact Path.plain_nil _
    · exact hcall
  have hkept : KeptBySteps scope.files (Path.ofText text).parts Path.Plain :=
    keptBySteps_consists scope.files (fun _ => isComponent_of_isEntryName)
      fun segment hsegment _ => Path.plain_ofText text segment hsegment
  exact exists_candidate hkept hstart h hmem

end ProjectLint.Glob
