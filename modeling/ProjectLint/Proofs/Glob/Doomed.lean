import ProjectLint.Proofs.Glob.Pruning

/-!
What an expansion loses by pruning. A directory that a walk can prune dooms itself and whatever lies
below it, as long as no `..` leads up again. With and without pruning an expansion reaches the same
paths in the same order, doomed ones apart. Main statement: if every doomed file that is reached is
ignored, pruning changes nothing about the files that are found.
-/

namespace ProjectLint.Glob

variable {fs : FileSystem} {skip : Path → Bool}

/-- Whether a path is one of a directory that a walk can prune, or leads on from one downwards. -/
def Doomed (fs : FileSystem) (skip : Path → Bool) (p : Path) : Prop :=
  ∃ above name below, p.parts = above ++ name :: below ∧ isHidden name = false ∧
    skip ⟨p.anchor, above ++ [name]⟩ = true ∧ parentPart ∉ below ∧
    (below ≠ [] ∨ (fs.entries? p).isSome = true)

theorem Doomed.child {p : Path} (hp : Doomed fs skip p) {name : Text} (hname : name ≠ parentPart) :
    Doomed fs skip (p.child name) := by
  obtain ⟨above, first, below, hparts, hhidden, hskip, hbelow, -⟩ := hp
  refine ⟨above, first, below ++ [name], ?_, hhidden, hskip, ?_, Or.inl (by simp)⟩
  · simp [Path.child, hparts]
  · simp only [List.mem_append, List.mem_singleton, not_or]
    exact ⟨hbelow, Ne.symm hname⟩

/-- A directory to which the way from another one is not open is doomed. -/
theorem doomed_of_not_openWay {start p : Path} (hunder : Under start p)
    (hdown : ∀ below, p.parts = start.parts ++ below → parentPart ∉ below)
    (hdirectory : (fs.entries? p).isSome = true) (h : ¬OpenWay skip start p) :
    Doomed fs skip p := by
  simp only [OpenWay, Classical.not_forall] at h
  obtain ⟨way, name, below, hparts, hhidden, hskip⟩ := h
  refine ⟨start.parts ++ way, name, below, hparts, hhidden, ?_, ?_, Or.inr hdirectory⟩
  · rw [hunder.1]
    simpa using hskip
  · have hnone := hdown (way ++ name :: below) (by rw [hparts, List.append_assoc])
    simp only [List.mem_append, List.mem_cons, not_or] at hnone
    exact hnone.2.2

open Classical in
/-- The paths of a list that are not doomed. -/
noncomputable def spared (fs : FileSystem) (skip : Path → Bool) (paths : List Path) : List Path :=
  paths.filter fun p => decide (¬Doomed fs skip p)

theorem mem_spared {p : Path} {paths : List Path} :
    p ∈ spared fs skip paths ↔ p ∈ paths ∧ ¬Doomed fs skip p := by
  simp [spared]

theorem spared_append (paths others : List Path) :
    spared fs skip (paths ++ others) = spared fs skip paths ++ spared fs skip others := by
  simp [spared]

theorem spared_eq_nil {paths : List Path} (h : ∀ p ∈ paths, Doomed fs skip p) :
    spared fs skip paths = [] := by
  refine List.filter_eq_nil_iff.2 fun p hp => ?_
  simpa using h p hp

theorem spared_cons_of_doomed {p : Path} {paths : List Path} (h : Doomed fs skip p) :
    spared fs skip (p :: paths) = spared fs skip paths := by
  simp [spared, h]

theorem spared_cons {p : Path} {paths : List Path} (h : ¬Doomed fs skip p) :
    spared fs skip (p :: paths) = p :: spared fs skip paths := by
  simp [spared, h]

/-- Whether paths are some of others, and all of them but doomed ones, in the same order. -/
structure Thinned (fs : FileSystem) (skip : Path → Bool) (found whole : List Path) : Prop where
  subset : ∀ p ∈ found, p ∈ whole
  spared : spared fs skip found = spared fs skip whole

theorem thinned_refl (paths : List Path) : Thinned fs skip paths paths :=
  ⟨fun _ => id, rfl⟩

theorem Thinned.firstOccurrences {found whole : List Path} (h : Thinned fs skip found whole) :
    Thinned fs skip (Path.firstOccurrences found) (Path.firstOccurrences whole) := by
  constructor
  · intro p hp
    exact Path.mem_firstOccurrences.2 (h.subset p (Path.mem_firstOccurrences.1 hp))
  · have hspared := h.spared
    rw [Glob.spared, Glob.spared] at hspared ⊢
    rw [← Path.firstOccurrences_filter, ← Path.firstOccurrences_filter, hspared]

/-- What single paths lead to is thinned together with them, if doomed ones lead to doomed ones. -/
theorem Thinned.flatMap {found whole : List Path} {leads all : Path → List Path}
    (h : Thinned fs skip found whole) (hleads : ∀ p, Thinned fs skip (leads p) (all p))
    (hdoomed : ∀ p, Doomed fs skip p → ∀ q ∈ all p, Doomed fs skip q) :
    Thinned fs skip (found.flatMap leads) (whole.flatMap all) := by
  have hspared : ∀ {on : Path → List Path}, (∀ p, Glob.spared fs skip (on p) =
      Glob.spared fs skip (all p)) → ∀ paths : List Path,
        Glob.spared fs skip (paths.flatMap on) =
          (Glob.spared fs skip paths).flatMap fun p => Glob.spared fs skip (all p) := by
    intro on hon paths
    induction paths with
    | nil => rfl
    | cons p paths ih =>
        rw [List.flatMap_cons, spared_append, ih, hon p]
        by_cases hp : Doomed fs skip p
        · rw [spared_cons_of_doomed hp, spared_eq_nil (hdoomed p hp), List.nil_append]
        · rw [spared_cons hp, List.flatMap_cons]
  constructor
  · intro q hq
    obtain ⟨p, hp, hq⟩ := List.mem_flatMap.1 hq
    exact List.mem_flatMap.2 ⟨p, h.subset p hp, (hleads p).subset q hq⟩
  · rw [hspared (fun p => (hleads p).spared), hspared fun _ => rfl, h.spared]

/-- Whether a visit is one of a directory below another one, found without going up. -/
def Visit.Descends (fs : FileSystem) (start : Path) (visit : Visit) : Prop :=
  visit.Holds fs fun p => p.anchor = start.anchor ∧
    ∃ below, p.parts = start.parts ++ below ∧ parentPart ∉ below

theorem descends_of_walk {pruned : Pruning} {start : Path} {visits : List Visit}
    (h : walk fs pruned start = .ok visits) : ∀ visit ∈ visits, visit.Descends fs start := by
  refine forall_walk ?_ ⟨rfl, [], by simp, by simp⟩ h
  rintro p entries inner name ⟨hanchor, below, hparts, hdown⟩ hnode hmem - -
  refine ⟨hanchor, below ++ [name], by simp [Path.child, hparts], ?_⟩
  have hname := ne_parentPart_of_isEntryName (FileSystem.isEntryName_of_node? hnode hmem)
  simp only [List.mem_append, List.mem_singleton, not_or]
  exact ⟨hdown, Ne.symm hname⟩

theorem doomed_of_visit {start : Path} {visit : Visit} (hvisit : visit.Descends fs start)
    {last : Bool} (hdirectory : Doomed fs skip visit.directory) :
    ∀ q ∈ visit.paths last, Doomed fs skip q := by
  obtain ⟨-, entries, hnode, hfiles⟩ := hvisit
  intro q hq
  rcases (mem_visitPaths hfiles).1 hq with rfl | ⟨-, name, node, hmem, -, -, rfl⟩
  · exact hdirectory
  · exact hdirectory.child
      (ne_parentPart_of_isEntryName (FileSystem.isEntryName_of_node? hnode hmem))

theorem doomed_of_descends {start : Path} {visit : Visit} (hvisit : visit.Descends fs start)
    (hstart : Doomed fs skip start) : Doomed fs skip visit.directory := by
  obtain ⟨⟨hanchor, below, hparts, hdown⟩, entries, hnode, -⟩ := hvisit
  obtain ⟨above, name, under, habove, hhidden, hskip, hunder, -⟩ := hstart
  refine ⟨above, name, under ++ below, by simp [hparts, habove], hhidden, ?_, ?_, Or.inr ?_⟩
  · rw [hanchor]
    exact hskip
  · simp only [List.mem_append, not_or]
    exact ⟨hunder, hdown⟩
  · rw [FileSystem.entries?_eq_some.2 hnode]
    rfl

/-- The visits that a walk makes without pruning are thinned by pruning. -/
theorem thinned_openVisits {start : Path} {visits : List Visit}
    (hvisits : ∀ visit ∈ visits, visit.Descends fs start) (last : Bool) :
    Thinned fs skip ((openVisits skip start visits).flatMap (Visit.paths last))
      (visits.flatMap (Visit.paths last)) := by
  constructor
  · intro q hq
    obtain ⟨visit, hvisit, hq⟩ := List.mem_flatMap.1 hq
    exact List.mem_flatMap.2 ⟨visit, (mem_openVisits.1 hvisit).1, hq⟩
  · induction visits with
    | nil => rfl
    | cons visit visits ih =>
        have hrest := ih fun other hmem => hvisits other (List.mem_cons_of_mem _ hmem)
        have hvisit := hvisits visit (by simp)
        by_cases hopen : OpenWay skip start visit.directory
        · have hcons : openVisits skip start (visit :: visits) =
              visit :: openVisits skip start visits := by
            simp [openVisits, hopen]
          rw [hcons, List.flatMap_cons, List.flatMap_cons, spared_append, spared_append, hrest]
        · have hcons : openVisits skip start (visit :: visits) =
              openVisits skip start visits := by
            simp [openVisits, hopen]
          have hdoomed : Doomed fs skip visit.directory := by
            obtain ⟨⟨hanchor, below, hparts, hdown⟩, entries, hnode, -⟩ := hvisit
            refine doomed_of_not_openWay ⟨hanchor, below, hparts⟩ ?_ ?_ hopen
            · intro other hother
              rw [hparts] at hother
              rw [← List.append_cancel_left hother]
              exact hdown
            · rw [FileSystem.entries?_eq_some.2 hnode]
              rfl
          rw [hcons, List.flatMap_cons, spared_append,
            spared_eq_nil (doomed_of_visit hvisit hdoomed), List.nil_append, hrest]

variable {scope : Scope}

theorem namesIn_ne_parentPart {directory : Path} {segment name : Text}
    (hsegment : segment ≠ parentPart) (h : name ∈ namesIn fs directory segment) :
    name ≠ parentPart := by
  rcases mem_namesIn.1 h with ⟨-, entries, node, hentries, hmem, -⟩ | ⟨-, rfl, -⟩
  · exact ne_parentPart_of_isEntryName
      (FileSystem.isEntryName_of_node? (FileSystem.entries?_eq_some.1 hentries) hmem)
  · exact hsegment

/-- Where a component leads from one path, with and without pruning. -/
theorem thinned_stepFrom (skip : Path → Bool) (hreadable : scope.unreadable = none)
    (segment : Text) (last : Bool) (hsegment : segment ≠ parentPart) :
    ∃ leads all : Path → Reached,
      (∀ p, stepFrom scope (answering skip) segment last p = .ok (leads p)) ∧
      (∀ p, stepFrom scope noPruning segment last p = .ok (all p)) ∧
      (∀ p, Thinned scope.files skip (leads p).paths (all p).paths) ∧
      ∀ p, Doomed scope.files skip p → ∀ q ∈ (all p).paths, Doomed scope.files skip q := by
  by_cases hdepth : segment = anyDepth
  · subst hdepth
    have hwalk := walk_answering scope.files skip
    refine ⟨_, _, fun p => stepFrom_of_walk (hwalk p).choose_spec.2.1,
      fun p => stepFrom_of_walk (hwalk p).choose_spec.1, ?_, ?_⟩
    · intro p
      exact thinned_openVisits (descends_of_walk (hwalk p).choose_spec.1) last
    · intro p hp q hq
      obtain ⟨visit, hvisit, hq⟩ := List.mem_flatMap.1 hq
      have hdescends := descends_of_walk (hwalk p).choose_spec.1 visit hvisit
      exact doomed_of_visit hdescends (doomed_of_descends hdescends hp) q hq
  · refine ⟨_, _, stepFrom_of_ne hdepth hreadable _ last, stepFrom_of_ne hdepth hreadable _ last,
      fun p => thinned_refl _, ?_⟩
    intro p hp q hq
    obtain ⟨name, hname, rfl⟩ := List.mem_map.1 hq
    exact hp.child (namesIn_ne_parentPart hsegment hname)

/-- Where a component leads from several paths, if each of them leads somewhere. -/
theorem step_eq_ok {pruned : Pruning} {segment : Text} {last : Bool} {leads : Path → Reached}
    (h : ∀ p, stepFrom scope pruned segment last p = .ok (leads p)) (starts : List Path) :
    ∃ reached, step scope pruned segment last starts = .ok reached ∧
      reached.paths = starts.flatMap fun p => (leads p).paths := by
  induction starts with
  | nil => exact ⟨⟨[], []⟩, rfl, rfl⟩
  | cons start starts ih =>
      obtain ⟨others, hothers, hpaths⟩ := ih
      refine ⟨(leads start).append others, ?_, ?_⟩
      · simp only [step, h start, hothers]
      · rw [List.flatMap_cons, ← hpaths]
        rfl

theorem thinned_steps (hreadable : scope.unreadable = none) {segments : List Text}
    (hsegments : parentPart ∉ segments) (final : Bool) {found whole : List Path}
    (h : Thinned scope.files skip found whole) :
    ∃ reached others, steps scope (answering skip) final segments found = .ok reached ∧
      steps scope noPruning final segments whole = .ok others ∧
      Thinned scope.files skip reached.paths others.paths := by
  induction segments generalizing found whole with
  | nil => exact ⟨_, _, rfl, rfl, h⟩
  | cons segment segments ih =>
      simp only [List.mem_cons, not_or] at hsegments
      obtain ⟨leads, all, hleads, hall, hthinned, hdoomed⟩ :=
        thinned_stepFrom skip hreadable segment (final && segments.isEmpty) (Ne.symm hsegments.1)
      obtain ⟨reached, hreached, hpaths⟩ := step_eq_ok hleads found
      obtain ⟨others, hothers, hwhole⟩ := step_eq_ok hall whole
      have hnext : Thinned scope.files skip reached.paths others.paths := by
        rw [hpaths, hwhole]
        exact h.flatMap hthinned hdoomed
      obtain ⟨ends, rest, hends, hrest, hlast⟩ := ih hsegments.2 hnext.firstOccurrences
      refine ⟨⟨ends.paths, reached.walked ++ ends.walked⟩,
        ⟨rest.paths, others.walked ++ rest.walked⟩, ?_, ?_, hlast⟩
      · simp only [steps, hreached, hends]
      · simp only [steps, hothers, hrest]

/-- Whether no component after the first `**` leads up. -/
def StaysBelow (segments : List Text) : Prop :=
  ∀ before after, segments = before ++ anyDepth :: after → parentPart ∉ after

theorem StaysBelow.tail {segment : Text} {segments : List Text}
    (h : StaysBelow (segment :: segments)) : StaysBelow segments :=
  fun before after hsplit => h (segment :: before) after (by rw [hsplit]; rfl)

/-- An expansion reaches the same with and without pruning, doomed paths apart. -/
theorem thinned_steps_of_staysBelow (skip : Path → Bool) (hreadable : scope.unreadable = none)
    {segments : List Text} (hsegments : StaysBelow segments) (final : Bool) (starts : List Path) :
    ∃ reached others, steps scope (answering skip) final segments starts = .ok reached ∧
      steps scope noPruning final segments starts = .ok others ∧
      Thinned scope.files skip reached.paths others.paths := by
  induction segments generalizing starts with
  | nil => exact ⟨_, _, rfl, rfl, thinned_refl starts⟩
  | cons segment segments ih =>
      by_cases hdepth : segment = anyDepth
      · have hdown : parentPart ∉ segment :: segments := by
          simp only [List.mem_cons, not_or]
          refine ⟨by rw [hdepth]; decide, hsegments [] segments (by rw [hdepth]; rfl)⟩
        exact thinned_steps hreadable hdown final (thinned_refl starts)
      · -- Without a `**` no directory is tested, so both steps are the same.
        have hstep := fun pruned => stepFrom_of_ne hdepth hreadable pruned
          (final && segments.isEmpty)
        obtain ⟨first, hfirst, hpaths⟩ := step_eq_ok (hstep (answering skip)) starts
        obtain ⟨other, hother, hothers⟩ := step_eq_ok (hstep noPruning) starts
        obtain ⟨reached, others, hreached, hrest, hthinned⟩ :=
          ih hsegments.tail (Path.firstOccurrences first.paths)
        refine ⟨⟨reached.paths, first.walked ++ reached.walked⟩,
          ⟨others.paths, other.walked ++ others.walked⟩, ?_, ?_, hthinned⟩
        · simp only [steps, hfirst, hreached]
        · simp only [steps, hother, hothers, ← hpaths, hrest]

theorem isFile_eq_error {path : Path} {errno : Errno} (h : fs.isFile path = .error errno) :
    errno = .nameTooLong := by
  rw [FileSystem.isFile, FileSystem.names] at h
  split at h
  · cases h
  · cases h
    rfl
  · cases h

theorem entries?_of_isFile {path : Path} (h : fs.isFile path = .ok true) :
    fs.entries? path = none := by
  obtain ⟨content, hnode⟩ := FileSystem.isFile_eq_true.1 h
  rw [FileSystem.entries?, hnode]

/-- Whether an expansion finds files and ends well. -/
def Finds (run : Except Failure Reached) (files : List Path) : Prop :=
  ∃ walked, run = .ok ⟨files, walked⟩

/-- Whether a glob finds the same files as it would without pruning. Only where a path is too long
for the system can the expansion without pruning fail alone, in a directory that is left out. -/
def SameFiles (scope : Scope) (glob : Path) : Prop :=
  (∀ files, Finds (expandPruning noPruning scope glob) files → Finds (expand scope glob) files) ∧
    ∀ files, Finds (expand scope glob) files →
      Finds (expandPruning noPruning scope glob) files ∨
        ∃ text, expandPruning noPruning scope glob = .error (.refused .nameTooLong text)

theorem finds_expandPruning {pruned : Pruning} {glob : Path} {reached : Reached}
    (h : steps scope pruned true glob.parts [scope.start glob] = .ok reached) (files : List Path) :
    Finds (expandPruning pruned scope glob) files ↔ keepFiles scope reached.paths = .ok files := by
  rw [Finds, expandPruning, h]
  simp only
  cases keepFiles scope reached.paths with
  | error failure => simp
  | ok kept => simp

section Kept

variable {found whole : List Path}

theorem filterMap_spared {keep : Path → Option Path} {paths : List Path}
    (h : ∀ p ∈ paths, Doomed fs skip p → keep p = none) :
    (spared fs skip paths).filterMap keep = paths.filterMap keep := by
  induction paths with
  | nil => rfl
  | cons p paths ih =>
      obtain ⟨hfirst, hrest⟩ := List.forall_mem_cons.1 h
      by_cases hp : Doomed fs skip p
      · rw [spared_cons_of_doomed hp, ih hrest, List.filterMap_cons, hfirst hp]
      · rw [spared_cons hp, List.filterMap_cons, List.filterMap_cons, ih hrest]

/-- What is thinned comes to the same if doomed paths come to nothing. -/
theorem Thinned.filterMap_eq (h : Thinned fs skip found whole) {keep : Path → Option Path}
    (hkeep : ∀ p ∈ whole, Doomed fs skip p → keep p = none) :
    found.filterMap keep = whole.filterMap keep := by
  rw [← filterMap_spared hkeep, ← filterMap_spared fun p hp => hkeep p (h.subset p hp), h.spared]

theorem Thinned.mem_of_not_doomed (h : Thinned fs skip found whole) {p : Path} (hp : p ∈ whole)
    (hspared : ¬Doomed fs skip p) : p ∈ found := by
  have hmem := mem_spared.2 ⟨hp, hspared⟩
  rw [← h.spared] at hmem
  exact (mem_spared.1 hmem).1

variable (hthinned : Thinned scope.files skip found whole)
  (hignored : ∀ p ∈ whole, Doomed scope.files skip p → scope.files.isFile p = .ok true →
    scope.ignored.ignoresWhileGlobbing scope.viewpoint p = .ok true)

include hignored

theorem kept?_of_doomed : ∀ p ∈ whole, Doomed scope.files skip p → kept? scope p = none := by
  intro p hp hdoomed
  refine Option.eq_none_iff_forall_not_mem.2 fun file hfile => ?_
  obtain ⟨hisFile, hkept, -⟩ := keepOne_eq_some.1 (kept?_eq_some.1 hfile)
  rw [hignored p hp hdoomed hisFile] at hkept
  cases hkept

/-- A doomed path ends an expansion only if it is not even known to be a file. -/
theorem keepOne_eq_error_of_doomed {p : Path} {failure : Failure} (hp : p ∈ whole)
    (hdoomed : Doomed scope.files skip p) (h : keepOne scope p = .error failure) :
    failure = .refused .nameTooLong (some p.toText) := by
  rcases keepOne_eq_error.1 h with ⟨errno, hfile, rfl⟩ | ⟨hfile, hkept⟩
  · rw [isFile_eq_error hfile]
  · rw [hignored p hp hdoomed hfile] at hkept
    rcases hkept with hkept | ⟨hkept, -⟩
    · cases hkept
    · cases hkept

include hthinned

theorem keepFiles_of_whole {files : List Path} (h : keepFiles scope whole = .ok files) :
    keepFiles scope found = .ok files := by
  obtain ⟨hall, rfl⟩ := keepFiles_eq_ok.1 h
  refine keepFiles_eq_ok.2 ⟨fun p hp => hall p (hthinned.subset p hp), ?_⟩
  exact (hthinned.filterMap_eq (kept?_of_doomed hignored)).symm

theorem keepFiles_of_thinned {files : List Path} (h : keepFiles scope found = .ok files) :
    keepFiles scope whole = .ok files ∨
      ∃ text, keepFiles scope whole = .error (.refused .nameTooLong text) := by
  obtain ⟨hall, rfl⟩ := keepFiles_eq_ok.1 h
  rw [hthinned.filterMap_eq (kept?_of_doomed hignored)]
  cases hwhole : keepFiles scope whole with
  | ok files => exact Or.inl (congrArg _ (keepFiles_eq_ok.1 hwhole).2)
  | error failure =>
      -- The path that fails was left out, so it is doomed.
      obtain ⟨p, hp, hone⟩ := of_keepFiles_eq_error hwhole
      have hdoomed : Doomed scope.files skip p := by
        refine Classical.byContradiction fun hspared => ?_
        have hkept := hall p (hthinned.mem_of_not_doomed hp hspared)
        cases hone.symm.trans hkept
      exact Or.inr ⟨_, congrArg _ (keepOne_eq_error_of_doomed hignored hp hdoomed hone)⟩

end Kept

/-- If every doomed file that is reached is ignored, pruning changes nothing about the files that a
glob finds. -/
theorem sameFiles_of_ignored (hreadable : scope.unreadable = none) {glob : Path}
    (hglob : StaysBelow glob.parts)
    (hprunes : scope.ignored.prunes scope.viewpoint = answering skip)
    (hignored : ∀ others, steps scope noPruning true glob.parts [scope.start glob] = .ok others →
      ∀ p ∈ others.paths, Doomed scope.files skip p → scope.files.isFile p = .ok true →
        scope.ignored.ignoresWhileGlobbing scope.viewpoint p = .ok true) :
    SameFiles scope glob := by
  obtain ⟨reached, others, hreached, hothers, hthinned⟩ :=
    thinned_steps_of_staysBelow skip hreadable hglob true [scope.start glob]
  rw [← hprunes] at hreached
  have hdoomed := hignored others hothers
  refine ⟨fun files h => ?_, fun files h => ?_⟩
  · rw [finds_expandPruning hothers] at h
    exact (finds_expandPruning hreached files).2 (keepFiles_of_whole hthinned hdoomed h)
  · rw [expand, finds_expandPruning hreached] at h
    refine (keepFiles_of_thinned hthinned hdoomed h).imp (finds_expandPruning hothers files).2 ?_
    rintro ⟨text, htext⟩
    refine ⟨text, ?_⟩
    rw [expandPruning, hothers]
    simp only [htext]

end ProjectLint.Glob
