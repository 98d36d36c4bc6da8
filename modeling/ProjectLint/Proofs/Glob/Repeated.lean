import ProjectLint.Proofs.Glob.Meaning

/-!
Expanding `**` twice in a row. The second one walks once more from each directory that the first one
has visited. Such a walk is a part of the walk before it, so it reaches nothing new, and whatever it
reaches again has been reached before in the same order. Main statement: of several `**` in a row all
but one can be left out of a glob.
-/

namespace ProjectLint.Glob

variable {fs : FileSystem} {pruned : Pruning}

/-- The visits of walks that start at several paths, one after the other. -/
def walks (fs : FileSystem) (pruned : Pruning) : List Path → Except Failure (List Visit)
  | [] => .ok []
  | start :: starts =>
      match walk fs pruned start with
      | .error failure => .error failure
      | .ok visits =>
          match walks fs pruned starts with
          | .error failure => .error failure
          | .ok others => .ok (visits ++ others)

/-- What a `**` leads to is told by the visits of the walks. -/
theorem step_anyDepth (scope : Scope) (pruned : Pruning) (last : Bool) (starts : List Path) :
    step scope pruned anyDepth last starts =
      (walks scope.files pruned starts).map fun visits =>
        ⟨visits.flatMap (Visit.paths last), visits.map (·.directory)⟩ := by
  induction starts with
  | nil => rfl
  | cons start starts ih =>
      rw [step, stepFrom, if_pos rfl, walks, ih]
      cases walk scope.files pruned start with
      | error failure => rfl
      | ok visits =>
          cases walks scope.files pruned starts with
          | error failure => rfl
          | ok others =>
              simp only [Except.map, Reached.append, List.flatMap_append, List.map_append]
              rfl

/-- The visits of a walk; none if it fails. -/
def visitsFrom (fs : FileSystem) (pruned : Pruning) (start : Path) : List Visit :=
  match walk fs pruned start with
  | .error _ => []
  | .ok visits => visits

theorem visitsFrom_of_walk {start : Path} {visits : List Visit}
    (h : walk fs pruned start = .ok visits) : visitsFrom fs pruned start = visits := by
  rw [visitsFrom, h]

theorem walks_eq_ok {starts : List Path} {visits : List Visit} :
    walks fs pruned starts = .ok visits ↔
      (∀ start ∈ starts, walk fs pruned start = .ok (visitsFrom fs pruned start)) ∧
        visits = starts.flatMap (visitsFrom fs pruned) := by
  induction starts generalizing visits with
  | nil => simp [walks, eq_comm]
  | cons start starts ih =>
      rw [walks, List.forall_mem_cons, List.flatMap_cons]
      cases hwalk : walk fs pruned start with
      | error failure => simp
      | ok first =>
          rw [visitsFrom_of_walk hwalk]
          constructor
          · intro h
            cases hothers : walks fs pruned starts with
            | error failure => simp [hothers] at h
            | ok others =>
                obtain ⟨hstarts, rfl⟩ := ih.1 hothers
                simp only [hothers, Except.ok.injEq] at h
                exact ⟨⟨rfl, hstarts⟩, h.symm⟩
          · rintro ⟨⟨-, hstarts⟩, rfl⟩
            rw [ih.2 ⟨hstarts, rfl⟩]

/-- A walk that visits anything visits its start first. -/
theorem directory_of_walk {start : Path} {visit : Visit} {others : List Visit}
    (h : walk fs pruned start = .ok (visit :: others)) : visit.directory = start := by
  rw [walk] at h
  cases hnode : fs.node? start with
  | error fault => simp [hnode] at h
  | ok node =>
      simp only [hnode] at h
      cases node with
      | file _ | link _ => simp [walkNode] at h
      | directory entries =>
          obtain ⟨names, below, -, -, hvisits⟩ :=
            (walkNode_directory_eq_ok (isTooLong_of_node? hnode)).1 h
          rw [(List.cons.inj hvisits).1]

/-- Walks from all the directories that a walk has visited lead to what it leads to itself, in the
same order. -/
theorem firstOccurrences_subwalks {last : Bool} {start : Path} {visits : List Visit}
    (h : walk fs pruned start = .ok visits) :
    Path.firstOccurrences ((visits.map (·.directory)).flatMap fun p =>
        (visitsFrom fs pruned p).flatMap (Visit.paths last)) =
      Path.firstOccurrences (visits.flatMap (Visit.paths last)) := by
  cases visits with
  | nil => rfl
  | cons visit others =>
      have hsubwalks := hasSubwalks_walk h
      rw [List.map_cons, List.flatMap_cons, directory_of_walk h, visitsFrom_of_walk h]
      refine Path.firstOccurrences_append_of_subset fun q hq => ?_
      obtain ⟨p, hp, hq⟩ := List.mem_flatMap.1 hq
      obtain ⟨other, hother, rfl⟩ := List.mem_map.1 hp
      obtain ⟨inner, hinner, hsubset⟩ := hsubwalks other (List.mem_cons_of_mem _ hother)
      rw [visitsFrom_of_walk hinner] at hq
      obtain ⟨deeper, hdeeper, hq⟩ := List.mem_flatMap.1 hq
      exact List.mem_flatMap.2 ⟨deeper, hsubset deeper hdeeper, hq⟩

/-- Walks go on from what they have visited, and lead to the same again. -/
theorem walks_again (last : Bool) {starts : List Path} {visits : List Visit}
    (h : walks fs pruned starts = .ok visits) :
    ∃ again,
      walks fs pruned (Path.firstOccurrences (visits.map (·.directory))) = .ok again ∧
        Path.firstOccurrences (again.flatMap (Visit.paths last)) =
          Path.firstOccurrences (visits.flatMap (Visit.paths last)) := by
  obtain ⟨hstarts, rfl⟩ := walks_eq_ok.1 h
  refine ⟨_, walks_eq_ok.2 ⟨?_, rfl⟩, ?_⟩
  · intro p hp
    obtain ⟨visit, hvisit, rfl⟩ := List.mem_map.1 (Path.mem_firstOccurrences.1 hp)
    obtain ⟨start, hstart, hvisit⟩ := List.mem_flatMap.1 hvisit
    obtain ⟨inner, hinner, -⟩ := hasSubwalks_walk (hstarts start hstart) visit hvisit
    rw [visitsFrom_of_walk hinner, hinner]
  · rw [List.flatMap_assoc, Path.firstOccurrences_flatMap, List.map_flatMap, List.flatMap_assoc,
      List.flatMap_assoc]
    exact Path.firstOccurrences_flatMap_congr fun p hp => firstOccurrences_subwalks (hstarts p hp)

/-- Where components lead after a second `**` is where they lead after the first one. -/
theorem paths_steps_repeated (scope : Scope) (pruned : Pruning) (segments : List Text)
    (starts : List Path) :
    (steps scope pruned true (anyDepth :: anyDepth :: segments) starts).map Reached.paths =
      (steps scope pruned true (anyDepth :: segments) starts).map Reached.paths := by
  rw [steps, steps, step_anyDepth, step_anyDepth]
  cases hwalks : walks scope.files pruned starts with
  | error failure => rfl
  | ok visits =>
      have hdirectories : visits.flatMap (Visit.paths false) = visits.map (·.directory) := by
        rw [List.map_eq_flatMap]
        rfl
      obtain ⟨again, hagain, hfirst⟩ := walks_again (true && segments.isEmpty) hwalks
      simp only [Except.map, List.isEmpty_cons, Bool.and_false, hdirectories]
      rw [steps, step_anyDepth, hagain]
      simp only [Except.map, hfirst]
      cases steps scope pruned true segments _ <;> rfl

theorem paths_steps_append (scope : Scope) (pruned : Pruning) (final : Bool)
    (segments : List Text) {others : List Text} (h : others ≠ []) (starts : List Path) :
    (steps scope pruned final (segments ++ others) starts).map Reached.paths =
      ((steps scope pruned false segments starts).map Reached.paths).bind fun paths =>
        (steps scope pruned final others paths).map Reached.paths := by
  rw [steps_append scope pruned final segments h]
  cases steps scope pruned false segments starts with
  | error failure => rfl
  | ok reached =>
      simp only [Except.map, Except.bind]
      cases steps scope pruned final others reached.paths <;> rfl

theorem paths_expandPruning (pruned : Pruning) (scope : Scope) (glob : Path) :
    (expandPruning pruned scope glob).map Reached.paths =
      ((steps scope pruned true glob.parts [scope.start glob]).map Reached.paths).bind
        (keepFiles scope) := by
  rw [expandPruning]
  cases steps scope pruned true glob.parts [scope.start glob] with
  | error failure => rfl
  | ok reached =>
      simp only [Except.map, Except.bind]
      cases keepFiles scope reached.paths <;> rfl

/-- A `**` that follows another one changes nothing about what a glob finds, nor about how its
expansion fails. -/
theorem expand_repeated_anyDepth (scope : Scope) (anchor : Anchor) (before after : List Text) :
    (expand scope ⟨anchor, before ++ anyDepth :: anyDepth :: after⟩).map Reached.paths =
      (expand scope ⟨anchor, before ++ anyDepth :: after⟩).map Reached.paths := by
  have hstart : scope.start ⟨anchor, before ++ anyDepth :: anyDepth :: after⟩ =
      scope.start ⟨anchor, before ++ anyDepth :: after⟩ := rfl
  rw [expand, expand, paths_expandPruning, paths_expandPruning, hstart,
    paths_steps_append _ _ _ _ (by simp), paths_steps_append _ _ _ _ (by simp)]
  simp only [paths_steps_repeated]

/-- A directory with a file, and with a directory below it that has one too. -/
def twoLevels : Scope :=
  ⟨⟨[("a", .directory [("b", .directory [("y.js", .file [])]), ("x.js", .file [])])], [], rfl⟩, [],
    ⟨.absolute [], .absolute []⟩, none⟩

-- The second `**` walks from `a` and from `a/b`, and so comes to `y.js` twice.
example :
    (expand twoLevels (.ofText "a/**/**/*.js")).map Reached.paths =
      .ok [.absolute ["a", "x.js"], .absolute ["a", "b", "y.js"]] := by
  rfl

end ProjectLint.Glob
