import Mathlib.Data.List.Induction
import ProjectLint.Proofs.FileSystem.Canonical
import ProjectLint.Proofs.Glob.Doomed

/-!
A tree with a single file in it, at the end of a chain of directories. A glob with one wildcard for
each name leads down the chain, and a `**` in its midst can be made to pass through any one
directory. Main statement: if that directory is pruned and the file is not ignored, the glob finds
the file without pruning and not with it.
-/

namespace ProjectLint

/-- An absolute path with some components left out is not longer. -/
theorem Path.isTooLong_of_sublist {anchor : Anchor} {parts others : List Text}
    (habsolute : (Path.mk anchor others).isAbsolute = true) (hparts : parts.Sublist others)
    (h : isTooLong (Path.mk anchor others).toText = false) :
    isTooLong (Path.mk anchor parts).toText = false := by
  simp only [isTooLong, decide_eq_false_iff_not, Nat.not_lt] at h ⊢
  refine Nat.le_trans ?_ h
  have hbody := Text.nameLength_join_le [.scalar '/'] hparts
  cases anchor with
  | relative => cases habsolute
  | root =>
      simp only [toText, Text.nameLength_cons (.scalar '/') (Text.join _ _)]
      omega
  | doubleRoot =>
      simp only [toText, Text.nameLength_cons (.scalar '/') (Text.join _ _),
        Text.nameLength_cons (.scalar '/') (_ :: _)]
      omega

namespace Glob

/-- A chain of directories with an empty file at its end. -/
def chainNode : List Text → Node
  | [] => .file []
  | name :: rest => .directory [(name, chainNode rest)]

theorem wellFormed_chainNode {names : List Text} (h : ∀ name ∈ names, isEntryName name = true) :
    (chainNode names).wellFormed = true := by
  induction names with
  | nil => rfl
  | cons name rest ih =>
      have hrest := ih fun other hmem => h other (List.mem_cons_of_mem _ hmem)
      simp [chainNode, Node.wellFormed, Node.entriesWellFormed, h name (by simp), hrest]

/-- The tree that is such a chain below the root. -/
def chain (first : Text) (rest : List Text)
    (h : ∀ name ∈ first :: rest, isEntryName name = true) : FileSystem where
  entries := [(first, chainNode rest)]
  directory := []
  wellFormed := by
    have hwell := wellFormed_chainNode h
    rwa [chainNode, Node.wellFormed] at hwell

section

variable {first : Text} {rest : List Text} (hnames : ∀ name ∈ first :: rest, isEntryName name = true)
  {anchor : Anchor} (habsolute : (Path.mk anchor (first :: rest)).isAbsolute = true)
  (hshort : isTooLong (Path.mk anchor (first :: rest)).toText = false)

include habsolute hshort in
theorem short_of_split {before after : List Text} (hsplit : first :: rest = before ++ after) :
    isTooLong (Path.mk anchor before).toText = false := by
  rw [hsplit] at hshort habsolute
  exact Path.isTooLong_of_sublist habsolute (List.sublist_append_left before after) hshort

include habsolute hshort in
theorem node?_chain {before after : List Text} (hsplit : first :: rest = before ++ after) :
    (chain first rest hnames).node? ⟨anchor, before⟩ = .ok (chainNode after) := by
  induction before using List.reverseRecOn generalizing after with
  | nil =>
      rw [List.nil_append] at hsplit
      subst hsplit
      refine FileSystem.node?_eq_ok.2 ⟨[], ?_, rfl⟩
      cases anchor with
      | relative => cases habsolute
      | root | doubleRoot => rfl
  | append_singleton before name ih =>
      rw [List.append_assoc, List.singleton_append] at hsplit
      refine FileSystem.node?_child (ih hsplit) (by simp) ?_ ?_
      · intro target
        cases after <;> simp [chainNode]
      · have hnext : first :: rest = (before ++ [name]) ++ after := by
          rw [hsplit]
          simp
        exact short_of_split habsolute hshort hnext

include habsolute hshort in
theorem isFile_chain {before after : List Text} (hsplit : first :: rest = before ++ after) :
    (chain first rest hnames).isFile ⟨anchor, before⟩ = .ok after.isEmpty := by
  rw [FileSystem.isFile, FileSystem.names, node?_chain hnames habsolute hshort hsplit]
  cases after <;> rfl

theorem find?_chainNode_ne_link (names : List Text) {place : Place} {target : Text} :
    Node.find? place (chainNode names) ≠ some (.link target) := by
  induction place generalizing names with
  | nil => cases names <;> simp [Node.find?, chainNode]
  | cons part place ih =>
      cases names with
      | nil => simp [Node.find?, chainNode]
      | cons name names =>
          simp only [chainNode, Node.find?, Node.entryNamed?]
          by_cases hname : name = part
          · simp only [if_pos hname]
            exact ih names
          · simp [if_neg hname]

theorem linkTarget?_chain (path : Path) :
    (chain first rest hnames).linkTarget? path = none := by
  have hnone : ∀ target, (chain first rest hnames).find?
      ((chain first rest hnames).placeOf path) ≠ some (.link target) :=
    fun target => find?_chainNode_ne_link (first :: rest)
  rw [FileSystem.linkTarget?]
  split
  · rename_i target htarget
    exact absurd htarget (hnone target)
  · rfl

include habsolute in
theorem resolve_chain : (chain first rest hnames).resolve ⟨anchor, first :: rest⟩ =
    .ok (.absolute (first :: rest)) :=
  FileSystem.resolve_of_noLink habsolute hnames fun _ _ _ => linkTarget?_chain hnames _

end

/-- A component that matches a name, and other ones. -/
def wildcard (name : Text) : Text :=
  if isHidden name then [.scalar '.', .scalar '*'] else [.scalar '*']

theorem wildcard_ne_anyDepth (name : Text) : wildcard name ≠ anyDepth := by
  rw [wildcard]
  split <;> decide

theorem hasWildcard_wildcard (name : Text) : hasWildcard (wildcard name) = true := by
  rw [wildcard]
  split <;> rfl

theorem matchesAll_many (t : Text) : matchesAll [.many] t = true := by
  rw [matchesAll_cons, List.any_eq_true]
  refine ⟨[], ?_, matchesAll_nil []⟩
  simp only [Piece.rests]
  induction t with
  | nil => simp [Text.afterMany]
  | cons c t ih => simp [Text.afterMany, ih]

theorem matchesName_wildcard (name : Text) : matchesName (wildcard name) name = true := by
  rw [matchesName, wildcard]
  by_cases hhidden : isHidden name = true
  · have hpieces : pieces [.scalar '.', .scalar '*'] = [.exactly (.scalar '.'), .many] := rfl
    have hdot : isHidden [.scalar '.', .scalar '*'] = true := rfl
    rw [if_pos hhidden, hpieces, hdot, matchesAll_cons]
    cases name with
    | nil => cases hhidden
    | cons c name =>
        simp only [isHidden, List.head?_cons, beq_iff_eq, Option.some.injEq] at hhidden
        subst hhidden
        simp [Piece.rests, Text.afterOne, matchesAll_many]
  · have hpieces : pieces [.scalar '*'] = [.many] := rfl
    rw [if_neg hhidden, hpieces, matchesAll_many]
    simp [hhidden]

theorem mem_step {scope : Scope} {pruned : Pruning} {segment : Text} {last : Bool}
    {starts : List Path} {reached first : Reached} {start path : Path}
    (h : step scope pruned segment last starts = .ok reached) (hstart : start ∈ starts)
    (hfirst : stepFrom scope pruned segment last start = .ok first) (hmem : path ∈ first.paths) :
    path ∈ reached.paths := by
  induction starts generalizing reached with
  | nil => cases hstart
  | cons other starts ih =>
      obtain ⟨leads, others, hother, hothers, rfl⟩ := step_cons_eq_ok.1 h
      rcases List.mem_cons.1 hstart with rfl | hstart
      · rw [hother, Except.ok.injEq] at hfirst
        subst hfirst
        exact List.mem_append_left _ hmem
      · exact List.mem_append_right _ (ih hothers hstart)

/-- Each component other than `**` makes paths longer by one name. -/
theorem length_of_mem_steps {scope : Scope} {pruned : Pruning} {final : Bool}
    {segments : List Text} (hsegments : anyDepth ∉ segments) {length : Nat} {starts : List Path}
    {reached : Reached} (hstarts : ∀ path ∈ starts, path.parts.length = length)
    (h : steps scope pruned final segments starts = .ok reached) :
    ∀ path ∈ reached.paths, path.parts.length = length + segments.length := by
  induction segments generalizing length starts reached with
  | nil =>
      simp only [steps, Except.ok.injEq] at h
      subst h
      exact hstarts
  | cons segment segments ih =>
      simp only [List.mem_cons, not_or] at hsegments
      obtain ⟨first, ends, hstep, hrest, rfl⟩ := steps_cons_eq_ok.1 h
      have hfirst : ∀ path ∈ Path.firstOccurrences first.paths,
          path.parts.length = length + 1 := by
        intro path hpath
        obtain ⟨start, hstart, found, hfound, hpath⟩ :=
          of_mem_step hstep (Path.mem_firstOccurrences.1 hpath)
        rcases stepFrom_eq_ok.1 hfound with ⟨hdepth, -⟩ | ⟨-, -, rfl⟩
        · exact absurd hdepth.symm hsegments.1
        · obtain ⟨name, -, rfl⟩ := List.mem_map.1 hpath
          simp [Path.child, hstarts start hstart]
      have hends := ih hsegments.2 hfirst hrest
      intro path hpath
      rw [hends path hpath, List.length_cons]
      omega

section

variable {first : Text} {rest : List Text} (hnames : ∀ name ∈ first :: rest, isEntryName name = true)
  {anchor : Anchor} (habsolute : (Path.mk anchor (first :: rest)).isAbsolute = true)
  (hshort : isTooLong (Path.mk anchor (first :: rest)).toText = false)
  {scope : Scope} (hfiles : scope.files = chain first rest hnames)
  (hreadable : scope.unreadable = none)

include habsolute hshort hfiles hreadable in
theorem stepFrom_wildcard (pruned : Pruning) (last : Bool) {before after : List Text} {name : Text}
    (hsplit : first :: rest = before ++ name :: after) :
    stepFrom scope pruned (wildcard name) last ⟨anchor, before⟩ =
      .ok ⟨[⟨anchor, before ++ [name]⟩], []⟩ := by
  have hentries := FileSystem.entries?_eq_some.2 (node?_chain hnames habsolute hshort hsplit)
  have hnamesIn : namesIn scope.files ⟨anchor, before⟩ (wildcard name) = [name] := by
    rw [namesIn, if_pos (hasWildcard_wildcard name), hfiles, hentries]
    simp [matchesName_wildcard]
  rw [stepFrom_of_ne (wildcard_ne_anyDepth name) hreadable, hnamesIn]
  rfl

include habsolute hshort hfiles hreadable in
theorem steps_wildcards (pruned : Pruning) {before way after : List Text}
    (hsplit : first :: rest = before ++ (way ++ after)) :
    steps scope pruned false (way.map wildcard) [⟨anchor, before⟩] =
      .ok ⟨[⟨anchor, before ++ way⟩], []⟩ := by
  induction way generalizing before with
  | nil => simp [steps]
  | cons name way ih =>
      have hnext : first :: rest = (before ++ [name]) ++ (way ++ after) := by
        rw [hsplit]
        simp
      have hrest := ih hnext
      have hstep := stepFrom_wildcard hnames habsolute hshort hfiles hreadable pruned false hsplit
      have hone : Path.firstOccurrences [⟨anchor, before ++ [name]⟩] =
          [⟨anchor, before ++ [name]⟩] := by
        rw [Path.firstOccurrences_cons]
        rfl
      simp only [List.map_cons, steps, Bool.false_and, step, hstep, Reached.append,
        List.append_nil, hone, hrest]
      simp

include habsolute hshort hfiles hreadable in
theorem mem_steps_wildcards {pruned : Pruning} {final : Bool} {before way after : List Text}
    (hsplit : first :: rest = before ++ (way ++ after)) {starts : List Path} {reached : Reached}
    (hstart : ⟨anchor, before⟩ ∈ starts)
    (h : steps scope pruned final (way.map wildcard) starts = .ok reached) :
    ⟨anchor, before ++ way⟩ ∈ reached.paths := by
  induction way generalizing before starts reached with
  | nil =>
      simp only [List.map_nil, steps, Except.ok.injEq] at h
      subst h
      simpa using hstart
  | cons name way ih =>
      obtain ⟨leads, ends, hstep, hrest, rfl⟩ := steps_cons_eq_ok.1 h
      have hmem := mem_step hstep hstart
        (stepFrom_wildcard hnames habsolute hshort hfiles hreadable pruned _ hsplit)
        (List.mem_singleton.2 rfl)
      have hends := ih (by rw [hsplit]; simp) (Path.mem_firstOccurrences.2 hmem) hrest
      simpa using hends

include habsolute hshort hfiles in
/-- Along a chain with wildcards only, nothing but the chain is reached. -/
theorem keptBySteps_chain {segments : List Text}
    (hsegments : ∀ segment ∈ segments, hasWildcard segment = true) :
    KeptBySteps scope.files segments fun p => p.anchor = anchor ∧ p.parts <+: first :: rest where
  entry := by
    rintro ⟨_, parts⟩ entries name node ⟨rfl, after, hsplit⟩ hnode hmem
    rw [hfiles, node?_chain hnames habsolute hshort hsplit.symm] at hnode
    cases after with
    | nil => cases hnode
    | cons next after =>
        simp only [chainNode, Except.ok.injEq, Node.directory.injEq] at hnode
        subst hnode
        cases List.mem_singleton.1 hmem
        exact ⟨rfl, after, by simpa [Path.child] using hsplit⟩
  segment := by
    intro p segment hp hmem hwild
    rw [hsegments segment hmem] at hwild
    cases hwild

theorem mem_walkNode_self {fs : FileSystem} {pruned : Pruning} {here : Path} {entries : Entries}
    {visits : List Visit} (hshort : isTooLong here.toText = false)
    (h : walkNode fs pruned here (.directory entries) = .ok visits) :
    ∃ visit ∈ visits, visit.directory = here := by
  obtain ⟨names, others, -, -, rfl⟩ := (walkNode_directory_eq_ok hshort).1 h
  exact ⟨_, List.mem_cons_self, rfl⟩

/-- The glob that leads to the end of a chain through a `**` in its midst. -/
def throughDepth (anchor : Anchor) (above below : List Text) : Path :=
  ⟨anchor, above.map wildcard ++ anyDepth :: below.map wildcard⟩

theorem anyDepth_not_mem_wildcards (names : List Text) : anyDepth ∉ names.map wildcard := by
  intro hmem
  obtain ⟨name, -, hname⟩ := List.mem_map.1 hmem
  exact wildcard_ne_anyDepth name hname

theorem hasWildcard_of_mem_throughDepth (anchor : Anchor) (above below : List Text) :
    ∀ segment ∈ (throughDepth anchor above below).parts, hasWildcard segment = true := by
  intro segment hmem
  rcases List.mem_append.1 hmem with hmem | hmem
  · obtain ⟨name, -, rfl⟩ := List.mem_map.1 hmem
    exact hasWildcard_wildcard name
  · rcases List.mem_cons.1 hmem with rfl | hmem
    · rfl
    · obtain ⟨name, -, rfl⟩ := List.mem_map.1 hmem
      exact hasWildcard_wildcard name

variable {above below : List Text} {name : Text} (hsplit : first :: rest = above ++ name :: below)
  (hbelow : below ≠ []) (hhidden : isHidden name = false)

include habsolute in
theorem start_throughDepth :
    scope.start (throughDepth anchor above below) = ⟨anchor, []⟩ := by
  have hroot : (throughDepth anchor above below).isAbsolute = true := habsolute
  rw [Scope.start, if_pos hroot]
  rfl

include habsolute hshort hfiles hreadable hsplit in
theorem steps_throughDepth (pruned : Pruning) :
    steps scope pruned true (throughDepth anchor above below).parts
        [scope.start (throughDepth anchor above below)] =
      steps scope pruned true (anyDepth :: below.map wildcard) [⟨anchor, above⟩] := by
  have habove : steps scope pruned false (above.map wildcard) [⟨anchor, []⟩] =
      .ok ⟨[⟨anchor, [] ++ above⟩], []⟩ :=
    steps_wildcards hnames habsolute hshort hfiles hreadable pruned hsplit
  rw [start_throughDepth habsolute, throughDepth, steps_append scope pruned true _ (by simp),
    habove]
  simp only [List.nil_append]
  cases steps scope pruned true (anyDepth :: below.map wildcard) [⟨anchor, above⟩] <;> rfl

include habsolute hshort hfiles hsplit hbelow hhidden in
theorem mem_walk_chain {visits : List Visit}
    (h : walk scope.files noPruning ⟨anchor, above⟩ = .ok visits) :
    ∃ visit ∈ visits, visit.directory = ⟨anchor, above ++ [name]⟩ := by
  have hnode := node?_chain hnames habsolute hshort hsplit
  have hlong : isTooLong (Path.mk anchor above).toText = false :=
    short_of_split habsolute hshort hsplit
  have hnext : first :: rest = (above ++ [name]) ++ below := by
    rw [hsplit]
    simp
  have hlongNext : isTooLong (Path.mk anchor (above ++ [name])).toText = false :=
    short_of_split habsolute hshort hnext
  have hopen : openNames scope.files noPruning ⟨anchor, above⟩ [(name, chainNode below)] =
      .ok [name] := by
    cases below with
    | nil => exact absurd rfl hbelow
    | cons next deeper =>
        simp [openNames, countsAsDirectory, chainNode, hhidden, noPruning, answering]
  obtain ⟨inner, hinner, -, -⟩ := walkNode_answering scope.files (fun _ => false)
    ((Path.mk anchor above).child name) (chainNode below)
  rw [walk, hfiles, hnode, ← hfiles] at h
  simp only [chainNode, walkNode, hlong, Bool.false_eq_true, if_false, hopen, walkEntries,
    List.contains_cons, beq_self_eq_true, Bool.true_or, if_true, hinner, Except.ok.injEq] at h
  subst h
  obtain ⟨visit, hvisit, hdirectory⟩ :
      ∃ visit ∈ inner, visit.directory = ⟨anchor, above ++ [name]⟩ := by
    cases below with
    | nil => exact absurd rfl hbelow
    | cons next deeper => exact mem_walkNode_self hlongNext hinner
  exact ⟨visit, by simp [hvisit], hdirectory⟩

include habsolute hshort hfiles hsplit in
/-- If the directory is pruned, the walk stays where it starts. -/
theorem walk_chain_of_pruned {pruned : Pruning} {visits : List Visit}
    (hpruned : pruned ⟨anchor, above ++ [name]⟩ = .ok true)
    (h : walk scope.files pruned ⟨anchor, above⟩ = .ok visits) :
    ∀ visit ∈ visits, visit.directory = ⟨anchor, above⟩ := by
  have hnode := node?_chain hnames habsolute hshort hsplit
  have hkept : KeptByWalks scope.files pruned fun p => p = ⟨anchor, above⟩ := by
    rintro p entries inner other rfl hdirectory hmem - hopen
    rw [hfiles, hnode] at hdirectory
    simp only [chainNode, Except.ok.injEq, Node.directory.injEq] at hdirectory
    subst hdirectory
    obtain ⟨rfl, -⟩ := Prod.mk.inj (List.mem_singleton.1 hmem)
    rw [Path.child, hpruned] at hopen
    cases hopen
  exact fun visit hvisit => (forall_walk hkept rfl h visit hvisit).1

theorem staysBelow_throughDepth (anchor : Anchor) (above below : List Text) :
    StaysBelow (throughDepth anchor above below).parts := by
  intro before after hparts hmem
  have hparent : parentPart ∈ (throughDepth anchor above below).parts := by
    rw [hparts]
    simp [hmem]
  have hwild := hasWildcard_of_mem_throughDepth anchor above below parentPart hparent
  cases hwild

include habsolute hshort hfiles in
/-- Every path that is reached is one of the chain, and only its end is a file. -/
theorem isFile_of_mem_throughDepth {pruned : Pruning} {reached : Reached}
    (h : steps scope pruned true (throughDepth anchor above below).parts
      [scope.start (throughDepth anchor above below)] = .ok reached) :
    ∀ p ∈ reached.paths, ∃ found, scope.files.isFile p = .ok found ∧
      (found = true → p = ⟨anchor, first :: rest⟩) := by
  rw [start_throughDepth habsolute] at h
  have hkept := keptBySteps_chain hnames habsolute hshort hfiles
    (hasWildcard_of_mem_throughDepth anchor above below)
  intro p hp
  have hchain := forall_steps hkept (by simp) h p hp
  obtain ⟨_, parts⟩ := p
  obtain ⟨rfl, after, hparts⟩ := hchain
  refine ⟨after.isEmpty, ?_, ?_⟩
  · rw [hfiles]
    exact isFile_chain hnames habsolute hshort hparts.symm
  · intro hempty
    rw [List.isEmpty_iff] at hempty
    subst hempty
    rw [← hparts, List.append_nil]

include habsolute hshort hfiles hreadable hsplit hbelow in
/-- The glob goes on from the directories of a walk, which starts where its `**` stands. -/
theorem of_steps_throughDepth {pruned : Pruning} {reached : Reached}
    (h : steps scope pruned true (throughDepth anchor above below).parts
      [scope.start (throughDepth anchor above below)] = .ok reached) :
    ∃ visits ends, walk scope.files pruned ⟨anchor, above⟩ = .ok visits ∧
      steps scope pruned true (below.map wildcard)
        (Path.firstOccurrences (visits.map (·.directory))) = .ok ends ∧
      reached.paths = ends.paths := by
  rw [steps_throughDepth hnames habsolute hshort hfiles hreadable hsplit] at h
  obtain ⟨first, ends, hfirst, hends, rfl⟩ := steps_cons_eq_ok.1 h
  obtain ⟨depth, none, hdepth, hnone, rfl⟩ := step_cons_eq_ok.1 hfirst
  cases hnone
  rcases stepFrom_eq_ok.1 hdepth with ⟨-, visits, hvisits, rfl⟩ | ⟨hne, -⟩
  · have hlast : (true && (below.map wildcard).isEmpty) = false := by
      cases below with
      | nil => exact absurd rfl hbelow
      | cons next deeper => rfl
    have hpaths : visits.flatMap (Visit.paths false) = visits.map (·.directory) :=
      List.map_eq_flatMap.symm
    rw [hlast, hpaths, Reached.append, List.append_nil] at hends
    exact ⟨visits, ends, hvisits, hends, rfl⟩
  · exact absurd rfl hne

include habsolute hshort hfiles hreadable hsplit hbelow hhidden in
/-- Without pruning the end of the chain is reached. -/
theorem end_mem_of_noPruning {reached : Reached}
    (h : steps scope noPruning true (throughDepth anchor above below).parts
      [scope.start (throughDepth anchor above below)] = .ok reached) :
    ⟨anchor, first :: rest⟩ ∈ reached.paths := by
  obtain ⟨visits, ends, hvisits, hrest, hpaths⟩ :=
    of_steps_throughDepth hnames habsolute hshort hfiles hreadable hsplit hbelow h
  obtain ⟨visit, hvisit, hdirectory⟩ :=
    mem_walk_chain hnames habsolute hshort hfiles hsplit hbelow hhidden hvisits
  have hnext : first :: rest = (above ++ [name]) ++ (below ++ []) := by
    rw [hsplit]
    simp
  have hstart : ⟨anchor, above ++ [name]⟩ ∈ Path.firstOccurrences (visits.map (·.directory)) :=
    Path.mem_firstOccurrences.2 (List.mem_map.2 ⟨visit, hvisit, hdirectory⟩)
  have hends := mem_steps_wildcards hnames habsolute hshort hfiles hreadable hnext hstart hrest
  rw [hpaths, hsplit]
  simpa using hends

include habsolute hshort hfiles hreadable hsplit hbelow in
/-- If the directory is pruned, only paths shorter than the chain are reached. -/
theorem end_not_mem_of_pruned {pruned : Pruning} {reached : Reached}
    (hpruned : pruned ⟨anchor, above ++ [name]⟩ = .ok true)
    (h : steps scope pruned true (throughDepth anchor above below).parts
      [scope.start (throughDepth anchor above below)] = .ok reached) :
    ⟨anchor, first :: rest⟩ ∉ reached.paths := by
  obtain ⟨visits, ends, hvisits, hrest, hpaths⟩ :=
    of_steps_throughDepth hnames habsolute hshort hfiles hreadable hsplit hbelow h
  have hstay := walk_chain_of_pruned hnames habsolute hshort hfiles hsplit hpruned hvisits
  have hstarts : ∀ path ∈ Path.firstOccurrences (visits.map (·.directory)),
      path.parts.length = above.length := by
    intro path hpath
    obtain ⟨visit, hvisit, rfl⟩ := List.mem_map.1 (Path.mem_firstOccurrences.1 hpath)
    rw [hstay visit hvisit]
  have hlength := length_of_mem_steps (anyDepth_not_mem_wildcards below) hstarts hrest
  intro hmem
  rw [hpaths] at hmem
  have hend := hlength _ hmem
  simp only [hsplit, List.length_append, List.length_cons, List.length_map] at hend
  omega

include habsolute hshort hfiles hreadable hsplit hbelow hhidden in
/-- If the directory is pruned and the file is not ignored, pruning loses the file. -/
theorem not_sameFiles_throughDepth
    (hpruned : scope.ignored.prunes scope.viewpoint ⟨anchor, above ++ [name]⟩ = .ok true)
    (hkept : scope.ignored.ignoresWhileGlobbing scope.viewpoint ⟨anchor, first :: rest⟩ =
      .ok false) :
    ¬SameFiles scope (throughDepth anchor above below) := by
  obtain ⟨-, others, -, hothers, -⟩ := thinned_steps_of_staysBelow (fun _ => false) hreadable
    (staysBelow_throughDepth anchor above below) true
    [scope.start (throughDepth anchor above below)]
  have hmem := end_mem_of_noPruning hnames habsolute hshort hfiles hreadable hsplit hbelow hhidden
    hothers
  have hend : keepOne scope ⟨anchor, first :: rest⟩ =
      .ok (some (.absolute (first :: rest))) := by
    have hfile := isFile_chain hnames habsolute hshort (List.append_nil (first :: rest)).symm
    rw [keepOne, hfiles, hfile, hkept, resolve_chain hnames habsolute]
    rfl
  have hall : ∀ p ∈ others.paths, keepOne scope p = .ok (kept? scope p) := by
    intro p hp
    obtain ⟨found, hfound, hlast⟩ :=
      isFile_of_mem_throughDepth hnames habsolute hshort hfiles hothers p hp
    cases found with
    | false => simp [keepOne, kept?, hfound]
    | true => simp [kept?, hlast rfl, hend]
  rintro ⟨hsame, -⟩
  -- Without pruning the expansion ends well and keeps the file; with pruning it would have to be
  -- kept for a path that is reached, and that could only be the end of the chain itself.
  have hwhole := (finds_expandPruning hothers _).2 (keepFiles_eq_ok.2 ⟨hall, rfl⟩)
  obtain ⟨walked, hfound⟩ := hsame _ hwhole
  obtain ⟨reached, files, hreached, hkeep, hpaths⟩ := expandPruning_eq_ok.1 hfound
  cases hpaths
  have hresolvedMem : .absolute (first :: rest) ∈ others.paths.filterMap (kept? scope) :=
    List.mem_filterMap.2 ⟨_, hmem, kept?_of_keepOne hend⟩
  obtain ⟨candidate, hcandidate, hfile, -, -⟩ := (mem_keepFiles hkeep).1 hresolvedMem
  obtain ⟨found, hisFile, hlast⟩ :=
    isFile_of_mem_throughDepth hnames habsolute hshort hfiles hreached candidate hcandidate
  rw [hfile, Except.ok.injEq] at hisFile
  rw [hlast hisFile.symm] at hcandidate
  exact end_not_mem_of_pruned hnames habsolute hshort hfiles hreadable hsplit hbelow hpruned
    hreached hcandidate

end

end Glob
end ProjectLint
