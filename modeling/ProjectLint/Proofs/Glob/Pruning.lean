import ProjectLint.Proofs.Glob.Reach
import ProjectLint.Proofs.Path.Distinct

/-!
What an expansion loses by pruning. The same glob is expanded with a test that prunes and with one
that never does. A pruned directory is doomed, and so is whatever lies below it, as long as no `..`
leads up again. Both expansions reach the same paths in the same order, doomed ones apart. Main
statement: if every doomed file that is reached is ignored, both find the same files.
-/

namespace ProjectLint.Glob

/-- A test of directories that always has an answer. -/
def answering (skip : Path → Bool) : Pruning :=
  fun p => .ok (skip p)

/-- The test that prunes nothing. -/
def noPruning : Pruning :=
  answering fun _ => false

variable {fs : FileSystem} {skip : Path → Bool}

/-- Whether a path is one of a directory or of something below it, by components alone. -/
def Under (here p : Path) : Prop :=
  p.anchor = here.anchor ∧ ∃ below, p.parts = here.parts ++ below

theorem under_refl (p : Path) : Under p p :=
  ⟨rfl, [], by simp⟩

theorem Under.trans {a b c : Path} (hab : Under a b) (hbc : Under b c) : Under a c := by
  obtain ⟨hb, below, hbelow⟩ := hab
  obtain ⟨hc, more, hmore⟩ := hbc
  exact ⟨hc.trans hb, below ++ more, by rw [hmore, hbelow, List.append_assoc]⟩

theorem under_child (p : Path) (name : Text) : Under p (p.child name) :=
  ⟨rfl, [name], rfl⟩

/-- Whether no directory on the way from one path down to another is pruned. -/
def OpenWay (skip : Path → Bool) (start p : Path) : Prop :=
  ∀ way name below, p.parts = start.parts ++ way ++ name :: below → isHidden name = false →
    skip ⟨start.anchor, start.parts ++ way ++ [name]⟩ = false

theorem openWay_self (p : Path) : OpenWay skip p p := by
  intro way name below hparts
  have hlength := congrArg List.length hparts
  simp only [List.length_append, List.length_cons] at hlength
  omega

/-- The way below a directory is open from above if the directory is not pruned itself. -/
theorem openWay_child {here p : Path} {name : Text} (hunder : Under (here.child name) p)
    (hopen : skip (here.child name) = false) :
    OpenWay skip here p ↔ OpenWay skip (here.child name) p := by
  obtain ⟨-, deeper, hparts⟩ := hunder
  have hchild : (here.child name).parts = here.parts ++ [name] := rfl
  constructor
  · intro h way other below hp hhidden
    have hway := h (name :: way) other below (by rw [hp, hchild]; simp) hhidden
    simpa [hchild, Path.child] using hway
  · intro h way other below hp hhidden
    cases way with
    | nil =>
        have hname : name = other := by
          rw [hparts, hchild] at hp
          simp only [List.append_assoc, List.append_cancel_left_eq, List.nil_append,
            List.singleton_append, List.cons.injEq] at hp
          exact hp.1
        subst hname
        simpa [Path.child] using hopen
    | cons first way =>
        have hfirst : name = first := by
          rw [hparts, hchild] at hp
          simp only [List.append_assoc, List.append_cancel_left_eq, List.cons_append,
            List.cons.injEq] at hp
          exact hp.1
        subst hfirst
        have hway := h way other below (by rw [hp, hchild]; simp) hhidden
        simpa [hchild, Path.child] using hway

/-- The way below a pruned directory is not open. -/
theorem not_openWay {here p : Path} {name : Text} (hunder : Under (here.child name) p)
    (hhidden : isHidden name = false) (hskip : skip (here.child name) = true) :
    ¬OpenWay skip here p := by
  obtain ⟨-, deeper, hparts⟩ := hunder
  intro h
  have hopen := h [] name deeper (by rw [hparts]; simp [Path.child]) hhidden
  rw [List.append_nil] at hopen
  exact absurd (hskip.symm.trans hopen) (by simp)

/-- A walk that prunes has the same open names as one that does not, the pruned ones apart. -/
theorem openNames_answering (fs : FileSystem) (skip : Path → Bool) (here : Path)
    (entries : Entries) :
    ∃ names, openNames fs noPruning here entries = .ok names ∧
      openNames fs (answering skip) here entries =
        .ok (names.filter fun name => !skip (here.child name)) ∧
      ∀ name ∈ names, isHidden name = false := by
  induction entries with
  | nil => exact ⟨[], rfl, rfl, by simp⟩
  | cons entry entries ih =>
      obtain ⟨name, node⟩ := entry
      obtain ⟨names, hwhole, hopen, hhidden⟩ := ih
      by_cases hshown : (countsAsDirectory fs here name node && !isHidden name) = true
      · refine ⟨name :: names, ?_, ?_, ?_⟩
        · simp only [openNames, if_pos hshown, hwhole]
          rfl
        · simp only [openNames, if_pos hshown, hopen]
          simp only [answering]
          cases hskip : skip (here.child name) <;> simp [hskip]
        · intro other hmem
          rcases List.mem_cons.1 hmem with rfl | hmem
          · simp only [Bool.and_eq_true, Bool.not_eq_true'] at hshown
            exact hshown.2
          · exact hhidden other hmem
      · refine ⟨names, ?_, ?_, hhidden⟩
        · simp only [openNames, if_neg hshown, hwhole]
        · simp only [openNames, if_neg hshown, hopen]

open Classical in
/-- The visits of a walk to which the way is open. -/
noncomputable def openVisits (skip : Path → Bool) (start : Path) (visits : List Visit) :
    List Visit :=
  visits.filter fun visit => decide (OpenWay skip start visit.directory)

theorem openVisits_append (start : Path) (visits others : List Visit) :
    openVisits skip start (visits ++ others) =
      openVisits skip start visits ++ openVisits skip start others := by
  simp [openVisits]

theorem mem_openVisits {start : Path} {visits : List Visit} {visit : Visit} :
    visit ∈ openVisits skip start visits ↔
      visit ∈ visits ∧ OpenWay skip start visit.directory := by
  simp [openVisits]

theorem openVisits_child {here : Path} {name : Text} {visits : List Visit}
    (hunder : ∀ visit ∈ visits, Under (here.child name) visit.directory)
    (hopen : skip (here.child name) = false) :
    openVisits skip here visits = openVisits skip (here.child name) visits := by
  refine List.filter_congr fun visit hvisit => ?_
  exact decide_eq_decide.2 (openWay_child (hunder visit hvisit) hopen)

theorem openVisits_eq_nil {here : Path} {name : Text} {visits : List Visit}
    (hunder : ∀ visit ∈ visits, Under (here.child name) visit.directory)
    (hhidden : isHidden name = false) (hskip : skip (here.child name) = true) :
    openVisits skip here visits = [] := by
  refine List.filter_eq_nil_iff.2 fun visit hvisit => ?_
  simpa using not_openWay (hunder visit hvisit) hhidden hskip

mutual

theorem walkNode_answering (fs : FileSystem) (skip : Path → Bool) (here : Path) (node : Node) :
    ∃ visits, walkNode fs noPruning here node = .ok visits ∧
      walkNode fs (answering skip) here node = .ok (openVisits skip here visits) ∧
      ∀ visit ∈ visits, Under here visit.directory := by
  cases node with
  | file _ | link _ => exact ⟨[], by simp [walkNode], by simp [walkNode, openVisits], by simp⟩
  | directory entries =>
      by_cases hlong : isTooLong here.toText = true
      · exact ⟨[], by simp [walkNode, hlong], by simp [walkNode, hlong, openVisits], by simp⟩
      · obtain ⟨names, hwhole, hopen, hhidden⟩ := openNames_answering fs skip here entries
        obtain ⟨visits, hvisits, hfound, hunder⟩ :=
          walkEntries_answering fs skip here entries hhidden
        refine ⟨⟨here, shownFiles fs here entries⟩ :: visits, ?_, ?_, ?_⟩
        · simp only [walkNode, if_neg hlong, hwhole, hvisits]
        · simp only [walkNode, if_neg hlong, hopen, hfound]
          simp [openVisits, openWay_self]
        · intro visit hvisit
          rcases List.mem_cons.1 hvisit with rfl | hvisit
          · exact under_refl here
          · exact hunder visit hvisit

theorem walkEntries_answering (fs : FileSystem) (skip : Path → Bool) (here : Path)
    (entries : Entries) {names : List Text} (hhidden : ∀ name ∈ names, isHidden name = false) :
    ∃ visits, walkEntries fs noPruning here names entries = .ok visits ∧
      walkEntries fs (answering skip) here (names.filter fun name => !skip (here.child name))
        entries = .ok (openVisits skip here visits) ∧
      ∀ visit ∈ visits, Under here visit.directory := by
  cases entries with
  | nil => exact ⟨[], by simp [walkEntries], by simp [walkEntries, openVisits], by simp⟩
  | cons entry rest =>
      obtain ⟨name, node⟩ := entry
      obtain ⟨others, hothers, hfoundOthers, hunderOthers⟩ :=
        walkEntries_answering fs skip here rest hhidden
      by_cases hname : name ∈ names
      · obtain ⟨first, hfirst, hfoundFirst, hunderFirst⟩ :=
          walkNode_answering fs skip (here.child name) node
        refine ⟨first ++ others, ?_, ?_, ?_⟩
        · simp only [walkEntries, List.contains_iff_mem, hname, if_true, hfirst, hothers]
        · rw [openVisits_append]
          cases hskip : skip (here.child name) with
          | true =>
              have hclosed : name ∉ names.filter fun name => !skip (here.child name) := by
                simp [hskip]
              simp only [walkEntries, List.contains_iff_mem, hclosed, if_false, hfoundOthers,
                openVisits_eq_nil hunderFirst (hhidden name hname) hskip, List.nil_append]
          | false =>
              have hopen : name ∈ names.filter fun name => !skip (here.child name) := by
                simp [hskip, hname]
              simp only [walkEntries, List.contains_iff_mem, hopen, if_true, hfoundFirst,
                hfoundOthers, openVisits_child hunderFirst hskip]
        · intro visit hvisit
          rcases List.mem_append.1 hvisit with hvisit | hvisit
          · exact (under_child here name).trans (hunderFirst visit hvisit)
          · exact hunderOthers visit hvisit
      · have hclosed : name ∉ names.filter fun name => !skip (here.child name) := by
          simp [hname]
        refine ⟨others, ?_, ?_, hunderOthers⟩
        · simp only [walkEntries, List.contains_iff_mem, hname, if_false, hothers]
        · simp only [walkEntries, List.contains_iff_mem, hclosed, if_false, hfoundOthers]

end

/-- A walk that prunes makes those visits of one that does not to which the way is open. -/
theorem walk_answering (fs : FileSystem) (skip : Path → Bool) (start : Path) :
    ∃ visits, walk fs noPruning start = .ok visits ∧
      walk fs (answering skip) start = .ok (openVisits skip start visits) ∧
      ∀ visit ∈ visits, Under start visit.directory := by
  cases hnode : fs.node? start with
  | error fault => exact ⟨[], by simp [walk, hnode], by simp [walk, hnode, openVisits], by simp⟩
  | ok node =>
      obtain ⟨visits, hwhole, hfound, hunder⟩ := walkNode_answering fs skip start node
      exact ⟨visits, by simp only [walk, hnode, hwhole], by simp only [walk, hnode, hfound],
        hunder⟩

/-- A test that always answers lets every walk end well. -/
theorem exists_walk {pruned : Pruning} (hanswers : ∀ p, ∃ answer, pruned p = .ok answer)
    (start : Path) : ∃ visits, walk fs pruned start = .ok visits := by
  obtain ⟨skip, rfl⟩ : ∃ skip, pruned = answering skip :=
    ⟨fun p => (hanswers p).choose, funext fun p => (hanswers p).choose_spec⟩
  obtain ⟨visits, -, hvisits, -⟩ := walk_answering fs skip start
  exact ⟨_, hvisits⟩

end ProjectLint.Glob
