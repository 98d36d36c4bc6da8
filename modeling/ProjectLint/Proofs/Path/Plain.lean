import ProjectLint.FileSystem.Resolve

/-!
Paths that consist of components of some kind. Finding the canonical form of a path keeps it one of
them, if `..` and the components of links and of the working directory are of that kind too. Plain
paths are those whose components could have been read from a text: none is empty, none is `.`, none
holds a slash. Only such paths come up. Main statements: the canonical form of a plain path is plain
and absolute and holds no `..`, and the text of a plain relative path is read as that path again.
-/

namespace ProjectLint

/-- Whether a text can be a component of a path that was read. -/
def IsComponent (part : Text) : Prop :=
  part ≠ [] ∧ part ≠ selfPart ∧ .scalar '/' ∉ part

theorem isComponent_parentPart : IsComponent parentPart := by
  refine ⟨?_, ?_, ?_⟩ <;> decide

theorem isComponent_of_leadsDown {name : Text} (h : leadsDown name = true) : IsComponent name := by
  simp only [leadsDown, Bool.and_eq_true, bne_iff_ne, Bool.not_eq_true', List.contains_eq_mem,
    decide_eq_false_iff_not] at h
  exact ⟨h.1.1.1, h.1.1.2, h.2⟩

theorem leadsDown_of_isEntryName {name : Text} (h : isEntryName name = true) :
    leadsDown name = true := by
  simp only [isEntryName, Bool.and_eq_true] at h
  exact h.1.1.1

theorem isComponent_of_isEntryName {name : Text} (h : isEntryName name = true) :
    IsComponent name :=
  isComponent_of_leadsDown (leadsDown_of_isEntryName h)

namespace Path

section

variable {good : Text → Prop} {p directory : Path}

/-- Whether a path consists of components of some kind. -/
def Consists (good : Text → Prop) (p : Path) : Prop :=
  ∀ part ∈ p.parts, good part

theorem consists_nil (good : Text → Prop) (anchor : Anchor) : Consists good ⟨anchor, []⟩ := by
  intro part h
  cases h

theorem Consists.child (hp : p.Consists good) {name : Text} (hname : good name) :
    (p.child name).Consists good := by
  intro part h
  rcases List.mem_append.1 h with h | h
  · exact hp part h
  · rw [List.mem_singleton.1 h]
    exact hname

theorem Consists.parent (hp : p.Consists good) : p.parent.Consists good :=
  fun part h => hp part (List.dropLast_subset _ h)

theorem Consists.under (hp : p.Consists good) (hdirectory : directory.Consists good) :
    (directory.under p).Consists good := by
  rw [Path.under]
  split
  · exact hp
  · intro part h
    rcases List.mem_append.1 h with h | h
    · exact hdirectory part h
    · exact hp part h

theorem Consists.up (hp : p.Consists good) (hparent : good parentPart) :
    p.up.Consists good := by
  rw [Path.up]
  split
  · split
    · exact hp
    · exact hp.child hparent
  · split
    · exact hp.child hparent
    · exact hp.parent

theorem Consists.targetStart (hp : p.Consists good) (target : Text) :
    (p.targetStart target).Consists good := by
  rw [Path.targetStart]
  split
  · exact consists_nil good _
  · exact hp

/-- Whether pieces of a text hold no slash, and those of them that are components are of some
kind. -/
def Pieces (good : Text → Prop) (pieces : List Text) : Prop :=
  ∀ piece ∈ pieces, .scalar '/' ∉ piece ∧ (IsComponent piece → good piece)

theorem Pieces.mem_ofText_join {pieces : List Text} (h : Pieces good pieces) {part : Text}
    (hpart : part ∈ (ofText (Text.join [.scalar '/'] pieces)).parts) : part ∈ pieces := by
  by_cases hne : pieces = []
  · subst hne
    simp [ofText, Text.join, Text.split] at hpart
  · obtain ⟨hmem, -⟩ := List.mem_filter.1 hpart
    rwa [Text.split_join hne fun piece hpiece => (h piece hpiece).1] at hmem

theorem Consists.rejoin (hp : p.Consists good) {rest : List Text} (hrest : Pieces good rest) :
    (p.rejoin rest).Consists good := by
  refine Consists.under (fun part hpart => ?_) hp
  exact (hrest part (hrest.mem_ofText_join hpart)).2 (component_of_mem_ofText hpart)

end

/-- Whether all components of a path could have been read from a text. -/
def Plain (p : Path) : Prop :=
  ∀ part ∈ p.parts, IsComponent part

theorem plain_ofText (t : Text) : (ofText t).Plain :=
  fun _ h => component_of_mem_ofText h

theorem plain_nil (anchor : Anchor) : Plain ⟨anchor, []⟩ :=
  consists_nil IsComponent anchor

theorem Plain.child {p : Path} (hp : p.Plain) {name : Text} (hname : IsComponent name) :
    (p.child name).Plain :=
  Consists.child hp hname

theorem Plain.under {p directory : Path} (hp : p.Plain) (hdirectory : directory.Plain) :
    (directory.under p).Plain :=
  Consists.under hp hdirectory

theorem mem_of_mem_foldl_enter {parts start : List Text} {part : Text}
    (h : part ∈ parts.foldl enter start) : part ∈ start ∨ part ∈ parts := by
  induction parts generalizing start with
  | nil => exact Or.inl h
  | cons first parts ih =>
      rcases ih h with h | h
      · simp only [enter] at h
        split at h
        · exact Or.inl (List.dropLast_subset _ h)
        · rcases List.mem_append.1 h with h | h
          · exact Or.inl h
          · exact Or.inr (by simp [List.mem_singleton.1 h])
      · exact Or.inr (List.mem_cons_of_mem _ h)

theorem mem_of_mem_collapse {parts : List Text} {part : Text} (h : part ∈ collapse parts) :
    part ∈ parts :=
  (mem_of_mem_foldl_enter h).resolve_left (by simp)

/-- What leads to plain components is plain, for `..` is. -/
theorem plain_steps {start goal : List Text} (h : ∀ part ∈ goal, IsComponent part) :
    (Path.mk .relative (steps goal start)).Plain := by
  intro part hpart
  rcases List.mem_append.1 hpart with hpart | hpart
  · rw [(List.mem_replicate.1 hpart).2]
    exact isComponent_parentPart
  · exact h part (List.drop_subset _ _ hpart)

theorem split_toText {parts : List Text} (h : (Path.mk .relative parts).Plain)
    (hne : parts ≠ []) : (Path.mk .relative parts).toText.split '/' = parts := by
  simp only [toText, List.isEmpty_iff, if_neg hne]
  exact Text.split_join hne fun part hpart => (h part hpart).2.2

theorem head?_toText {parts : List Text} (h : (Path.mk .relative parts).Plain) :
    (Path.mk .relative parts).toText.head? ≠ some (.scalar '/') := by
  cases parts with
  | nil => decide
  | cons part parts =>
      obtain ⟨hne, -, hslash⟩ := h part (by simp)
      cases part with
      | nil => exact absurd rfl hne
      | cons c part =>
          simp only [List.mem_cons, not_or] at hslash
          cases parts with
          | nil => simpa [toText, Text.join] using Ne.symm hslash.1
          | cons other parts => simpa [toText, Text.join] using Ne.symm hslash.1

theorem anchorOf_of_head? {t : Text} (h : t.head? ≠ some (.scalar '/')) :
    anchorOf t = .relative := by
  rw [anchorOf.eq_def]
  split
  · exact absurd rfl h
  · exact absurd rfl h
  · exact absurd rfl h
  · rfl

/-- The text of a plain relative path is read as that path. -/
theorem ofText_toText {parts : List Text} (h : (Path.mk .relative parts).Plain) :
    ofText (Path.mk .relative parts).toText = ⟨.relative, parts⟩ := by
  by_cases hne : parts = []
  · rw [hne]
    rfl
  · have hkept : parts.filter (fun part => part != [] && part != selfPart) = parts := by
      refine List.filter_eq_self.2 fun part hpart => ?_
      obtain ⟨hempty, hself, -⟩ := h part hpart
      simp [hempty, hself]
    rw [ofText, anchorOf_of_head? (head?_toText h), split_toText h hne, hkept]

end Path

namespace FileSystem

theorem plain_workingPath {fs : FileSystem} {path : Path} (h : fs.workingPath = .ok path) :
    path.Plain ∧ path.isAbsolute = true := by
  rw [workingPath] at h
  split at h
  · rename_i node hnode
    cases h
    exact ⟨fun part hpart =>
      isComponent_of_isEntryName ((Node.wellFormed_of_find? fs.wellFormed_root hnode).2 part hpart),
      rfl⟩
  · cases h

theorem mem_of_lookup {known : Known} {link found : Path} (h : known.lookup link = some found) :
    (link, found) ∈ known := by
  obtain ⟨before, after, hsplit, -⟩ := List.lookup_eq_some_iff.1 h
  simp [hsplit]

/-- Whether only components of some kind come up when a path of them is followed: the targets of
links and the working directory consist of them, and `..` is one. -/
structure Supplies (fs : FileSystem) (good : Text → Prop) : Prop where
  component : ∀ part, good part → IsComponent part
  parent : good parentPart
  target : ∀ place target, fs.find? place = some (.link target) →
    (Path.ofText target).Consists good
  working : ∀ path, fs.workingPath = .ok path → path.Consists good

theorem supplies_isComponent (fs : FileSystem) : fs.Supplies IsComponent where
  component := fun _ => id
  parent := isComponent_parentPart
  target := fun _ target _ => Path.plain_ofText target
  working := fun _ h => (plain_workingPath h).1

section

variable {fs : FileSystem} {good : Text → Prop} (hfs : fs.Supplies good)

include hfs

theorem Supplies.pieces_of_consists {path : Path} (h : path.Consists good) :
    Path.Pieces good path.parts :=
  fun part hpart => ⟨(hfs.component part (h part hpart)).2.2, fun _ => h part hpart⟩

theorem Supplies.pieces_of_linkTarget? {path : Path} {target : Text}
    (h : fs.linkTarget? path = some target) : Path.Pieces good (target.split '/') := by
  have hlink : fs.find? (fs.placeOf path) = some (.link target) := by
    rw [linkTarget?] at h
    split at h
    next found hfound =>
      split at h
      · cases h
      · rw [hfound, Option.some.inj h]
    next => cases h
  intro piece hpiece
  refine ⟨Text.not_mem_of_mem_split hpiece, fun hcomponent => ?_⟩
  exact hfs.target _ _ hlink piece
    (List.mem_filter.2 ⟨hpiece, by simp [hcomponent.1, hcomponent.2.1]⟩)

/-- Following components through no link keeps a path one of some kind. -/
theorem consists_stroll {path : Path} {parts : List Text} (hpath : path.Consists good)
    (hparts : Path.Pieces good parts) :
    match fs.stroll path parts with
    | .arrived goal => goal.Consists good
    | .atLink goal name target rest =>
        goal.Consists good ∧ good name ∧ Path.Pieces good (target.split '/') ∧
          Path.Pieces good rest
    | .unspelled _ => True := by
  induction parts generalizing path with
  | nil => exact hpath
  | cons part parts ih =>
      obtain ⟨⟨hslash, hgood⟩, hrest⟩ := List.forall_mem_cons.1 hparts
      rw [stroll]
      by_cases hskip : (part = [] || part = selfPart) = true
      · rw [if_pos hskip]
        exact ih hpath hrest
      · rw [if_neg hskip]
        simp only [Bool.or_eq_true, decide_eq_true_eq, not_or] at hskip
        have hpart : good part := hgood ⟨hskip.1, hskip.2, hslash⟩
        by_cases hparent : part = parentPart
        · rw [if_pos hparent]
          exact ih (hpath.up hfs.parent) hrest
        · rw [if_neg hparent]
          cases checkSpelling part with
          | error fault => trivial
          | ok _ =>
              cases htarget : fs.linkTarget? (path.child part) with
              | some target => exact ⟨hpath, hpart, hfs.pieces_of_linkTarget? htarget, hrest⟩
              | none => exact ih (hpath.child hpart) hrest

/-- Replacing links keeps a path one of some kind. -/
theorem consists_settle (fuel : Nat) (active : List Path) {known : Known} {path : Path}
    {parts : List Text} (hknown : ∀ link ∈ known, link.2.Consists good)
    (hpath : path.Consists good) (hparts : Path.Pieces good parts) :
    match fs.settle fuel active known path parts with
    | .path goal known => goal.Consists good ∧ ∀ link ∈ known, link.2.Consists good
    | .ring goal => goal.Consists good
    | .tooDeep | .unspelled _ => True := by
  induction fuel generalizing active known path parts with
  | zero => trivial
  | succ fuel ih =>
      have hstroll := consists_stroll hfs hpath hparts
      rw [settle]
      cases h : fs.stroll path parts with
      | arrived goal =>
          rw [h] at hstroll
          exact ⟨hstroll, hknown⟩
      | unspelled fault => trivial
      | atLink goal name target rest =>
          rw [h] at hstroll
          obtain ⟨hgoal, hname, hpieces, hrest⟩ := hstroll
          simp only
          cases hlookup : known.lookup (goal.child name) with
          | some found =>
              -- A link that was settled before leads to a goal that is known to be of the kind.
              exact ih active hknown (hknown _ (mem_of_lookup hlookup)) hrest
          | none =>
              simp only
              by_cases hactive : active.contains (goal.child name) = true
              · rw [if_pos hactive]
                exact (hgoal.child hname).rejoin hrest
              · rw [if_neg hactive]
                by_cases hdeep : maxNesting ≤ active.length
                · rw [if_pos hdeep]
                  trivial
                · rw [if_neg hdeep]
                  -- The target is settled first; what it adds to the known links is of the kind.
                  have htarget := ih (goal.child name :: active) hknown (hgoal.targetStart target)
                    hpieces
                  cases hinner : fs.settle fuel (goal.child name :: active) known
                      (goal.targetStart target) (target.split '/') with
                  | path found others =>
                      rw [hinner] at htarget
                      obtain ⟨hfound, hothers⟩ := htarget
                      exact ih active (List.forall_mem_cons.2 ⟨hfound, hothers⟩) hfound hrest
                  | ring found =>
                      rw [hinner] at htarget
                      exact htarget.rejoin hrest
                  | tooDeep => trivial
                  | unspelled fault => trivial

theorem consists_finish {path goal : Path} (hpath : path.Consists good)
    (h : fs.finish path = .ok goal) : goal.Consists good := by
  have hcollapse : ∀ {start : Path}, start.Consists good →
      (Path.mk start.anchor (Path.collapse (start.under path).parts)).Consists good :=
    fun hstart part hpart => (hpath.under hstart) part (Path.mem_of_mem_collapse hpart)
  rw [finish] at h
  by_cases habsolute : path.isAbsolute = true
  · rw [if_pos habsolute] at h
    cases h
    exact hcollapse (Path.consists_nil good _)
  · rw [if_neg habsolute] at h
    cases hstart : fs.workingPath with
    | error errno =>
        rw [hstart] at h
        cases h
    | ok start =>
        rw [hstart] at h
        cases h
        exact hcollapse (hfs.working start hstart)

end

theorem isAbsolute_of_finish {fs : FileSystem} {path goal : Path}
    (h : fs.finish path = .ok goal) : goal.isAbsolute = true := by
  rw [finish] at h
  by_cases habsolute : path.isAbsolute = true
  · rw [if_pos habsolute] at h
    cases h
    exact habsolute
  · rw [if_neg habsolute] at h
    cases hstart : fs.workingPath with
    | error errno =>
        rw [hstart] at h
        cases h
    | ok start =>
        rw [hstart] at h
        cases h
        exact (plain_workingPath hstart).2

/-- A canonical form is what some path without links is finished to. -/
theorem finish_of_resolve {fs : FileSystem} {path goal : Path} (h : fs.resolve path = .ok goal) :
    ∃ found, fs.finish found = .ok goal ∧
      ∀ good, fs.Supplies good → path.Consists good → found.Consists good := by
  have hstart : ∀ good,
      (if path.isAbsolute then .absolute [] else ⟨.relative, []⟩ : Path).Consists good := by
    intro good
    split <;> exact Path.consists_nil good _
  have hsettle := fun good (hfs : fs.Supplies good) (hpath : path.Consists good) =>
    consists_settle hfs (fs.settleFuel path.parts) [] (List.forall_mem_nil _) (hstart good)
      (hfs.pieces_of_consists hpath)
  rw [resolve] at h
  cases hcase : fs.settle (fs.settleFuel path.parts) [] []
      (if path.isAbsolute then .absolute [] else ⟨.relative, []⟩) path.parts with
  | unspelled fault =>
      rw [hcase] at h
      cases h
  | tooDeep =>
      rw [hcase] at h
      cases h
  | path found known =>
      rw [hcase] at h hsettle
      exact ⟨found, h, fun good hfs hpath => (hsettle good hfs hpath).1⟩
  | ring found =>
      rw [hcase] at h hsettle
      simp only at h
      cases hfinish : fs.finish found with
      | error fault =>
          rw [hfinish] at h
          cases h
      | ok ended =>
          rw [hfinish] at h
          have hgoal : ended = goal := by
            simp only at h
            split at h <;> first | cases h; rfl | cases h
          exact ⟨found, hgoal ▸ hfinish, hsettle⟩

/-- The canonical form of a path is one of its kind. -/
theorem consists_resolve {fs : FileSystem} {good : Text → Prop} {path goal : Path}
    (hfs : fs.Supplies good) (hpath : path.Consists good) (h : fs.resolve path = .ok goal) :
    goal.Consists good := by
  obtain ⟨found, hfinish, hfound⟩ := finish_of_resolve h
  exact consists_finish hfs (hfound good hfs hpath) hfinish

/-- The canonical form of a plain path is plain and absolute. -/
theorem plain_resolve {fs : FileSystem} {path goal : Path} (hpath : path.Plain)
    (h : fs.resolve path = .ok goal) : goal.Plain ∧ goal.isAbsolute = true := by
  obtain ⟨found, hfinish, -⟩ := finish_of_resolve h
  exact ⟨consists_resolve (supplies_isComponent fs) hpath h, isAbsolute_of_finish hfinish⟩

/-- A canonical form holds no `..`. -/
theorem parentPart_not_mem_resolve {fs : FileSystem} {path goal : Path}
    (h : fs.resolve path = .ok goal) : parentPart ∉ goal.parts := by
  obtain ⟨found, hfinish, -⟩ := finish_of_resolve h
  rw [finish] at hfinish
  split at hfinish
  · cases hfinish
  · cases hfinish
    exact Path.parentPart_not_mem_collapse _

end FileSystem
end ProjectLint
