import ProjectLint.Proofs.FileSystem.Deposit

/-!
Canonical forms of paths that lead through no link. Main statement: an absolute path through no
link, as the path of a directory by its place, is its own canonical form.
-/

namespace ProjectLint.FileSystem

variable {fs : FileSystem} {place : Place}

/-- Names that no link stands behind are followed to the end, unless one of them cannot be
spelled. -/
theorem stroll_of_noLink {path : Path} {parts : List Text}
    (hparts : ∀ part ∈ parts, IsComponent part ∧ part ≠ parentPart)
    (hlink : ∀ before after, parts = before ++ after →
      fs.linkTarget? ⟨path.anchor, path.parts ++ before⟩ = none) :
    fs.stroll path parts = .arrived ⟨path.anchor, path.parts ++ parts⟩ ∨
      ∃ part ∈ parts, ∃ fault, checkSpelling part = .error fault ∧
        fs.stroll path parts = .unspelled fault := by
  induction parts generalizing path with
  | nil => exact Or.inl (by rw [stroll, List.append_nil])
  | cons part parts ih =>
      obtain ⟨hcomponent, hparent⟩ := hparts part (by simp)
      have hself : (part = [] || part = selfPart) = false := by
        simp [hcomponent.1, hcomponent.2.1]
      have hnone : fs.linkTarget? (path.child part) = none := hlink [part] parts rfl
      have hrest := @ih (path.child part) (fun other hmem => hparts other (by simp [hmem]))
        fun before after hsplit => by
          have hnext := hlink (part :: before) after (by rw [hsplit]; rfl)
          rwa [← List.singleton_append, ← List.append_assoc] at hnext
      cases hspelled : checkSpelling part with
      | error fault =>
          refine Or.inr ⟨part, by simp, fault, hspelled, ?_⟩
          simp only [stroll, hself, hparent, hspelled, Bool.false_eq_true, if_false]
      | ok _ =>
          have hstep : fs.stroll path (part :: parts) = fs.stroll (path.child part) parts := by
            simp only [stroll, hself, hparent, hspelled, hnone, Bool.false_eq_true, if_false]
          rw [hstep]
          rcases hrest with hrest | ⟨other, hmem, fault, hother, hrest⟩
          · rw [hrest, Path.child, List.append_assoc]
            exact Or.inl rfl
          · exact Or.inr ⟨other, List.mem_cons_of_mem _ hmem, fault, hother, hrest⟩

/-- What becomes of an absolute path that leads through no link. -/
theorem resolve_of_noLink_or {path : Path} (habsolute : path.isAbsolute = true)
    (hparts : ∀ part ∈ path.parts, IsComponent part ∧ part ≠ parentPart)
    (hlink : ∀ before after, path.parts = before ++ after →
      fs.linkTarget? (.absolute before) = none) :
    fs.resolve path = .ok (.absolute path.parts) ∨
      ∃ part ∈ path.parts, ∃ fault, checkSpelling part = .error fault ∧
        fs.resolve path = .error (.spelling fault) := by
  have hcollapse : Path.collapse path.parts = path.parts :=
    Path.collapse_eq_self fun hmem => (hparts _ hmem).2 rfl
  have hfinish : fs.finish (.absolute path.parts) =
      .ok (.absolute (Path.collapse path.parts)) := rfl
  rw [resolve, habsolute, settleFuel, settle]
  have hstroll : fs.stroll (.absolute []) path.parts = .arrived (.absolute path.parts) ∨ _ :=
    stroll_of_noLink hparts hlink
  rcases hstroll with hstroll | ⟨part, hmem, fault, hpart, hstroll⟩
  · left
    simp only [if_true, hstroll, hfinish, hcollapse]
  · right
    refine ⟨part, hmem, fault, hpart, ?_⟩
    simp only [if_true, hstroll]

/-- An absolute path of names that leads through no link is its own canonical form. -/
theorem resolve_of_noLink {path : Path} (habsolute : path.isAbsolute = true)
    (hparts : ∀ part ∈ path.parts, isEntryName part = true)
    (hlink : ∀ before after, path.parts = before ++ after →
      fs.linkTarget? (.absolute before) = none) :
    fs.resolve path = .ok (.absolute path.parts) := by
  have hdown : ∀ part ∈ path.parts, IsComponent part ∧ part ≠ parentPart := fun part hmem =>
    ⟨isComponent_of_isEntryName (hparts part hmem), ne_parentPart_of_isEntryName (hparts part hmem)⟩
  refine (resolve_of_noLink_or habsolute hdown hlink).resolve_right ?_
  rintro ⟨part, hmem, fault, hpart, -⟩
  cases (checkSpelling_of_isEntryName (hparts part hmem)).symm.trans hpart

/-- The canonical form of an absolute path without `..` is the path itself, unless it leads through a
link. -/
theorem eq_of_resolve_of_noLink {path goal : Path} (habsolute : path.isAbsolute = true)
    (hplain : path.Plain) (hparent : parentPart ∉ path.parts)
    (hlink : ∀ before after, path.parts = before ++ after →
      fs.linkTarget? (.absolute before) = none)
    (h : fs.resolve path = .ok goal) : goal = .absolute path.parts := by
  have hdown : ∀ part ∈ path.parts, IsComponent part ∧ part ≠ parentPart := fun part hmem =>
    ⟨hplain part hmem, fun heq => hparent (heq ▸ hmem)⟩
  rcases resolve_of_noLink_or habsolute hdown hlink with hresolve | ⟨_, _, _, _, hresolve⟩
  · exact Except.ok.inj (h.symm.trans hresolve)
  · cases h.symm.trans hresolve

theorem hasDirectory_of_append {before after : Place} (h : fs.HasDirectory (before ++ after)) :
    fs.HasDirectory before := by
  obtain ⟨entries, hfind⟩ := h
  rw [find?, Node.find?_append] at hfind
  obtain ⟨node, hnode, hafter⟩ := Option.bind_eq_some_iff.1 hfind
  cases node with
  | directory inner => exact ⟨inner, hnode⟩
  | file _ | link _ => cases after <;> cases hafter

/-- The path of a directory by its place is its canonical form. -/
theorem resolve_absolute (h : fs.HasDirectory place) :
    fs.resolve (.absolute place) = .ok (.absolute place) := by
  refine resolve_of_noLink rfl (isEntryName_of_hasDirectory h) ?_
  rintro before after (rfl : place = before ++ after)
  obtain ⟨entries, hbefore⟩ := hasDirectory_of_append h
  have hplace : fs.placeOf (.absolute before) = before :=
    map_asName_of_hasDirectory ⟨entries, hbefore⟩
  rw [linkTarget?, hplace, hbefore]

end ProjectLint.FileSystem
