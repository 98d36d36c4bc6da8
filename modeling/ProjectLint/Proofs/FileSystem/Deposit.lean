import ProjectLint.FileSystem.Change
import ProjectLint.Proofs.FileSystem.Name

/-!
Files that are put into one directory and taken out of it. A path stands for the directory if such
changes never lead it elsewhere. Main statements: each change concerns one name, and a path without
links stands for its directory.
-/

namespace ProjectLint

namespace Node

theorem find?_putAt_parent {new : Node} {place : Place} {name : Text} {entries inner : Entries}
    (h : find? place (directory entries) = some (directory inner)) :
    find? place (directory (putAt new (place ++ [name]) entries)) =
      some (directory (putEntry name new inner)) := by
  induction place generalizing entries with
  | nil =>
      cases h
      rfl
  | cons first place ih =>
      rw [find?] at h
      split at h
      next node hnode =>
        cases node with
        | directory below =>
            have hne : place ++ [name] ≠ [] := by simp
            simp only [List.cons_append, putAt, hnode, find?, entryNamed?_putEntry, if_pos]
            exact ih h
        | file _ | link _ => cases place <;> cases h
      next => cases h

theorem find?_removeAt_parent {place : Place} {name : Text} {entries inner : Entries}
    (h : find? place (directory entries) = some (directory inner)) :
    find? place (directory (removeAt (place ++ [name]) entries)) =
      some (directory (removeEntry name inner)) := by
  induction place generalizing entries with
  | nil =>
      cases h
      rfl
  | cons first place ih =>
      rw [find?] at h
      split at h
      next node hnode =>
        cases node with
        | directory below =>
            have hne : place ++ [name] ≠ [] := by simp
            simp only [List.cons_append, removeAt, hnode, find?, entryNamed?_putEntry, if_pos]
            exact ih h
        | file _ | link _ => cases place <;> cases h
      next => cases h

end Node

namespace FileSystem

/-- Whether there is a directory at a place. -/
def HasDirectory (fs : FileSystem) (place : Place) : Prop :=
  ∃ entries, fs.find? place = some (.directory entries)

variable {fs : FileSystem} {place : Place} {name other : Text}

theorem isEntryName_of_hasDirectory (h : fs.HasDirectory place) :
    ∀ part ∈ place, isEntryName part = true := by
  obtain ⟨entries, h⟩ := h
  exact (Node.wellFormed_of_find? fs.wellFormed_root h).2

theorem map_asName_of_hasDirectory (h : fs.HasDirectory place) : place.map Text.asName = place := by
  have hself : ∀ part ∈ place, part.asName = id part := fun part hmem =>
    asName_of_isEntryName (isEntryName_of_hasDirectory h part hmem)
  exact (List.map_congr_left hself).trans (List.map_id place)

theorem put_file_eq (content : Utf8.Bytes) (name : Text) (h : fs.HasDirectory place) :
    (fs.put (.file content) (place ++ [name])).entries =
      if isEntryName name = true then Node.putAt (.file content) (place ++ [name]) fs.entries
      else fs.entries := by
  have hplace := isEntryName_of_hasDirectory h
  rw [put]
  by_cases hname : isEntryName name = true
  · have hall : ∀ part ∈ place ++ [name], isEntryName part = true :=
      List.forall_mem_append.2 ⟨hplace, List.forall_mem_singleton.2 hname⟩
    rw [dif_pos ⟨rfl, hall⟩, if_pos hname]
  · have hall : ¬∀ part ∈ place ++ [name], isEntryName part = true := fun hall =>
      hname (hall name (by simp))
    rw [dif_neg fun h => hall h.2, if_neg hname]

theorem hasDirectory_put (content : Utf8.Bytes) (name : Text) (h : fs.HasDirectory place) :
    (fs.put (.file content) (place ++ [name])).HasDirectory place := by
  have heq := put_file_eq content name h
  obtain ⟨entries, hfind⟩ := h
  rw [HasDirectory]
  simp only [find?, root, heq]
  split
  next => exact ⟨_, Node.find?_putAt_parent hfind⟩
  next => exact ⟨entries, hfind⟩

theorem hasDirectory_remove (name : Text) (h : fs.HasDirectory place) :
    (fs.remove (place ++ [name])).HasDirectory place := by
  obtain ⟨entries, hfind⟩ := h
  exact ⟨_, Node.find?_removeAt_parent hfind⟩

/-- What an entry of a directory is after a file was put there. -/
theorem find?_put (content : Utf8.Bytes) (h : fs.HasDirectory place) :
    (fs.put (.file content) (place ++ [name])).find? (place ++ [other]) =
      if other = name ∧ isEntryName name = true then some (.file content)
      else fs.find? (place ++ [other]) := by
  have heq := put_file_eq content name h
  obtain ⟨entries, hfind⟩ := h
  by_cases hname : isEntryName name = true
  · rw [if_pos hname] at heq
    have hparent : (fs.put (.file content) (place ++ [name])).find? place =
        some (.directory (Node.putEntry name (.file content) entries)) := by
      simp only [find?, root, heq]
      exact Node.find?_putAt_parent hfind
    rw [find?_child other hparent, find?_child other hfind, Node.entryNamed?_putEntry]
    simp only [hname, and_true]
  · rw [if_neg hname] at heq
    rw [if_neg fun h => hname h.2]
    simp only [find?, root, heq]

/-- What an entry of a directory is after one was taken out. -/
theorem find?_remove (h : fs.HasDirectory place) :
    (fs.remove (place ++ [name])).find? (place ++ [other]) =
      if other = name then none else fs.find? (place ++ [other]) := by
  obtain ⟨entries, hfind⟩ := h
  have hparent : (fs.remove (place ++ [name])).find? place =
      some (.directory (Node.removeEntry name entries)) := Node.find?_removeAt_parent hfind
  rw [find?_child other hparent, find?_child other hfind, Node.entryNamed?_removeEntry]

/-- The trees that come of putting files into a directory and taking entries out of it. -/
inductive ChangedIn (place : Place) (fs : FileSystem) : FileSystem → Prop
  | refl : ChangedIn place fs fs
  | put {next : FileSystem} (h : ChangedIn place fs next) (name : Text) (content : Utf8.Bytes) :
      ChangedIn place fs (next.put (.file content) (place ++ [name]))
  | remove {next : FileSystem} (h : ChangedIn place fs next) (name : Text) :
      ChangedIn place fs (next.remove (place ++ [name]))

theorem ChangedIn.trans {middle last : FileSystem} (h : ChangedIn place fs middle)
    (hlast : ChangedIn place middle last) : ChangedIn place fs last := by
  induction hlast with
  | refl => exact h
  | put _ name content ih => exact ih.put name content
  | remove _ name ih => exact ih.remove name

theorem ChangedIn.hasDirectory {next : FileSystem} (hnext : ChangedIn place fs next)
    (h : fs.HasDirectory place) : next.HasDirectory place := by
  induction hnext with
  | refl => exact h
  | put _ name content ih => exact hasDirectory_put content name ih
  | remove _ name ih => exact hasDirectory_remove name ih

/-- Whether a path leads to a directory, and still does whatever files are put there and whatever
entries are taken out. -/
structure StandsFor (fs : FileSystem) (path : Path) (place : Place) : Prop where
  directory : fs.HasDirectory place
  located : ∀ next, ChangedIn place fs next → next.locate .named path = .ok place

theorem StandsFor.changed {path : Path} {next : FileSystem} (h : fs.StandsFor path place)
    (hnext : ChangedIn place fs next) : next.StandsFor path place :=
  ⟨hnext.hasDirectory h.directory, fun last hlast => h.located last (hnext.trans hlast)⟩

/-- Components that are found without following a link are where they lead, however they are
spelled. -/
theorem reach_place {trail parts : List Text} {node found : Node}
    (hparts : ∀ part ∈ parts, GoesIn part ∧ part.nameLength ≤ maxNameBytes)
    (h : Node.find? (parts.map Text.asName) node = some found)
    (hlink : ∀ target, found ≠ .link target) :
    fs.reach .named trail (some node) parts =
      .arrived (trail.reverse ++ parts.map Text.asName) := by
  induction parts generalizing trail node with
  | nil => simp [reach]
  | cons part parts ih =>
      obtain ⟨⟨hname, hlength⟩, hrest⟩ := List.forall_mem_cons.1 hparts
      have hself : (part = [] || part = selfPart) = false := by simp [hname.1, hname.2.1]
      have hlong : ¬maxNameBytes < part.nameLength := Nat.not_lt.2 hlength
      cases node with
      | file _ | link _ => cases h
      | directory inner =>
          rw [List.map_cons, Node.find?] at h
          split at h
          next next hnext =>
            have hon : ∀ target, next ≠ .link target := by
              rintro target rfl
              cases parts with
              | nil => exact hlink target (Option.some.inj h).symm
              | cons _ _ => cases h
            rw [reach.eq_def]
            simp only [hself, hname.2.2, hlong, Bool.false_eq_true, if_false, reduceCtorEq,
              decide_false, Bool.false_and, hnext]
            cases next with
            | link target => exact absurd rfl (hon target)
            | file _ | directory _ =>
                simp only [ih hrest h, List.reverse_cons, List.append_assoc, List.singleton_append,
                  List.map_cons]
          next => cases h

theorem locate_of_reach {path : Path} (habsolute : path.isAbsolute = true)
    (hspelled : checkSpelling path.toText = .ok ()) (hshort : isTooLong path.toText = false)
    (h : fs.reach .named [] (some fs.root) path.parts = .arrived place) :
    fs.locate .named path = .ok place := by
  have hfollow : fs.follow .named maxLinks [] path.parts = .ok (.taken place) := by
    have hroot : fs.find? [] = some fs.root := rfl
    unfold follow
    rw [hroot, List.reverse_nil, h]
  rw [locate, spot, hspelled, habsolute]
  simp only [hshort, Bool.false_eq_true, if_false, if_true, hfollow]

/-- A path without links stands for its directory. -/
theorem standsFor_absolute (h : fs.HasDirectory place)
    (hshort : isTooLong (Path.absolute place).toText = false) :
    fs.StandsFor (.absolute place) place := by
  refine ⟨h, fun next hnext => ?_⟩
  obtain ⟨entries, hfind⟩ := hnext.hasDirectory h
  have hnames := isEntryName_of_hasDirectory h
  have hspelled : checkSpelling (Path.absolute place).toText = .ok () :=
    Path.checkSpelling_toText fun part hpart => checkSpelling_of_isEntryName (hnames part hpart)
  have hparts : ∀ part ∈ place, GoesIn part ∧ part.nameLength ≤ maxNameBytes := fun part hpart =>
    ⟨goesIn_of_isEntryName (hnames part hpart), nameLength_of_isEntryName (hnames part hpart)⟩
  have hasName := map_asName_of_hasDirectory h
  have hreach : next.reach .named [] (some next.root) place = .arrived place := by
    have hplace : Node.find? (place.map Text.asName) next.root = some (.directory entries) := by
      rw [hasName]
      exact hfind
    rw [reach_place hparts hplace (by simp), hasName]
    rfl
  exact locate_of_reach rfl hspelled hshort hreach

/-- Whether the path of a name in a directory can be followed. -/
structure Fits (path : Path) (name : Text) : Prop where
  spelled : checkSpelling (path.child name).toText = .ok ()
  short : isTooLong (path.child name).toText = false
  length : name.nameLength ≤ maxNameBytes

theorem fits_of_spot {aim : Aim} {path : Path} {spot : Spot} (hname : GoesIn name)
    (h : fs.spot aim (path.child name) = .ok spot) : Fits path name := by
  rw [FileSystem.spot] at h
  split at h
  next => cases h
  next hspelled =>
    split at h
    next => cases h
    next hshort =>
      split at h
      next found hfollow =>
        have hmem : name ∈ (path.child name).parts := List.mem_append_right _ (by simp)
        exact ⟨hspelled, Bool.eq_false_iff.2 hshort, nameLength_of_follow hfollow hmem hname⟩
      next => cases h

theorem isEntryName_of_fits {path : Path} (h : Fits path name) (hdown : leadsDown name = true) :
    isEntryName name.asName = true := by
  refine isEntryName_asName hdown ?_ h.length
  refine checkSpelling_eq_ok.2 fun c hc => checkSpelling_eq_ok.1 h.spelled c ?_
  exact Path.mem_toText (List.mem_append_right path.parts (List.mem_singleton_self name)) hc

section Spot

variable {path : Path} (hpath : fs.StandsFor path place) (hname : GoesIn name)
  (hfits : Fits path name)

include hpath hname hfits in
/-- What a name in a directory leads to, if it is not a link that is followed. -/
theorem spot_eq (aim : Aim) (hlink : ∀ target,
    fs.find? (place ++ [name.asName]) = some (.link target) → aim = .entry) :
    fs.spot aim (path.child name) =
      if (fs.find? (place ++ [name.asName])).isSome then .ok (.taken (place ++ [name.asName]))
      else .ok (.free (place ++ [name.asName])) := by
  obtain ⟨entries, hfind⟩ := hpath.directory
  rw [find?_child _ hfind] at hlink ⊢
  rw [spot_child aim (hpath.located fs .refl) hfind hfits.spelled hfits.short hname hfits.length
    hlink]
  cases Node.entryNamed? name.asName entries <;> rfl

include hpath hname hfits in
theorem readBytes_child {content : Utf8.Bytes}
    (h : fs.find? (place ++ [name.asName]) = some (.file content)) :
    fs.readBytes (path.child name) = .ok content := by
  have hspot := spot_eq hpath hname hfits .named fun target htarget => by
    rw [h] at htarget
    cases htarget
  rw [h] at hspot
  have hnode : fs.node? (path.child name) = .ok (.file content) := by
    refine node?_eq_ok.2 ⟨_, ?_, h⟩
    rw [locate, hspot]
    rfl
  rw [readBytes, hnode]

end Spot

section Write

variable {path : Path} {content : Utf8.Bytes} {next : FileSystem}

/-- Writing a new file puts it where its name is free. -/
theorem writeFile_eq_ok (hpath : fs.StandsFor path place) (hname : GoesIn name)
    (hfree : fs.find? (place ++ [name.asName]) = none)
    (h : fs.writeFile (path.child name) content = .ok next) :
    next = fs.put (.file content) (place ++ [name.asName]) ∧ Fits path name := by
  rw [writeFile, replace] at h
  cases hspot : fs.spot .file (path.child name) with
  | error fault =>
      rw [hspot] at h
      cases h
  | ok spot =>
      have hfits := fits_of_spot hname hspot
      have heq := spot_eq hpath hname hfits .file fun target htarget => by
        rw [hfree] at htarget
        cases htarget
      rw [hfree] at heq
      rw [heq] at h
      cases h
      exact ⟨rfl, hfits⟩

/-- Moving a file in a directory takes it from its name and puts it under the other one, which is no
directory. -/
theorem move_eq_ok {goal : Text} (hpath : fs.StandsFor path place) (hname : GoesIn name)
    (hgoal : GoesIn goal) (hfits : Fits path name)
    (hfile : ∀ node, fs.find? (place ++ [name.asName]) = some node → node = .file content)
    (h : fs.move (path.child name) (path.child goal) = .ok next) :
    (∃ node, fs.find? (place ++ [name.asName]) = some node) ∧ Fits path goal ∧
      (∀ entries, (fs.remove (place ++ [name.asName])).find? (place ++ [goal.asName]) ≠
        some (.directory entries)) ∧
      next = (fs.remove (place ++ [name.asName])).put (.file content)
        (place ++ [goal.asName]) := by
  have horigin := spot_eq hpath hname hfits .entry fun _ _ => rfl
  rw [move, locate, horigin] at h
  cases hfind : fs.find? (place ++ [name.asName]) with
  | none => simp [hfind] at h
  | some node =>
      cases hfile node hfind
      simp only [hfind, Option.isSome_some, if_true] at h
      have hrest := hpath.changed (.remove .refl name.asName)
      rw [replace] at h
      cases hspot : (fs.remove (place ++ [name.asName])).spot .entry (path.child goal) with
      | error fault =>
          rw [hspot] at h
          cases h
      | ok spot =>
          have hfitsGoal := fits_of_spot hgoal hspot
          refine ⟨⟨_, rfl⟩, hfitsGoal, ?_⟩
          rw [spot_eq hrest hgoal hfitsGoal .entry fun _ _ => rfl] at h
          cases hgone : (fs.remove (place ++ [name.asName])).find? (place ++ [goal.asName]) with
          | none =>
              simp only [hgone, Option.isSome_none, Bool.false_eq_true, if_false,
                Except.ok.injEq] at h
              exact ⟨by simp, h.symm⟩
          | some old =>
              simp only [hgone, Option.isSome_some, if_true] at h
              cases old with
              | directory entries => cases h
              | file _ | link _ => exact ⟨by simp, (Except.ok.inj h).symm⟩

end Write

end FileSystem
end ProjectLint
