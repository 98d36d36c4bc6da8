import ProjectLint.Proofs.FileSystem.Follow

/-!
What a change at one place leaves alone. Nodes are compared without what lies below them, so that a
directory counts as the same when something below it has changed. Main statement: putting a node at
a place or taking it away changes nothing at any place that does not lie there or below.
-/

namespace ProjectLint

namespace Node

/-- A node without what lies below it. -/
def surface : Node → Node
  | directory _ => directory []
  | node => node

/-- Whether two nodes have the same below them except at a place and below that. -/
def AgreesExcept (goal : Place) (a b : Node) : Prop :=
  ∀ place, ¬List.IsPrefix goal place → (find? place a).map surface = (find? place b).map surface

theorem agreesExcept_refl (goal : Place) (a : Node) : AgreesExcept goal a a :=
  fun _ _ => rfl

/-- Directories whose entries differ under one name agree except below it as far as what has that
name does. -/
theorem agreesExcept_cons {name : Text} {goal : Place} {entries altered : Entries}
    (hothers : ∀ other, other ≠ name → entryNamed? other altered = entryNamed? other entries)
    (hname : goal = [] ∨ ∃ old new, entryNamed? name entries = some old ∧
      entryNamed? name altered = some new ∧ AgreesExcept goal old new) :
    AgreesExcept (name :: goal) (directory entries) (directory altered) := by
  intro place hplace
  cases place with
  | nil => rfl
  | cons first place =>
      simp only [find?]
      by_cases hfirst : first = name
      · subst hfirst
        have hbelow : ¬List.IsPrefix goal place := fun h => hplace (List.cons_prefix_cons.2 ⟨rfl, h⟩)
        rcases hname with rfl | ⟨old, new, hold, hnew, hagrees⟩
        · exact absurd List.nil_prefix hbelow
        · rw [hold, hnew]
          exact hagrees place hbelow
      · rw [hothers first hfirst]

theorem agreesExcept_putEntry {name : Text} {goal : Place} {entries : Entries} {old new : Node}
    (hold : entryNamed? name entries = some old) (h : AgreesExcept goal old new) :
    AgreesExcept (name :: goal) (directory entries) (directory (putEntry name new entries)) := by
  refine agreesExcept_cons (fun other hother => ?_) (Or.inr ⟨old, new, hold, ?_, h⟩)
  · rw [entryNamed?_putEntry, if_neg hother]
  · rw [entryNamed?_putEntry, if_pos rfl]

theorem agreesExcept_putAt (new : Node) (goal : Place) (entries : Entries) :
    AgreesExcept goal (directory entries) (directory (putAt new goal entries)) := by
  fun_induction putAt new goal entries with
  | case1 entries => exact agreesExcept_refl _ _
  | case2 name entries =>
      refine agreesExcept_cons (fun other hother => ?_) (Or.inl rfl)
      rw [entryNamed?_putEntry, if_neg hother]
  | case3 name goal entries hgoal inner hinner ih => exact agreesExcept_putEntry hinner ih
  | case4 => exact agreesExcept_refl _ _

theorem agreesExcept_removeAt (goal : Place) (entries : Entries) :
    AgreesExcept goal (directory entries) (directory (removeAt goal entries)) := by
  fun_induction removeAt goal entries with
  | case1 entries => exact agreesExcept_refl _ _
  | case2 name entries =>
      refine agreesExcept_cons (fun other hother => ?_) (Or.inl rfl)
      rw [entryNamed?_removeEntry, if_neg hother]
  | case3 name goal entries hgoal inner hinner ih => exact agreesExcept_putEntry hinner ih
  | case4 => exact agreesExcept_refl _ _

end Node

namespace FileSystem

/-- What is at a place, without what lies below. -/
def surface? (fs : FileSystem) (place : Place) : Option Node :=
  (fs.find? place).map Node.surface

theorem surface?_put {fs : FileSystem} {goal place : Place} (node : Node)
    (h : ¬List.IsPrefix goal place) : (fs.put node goal).surface? place = fs.surface? place := by
  rw [put]
  split
  next => exact (Node.agreesExcept_putAt node goal fs.entries place h).symm
  next => rfl

theorem surface?_remove {fs : FileSystem} {goal place : Place} (h : ¬List.IsPrefix goal place) :
    (fs.remove goal).surface? place = fs.surface? place :=
  (Node.agreesExcept_removeAt goal fs.entries place h).symm

/-- Nothing lies below a place without a directory. -/
theorem find?_below {fs : FileSystem} {place more : Place}
    (h : ∀ entries, fs.find? place ≠ some (.directory entries)) (hmore : more ≠ []) :
    fs.find? (place ++ more) = none := by
  rw [find?] at h ⊢
  rw [Node.find?_append]
  cases hnode : Node.find? place fs.root with
  | none => rfl
  | some node =>
      cases node with
      | directory entries => exact absurd hnode (h entries)
      | file _ | link _ =>
          cases more with
          | nil => exact absurd rfl hmore
          | cons _ _ => rfl

theorem surface?_eq_directory {fs : FileSystem} {place : Place} :
    fs.surface? place = some (.directory []) ↔
      ∃ entries, fs.find? place = some (.directory entries) := by
  rw [surface?]
  rcases fs.find? place with _ | (_ | _ | _) <;> simp [Node.surface]

/-- A file that is put under a free name and moved from there to one of no directory changes nothing
but what has that name. -/
theorem surface?_moved {fs : FileSystem} {content : Utf8.Bytes} {first goal place : Place}
    {between last : FileSystem} (hbetween : between = (fs.put (.file content) first).remove first)
    (hlast : last = between.put (.file content) goal)
    (hfree : fs.find? first = none) (hgone : between.find? first = none)
    (hgoal : ∀ entries, between.find? goal ≠ some (.directory entries))
    (hfile : last.find? goal = some (.file content)) (hplace : place ≠ goal) :
    last.surface? place = fs.surface? place := by
  have hbefore : ∀ other, between.surface? other = fs.surface? other := by
    intro other
    by_cases h : List.IsPrefix first other
    · obtain ⟨more, rfl⟩ := h
      rw [find?] at hfree hgone
      rw [surface?, surface?, find?, find?, Node.find?_append, Node.find?_append, hfree, hgone]
    · rw [hbetween, surface?_remove h, surface?_put _ h]
  by_cases hbelow : List.IsPrefix goal place
  · obtain ⟨more, rfl⟩ := hbelow
    have hmore : more ≠ [] := fun h => hplace (by rw [h, List.append_nil])
    have hempty : ∀ entries, fs.find? goal ≠ some (.directory entries) := fun entries hfind => by
      have hsurface := surface?_eq_directory.2 ⟨entries, hfind⟩
      rw [← hbefore] at hsurface
      obtain ⟨inner, hinner⟩ := surface?_eq_directory.1 hsurface
      exact hgoal inner hinner
    have hnone : ∀ entries, last.find? goal ≠ some (.directory entries) := by
      rw [hfile]
      intro entries hsame
      cases hsame
    rw [surface?, surface?, find?_below hempty hmore, find?_below hnone hmore]
  · rw [hlast, surface?_put _ hbelow, hbefore]

end FileSystem
end ProjectLint
