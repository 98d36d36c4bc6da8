import ProjectLint.FileSystem.Node

/-!
What holds of every tree that a file system can hold: each entry has a name that the system takes,
and the names in each directory are in ascending order, so that no two are the same. Main
statements: putting nodes in and taking them away keeps this, and the entry with a name is the one
that the list of entries holds.
-/

namespace ProjectLint.Node

mutual

/-- Whether the names in every directory of a tree can be names and are in ascending order. -/
def wellFormed : Node → Bool
  | file _ | link _ => true
  | directory entries => entriesWellFormed entries

/-- Whether the names of entries can be names and are in ascending order, and those below them
too. -/
def entriesWellFormed : List (Text × Node) → Bool
  | [] => true
  | (name, node) :: rest =>
      isEntryName name && node.wellFormed && (rest.all fun entry => name.before entry.1) &&
        entriesWellFormed rest

end

theorem entriesWellFormed_cons {name : Text} {node : Node} {rest : Entries} :
    entriesWellFormed ((name, node) :: rest) = true ↔
      isEntryName name = true ∧ node.wellFormed = true ∧
        (∀ entry ∈ rest, name.before entry.1 = true) ∧ entriesWellFormed rest = true := by
  simp [entriesWellFormed, and_assoc]

theorem before_of_mem_putEntry {least name : Text} {node : Node} {entries : Entries}
    (hname : least.before name = true) (h : ∀ entry ∈ entries, least.before entry.1 = true) :
    ∀ entry ∈ putEntry name node entries, least.before entry.1 = true := by
  induction entries with
  | nil =>
      intro entry hm
      simp only [putEntry, List.mem_singleton] at hm
      subst hm
      exact hname
  | cons first rest ih =>
      obtain ⟨key, old⟩ := first
      intro entry hm
      simp only [putEntry] at hm
      split at hm
      · rcases List.mem_cons.1 hm with rfl | hm
        · exact h (key, old) (by simp)
        · exact h entry (by simp [hm])
      · split at hm
        · rcases List.mem_cons.1 hm with rfl | hm
          · exact hname
          · exact h entry hm
        · rcases List.mem_cons.1 hm with rfl | hm
          · exact h (key, old) (by simp)
          · exact ih (fun entry hm => h entry (by simp [hm])) entry hm

theorem entriesWellFormed_putEntry {name : Text} {node : Node} {entries : Entries}
    (hname : isEntryName name = true) (hnode : node.wellFormed = true)
    (h : entriesWellFormed entries = true) :
    entriesWellFormed (putEntry name node entries) = true := by
  induction entries with
  | nil => simp [putEntry, entriesWellFormed, hname, hnode]
  | cons first rest ih =>
      obtain ⟨key, old⟩ := first
      obtain ⟨hkey, hold, hrest, hord⟩ := entriesWellFormed_cons.1 h
      simp only [putEntry]
      split
      · exact entriesWellFormed_cons.2 ⟨hkey, hnode, hrest, hord⟩
      · rename_i hne
        split
        · rename_i hlt
          refine entriesWellFormed_cons.2 ⟨hname, hnode, ?_, h⟩
          intro entry hm
          rcases List.mem_cons.1 hm with rfl | hm
          · exact hlt
          · exact Text.before_trans hlt (hrest entry hm)
        · rename_i hlt
          have hgt : key.before name = true :=
            (Text.before_or_before hne).resolve_right hlt
          exact entriesWellFormed_cons.2 ⟨hkey, hold, before_of_mem_putEntry hgt hrest, ih hord⟩

theorem mem_of_mem_removeEntry {name : Text} {entries : Entries} {entry : Text × Node}
    (h : entry ∈ removeEntry name entries) : entry ∈ entries := by
  induction entries with
  | nil => exact h
  | cons first rest ih =>
      simp only [removeEntry] at h
      split at h
      · exact List.mem_cons_of_mem _ (ih h)
      · rcases List.mem_cons.1 h with rfl | h
        · exact List.mem_cons_self
        · exact List.mem_cons_of_mem _ (ih h)

theorem entriesWellFormed_removeEntry {name : Text} {entries : Entries}
    (h : entriesWellFormed entries = true) :
    entriesWellFormed (removeEntry name entries) = true := by
  induction entries with
  | nil => exact h
  | cons first rest ih =>
      obtain ⟨key, old⟩ := first
      obtain ⟨hkey, hold, hrest, hord⟩ := entriesWellFormed_cons.1 h
      simp only [removeEntry]
      split
      · exact ih hord
      · exact entriesWellFormed_cons.2
          ⟨hkey, hold, fun entry hm => hrest entry (mem_of_mem_removeEntry hm), ih hord⟩

/-- In a well formed directory a name stands for exactly the entry that is listed with it. -/
theorem entryNamed?_eq_some_iff {name : Text} {node : Node} {entries : Entries}
    (h : entriesWellFormed entries = true) :
    entryNamed? name entries = some node ↔ (name, node) ∈ entries := by
  induction entries with
  | nil => simp [entryNamed?]
  | cons first rest ih =>
      obtain ⟨key, old⟩ := first
      obtain ⟨-, -, hrest, hord⟩ := entriesWellFormed_cons.1 h
      simp only [entryNamed?, List.mem_cons, Prod.mk.injEq]
      split
      · rename_i hk
        subst hk
        constructor
        · rintro ⟨rfl⟩
          exact Or.inl ⟨rfl, rfl⟩
        · rintro (⟨-, rfl⟩ | hm)
          · rfl
          · have hself := hrest _ hm
            rw [Text.before_irrefl] at hself
            cases hself
      · rename_i hk
        rw [ih hord]
        constructor
        · exact Or.inr
        · rintro (⟨rfl, -⟩ | hm)
          · exact absurd rfl hk
          · exact hm

theorem isEntryName_of_mem {name : Text} {node : Node} {entries : Entries}
    (h : entriesWellFormed entries = true) (hm : (name, node) ∈ entries) :
    isEntryName name = true ∧ node.wellFormed = true := by
  induction entries with
  | nil => cases hm
  | cons first rest ih =>
      obtain ⟨key, old⟩ := first
      obtain ⟨hkey, hold, -, hord⟩ := entriesWellFormed_cons.1 h
      rcases List.mem_cons.1 hm with heq | hm
      · cases heq
        exact ⟨hkey, hold⟩
      · exact ih hord hm

theorem wellFormed_of_entryNamed? {name : Text} {node : Node} {entries : Entries}
    (h : entriesWellFormed entries = true) (hn : entryNamed? name entries = some node) :
    isEntryName name = true ∧ node.wellFormed = true :=
  isEntryName_of_mem h ((entryNamed?_eq_some_iff h).1 hn)

/-- What lies in a well formed tree is well formed, and so are the names that lead there. -/
theorem wellFormed_of_find? {place : Place} {root node : Node} (h : root.wellFormed = true)
    (hf : find? place root = some node) :
    node.wellFormed = true ∧ ∀ name ∈ place, isEntryName name = true := by
  induction place generalizing root with
  | nil =>
      simp only [find?, Option.some.injEq] at hf
      exact ⟨hf ▸ h, by simp⟩
  | cons name place ih =>
      cases root with
      | file _ | link _ => simp [find?] at hf
      | directory entries =>
          simp only [find?] at hf
          split at hf
          · obtain ⟨hname, hnode⟩ := wellFormed_of_entryNamed? (by simpa [wellFormed] using h) ‹_›
            obtain ⟨hfound, hplace⟩ := ih hnode hf
            refine ⟨hfound, ?_⟩
            intro other hm
            rcases List.mem_cons.1 hm with rfl | hm
            · exact hname
            · exact hplace other hm
          · cases hf

theorem entriesWellFormed_putAt {new : Node} {place : Place} {entries : Entries}
    (hnew : new.wellFormed = true) (hplace : ∀ name ∈ place, isEntryName name = true)
    (h : entriesWellFormed entries = true) :
    entriesWellFormed (putAt new place entries) = true := by
  fun_induction putAt new place entries with
  | case1 entries => exact h
  | case2 name entries => exact entriesWellFormed_putEntry (hplace name (by simp)) hnew h
  | case3 name place entries _ inner hn ih =>
      obtain ⟨hname, hinner⟩ := wellFormed_of_entryNamed? h hn
      refine entriesWellFormed_putEntry hname ?_ h
      exact ih (fun other hm => hplace other (List.mem_cons_of_mem _ hm)) hinner
  | case4 => exact h

theorem entriesWellFormed_removeAt {place : Place} {entries : Entries}
    (h : entriesWellFormed entries = true) :
    entriesWellFormed (removeAt place entries) = true := by
  fun_induction removeAt place entries with
  | case1 entries => exact h
  | case2 name entries => exact entriesWellFormed_removeEntry h
  | case3 name place entries _ inner hn ih =>
      obtain ⟨hname, hinner⟩ := wellFormed_of_entryNamed? h hn
      exact entriesWellFormed_putEntry hname (ih hinner) h
  | case4 => exact h

end ProjectLint.Node
