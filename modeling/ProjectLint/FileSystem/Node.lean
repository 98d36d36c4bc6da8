import ProjectLint.FileSystem.Name
import ProjectLint.Text.Order

/-!
A tree of files, symbolic links and directories. The entries of a directory are kept in the order
of their names, which is the order in which they are listed. Main statements: what a name stands
for after an entry was put in or taken away.
-/

namespace ProjectLint

/-- A node of the tree. -/
inductive Node where
  | file (content : Utf8.Bytes)
  | link (target : Text)
  | directory (entries : List (Text × Node))
deriving Inhabited

/-- The entries of a directory by name. -/
abbrev Entries := List (Text × Node)

/-- A way down from the root, by names of entries only. -/
abbrev Place := List Text

namespace Node

def entryNamed? (name : Text) : Entries → Option Node
  | [] => none
  | (key, node) :: rest => if key = name then some node else entryNamed? name rest

/-- Puts an entry where its name belongs, in place of one with the same name. -/
def putEntry (name : Text) (node : Node) : Entries → Entries
  | [] => [(name, node)]
  | (key, old) :: rest =>
      if key = name then (key, node) :: rest
      else if name.before key then (name, node) :: (key, old) :: rest
      else (key, old) :: putEntry name node rest

def removeEntry (name : Text) : Entries → Entries
  | [] => []
  | (key, old) :: rest =>
      if key = name then removeEntry name rest else (key, old) :: removeEntry name rest

/-- The node at a place, without following links. -/
def find? : Place → Node → Option Node
  | [], node => some node
  | name :: place, directory entries =>
      match entryNamed? name entries with
      | some node => find? place node
      | none => none
  | _ :: _, _ => none

/-- Puts a node at a place below a directory with some entries. Nothing changes if what the place
goes through is missing or no directory. -/
def putAt (new : Node) : Place → Entries → Entries
  | [], entries => entries
  | [name], entries => putEntry name new entries
  | name :: place, entries =>
      match entryNamed? name entries with
      | some (directory inner) => putEntry name (directory (putAt new place inner)) entries
      | _ => entries

/-- Takes away the node at a place below a directory with some entries. -/
def removeAt : Place → Entries → Entries
  | [], entries => entries
  | [name], entries => removeEntry name entries
  | name :: place, entries =>
      match entryNamed? name entries with
      | some (directory inner) => putEntry name (directory (removeAt place inner)) entries
      | _ => entries

theorem entryNamed?_putEntry (name other : Text) (node : Node) (entries : Entries) :
    entryNamed? other (putEntry name node entries) =
      if other = name then some node else entryNamed? other entries := by
  induction entries with
  | nil => simp [putEntry, entryNamed?, eq_comm]
  | cons first rest ih =>
      obtain ⟨key, old⟩ := first
      simp only [putEntry]
      split
      · rename_i h
        subst h
        simp only [entryNamed?, eq_comm (a := other)]
        split <;> rfl
      · split
        · simp only [entryNamed?, eq_comm (a := other)]
        · rename_i hne _
          simp only [entryNamed?, ih]
          by_cases h : key = other
          · subst h; simp [hne]
          · simp [h]

theorem entryNamed?_removeEntry (name other : Text) (entries : Entries) :
    entryNamed? other (removeEntry name entries) =
      if other = name then none else entryNamed? other entries := by
  induction entries with
  | nil => simp [removeEntry, entryNamed?]
  | cons first rest ih =>
      obtain ⟨key, old⟩ := first
      simp only [removeEntry]
      split
      · rename_i hk
        subst hk
        rw [ih]
        by_cases h : other = key
        · simp [h]
        · simp [entryNamed?, h, Ne.symm h]
      · rename_i hk
        simp only [entryNamed?, ih]
        by_cases h : key = other
        · subst h
          simp [hk]
        · simp [h]

mutual

/-- The greatest number of components in the target of a link. -/
def longestTarget : Node → Nat
  | file _ => 0
  | link target => (target.split '/').length
  | directory entries => entryLongestTarget entries

/-- The greatest number of components in the target of a link among entries and below them. -/
def entryLongestTarget : List (Text × Node) → Nat
  | [] => 0
  | (_, node) :: rest => max node.longestTarget (entryLongestTarget rest)

end

end Node
end ProjectLint
