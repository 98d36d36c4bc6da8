import ProjectLint.FileSystem.WellFormed

/-!
A file system: the entries of the root directory, and the working directory, from which relative
paths are followed. Every operation keeps the tree well formed.
-/

namespace ProjectLint

/-- A well formed tree of files and the place of the working directory. -/
structure FileSystem where
  entries : Entries
  directory : Place
  wellFormed : Node.entriesWellFormed entries = true

namespace FileSystem

/-- The file system in which there is nothing but the root. -/
def empty : FileSystem := ⟨[], [], rfl⟩

instance : Inhabited FileSystem := ⟨empty⟩

def root (fs : FileSystem) : Node := .directory fs.entries

def find? (fs : FileSystem) (place : Place) : Option Node :=
  fs.root.find? place

/-- Puts a node at a place in a directory that exists. Nothing changes if there is no such
directory, or if a name in the place or in the node cannot be one. -/
def put (fs : FileSystem) (node : Node) (place : Place) : FileSystem :=
  if h : node.wellFormed = true ∧ ∀ name ∈ place, isEntryName name = true then
    { fs with
      entries := Node.putAt node place fs.entries
      wellFormed := Node.entriesWellFormed_putAt h.1 h.2 fs.wellFormed }
  else fs

/-- Takes away the node at a place. The root stays. -/
def remove (fs : FileSystem) (place : Place) : FileSystem :=
  { fs with
    entries := Node.removeAt place fs.entries
    wellFormed := Node.entriesWellFormed_removeAt fs.wellFormed }

theorem wellFormed_root (fs : FileSystem) : fs.root.wellFormed = true := by
  simpa [root, Node.wellFormed] using fs.wellFormed

end FileSystem
end ProjectLint
