import ProjectLint.Text.Basic

/-!
Paths as lists of components. Empty components and `.` are dropped when a text is read as a path;
`..` is kept, since what it means depends on links. Main statement: what the components of a path
that was read can be.
-/

namespace ProjectLint

/-- The component that stands for the parent directory. -/
def parentPart : Text := [.scalar '.', .scalar '.']

/-- The component that stands for the directory itself. -/
def selfPart : Text := [.scalar '.']

/-- What a path starts from: nothing, the root, or the root written with exactly two slashes. -/
inductive Anchor where
  | relative
  | root
  | doubleRoot
deriving DecidableEq, Inhabited

/-- A path: where it starts, and its components. -/
structure Path where
  anchor : Anchor
  parts : List Text
deriving DecidableEq, Inhabited

namespace Path

def absolute (parts : List Text) : Path :=
  ⟨.root, parts⟩

/-- What the slashes at the start of a text mean: one or more than two are the root. -/
def anchorOf : Text → Anchor
  | .scalar '/' :: .scalar '/' :: .scalar '/' :: _ => .root
  | .scalar '/' :: .scalar '/' :: _ => .doubleRoot
  | .scalar '/' :: _ => .root
  | _ => .relative

/-- Reads a text as a path. -/
def ofText (t : Text) : Path :=
  ⟨anchorOf t, (t.split '/').filter fun part => part != [] && part != selfPart⟩

/-- The components of a path that was read are not empty, not `.`, and hold no slash. -/
theorem component_of_mem_ofText {t part : Text} (h : part ∈ (ofText t).parts) :
    part ≠ [] ∧ part ≠ selfPart ∧ .scalar '/' ∉ part := by
  obtain ⟨hsplit, hkept⟩ := List.mem_filter.1 h
  simp only [Bool.and_eq_true, bne_iff_ne] at hkept
  exact ⟨hkept.1, hkept.2, Text.not_mem_of_mem_split hsplit⟩

/-- The text of a path. The path that has no component and starts nowhere is `.`. -/
def toText (p : Path) : Text :=
  let body := Text.join [.scalar '/'] p.parts
  match p.anchor with
  | .relative => if p.parts.isEmpty then selfPart else body
  | .root => .scalar '/' :: body
  | .doubleRoot => .scalar '/' :: .scalar '/' :: body

/-- Whether a path starts from the root. -/
def isAbsolute (p : Path) : Bool :=
  p.anchor != .relative

/-- The path of an entry of a directory. -/
def child (p : Path) (name : Text) : Path :=
  ⟨p.anchor, p.parts ++ [name]⟩

/-- A path read from a directory: an absolute one stays as it is. -/
def under (directory p : Path) : Path :=
  if p.isAbsolute then p else ⟨directory.anchor, directory.parts ++ p.parts⟩

def parent (p : Path) : Path :=
  ⟨p.anchor, p.parts.dropLast⟩

/-- A path and its parents, the longest first, up to the one without components. -/
def ancestors (p : Path) : List Path :=
  go p.parts.length p
where
  go : Nat → Path → List Path
    | 0, p => [p]
    | n + 1, p => p :: go n p.parent

end Path
end ProjectLint
