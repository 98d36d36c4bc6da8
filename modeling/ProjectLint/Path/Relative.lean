import ProjectLint.Path.Basic

/-!
One path as seen from another. Both are made absolute and `..` is resolved by the components alone,
without looking at the file system. Main statements: what comes out holds no `..`, and components
without `..` stay as they are.
-/

namespace ProjectLint.Path

/-- Takes one component onto a list of components that holds no `..`. -/
def enter (parts : List Text) (part : Text) : List Text :=
  if part = parentPart then parts.dropLast else parts ++ [part]

/-- Components from the root with every `..` taken together with the component before it. -/
def collapse (parts : List Text) : List Text :=
  parts.foldl enter []

theorem foldl_enter_of_not_parent {parts start : List Text} (h : parentPart ∉ parts) :
    parts.foldl enter start = start ++ parts := by
  induction parts generalizing start with
  | nil => simp
  | cons part parts ih =>
      simp only [List.mem_cons, not_or] at h
      simp only [List.foldl_cons, enter, if_neg (Ne.symm h.1), ih h.2]
      simp

/-- Components without `..` stay as they are. -/
theorem collapse_eq_self {parts : List Text} (h : parentPart ∉ parts) : collapse parts = parts := by
  have hfold : parts.foldl enter [] = [] ++ parts := foldl_enter_of_not_parent h
  simpa [collapse] using hfold

theorem parentPart_not_mem_foldl_enter {parts start : List Text} (h : parentPart ∉ start) :
    parentPart ∉ parts.foldl enter start := by
  induction parts generalizing start with
  | nil => exact h
  | cons part parts ih =>
      refine ih ?_
      simp only [enter]
      split
      · exact fun hm => h (List.dropLast_subset _ hm)
      · rename_i hne
        simp only [List.mem_append, List.mem_singleton, not_or]
        exact ⟨h, fun e => hne e.symm⟩

theorem parentPart_not_mem_collapse (parts : List Text) : parentPart ∉ collapse parts :=
  parentPart_not_mem_foldl_enter (by simp)

/-- How many components two lists have in common at the start. -/
def sharedLength : List Text → List Text → Nat
  | a :: s, b :: t => if a = b then sharedLength s t + 1 else 0
  | _, _ => 0

/-- The components that lead from one place to another. -/
def steps (goal start : List Text) : List Text :=
  let shared := sharedLength start goal
  List.replicate (start.length - shared) parentPart ++ goal.drop shared

/-- The text of a path as seen from a base, both being read from a directory. -/
def relativeTo (directory path base : Path) : Text :=
  (Path.mk .relative (steps (collapse (directory.under path).parts)
    (collapse (directory.under base).parts))).toText

/-- A text with every backslash turned into a slash. -/
def slashed (t : Text) : Text :=
  t.replace '\\' '/'

/-- The character that separates components where a program runs. -/
inductive Separator where
  | slash
  | backslash
deriving DecidableEq

/-- A relative path with slashes between its components, for matching. -/
def relativeSlashed (separator : Separator) (directory path base : Path) : Text :=
  let text := relativeTo directory path base
  match separator with
  | .slash => text
  | .backslash => slashed text

end ProjectLint.Path
