import ProjectLint.Failure

/-!
Patterns as a caller gives them, for files to find and for paths to ignore. A pattern should be a
text. Another value stays among the others as it is, and fails where it is put to use.
-/

namespace ProjectLint

/-- A pattern: a text, or another value. -/
inductive Pattern where
  | text (t : Text)
  | other (value : Json)
deriving Inhabited

/-- Whether a pattern is empty, or a value that counts as absent. -/
def Pattern.isBlank : Pattern → Bool
  | text t => t.isEmpty
  | other value => value.isBlank

/-- The patterns that a caller gives: none, one, several, or something else. -/
inductive Patterns where
  | none
  | one (pattern : Text)
  | several (patterns : List Pattern)
  | unusable

namespace Patterns

def ofTexts (texts : List Text) : Patterns :=
  several (texts.map .text)

def toList : Patterns → Except Failure (List Pattern)
  | none => .ok []
  | one pattern => .ok [.text pattern]
  | several patterns => .ok patterns
  | unusable => .error .notText

end Patterns
end ProjectLint
