import ProjectLint.Text.Blank

/-!
The lines of an ignore file.
-/

namespace ProjectLint.IgnoreFile

/-- Cuts a text at line feeds, each with the carriage return before it, if there is one. -/
def lines : Text → List Text
  | [] => [[]]
  | .scalar '\r' :: .scalar '\n' :: rest => [] :: lines rest
  | c :: rest =>
      if c = .scalar '\n' then [] :: lines rest
      else
        match lines rest with
        | [] => [[c]]
        | line :: others => (c :: line) :: others

/-- Whether a line holds a pattern: it is neither blank nor a comment. -/
def isPattern (line : Text) : Bool :=
  match line.trimLeft with
  | [] => false
  | c :: _ => c != .scalar '#'

/-- The lines of a text that hold patterns. -/
def patterns (t : Text) : List Text :=
  (lines t).filter isPattern

end ProjectLint.IgnoreFile
