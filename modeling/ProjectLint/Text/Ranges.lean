import ProjectLint.Text.Basic

/-!
Sets of code points given as a list of ranges with both ends included.
-/

namespace ProjectLint

/-- Ranges of code points by number, each with both ends included. -/
abbrev Ranges := List (Nat × Nat)

namespace Ranges

/-- Whether a number lies in one of the ranges. -/
def has (table : Ranges) (n : Nat) : Bool :=
  table.any fun range => range.1 ≤ n && n ≤ range.2

end Ranges
end ProjectLint
