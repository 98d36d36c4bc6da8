import ProjectLint.Text.Lowercase

/-!
Names of settings. A name may be written with hyphens or with capitals between its words; both come
to the form in lower case with underscores.
-/

namespace ProjectLint.Manifest

/-- Whether a code point is a lower-case ASCII letter or an ASCII digit. -/
def endsWord (c : CodePoint) : Bool :=
  c.isAsciiDigit || (97 ≤ c.toNat && c.toNat ≤ 122)

/-- Whether a code point is an ASCII capital. -/
def isCapital (c : CodePoint) : Bool :=
  65 ≤ c.toNat && c.toNat ≤ 90

/-- A name with an underscore before each capital that directly follows a lower-case letter or a
digit. `afterWord` tells whether such a one stands before. -/
def markWords (afterWord : Bool) : Text → Text
  | [] => []
  | c :: rest =>
      if afterWord && isCapital c then .scalar '_' :: c :: markWords false rest
      else c :: markWords (endsWord c) rest

/-- The form of a name in lower case with underscores. -/
def snakeCase (key : Text) : Text :=
  ((markWords false key).replace '-' '_').lowercase

end ProjectLint.Manifest
