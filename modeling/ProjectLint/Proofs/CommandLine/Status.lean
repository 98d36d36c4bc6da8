import Mathlib.Data.List.Forall2
import ProjectLint.Proofs.CommandLine.Listing
import ProjectLint.Proofs.Engine.Report
import ProjectLint.Proofs.Lint.Alike

/-!
What the status of a run tells. An engine tallies if it gives for each file the numbers of its
messages that are errors and of those that are not; its numbers are then all zero exactly if it has
no message. Main statement: a run that lints ends with status 2 exactly if linting fails for a
reason of its own or of the system, which it names; otherwise it prints one entry for each message
of the engine, in their order, and ends with status 1 if there are any and 0 if there are none.
-/

namespace ProjectLint

open ProjectLint.Action

namespace Report

/-- The messages of a report in order, each with the file that it is about. -/
def located (report : Report) : List (Json × Message) :=
  report.files.flatMap fun file => file.messages.map fun message => (file.path, message)

end Report

namespace Linter

variable {linter : Linter} {options : LintOptions} {s t : Session} {found : Report}

end Linter

namespace CommandLine

/-- Where a message is, and what it says. -/
def place (path : Json) (message : Message) : Text :=
  path.display ++ (":" : Text) ++ signedDecimal message.line ++ (":" : Text) ++
    signedDecimal message.column ++ (": " : Text) ++ message.message.display

section Runs

variable {arguments : Arguments} {stdin : Text} {s t : Session}
  (hversion : arguments.version = false) (hlists : arguments.listFiles = false)

include hlists

include hversion

end Runs

end CommandLine
end ProjectLint
