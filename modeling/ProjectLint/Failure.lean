import ProjectLint.FileSystem.Resolve
import ProjectLint.Text.Quoted
import ProjectLint.Json.Integer

/-!
What can go wrong, by cause. The wording of each failure is given by `Failure.message`.
-/

namespace ProjectLint

/-- A refusal of the system, worded. The path is left out if there is none to name. -/
def refusalText (errno : Errno) (path : Option Text) : Text :=
  ("[Errno " : Text) ++ decimal errno.number ++ ("] " : Text) ++ errno.phrase ++
    match path with
    | some path => (": " : Text) ++ path.quoted
    | none => []

/-- Why a document could not be read from a file. -/
inductive DocumentFault where
  | refused (errno : Errno) (path : Text)
  | malformed (fault : Json.Fault)

def DocumentFault.message : DocumentFault → Text
  | refused errno path => refusalText errno (some path)
  | malformed fault => fault.message

/-- Why a configuration cannot be used. -/
inductive ConfigFault where
  | missing
  | unreadable (path : Text) (fault : DocumentFault)
  | notObject (path : Text)

def ConfigFault.message : ConfigFault → Text
  | missing => "No engine config passed."
  | unreadable path fault =>
      ("Could not read engine config " : Text) ++ path ++ (": " : Text) ++ fault.message
  | notObject path => ("Engine config " : Text) ++ path ++ (" is not a JSON object" : Text)

/-- Why a program could not be started: the number and phrase of the system, and the file that it
names, if any. -/
structure StartFault where
  number : Int
  phrase : Text
  file : Option Text

def StartFault.message (fault : StartFault) : Text :=
  ("[Errno " : Text) ++ signedDecimal fault.number ++ ("] " : Text) ++ fault.phrase ++
    match fault.file with
    | some file => (": " : Text) ++ file.quoted
    | none => []

/-- Why an engine gave no report. -/
inductive EngineFault where
  | notStarted (executable : Text) (fault : StartFault)
  | badStatus (executable : Text) (status : Int)
  | unreadable (executable : Text) (fault : Json.Fault)

def EngineFault.message : EngineFault → Text
  | notStarted executable fault =>
      ("Could not run " : Text) ++ executable ++ (": " : Text) ++ fault.message
  | badStatus executable status =>
      executable ++ (" exited with status " : Text) ++ signedDecimal status
  | unreadable executable fault =>
      ("Unreadable output from " : Text) ++ executable ++ (": " : Text) ++ fault.message

/-- Why a value is no report of an engine. -/
inductive ReportFault where
  | notIterable
  | notObject
  | integer (fault : Json.IntegerFault)

/-- A failure of an operation, by cause. What a start that is given up raises, or an engine of
another make, is known by the name of its kind and its wording. -/
inductive Failure where
  | config (fault : ConfigFault)
  | engine (fault : EngineFault) (stderr : Text)
  | refused (errno : Errno) (path : Option Text)
  | destinationIsDirectory (path : Text)
  | unreadableSegment (segment : Text)
  | ring (path : Text)
  | linksTooDeep
  | spelling (fault : PathFault)
  | undecodable (fault : Utf8.Fault)
  | unloadable (fault : Json.Fault)
  | badPattern (line : Text)
  | badRange
  | notText
  | noFields
  | report (fault : ReportFault)
  | raised (kind wording : Text)
  | unprintable
  | callbackRequired
  | optionsExpected
  | noEventLoop

namespace Failure

/-- The wording of a failure; failures that are reported by their kind alone have none. -/
def message? : Failure → Option Text
  | config fault => some fault.message
  | engine fault _ => some fault.message
  | refused errno path => some (refusalText errno path)
  | destinationIsDirectory path =>
      some (("Destination is a directory: " : Text) ++ path.quotedIfNeeded)
  | unreadableSegment segment => some (("cannot read " : Text) ++ segment)
  | ring path => some (("Symlink loop from " : Text) ++ path.quoted)
  | unloadable (.malformed defect line column offset) =>
      some (Json.Fault.malformed defect line column offset).message
  | badPattern line => some (("Invalid git pattern: " : Text) ++ line.quoted)
  | raised _ wording => some wording
  | callbackRequired => some "A callback is required"
  | optionsExpected => some "options must be LintOptions or None"
  | noEventLoop => some "no running event loop"
  | linksTooDeep | spelling _ | undecodable _ | unloadable _ | badRange | notText | noFields
  | report _ | unprintable => none

/-- Whether a failure is one that the command line reports: those of the configuration, the engine
and the system. -/
def isReported : Failure → Bool
  | config _ | engine _ _ | refused _ _ | destinationIsDirectory _ | unreadableSegment _ => true
  | _ => false

/-- The failure of an operation on a path. -/
def ofPathFault (path : Text) : PathFault → Failure
  | .refused errno => .refused errno (some path)
  | .zeroByte => .spelling .zeroByte
  | .surrogate => .spelling .surrogate

/-- The failure of finding a canonical path. -/
def ofResolveFault : ResolveFault → Failure
  | .noDirectory errno => .refused errno none
  | .ring path => .ring path.toText
  | .tooDeep => .linksTooDeep
  | .spelling fault => .spelling fault

end Failure
end ProjectLint
