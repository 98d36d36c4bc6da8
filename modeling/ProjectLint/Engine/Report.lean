import ProjectLint.Failure

/-!
Reports of an engine: the messages about each file, and how many of them there are. An engine
prints a report as a JSON array with one object for each file. Texts are taken over as they are,
whatever kind of value they have; numbers must be whole numbers.
-/

namespace ProjectLint

/-- A message about one place in a file. -/
structure Message where
  rule : Json
  severity : Int
  message : Json
  line : Int
  column : Int
deriving Inhabited

def Message.isError (message : Message) : Bool :=
  2 ≤ message.severity

/-- The messages about one file, and the numbers of errors and warnings that the engine gives. -/
structure FileReport where
  path : Json
  messages : List Message
  errors : Int
  warnings : Int
deriving Inhabited

/-- A report: one part for each file. -/
structure Report where
  files : List FileReport
deriving Inhabited

namespace Report

def empty : Report := ⟨[]⟩

def messages (report : Report) : List Message :=
  report.files.flatMap (·.messages)

def errors (report : Report) : Int :=
  (report.files.map (·.errors)).foldr (· + ·) 0

def warnings (report : Report) : Int :=
  (report.files.map (·.warnings)).foldr (· + ·) 0

/-- The values that can be gone through one by one: the items of an array, the names of the fields
of an object, the code points of a text. -/
def itemsOf : Json → Except ReportFault (List Json)
  | .array items => .ok items
  | .object fields => .ok (fields.map fun field => .string field.1)
  | .string t => .ok (t.map fun c => .string [c])
  | .null | .bool _ | .int _ | .float _ => .error .notIterable

def integerOf (value : Json) : Except ReportFault Int :=
  match value.toInteger with
  | .ok n => .ok n
  | .error fault => .error (.integer fault)

/-- The position that a field gives; zero if it is missing or blank. -/
def positionOf (fields : Json.Fields) (name : Text) : Except ReportFault Int :=
  match Json.Fields.get? name fields with
  | none => .ok 0
  | some value => if value.isBlank then .ok 0 else integerOf value

/-- Does something to the items of a list in order and stops at the first fault. -/
def each {α β ε : Type} (f : α → Except ε β) : List α → Except ε (List β)
  | [] => .ok []
  | a :: rest =>
      match f a with
      | .error fault => .error fault
      | .ok b =>
          match each f rest with
          | .error fault => .error fault
          | .ok others => .ok (b :: others)

/-- The message that an object describes. A severity that is not given is that of an error. -/
def messageOf : Json → Except ReportFault Message
  | .object fields => do
      let severity ← integerOf ((Json.Fields.get? "severity" fields).getD (.int 2))
      let line ← positionOf fields "line"
      let column ← positionOf fields "column"
      return {
        rule := (Json.Fields.get? "ruleId" fields).getD .null
        severity, line, column
        message := (Json.Fields.get? "message" fields).getD (.string []) }
  | _ => .error .notObject

def fileOf : Json → Except ReportFault FileReport
  | .object fields => do
      let items ← itemsOf ((Json.Fields.get? "messages" fields).getD (.array []))
      let messages ← each messageOf items
      let errors ← integerOf ((Json.Fields.get? "errorCount" fields).getD (.int 0))
      let warnings ← integerOf ((Json.Fields.get? "warningCount" fields).getD (.int 0))
      return {
        path := (Json.Fields.get? "filePath" fields).getD (.string [])
        messages, errors, warnings }
  | _ => .error .notObject

def ofJson (value : Json) : Except ReportFault Report := do
  let items ← itemsOf value
  let files ← each fileOf items
  return ⟨files⟩

end Report
end ProjectLint
