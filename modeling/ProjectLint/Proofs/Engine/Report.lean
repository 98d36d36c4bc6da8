import ProjectLint.Proofs.Engine.Run
import ProjectLint.Proofs.Json.Document

/-!
Which output of an engine is taken for a report. A report should be an array of objects, one for
each file, with arrays of objects for the messages, and with whole numbers where numbers stand.
Main statements: an empty object or text is taken for an array too, and apart from that nothing else
is; the outcome of a run is a report or a failure of the engine with what it wrote, unless its output
goes beyond the limits of the reader or is JSON of another shape.
-/

namespace ProjectLint

namespace Report

/-- Whether a value can be used as a whole number. -/
def IsNumber (value : Json) : Prop :=
  ∃ n, integerOf value = .ok n

/-- Whether a field is missing or has a value of some kind. -/
def FieldIs (fields : Json.Fields) (name : Text) (kind : Json → Prop) : Prop :=
  ∀ value, Json.Fields.get? name fields = some value → kind value

/-- Whether fields can be used as those of a message. Texts can be of any kind. -/
structure MessageFields (fields : Json.Fields) : Prop where
  severity : FieldIs fields "severity" IsNumber
  line : FieldIs fields "line" fun value => value.isBlank = true ∨ IsNumber value
  column : FieldIs fields "column" fun value => value.isBlank = true ∨ IsNumber value

def IsMessage (value : Json) : Prop :=
  ∃ fields, value = .object fields ∧ MessageFields fields

/-- Whether fields can be used as those of a file; `lists` tells which values hold which items. -/
structure FileFields (lists : Json → List Json → Prop) (fields : Json.Fields) : Prop where
  messages : FieldIs fields "messages" fun value =>
    ∃ items, lists value items ∧ ∀ item ∈ items, IsMessage item
  errors : FieldIs fields "errorCount" IsNumber
  warnings : FieldIs fields "warningCount" IsNumber

def IsFile (lists : Json → List Json → Prop) (value : Json) : Prop :=
  ∃ fields, value = .object fields ∧ FileFields lists fields

/-- Whether a value has the shape of a report. -/
def IsReport (lists : Json → List Json → Prop) (value : Json) : Prop :=
  ∃ items, lists value items ∧ ∀ item ∈ items, IsFile lists item

/-- Whether a value is the array of some items. -/
def IsArray (value : Json) (items : List Json) : Prop :=
  value = .array items

/-- Whether a value is gone through as the array of some items: it is this array, or there are no
items and it is an empty object or text. -/
def PassesAsArray (value : Json) (items : List Json) : Prop :=
  value = .array items ∨ items = [] ∧ (value = .object [] ∨ value = .string [])

theorem bind_isOk {α β ε : Type} {e : Except ε α} {f : α → Except ε β} :
    (∃ b, (e >>= f) = .ok b) ↔ ∃ a, e = .ok a ∧ ∃ b, f a = .ok b := by
  cases e with
  | error fault =>
      constructor
      · rintro ⟨b, hb⟩
        cases hb
      · rintro ⟨a, ha, -⟩
        cases ha
  | ok a =>
      constructor
      · intro hb
        exact ⟨a, rfl, hb⟩
      · rintro ⟨first, hfirst, hb⟩
        cases hfirst
        exact hb

theorem each_isOk {α β ε : Type} {f : α → Except ε β} {items : List α} :
    (∃ found, each f items = .ok found) ↔ ∀ item ∈ items, ∃ b, f item = .ok b := by
  induction items with
  | nil => simp [each]
  | cons item items ih =>
      rw [List.forall_mem_cons, ← ih, each]
      cases f item with
      | error fault => simp
      | ok b => cases each f items <;> simp

theorem isNumber_getD {fields : Json.Fields} {name : Text} {n : Int} :
    IsNumber ((Json.Fields.get? name fields).getD (.int n)) ↔ FieldIs fields name IsNumber := by
  rw [FieldIs]
  cases Json.Fields.get? name fields with
  | none =>
      simp only [Option.getD_none, reduceCtorEq, false_implies, implies_true, iff_true]
      exact ⟨n, rfl⟩
  | some value => simp

theorem positionOf_isOk {fields : Json.Fields} {name : Text} :
    (∃ n, positionOf fields name = .ok n) ↔
      FieldIs fields name fun value => value.isBlank = true ∨ IsNumber value := by
  rw [FieldIs, positionOf]
  cases Json.Fields.get? name fields with
  | none => simp
  | some value =>
      by_cases hblank : value.isBlank = true
      · simp [hblank]
      · simp [hblank, IsNumber]

/-- What reads objects only and wants something of their fields. -/
theorem object_isOk {β : Type} {read : Json → Except ReportFault β} {kind : Json.Fields → Prop}
    (hobject : ∀ fields, (∃ b, read (.object fields) = .ok b) ↔ kind fields)
    (hother : ∀ value, (∀ fields, value ≠ .object fields) → read value = .error .notObject)
    {value : Json} :
    (∃ b, read value = .ok b) ↔ ∃ fields, value = .object fields ∧ kind fields := by
  constructor
  · rintro ⟨b, hb⟩
    by_cases hvalue : ∃ fields, value = .object fields
    · obtain ⟨fields, rfl⟩ := hvalue
      exact ⟨fields, rfl, (hobject fields).1 ⟨b, hb⟩⟩
    · rw [hother value fun fields heq => hvalue ⟨fields, heq⟩] at hb
      cases hb
  · rintro ⟨fields, rfl, hfields⟩
    exact (hobject fields).2 hfields

theorem messageOf_isOk {value : Json} :
    (∃ found, messageOf value = .ok found) ↔ IsMessage value := by
  refine object_isOk (fun fields => ?_) fun value hvalue => ?_
  · simp only [messageOf, bind_isOk]
    constructor
    · rintro ⟨severity, hseverity, line, hline, column, hcolumn, -⟩
      exact ⟨isNumber_getD.1 ⟨severity, hseverity⟩, positionOf_isOk.1 ⟨line, hline⟩,
        positionOf_isOk.1 ⟨column, hcolumn⟩⟩
    · intro h
      obtain ⟨severity, hseverity⟩ := isNumber_getD.2 h.severity
      obtain ⟨line, hline⟩ := positionOf_isOk.2 h.line
      obtain ⟨column, hcolumn⟩ := positionOf_isOk.2 h.column
      exact ⟨severity, hseverity, line, hline, column, hcolumn, _, rfl⟩
  · cases value with
    | object fields => exact absurd rfl (hvalue fields)
    | null | bool _ | int _ | float _ | string _ | array _ => rfl

/-- Items that are no texts are only found in what passes as an array. -/
theorem itemsOf_isOk {value : Json} {kind : Json → Prop} (htext : ∀ t, ¬kind (.string t)) :
    (∃ items, itemsOf value = .ok items ∧ ∀ item ∈ items, kind item) ↔
      ∃ items, PassesAsArray value items ∧ ∀ item ∈ items, kind item := by
  constructor
  · rintro ⟨items, hitems, hkind⟩
    refine ⟨items, ?_, hkind⟩
    cases value with
    | array others =>
        cases hitems
        exact Or.inl rfl
    | object fields =>
        cases hitems
        cases fields with
        | nil => exact Or.inr ⟨rfl, Or.inl rfl⟩
        | cons field fields => exact absurd (hkind _ List.mem_cons_self) (htext _)
    | string t =>
        cases hitems
        cases t with
        | nil => exact Or.inr ⟨rfl, Or.inr rfl⟩
        | cons c t => exact absurd (hkind _ List.mem_cons_self) (htext _)
    | null | bool _ | int _ | float _ => cases hitems
  · rintro ⟨items, rfl | ⟨rfl, rfl | rfl⟩, hkind⟩
    · exact ⟨items, rfl, hkind⟩
    · exact ⟨[], rfl, hkind⟩
    · exact ⟨[], rfl, hkind⟩

theorem messages_isOk {fields : Json.Fields} :
    (∃ items, itemsOf ((Json.Fields.get? "messages" fields).getD (.array [])) = .ok items ∧
      ∃ found, each messageOf items = .ok found) ↔
        FieldIs fields "messages" fun value =>
          ∃ items, PassesAsArray value items ∧ ∀ item ∈ items, IsMessage item := by
  have htext : ∀ t, ¬IsMessage (.string t) := by
    rintro t ⟨fields, hfields, -⟩
    cases hfields
  simp only [each_isOk, messageOf_isOk, itemsOf_isOk htext, FieldIs]
  cases Json.Fields.get? "messages" fields with
  | none =>
      simp only [Option.getD_none, reduceCtorEq, false_implies, implies_true, iff_true]
      exact ⟨[], Or.inl rfl, by simp⟩
  | some value => simp

theorem fileOf_isOk {value : Json} :
    (∃ found, fileOf value = .ok found) ↔ IsFile PassesAsArray value := by
  refine object_isOk (fun fields => ?_) fun value hvalue => ?_
  · simp only [fileOf, bind_isOk]
    constructor
    · rintro ⟨items, hitems, messages, hfound, errors, herrors, warnings, hwarnings, -⟩
      exact ⟨messages_isOk.1 ⟨items, hitems, messages, hfound⟩, isNumber_getD.1 ⟨errors, herrors⟩,
        isNumber_getD.1 ⟨warnings, hwarnings⟩⟩
    · intro h
      obtain ⟨items, hitems, messages, hfound⟩ := messages_isOk.2 h.messages
      obtain ⟨errors, herrors⟩ := isNumber_getD.2 h.errors
      obtain ⟨warnings, hwarnings⟩ := isNumber_getD.2 h.warnings
      exact ⟨items, hitems, messages, hfound, errors, herrors, warnings, hwarnings, _, rfl⟩
  · cases value with
    | object fields => exact absurd rfl (hvalue fields)
    | null | bool _ | int _ | float _ | string _ | array _ => rfl

/-- A value is read as a report exactly if it has the shape of one, where an empty object or text
passes as an array. -/
theorem ofJson_isOk {value : Json} :
    (∃ found, ofJson value = .ok found) ↔ IsReport PassesAsArray value := by
  have htext : ∀ t, ¬IsFile PassesAsArray (.string t) := by
    rintro t ⟨fields, hfields, -⟩
    cases hfields
  rw [IsReport, ← itemsOf_isOk htext]
  simp only [ofJson, bind_isOk, ← fileOf_isOk, ← each_isOk]
  constructor
  · rintro ⟨items, hitems, files, hfiles, -⟩
    exact ⟨items, hitems, files, hfiles⟩
  · rintro ⟨items, hitems, files, hfiles⟩
    exact ⟨items, hitems, files, hfiles, _, rfl⟩

theorem IsReport.mono {lists others : Json → List Json → Prop}
    (hlists : ∀ value items, lists value items → others value items) {value : Json}
    (h : IsReport lists value) : IsReport others value := by
  obtain ⟨items, hitems, hfiles⟩ := h
  refine ⟨items, hlists value items hitems, fun item hmem => ?_⟩
  obtain ⟨fields, rfl, hfields⟩ := hfiles item hmem
  refine ⟨fields, rfl, fun value hvalue => ?_, hfields.errors, hfields.warnings⟩
  obtain ⟨messages, hmessages, hkind⟩ := hfields.messages value hvalue
  exact ⟨messages, hlists value messages hmessages, hkind⟩

end Report

namespace Engine

open ProjectLint.Action Report

/-- Whether an engine worked, by its status. -/
def Worked (status : Int) : Prop :=
  status = 0 ∨ status = 1

/-- Whether a result accounts for the outcome of a run: it is the report that the engine printed as
an array, or a failure of the engine with what it wrote. -/
inductive Accounts (nesting : Nat) (executable : Text) :
    EngineOutcome → Except Failure Report → Prop
  | report {status : Int} {stdout stderr : Text} {value : Json} {found : Report}
      (worked : Worked status) (reads : Json.read (.nested nesting) stdout = .ok value)
      (shape : IsReport IsArray value) (gives : Report.ofJson value = .ok found) :
      Accounts nesting executable (.finished status stdout stderr) (.ok found)
  | notStarted (fault : StartFault) :
      Accounts nesting executable (.notStarted fault)
        (.error (.engine (.notStarted executable fault) []))
  | failed (fault : EngineFault) (status : Int) (stdout stderr : Text) :
      Accounts nesting executable (.finished status stdout stderr) (.error (.engine fault stderr))

/-- Whether the output of an engine that worked goes beyond the limits of the reader, or is JSON of
another shape than that of a report. -/
inductive Misprints (nesting : Nat) : EngineOutcome → Prop
  | limit {status : Int} {stdout stderr : Text} {fault : Json.Fault} (worked : Worked status)
      (reads : Json.read (.nested nesting) stdout = .error fault)
      (limit : fault = .tooManyDigits ∨ fault = .tooDeep) :
      Misprints nesting (.finished status stdout stderr)
  | shape {status : Int} {stdout stderr : Text} {value : Json} (worked : Worked status)
      (reads : Json.read (.nested nesting) stdout = .ok value) (shape : ¬IsReport IsArray value) :
      Misprints nesting (.finished status stdout stderr)

/-- Whether a start of an engine was given up before or without the system. -/
inductive Raises : EngineOutcome → Prop
  | intro (kind wording : Text) : Raises (.raised kind wording)

section Report

variable {nesting : Nat} {executable : Text} {status : Int} {stdout stderr : Text}

theorem report_of_not_worked (h : ¬Worked status) :
    report nesting executable (.finished status stdout stderr) =
      .error (.engine (.badStatus executable status) stderr) := by
  rw [Worked, not_or] at h
  simp [report, h.1, h.2]

theorem report_of_worked (h : Worked status) :
    report nesting executable (.finished status stdout stderr) =
      match Json.read (.nested nesting) stdout with
      | .error (.malformed defect line column offset) =>
          .error (.engine (.unreadable executable (.malformed defect line column offset)) stderr)
      | .error fault => .error (.unloadable fault)
      | .ok value =>
          match Report.ofJson value with
          | .error fault => .error (.report fault)
          | .ok found => .ok found := by
  rcases h with rfl | rfl <;> rfl

theorem report_of_limit (h : Worked status) {fault : Json.Fault}
    (hreads : Json.read (.nested nesting) stdout = .error fault)
    (hlimit : fault = .tooManyDigits ∨ fault = .tooDeep) :
    report nesting executable (.finished status stdout stderr) = .error (.unloadable fault) := by
  rw [report_of_worked h, hreads]
  rcases hlimit with rfl | rfl <;> rfl

theorem report_of_value (h : Worked status) {value : Json}
    (hreads : Json.read (.nested nesting) stdout = .ok value) :
    report nesting executable (.finished status stdout stderr) =
      match Report.ofJson value with
      | .error fault => .error (.report fault)
      | .ok found => .ok found := by
  rw [report_of_worked h, hreads]

/-- A run is accounted for exactly if its start was not given up and the engine did not
misprint. -/
theorem accounts_iff (nesting : Nat) (executable : Text) (outcome : EngineOutcome) :
    Accounts nesting executable outcome (report nesting executable outcome) ↔
      ¬Misprints nesting outcome ∧ ¬Raises outcome := by
  constructor
  · refine fun haccounts => ⟨?_, fun ⟨_, _⟩ => by cases haccounts⟩
    rintro (⟨hworked, hreads, hlimit⟩ | ⟨hworked, hreads, hshape⟩)
    · rw [report_of_limit hworked hreads hlimit] at haccounts
      cases haccounts
    · rw [report_of_value hworked hreads] at haccounts
      cases hfound : Report.ofJson _ with
      | error fault =>
          rw [hfound] at haccounts
          cases haccounts
      | ok found =>
          rw [hfound] at haccounts
          obtain ⟨-, hvalue, hreport, -⟩ := haccounts
          cases hreads.symm.trans hvalue
          exact hshape hreport
  · rintro ⟨hprints, hraises⟩
    cases outcome with
    | notStarted fault => exact .notStarted fault
    | raised kind wording => exact absurd (.intro kind wording) hraises
    | finished status stdout stderr =>
        by_cases hworked : Worked status
        · cases hreads : Json.read (.nested nesting) stdout with
          | error fault =>
              cases fault with
              | malformed defect line column offset =>
                  rw [report_of_worked hworked, hreads]
                  exact .failed _ status stdout stderr
              | tooManyDigits => exact absurd (.limit hworked hreads (Or.inl rfl)) hprints
              | tooDeep => exact absurd (.limit hworked hreads (Or.inr rfl)) hprints
          | ok value =>
              by_cases hshape : IsReport IsArray value
              · obtain ⟨found, hfound⟩ := ofJson_isOk.2 (hshape.mono fun _ _ => Or.inl)
                rw [report_of_value hworked hreads, hfound]
                exact .report hworked hreads hshape hfound
              · exact absurd (.shape hworked hreads hshape) hprints
        · rw [report_of_not_worked hworked]
          exact .failed _ status stdout stderr

end Report

/-- The runs that start an engine: on a text, or on files if there are any. -/
inductive Starts (config : EngineConfig) : Action Report → Prop
  | text (text : Text) (fileName : Option Text) : Starts config (runOnText config text fileName)
  | files {files : List Path} (present : files ≠ []) : Starts config (runOnFiles config files)

theorem Starts.gives_eq {config : EngineConfig} {run : Action Report} (h : Starts config run)
    (hparser : config.parser.isUnusable = false) (s : Session) :
    run.gives s = report s.host.nesting config.executable (s.outcomes.headD .quiet) := by
  cases h with
  | text text fileName => exact gives_run hparser _ _ s
  | files present =>
      rw [runOnFiles, if_neg (by simpa using present)]
      exact gives_run hparser _ _ s

/-- A run is accounted for exactly if the engine does not misprint, unless the start is given up,
which fails with the reason for that. Beyond the limits of the reader a run fails with the limit.
From JSON of another shape it gives a report if empty objects and texts are all that is wrong, and
otherwise fails with a reason that is none of the engine's. -/
theorem run_accounts_iff {config : EngineConfig} (hparser : config.parser.isUnusable = false)
    {run : Action Report} (hrun : Starts config run) (s : Session) :
    (Accounts s.host.nesting config.executable (s.outcomes.headD .quiet) (run.gives s) ↔
      ¬Misprints s.host.nesting (s.outcomes.headD .quiet) ∧ ¬Raises (s.outcomes.headD .quiet)) ∧
    (∀ kind wording, s.outcomes.headD .quiet = .raised kind wording →
      run.gives s = .error (.raised kind wording)) ∧
    ∀ status stdout stderr, s.outcomes.headD .quiet = .finished status stdout stderr →
      Worked status →
        (∀ fault, Json.read (.nested s.host.nesting) stdout = .error fault →
          fault = .tooManyDigits ∨ fault = .tooDeep → run.gives s = .error (.unloadable fault)) ∧
        ∀ value, Json.read (.nested s.host.nesting) stdout = .ok value →
          (IsReport PassesAsArray value →
            ∃ found, Report.ofJson value = .ok found ∧ run.gives s = .ok found) ∧
          (¬IsReport PassesAsArray value → ∃ fault, run.gives s = .error (.report fault)) := by
  rw [hrun.gives_eq hparser]
  refine ⟨accounts_iff _ _ _, fun kind wording houtcome => by rw [houtcome]; rfl,
    fun status stdout stderr houtcome hworked => ?_⟩
  rw [houtcome]
  refine ⟨fun fault hreads hlimit => report_of_limit hworked hreads hlimit,
    fun value hreads => ?_⟩
  rw [report_of_value hworked hreads]
  constructor
  · intro hshape
    obtain ⟨found, hfound⟩ := ofJson_isOk.2 hshape
    exact ⟨found, hfound, by rw [hfound]⟩
  · intro hshape
    cases hfound : Report.ofJson value with
    | error fault => exact ⟨fault, rfl⟩
    | ok found => exact absurd (ofJson_isOk.1 ⟨found, hfound⟩) hshape

/-- A session in which an engine ends with a status, with some output. -/
def ending (status : Int) (stdout : Text) : Session where
  files := ⟨[], [], FileSystem.empty.wellFormed⟩
  temporary := .absolute ["tmp"]
  stamp := "1"
  outcomes := [.finished status stdout "boom"]

theorem bad_status_accounts : Accounts 990 "eslint" (.finished 2 "[]" "boom")
    ((runOnText {} "x" none).gives (ending 2 "[]")) := by
  have hstatus : ¬Worked 2 := by
    rw [Worked]
    decide
  have hprints : ¬Misprints 990 (.finished 2 "[]" "boom") := by
    rintro (⟨hworked, -, -⟩ | ⟨hworked, -, -⟩)
    · exact hstatus hworked
    · exact hstatus hworked
  exact (@run_accounts_iff {} rfl _ (.text "x" none) (ending 2 "[]")).1.2 ⟨hprints, nofun⟩

/-- What an engine may print that does not get to linting. -/
def printedError : Text := "\x7b\x22error\x22: \x22boom\x22\x7d"

theorem read_printedError :
    ∃ field, Json.read (.nested 990) printedError = .ok (.object [field]) := by
  have hwrite : printedError = (Json.object [("error", .string "boom")]).write := by rfl
  refine ⟨("error", .string "boom"), ?_⟩
  rw [hwrite]
  refine Json.read_write ⟨List.nodup_singleton _, List.forall_mem_singleton.2 ⟨?_, ?_⟩⟩
  · exact Json.unpaired_of_not_high (by decide)
  · exact Json.readable_string.2 (Json.unpaired_of_not_high (by decide))

/-- An engine that prints an object misprints. The run fails for a reason that is none of the
engine's, or passes for one that found nothing if the object is empty. -/
theorem printed_object_escapes :
    (runOnText {} "x" none).gives (ending 0 printedError) = .error (.report .notObject) ∧
      ¬Accounts 990 "eslint" (.finished 0 printedError "boom")
        ((runOnText {} "x" none).gives (ending 0 printedError)) ∧
      (runOnText {} "x" none).gives (ending 0 "\x7b\x7d") = .ok .empty ∧
      ¬Accounts 990 "eslint" (.finished 0 "\x7b\x7d" "boom")
        ((runOnText {} "x" none).gives (ending 0 "\x7b\x7d")) := by
  obtain ⟨field, hfield⟩ := read_printedError
  have hempty : Json.read (.nested 990) "\x7b\x7d" = .ok (.object []) := rfl
  have hstarts : Starts {} (runOnText {} "x" none) := .text "x" none
  have hfails : (runOnText {} "x" none).gives (ending 0 printedError) =
      .error (.report .notObject) :=
    (hstarts.gives_eq rfl _).trans (report_of_value (Or.inl rfl) hfield)
  have hclean : (runOnText {} "x" none).gives (ending 0 "\x7b\x7d") = .ok .empty :=
    (hstarts.gives_eq rfl _).trans (report_of_value (Or.inl rfl) hempty)
  refine ⟨hfails, ?_, hclean, ?_⟩
  · rw [hfails]
    intro haccounts
    cases haccounts
  · rw [hclean]
    intro haccounts
    obtain ⟨-, hreads, ⟨items, hitems, -⟩, -⟩ := haccounts
    cases hempty.symm.trans hreads
    cases hitems

end Engine
end ProjectLint
