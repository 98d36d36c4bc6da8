import ProjectLint.Text.Quoted
import ProjectLint.Text.DecimalDigit

/-!
Reading the arguments of the command line. Long options may be shortened as long as only one begins
so, and one-letter options may be written together. All arguments that are no options and stand
together for the first time are files; others are not expected. After `--` everything is a file.
-/

namespace ProjectLint.CommandLine

inductive Switch where
  | help
  | ignore
  | parser
  | cwd
  | config
  | eslintrc
  | stdin
  | listFiles
  | verbose
  | version
deriving DecidableEq

namespace Switch

def all : List Switch :=
  [help, ignore, parser, cwd, config, eslintrc, stdin, listFiles, verbose, version]

def long : Switch → Text
  | help => "--help"
  | ignore => "--ignore"
  | parser => "--parser"
  | cwd => "--cwd"
  | config => "--config"
  | eslintrc => "--eslintrc"
  | stdin => "--stdin"
  | listFiles => "--list-files"
  | verbose => "--verbose"
  | version => "--version"

def letter? : Switch → Option CodePoint
  | help => some 'h'
  | verbose => some 'v'
  | _ => none

def takesValue : Switch → Bool
  | ignore | parser | cwd | config => true
  | _ => false

def title (switch : Switch) : Text :=
  match switch.letter? with
  | some c => .scalar '-' :: c :: .scalar '/' :: switch.long
  | none => switch.long

def ofLetter? (c : CodePoint) : Option Switch :=
  all.find? fun switch => switch.letter? == some c

/-- The option of an exact spelling, and whether it is the short one. -/
def ofSpelling? (t : Text) : Option (Switch × Bool) :=
  match all.find? fun switch => switch.long == t with
  | some switch => some (switch, false)
  | none =>
      match t with
      | [.scalar '-', c] => (ofLetter? c).map (·, true)
      | _ => none

end Switch

/-- What is wrong with the arguments. -/
inductive Misuse where
  | ambiguous (argument : Text) (candidates : List Switch)
  | valueMissing (switch : Switch)
  | valueIgnored (switch : Switch) (value : Text)
  | unrecognized (arguments : List Text)
deriving DecidableEq

def Misuse.message : Misuse → Text
  | ambiguous argument candidates =>
      ("ambiguous option: " : Text) ++ argument ++ (" could match " : Text) ++
        Text.join ", " (candidates.map Switch.long)
  | valueMissing switch =>
      ("argument " : Text) ++ switch.title ++ (": expected one argument" : Text)
  | valueIgnored switch value =>
      ("argument " : Text) ++ switch.title ++ (": ignored explicit argument " : Text) ++
        value.quoted
  | unrecognized arguments =>
      ("unrecognized arguments: " : Text) ++ Text.join [.scalar ' '] arguments

/-- What an argument is: a file, the mark after which all are files, an option, perhaps in its short
form and with a value attached, or an option that does not exist. -/
inductive Kind where
  | file
  | endMark
  | switch (switch : Switch) (short : Bool) (value : Option Text)
  | unknown
deriving DecidableEq

/-- The mark after which all arguments are files. -/
def endMark : Text := [.scalar '-', .scalar '-']

/-- Whether a text looks like a negative number: a minus sign and digits, perhaps with a point
before the last ones. A line feed may follow. -/
def looksNegative (t : Text) : Bool :=
  let isDigit := fun c : CodePoint => c.digitValue?.isSome
  let body := if t.getLast? = some (.scalar '\n') then t.dropLast else t
  match body with
  | .scalar '-' :: rest =>
      match rest.dropWhile isDigit with
      | [] => !rest.isEmpty
      | .scalar '.' :: fraction => !fraction.isEmpty && fraction.all isDigit
      | _ => false
  | _ => false

/-- What an argument before the mark is. -/
def classify (t : Text) : Except Misuse Kind :=
  if t.head? != some (.scalar '-') then .ok .file
  else
    match Switch.ofSpelling? t with
    | some (switch, short) => .ok (.switch switch short none)
    | none =>
        if t.length = 1 then .ok .file
        else
          let name := t.takeWhile (· != .scalar '=')
          let value :=
            match t.dropWhile (· != .scalar '=') with
            | [] => none
            | _ :: value => some value
          match if value.isSome then Switch.ofSpelling? name else none with
          | some (switch, short) => .ok (.switch switch short value)
          | none =>
              let found : List Kind :=
                if endMark.isPrefixOf t then
                  (Switch.all.filter fun switch => name.isPrefixOf switch.long).map
                    (.switch · false value)
                else
                  match t with
                  | _ :: c :: rest => ((Switch.ofLetter? c).map (.switch · true (some rest))).toList
                  | _ => []
              match found with
              | [kind] => .ok kind
              | _ :: _ :: _ =>
                  .error (.ambiguous t (Switch.all.filter (name.isPrefixOf ·.long)))
              | [] =>
                  if looksNegative t || t.contains (.scalar ' ') then .ok .file else .ok .unknown

def classifyAll : List Text → Except Misuse (List (Text × Kind))
  | [] => .ok []
  | t :: rest =>
      if t = endMark then .ok ((t, .endMark) :: rest.map fun t => (t, .file))
      else
        match classify t with
        | .error misuse => .error misuse
        | .ok kind =>
            match classifyAll rest with
            | .error misuse => .error misuse
            | .ok others => .ok ((t, kind) :: others)

/-- The value of an option. An end mark attached to an option leaves it without one. -/
abbrev Value := Option Text

structure Arguments where
  files : List Text := []
  ignore : List Value := []
  parser : Option Value := none
  cwd : Option Value := none
  config : Option Value := none
  eslintrc : Bool := false
  stdin : Bool := false
  listFiles : Bool := false
  verbose : Bool := false
  version : Bool := false
deriving DecidableEq

inductive Reading where
  | run (arguments : Arguments)
  | help
  | misuse (misuse : Misuse)
deriving DecidableEq

def Arguments.turnOn (arguments : Arguments) : Switch → Arguments
  | .eslintrc => { arguments with eslintrc := true }
  | .stdin => { arguments with stdin := true }
  | .listFiles => { arguments with listFiles := true }
  | .verbose => { arguments with verbose := true }
  | .version => { arguments with version := true }
  | _ => arguments

def Arguments.give (arguments : Arguments) (value : Text) : Switch → Arguments
  | .ignore => { arguments with ignore := arguments.ignore ++ [valueOf value] }
  | .parser => { arguments with parser := some (valueOf value) }
  | .cwd => { arguments with cwd := some (valueOf value) }
  | .config => { arguments with config := some (valueOf value) }
  | _ => arguments
where
  valueOf (value : Text) : Value := if value = endMark then none else some value

/-- The options that letters written together stand for, after the option `switch`. -/
def cluster (switch : Switch) : Text → Except Misuse (List Switch)
  | [] => .ok []
  | c :: rest =>
      match Switch.ofLetter? c with
      | none => .error (.valueIgnored switch (c :: rest))
      | some next => (cluster next rest).map (next :: ·)

/-- The options that an argument turns on, if it is one that takes no value. -/
def switchedOn (switch : Switch) (short : Bool) : Option Text → Except Misuse (List Switch)
  | none => .ok [switch]
  | some value =>
      if short && value != [] then (cluster switch value).map (switch :: ·)
      else .error (.valueIgnored switch value)

/-- The arguments without the first end mark. -/
def dropMark : List Text → List Text
  | [] => []
  | t :: rest => if t = endMark then rest else t :: dropMark rest

/-- How far the reading has come: what is asked for, whether files are still expected, and the
arguments that were not. -/
structure Progress where
  arguments : Arguments := {}
  filesExpected : Bool := true
  extras : List Text := []

/-- Takes arguments that stand together and are no options into account. -/
def Progress.takeFiles (progress : Progress) (run : List Text) : Progress :=
  if run.isEmpty then progress
  else if progress.filesExpected then
    { progress with
      arguments := { progress.arguments with files := dropMark run }, filesExpected := false }
  else { progress with extras := progress.extras ++ run }

def Progress.give (progress : Progress) (value : Text) (switch : Switch) : Progress :=
  { progress with arguments := progress.arguments.give value switch }

/-- Reads classified arguments; `run`, last first, holds those before them that stand together and
are no options. -/
def readClassified (progress : Progress) (run : List Text) : List (Text × Kind) → Reading
  | [] =>
      let final := progress.takeFiles run.reverse
      if final.extras.isEmpty then .run final.arguments else .misuse (.unrecognized final.extras)
  | (t, .file) :: rest | (t, .endMark) :: rest => readClassified progress (t :: run) rest
  | (t, .unknown) :: rest =>
      let progress := progress.takeFiles run.reverse
      readClassified { progress with extras := progress.extras ++ [t] } [] rest
  | (_, .switch switch short value) :: rest =>
      let progress := progress.takeFiles run.reverse
      if switch.takesValue then
        match value, rest with
        | some value, rest => readClassified (progress.give value switch) [] rest
        | none, (value, .file) :: rest => readClassified (progress.give value switch) [] rest
        | none, _ => .misuse (.valueMissing switch)
      else
        match switchedOn switch short value with
        | .error misuse => .misuse misuse
        | .ok switches =>
            if switches.contains .help then .help
            else
              readClassified
                { progress with arguments := switches.foldl Arguments.turnOn progress.arguments } []
                rest

def read (arguments : List Text) : Reading :=
  match classifyAll arguments with
  | .error misuse => .misuse misuse
  | .ok classified => readClassified {} [] classified

end ProjectLint.CommandLine
