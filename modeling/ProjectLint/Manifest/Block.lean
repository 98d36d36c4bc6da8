import ProjectLint.Manifest.Key
import ProjectLint.Json.Display
import ProjectLint.Failure

/-!
The block of a manifest that holds the settings of a command.
-/

namespace ProjectLint.Manifest

/-- The settings of a block; what is not set, or not set to something usable, is none. -/
structure Block where
  ignore : Option (List Text) := none
  parser : Option Text := none
deriving DecidableEq

/-- The value of the last field whose name has a given form. -/
def setting? (name : Text) (fields : Json.Fields) : Option Json :=
  ((fields.filter fun field => snakeCase field.1 == name).getLast?).map (·.2)

/-- The patterns that a value gives: a text is one, and the items of an array are shown as text. -/
def patternsOf : Option Json → Option (List Text)
  | some (.string t) => some [t]
  | some (.array items) => some (items.map Json.display)
  | _ => none

/-- The parser that a value names. -/
def parserOf : Option Json → Option Text
  | some (.string t) => if t = [] then none else some t
  | _ => none

/-- The settings in the fields of a block. Fields with other names are left out. -/
def Block.ofFields (fields : Json.Fields) : Block :=
  ⟨patternsOf (setting? "ignore" fields), parserOf (setting? "parser" fields)⟩

/-- The settings in a value, which must be an object. -/
def Block.ofJson : Json → Except Failure Block
  | .object fields => .ok (ofFields fields)
  | _ => .error .noFields

end ProjectLint.Manifest
