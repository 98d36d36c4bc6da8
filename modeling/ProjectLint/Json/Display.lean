import ProjectLint.Json.Value
import ProjectLint.Number.Shortest
import ProjectLint.Text.Quoted

/-!
JSON values as they are shown to people. A text is shown as it is when it stands alone, and quoted
inside an array or an object.
-/

namespace ProjectLint.Json

/-- The words for floating-point numbers that are not finite, as they are shown. -/
def displayWords : Binary64.SpecialWords := ⟨"nan", "inf", "-inf"⟩

mutual

/-- A value inside another one. -/
def displayInner : Json → Text
  | null => "None"
  | bool true => "True"
  | bool false => "False"
  | int n => signedDecimal n
  | float x => x.write displayWords
  | string t => t.quoted
  | array items => .scalar '[' :: displayItems items ++ [.scalar ']']
  | object fields => .scalar '\x7b' :: displayFields fields ++ [.scalar '\x7d']

def displayItems : List Json → Text
  | [] => []
  | [item] => displayInner item
  | item :: items => displayInner item ++ .scalar ',' :: .scalar ' ' :: displayItems items

def displayFields : List (Text × Json) → Text
  | [] => []
  | [(name, value)] => name.quoted ++ .scalar ':' :: .scalar ' ' :: displayInner value
  | (name, value) :: fields =>
      name.quoted ++ .scalar ':' :: .scalar ' ' :: displayInner value ++
        .scalar ',' :: .scalar ' ' :: displayFields fields

end

/-- A value that stands alone. -/
def display : Json → Text
  | string t => t
  | value => value.displayInner

end ProjectLint.Json
