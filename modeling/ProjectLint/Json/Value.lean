import ProjectLint.Text.Basic
import ProjectLint.Number.Binary64

/-!
JSON values. An object is a list of fields in the order in which their names first occurred. Main
statements: setting a field changes that field only, and its name stays where it was.
-/

namespace ProjectLint

/-- A JSON value. Numbers without fraction and exponent are whole numbers of any size. -/
inductive Json where
  | null
  | bool (value : Bool)
  | int (value : Int)
  | float (value : Binary64)
  | string (value : Text)
  | array (items : List Json)
  | object (fields : List (Text × Json))
deriving Inhabited

namespace Json

abbrev Fields := List (Text × Json)

def Fields.get? (name : Text) : Fields → Option Json
  | [] => none
  | (key, value) :: rest => if key = name then some value else Fields.get? name rest

/-- Gives a field a new value, in its old place if it exists and at the end if not. -/
def Fields.set (name : Text) (value : Json) : Fields → Fields
  | [] => [(name, value)]
  | (key, old) :: rest =>
      if key = name then (key, value) :: rest else (key, old) :: Fields.set name value rest

theorem Fields.get?_set (name other : Text) (value : Json) (fields : Fields) :
    Fields.get? other (Fields.set name value fields) =
      if other = name then some value else Fields.get? other fields := by
  induction fields with
  | nil => simp [Fields.set, Fields.get?, eq_comm]
  | cons field rest ih =>
      obtain ⟨key, old⟩ := field
      simp only [Fields.set]
      split
      · rename_i h
        subst h
        simp only [Fields.get?, eq_comm (a := other)]
        split <;> rfl
      · rename_i hne
        simp only [Fields.get?, ih]
        by_cases h : key = other
        · subst h; simp [hne]
        · simp [h]

theorem Fields.map_fst_set (name : Text) (value : Json) (fields : Fields) :
    (Fields.set name value fields).map (·.1) =
      if name ∈ fields.map (·.1) then fields.map (·.1) else fields.map (·.1) ++ [name] := by
  induction fields with
  | nil => rfl
  | cons field rest ih =>
      obtain ⟨key, old⟩ := field
      simp only [Fields.set]
      split
      · rename_i h
        subst h
        simp
      · rename_i hne
        simp only [List.map_cons, ih, List.mem_cons, Ne.symm hne, false_or]
        split <;> simp

/-- The fields that remain of a sequence of pairs: names in the order of their first occurrence,
each with the value of its last one. -/
def Fields.ofPairs (pairs : List (Text × Json)) : Fields :=
  pairs.foldl (fun fields pair => Fields.set pair.1 pair.2 fields) []

/-- The value of a field of an object; none for other values. -/
def get? (name : Text) : Json → Option Json
  | object fields => Fields.get? name fields
  | _ => none

/-- Whether a value counts as absent: null, false, zero, and empty texts, arrays and objects. -/
def isBlank : Json → Bool
  | null => true
  | bool b => !b
  | int n => n == 0
  | float x => x.isZero
  | string t => t.isEmpty
  | array items => items.isEmpty
  | object fields => fields.isEmpty

end Json
end ProjectLint
