import Mathlib.Data.List.Induction
import ProjectLint.Proofs.Json.Readable

/-!
Which object a document with repeated names is. Main statement: where a document is read as an
object, its members are names and values that stand in it one after the other, and the fields of the
object are the names in the order of their first occurrence, each with the value of its last one.
-/

namespace ProjectLint.Json

/-- The last of some members with a name. -/
def lastMember? (name : Text) (members : List (Text × Json)) : Option (Text × Json) :=
  (members.filter (·.1 == name)).getLast?

/-- Whether fields are what remains of members: the names in the order of their first occurrence,
each with the value of its last one. -/
structure Merges (members : List (Text × Json)) (fields : Fields) : Prop where
  names : fields.map (·.1) = (members.map (·.1)).eraseDups
  values : ∀ name, Fields.get? name fields = (lastMember? name members).map (·.2)

theorem lastMember?_append_singleton (name : Text) (members : List (Text × Json))
    (member : Text × Json) :
    lastMember? name (members ++ [member]) =
      if member.1 = name then some member else lastMember? name members := by
  rw [lastMember?, List.filter_append]
  by_cases hname : member.1 = name
  · simp [hname]
  · simp [hname, lastMember?]

theorem eraseDups_append_singleton (names : List Text) (name : Text) :
    (names ++ [name]).eraseDups =
      if name ∈ names then names.eraseDups else names.eraseDups ++ [name] := by
  rw [List.eraseDups_append]
  by_cases hname : name ∈ names
  · simp [hname, List.removeAll]
  · simp [hname, List.removeAll, List.eraseDups_cons]

theorem merges_ofPairs (members : List (Text × Json)) :
    Merges members (Fields.ofPairs members) := by
  induction members using List.reverseRecOn with
  | nil => exact ⟨rfl, fun name => rfl⟩
  | append_singleton members member ih =>
      have hset : Fields.ofPairs (members ++ [member]) =
          Fields.set member.1 member.2 (Fields.ofPairs members) := by
        simp [Fields.ofPairs, List.foldl_append]
      rw [hset]
      constructor
      · rw [Fields.map_fst_set, ih.names, List.map_append, List.map_singleton,
          eraseDups_append_singleton]
        simp only [List.mem_eraseDups]
      · intro name
        rw [Fields.get?_set, ih.values, lastMember?_append_singleton]
        by_cases hname : member.1 = name
        · simp [hname]
        · simp [hname, Ne.symm hname]

/-- Whether a text starts with a member, and what is left after it: a name, a colon and a value. -/
inductive StartsWith (limits : Limits) (size depth : Nat) : Text → Text × Json → Text → Prop
  | member {inside afterName beforeValue left name : Text} {value : Json}
      (reads : readString (.scalar '"' :: inside) none inside = .ok (name, afterName))
      (colon : skipGap afterName = .scalar ':' :: beforeValue)
      (gives : readValue limits size depth (skipGap beforeValue) = .ok (value, left)) :
      StartsWith limits size depth (.scalar '"' :: inside) (name, value) left

/-- Whether members stand at the start of a text, with commas between them and a brace after the
last one. -/
inductive Lists (limits : Limits) (size depth : Nat) : Text → List (Text × Json) → Prop
  | last {t afterValue left : Text} {member : Text × Json}
      (starts : StartsWith limits size depth t member afterValue)
      (close : skipGap afterValue = .scalar '\x7d' :: left) : Lists limits size depth t [member]
  | more {t afterValue next : Text} {member : Text × Json} {members : List (Text × Json)}
      (starts : StartsWith limits size depth t member afterValue)
      (comma : skipGap afterValue = .scalar ',' :: next)
      (rest : Lists limits size depth (skipGap next) members) :
      Lists limits size depth t (member :: members)

/-- Whether a document is an object with some members, names repeated as they stand there. -/
inductive IsObjectOf (limits : Limits) (document : Text) : List (Text × Json) → Prop
  | empty {inside left : Text} (opens : skipGap document = .scalar '\x7b' :: inside)
      (close : skipGap inside = .scalar '\x7d' :: left) : IsObjectOf limits document []
  | filled {inside : Text} {depth : Nat} {members : List (Text × Json)}
      (opens : skipGap document = .scalar '\x7b' :: inside) (deep : limits.depth = depth + 1)
      (lists : Lists limits document.length depth (skipGap inside) members) :
      IsObjectOf limits document members

theorem lists_of_readFields {limits : Limits} {size depth fuel : Nat} {t left : Text}
    {members : List (Text × Json)}
    (h : readFields (readValue limits size depth) fuel t = .ok (members, left)) :
    Lists limits size depth t members := by
  induction fuel generalizing t members left with
  | zero => cases h
  | succ fuel ih =>
      obtain ⟨_, _, _, _, _, _, rfl, hname, hcolon, hvalue, hnext⟩ := of_readFields_eq_ok h
      have hstarts := StartsWith.member hname hcolon hvalue
      rcases hnext with ⟨hclose, rfl⟩ | ⟨more, others, hcomma, hothers, rfl⟩
      · exact .last hstarts hclose
      · exact .more hstarts hcomma (ih hothers)

theorem exists_of_readValue {limits : Limits} {size depth : Nat} {t left : Text} {fields : Fields}
    (h : readValue limits size depth t = .ok (.object fields, left)) :
    ∃ inside members, t = .scalar '\x7b' :: inside ∧ fields = Fields.ofPairs members ∧
      ((∃ left, skipGap inside = .scalar '\x7d' :: left) ∧ members = [] ∨
        ∃ below, depth = below + 1 ∧ Lists limits size below (skipGap inside) members) := by
  cases gives_of_readValue h with
  | noFields hclose => exact ⟨_, [], rfl, rfl, Or.inl ⟨⟨_, hclose⟩, rfl⟩⟩
  | fields hfields =>
      exact ⟨_, _, rfl, rfl, Or.inr ⟨_, rfl, lists_of_readFields hfields⟩⟩
  | atom hatom =>
      -- No value that is read without brackets and braces is an object.
      exact (readAtom_eq_ok hatom 0).1.elim

/-- A document that is read as an object lists members, and the object has what remains of them. -/
theorem exists_members_of_read {limits : Limits} {document : Text} {fields : Fields}
    (h : read limits document = .ok (.object fields)) :
    ∃ members, IsObjectOf limits document members ∧ Merges members fields := by
  obtain ⟨left, hread⟩ := exists_of_read_eq_ok h
  obtain ⟨inside, members, hopens, rfl, hmembers⟩ := exists_of_readValue hread
  refine ⟨members, ?_, merges_ofPairs members⟩
  rcases hmembers with ⟨⟨rest, hclose⟩, rfl⟩ | ⟨depth, hdepth, hlists⟩
  · exact .empty hopens hclose
  · exact .filled hopens hdepth hlists

end ProjectLint.Json
