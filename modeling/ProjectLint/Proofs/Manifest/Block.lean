import ProjectLint.Manifest.Block
import ProjectLint.Proofs.Json.Members
import ProjectLint.Proofs.Manifest.Key

/-!
Which fields of a block count. A key spells a setting if it is the name of it with some letters at
the start as capitals: a hyphen, a capital after a small letter and whatever is no ASCII letter make
it another key. Main statement: each setting of a block that is read from a document is given by
the last field whose key spells it, in the order in which keys first occur, and by the last value of
that key.
-/

namespace ProjectLint.Manifest

open CodePoint

/-- Whether a key spells a name: it starts with capitals, maybe none or nothing else, and goes on
with small letters. -/
def Spells (name key : Text) : Prop :=
  ∃ first rest, name = first ++ rest ∧ key = first.map capital ++ rest

section Key

variable {c d : CodePoint} {name key : Text}

theorem spells_nil : Spells [] key ↔ key = [] := by
  constructor
  · rintro ⟨first, rest, hname, rfl⟩
    obtain ⟨rfl, rfl⟩ := List.append_eq_nil_iff.1 hname.symm
    rfl
  · rintro rfl
    exact ⟨[], [], rfl, rfl⟩

theorem spells_cons : Spells (d :: name) key ↔
    key = d :: name ∨ ∃ rest, key = d.capital :: rest ∧ Spells name rest := by
  constructor
  · rintro ⟨first, rest, hname, rfl⟩
    cases first with
    | nil => exact Or.inl hname.symm
    | cons letter first =>
        obtain ⟨rfl, rfl⟩ := List.cons.inj hname
        exact Or.inr ⟨_, rfl, first, rest, rfl, rfl⟩
  · rintro (rfl | ⟨_, rfl, first, rest, rfl, rfl⟩)
    · exact ⟨[], d :: name, rfl, rfl⟩
    · exact ⟨d :: first, rest, rfl, rfl⟩

/-- Hyphens and underscores are neither letters nor capitals of them. -/
theorem not_isCaseOf (hc : c.toNat < 65 ∨ c.toNat = 95) (h : d.IsPlainLetter) :
    ¬IsCaseOf c d := by
  have hcapital := toNat_capital h.isSmallLetter
  obtain ⟨hlow, hhigh, -⟩ := h
  rintro (rfl | rfl) <;> omega

/-- Whether a text comes to a name letter by letter. -/
def ComesTo (t name : Text) : Prop :=
  List.Forall₂ IsCaseOf (Text.replace '-' '_' t) name

theorem comesTo_nil : ComesTo [] name ↔ name = [] := by
  rw [ComesTo, Text.replace, List.map_nil, List.forall₂_nil_left_iff]

theorem not_comesTo_nil {t : Text} : ¬ComesTo (c :: t) [] := by
  rw [ComesTo, Text.replace, List.map_cons, List.forall₂_nil_right_iff]
  exact List.cons_ne_nil _ _

/-- An underscore for a hyphen makes no letter. -/
theorem comesTo_cons {t : Text} (h : d.IsPlainLetter) :
    ComesTo (c :: t) (d :: name) ↔ IsCaseOf c d ∧ ComesTo t name := by
  rw [ComesTo, Text.replace, List.map_cons, List.forall₂_cons]
  refine and_congr_left fun _ => ?_
  split
  · rename_i hhyphen
    subst hhyphen
    exact iff_of_false (not_isCaseOf (Or.inr rfl) h) (not_isCaseOf (Or.inl (by decide)) h)
  · exact Iff.rfl

/-- A key comes to a name only if no word in it is marked: after a small letter it goes on as the
name does, and before that it may have capitals. -/
theorem comesTo_markWords (hname : ∀ d ∈ name, d.IsPlainLetter) :
    (ComesTo (markWords true key) name ↔ key = name) ∧
      (ComesTo (markWords false key) name ↔ Spells name key) := by
  induction key generalizing name with
  | nil =>
      refine ⟨comesTo_nil.trans eq_comm, comesTo_nil.trans ⟨?_, ?_⟩⟩
      · rintro rfl
        exact spells_nil.2 rfl
      · rintro ⟨first, rest, rfl, hkey⟩
        simpa using hkey
  | cons c rest ih =>
      cases name with
      | nil =>
          have hnone : ∀ afterWord, ¬ComesTo (markWords afterWord (c :: rest)) [] := by
            intro afterWord
            rw [markWords]
            split <;> exact not_comesTo_nil
          exact ⟨iff_of_false (hnone true) (List.cons_ne_nil _ _),
            iff_of_false (hnone false) (by simp [spells_nil])⟩
      | cons d name =>
          obtain ⟨hd, hrest⟩ := List.forall_mem_cons.1 hname
          obtain ⟨hafter, hbefore⟩ := ih hrest
          have hunmarked : ComesTo (c :: markWords (endsWord c) rest) (d :: name) ↔
              c = d ∧ rest = name ∨ c = d.capital ∧ Spells name rest := by
            rw [comesTo_cons hd, IsCaseOf, or_and_right]
            refine or_congr (and_congr_right fun hc => ?_) (and_congr_right fun hc => ?_)
            · rw [hc, endsWord_of_isSmallLetter hd.isSmallLetter, hafter]
            · rw [hc, endsWord_capital hd.isSmallLetter, hbefore]
          constructor
          · rw [markWords, Bool.true_and]
            cases hc : isCapital c with
            | true =>
                have hne : c ≠ d := by
                  rintro rfl
                  have hsmall := isCapital_of_isSmallLetter hd.isSmallLetter
                  exact Bool.false_ne_true (hsmall.symm.trans hc)
                rw [if_pos rfl, comesTo_cons hd]
                exact iff_of_false (fun h => not_isCaseOf (Or.inr rfl) hd h.1) (by simp [hne])
            | false =>
                have hne : c ≠ d.capital := by
                  rintro rfl
                  exact Bool.false_ne_true (hc.symm.trans (isCapital_capital hd.isSmallLetter))
                rw [if_neg Bool.false_ne_true, hunmarked]
                simp [hne]
          · rw [markWords, Bool.false_and, if_neg Bool.false_ne_true, hunmarked, spells_cons]
            simp

/-- A key has the form of a name exactly if it spells it. -/
theorem snakeCase_eq_iff (hname : ∀ d ∈ name, d.IsPlainLetter) :
    snakeCase key = name ↔ Spells name key :=
  (Text.lowercase_eq_iff hname).trans (comesTo_markWords hname).2

end Key

/-- What fields say about a setting: the value of the last one whose key spells its name. -/
inductive Settles (name : Text) : Json.Fields → Option Json → Prop
  | last {before after : Json.Fields} {key : Text} {value : Json} (spells : Spells name key)
      (others : ∀ field ∈ after, ¬Spells name field.1) :
      Settles name (before ++ (key, value) :: after) (some value)
  | unset {fields : Json.Fields} (others : ∀ field ∈ fields, ¬Spells name field.1) :
      Settles name fields none

section Fields

variable {name : Text} {fields : Json.Fields} {found : Option Json}

theorem Settles.append_singleton {field : Text × Json} (h : Settles name fields found)
    (hfield : ¬Spells name field.1) : Settles name (fields ++ [field]) found := by
  have hothers : ∀ {after : Json.Fields}, (∀ other ∈ after, ¬Spells name other.1) →
      ∀ other ∈ after ++ [field], ¬Spells name other.1 := by
    intro after hafter other hother
    rcases List.mem_append.1 hother with hother | hother
    · exact hafter other hother
    · rwa [List.mem_singleton.1 hother]
  cases h with
  | last spells others =>
      rw [List.append_assoc, List.cons_append]
      exact .last spells (hothers others)
  | unset others => exact .unset (hothers others)

theorem settles_setting? (hname : ∀ d ∈ name, d.IsPlainLetter) (fields : Json.Fields) :
    Settles name fields (setting? name fields) := by
  induction fields using List.reverseRecOn with
  | nil => exact .unset (by simp)
  | append_singleton fields field ih =>
      obtain ⟨key, value⟩ := field
      by_cases hspells : Spells name key
      · have hlast : setting? name (fields ++ [(key, value)]) = some value := by
          simp [setting?, List.filter_append, (snakeCase_eq_iff hname).2 hspells]
        rw [hlast]
        exact .last hspells (by simp)
      · have hform : snakeCase key ≠ name := fun h => hspells ((snakeCase_eq_iff hname).1 h)
        have hsame : setting? name (fields ++ [(key, value)]) = setting? name fields := by
          simp [setting?, List.filter_append, hform]
        rw [hsame]
        exact ih.append_singleton hspells

end Fields

theorem isPlainLetter_names : (∀ d ∈ ("ignore" : Text), d.IsPlainLetter) ∧
    ∀ d ∈ ("parser" : Text), d.IsPlainLetter := by
  decide

/-- The settings of a block in a document are given by the last spellings of their names among its
keys, as these first occur, with the last value of each. A text stands for one pattern and an array
for its items as they are shown; the parser must be a text and not empty. -/
theorem block_of_document {limits : Json.Limits} {document : Text} {fields : Json.Fields}
    (hread : Json.read limits document = .ok (.object fields)) :
    ∃ members, Json.IsObjectOf limits document members ∧ Json.Merges members fields ∧
      ∃ ignore parser block, Settles "ignore" fields ignore ∧ Settles "parser" fields parser ∧
        Block.ofJson (.object fields) = .ok block ∧
          block.ignore = (match ignore with
            | some (.string t) => some [t]
            | some (.array items) => some (items.map Json.display)
            | _ => none) ∧
          block.parser = (match parser with
            | some (.string t) => if t = [] then none else some t
            | _ => none) := by
  obtain ⟨members, hobject, hmerges⟩ := Json.exists_members_of_read hread
  obtain ⟨hignore, hparser⟩ := isPlainLetter_names
  exact ⟨members, hobject, hmerges, setting? "ignore" fields, setting? "parser" fields,
    Block.ofFields fields, settles_setting? hignore fields, settles_setting? hparser fields,
    rfl, rfl, rfl⟩

/-- A block with two spellings of one setting, of which the first one stands there again. -/
def crossedBlock : Text :=
  "\x7b\x22Ignore\x22:\x22a\x22,\x22IGNORE\x22:[\x22b\x22,1],\x22Ignore\x22:null\x7d"

/-- The settings in a document that is read as a block. -/
def settingsIn (limits : Json.Limits) (document : Text) : Option Block :=
  match Json.read limits document with
  | .ok value => (Block.ofJson value).toOption
  | .error _ => none

/-- The second spelling counts, as it first stands after the other one. -/
theorem second_spelling_counts :
    ∃ fields, Json.read (.nested 990) crossedBlock = .ok (.object fields) ∧
    ∃ members, Json.IsObjectOf (.nested 990) crossedBlock members ∧ Json.Merges members fields ∧
      ∃ items, Settles "ignore" fields (some (.array items)) ∧
        items.map Json.display = [("b" : Text), ("1" : Text)] := by
  have hsettings : settingsIn (.nested 990) crossedBlock = some ⟨some ["b", "1"], none⟩ := by
    decide +kernel
  obtain ⟨fields, hread, hblock⟩ : ∃ fields,
      Json.read (.nested 990) crossedBlock = .ok (.object fields) ∧
        Block.ofJson (.object fields) = .ok ⟨some ["b", "1"], none⟩ := by
    rw [settingsIn] at hsettings
    split at hsettings
    · rename_i value hvalue
      cases value with
      | object fields => exact ⟨fields, hvalue, congrArg Except.ok (Option.some.inj hsettings)⟩
      | _ => cases hsettings
    · cases hsettings
  obtain ⟨members, hobject, hmerges, ignore, parser, block, hignore, -, hsame, hpatterns, -⟩ :=
    block_of_document hread
  refine ⟨fields, hread, members, hobject, hmerges, ?_⟩
  cases hblock.symm.trans hsame
  cases ignore with
  | none => cases hpatterns
  | some value =>
      cases value with
      | array items => exact ⟨items, hignore, (Option.some.inj hpatterns).symm⟩
      | string t => simp at hpatterns
      | _ => cases hpatterns

end ProjectLint.Manifest
