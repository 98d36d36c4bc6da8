import ProjectLint.Manifest.Key
import ProjectLint.Proofs.Text.Lowercase

/-!
Keys that are made of words. A key with hyphens between its words comes to the name that has
underscores there. So does a key with a capital at the start of each word after the first one,
except that a capital which directly follows another one starts no new word: the letter of a word
that has no more of them, and is not the first, goes with the next word. Main statement: what both
spellings come to, and for which words they come to the same.
-/

namespace ProjectLint.Manifest

open CodePoint

variable {c d : CodePoint}

theorem endsWord_of_isSmallLetter (h : d.IsSmallLetter) : endsWord d = true := by
  simp only [endsWord, h.1, h.2, decide_true, Bool.and_self, Bool.or_true]

theorem isCapital_of_isSmallLetter (h : d.IsSmallLetter) : isCapital d = false := by
  have hlow := h.1
  simp only [isCapital, Bool.and_eq_false_iff, decide_eq_false_iff_not]
  omega

theorem isCapital_capital (h : d.IsSmallLetter) : isCapital d.capital = true := by
  obtain ⟨hlow, hhigh⟩ := id h
  simp only [isCapital, toNat_capital h, Bool.and_eq_true, decide_eq_true_eq]
  omega

theorem endsWord_capital (h : d.IsSmallLetter) : endsWord d.capital = false := by
  obtain ⟨hlow, hhigh⟩ := id h
  simp only [endsWord, isAsciiDigit, toNat_capital h, Bool.or_eq_false_iff, Bool.and_eq_false_iff,
    decide_eq_false_iff_not]
  omega

/-- Whether a code point can stand in a word: it is a small ASCII letter or a digit. -/
def IsWordPart (c : CodePoint) : Prop :=
  c.IsSmallLetter ∨ c.isAsciiDigit = true

instance (c : CodePoint) : Decidable (IsWordPart c) :=
  inferInstanceAs (Decidable (_ ∨ _))

/-- Whether a text is a word: a small letter with small letters and digits after it. -/
def IsWord : Text → Prop
  | [] => False
  | c :: rest => c.IsSmallLetter ∧ ∀ d ∈ rest, IsWordPart d

instance : (word : Text) → Decidable (IsWord word)
  | [] => inferInstanceAs (Decidable False)
  | _ :: _ => inferInstanceAs (Decidable (_ ∧ _))

/-- A word with a capital for its first letter. -/
def capitalized : Text → Text
  | [] => []
  | c :: rest => c.capital :: rest

/-- The key of words that has hyphens between them. -/
def kebabCase (words : List Text) : Text :=
  Text.join [.scalar '-'] words

/-- The key of words that has a capital at the start of each one after the first. -/
def camelCase : List Text → Text
  | [] => []
  | first :: later => first ++ later.flatMap capitalized

/-- The name of words: they have underscores between them. -/
def nameOf (words : List Text) : Text :=
  Text.join [.scalar '_'] words

/-- Words with each single letter put together with what follows it. -/
def joinLetters : List Text → List Text
  | [] => []
  | word :: words =>
      match joinLetters words with
      | [] => [word]
      | next :: others => if word.length = 1 then (word ++ next) :: others else word :: next :: others

section Letters

theorem endsWord_of_isWordPart (h : IsWordPart c) : endsWord c = true := by
  rcases h with h | h
  · exact endsWord_of_isSmallLetter h
  · simp only [endsWord, h, Bool.true_or]

theorem isCapital_of_isWordPart (h : IsWordPart c) : isCapital c = false := by
  rcases h with h | h
  · exact isCapital_of_isSmallLetter h
  · simp only [isAsciiDigit, decide_eq_true_eq] at h
    simp only [isCapital, Bool.and_eq_false_iff, decide_eq_false_iff_not]
    omega

/-- No word is marked in what can stand in a word, and a capital after it starts another one. -/
theorem markWords_append {t : Text} (ht : ∀ c ∈ t, IsWordPart c) (hne : t ≠ []) (afterWord : Bool)
    (rest : Text) : markWords afterWord (t ++ rest) = t ++ markWords true rest := by
  induction t generalizing afterWord with
  | nil => exact absurd rfl hne
  | cons c t ih =>
      obtain ⟨hc, ht⟩ := List.forall_mem_cons.1 ht
      have hrest : markWords true (t ++ rest) = t ++ markWords true rest := by
        by_cases hlast : t = []
        · rw [hlast, List.nil_append, List.nil_append]
        · exact ih ht hlast true
      rw [List.cons_append, markWords, isCapital_of_isWordPart hc, endsWord_of_isWordPart hc, hrest,
        Bool.and_false, if_neg Bool.false_ne_true, List.cons_append]

theorem markWords_parts {t : Text} (ht : ∀ c ∈ t, IsWordPart c) (afterWord : Bool) :
    markWords afterWord t = t := by
  by_cases hne : t = []
  · rw [hne]
    rfl
  · have hmarks := markWords_append ht hne afterWord []
    rwa [List.append_nil, markWords, List.append_nil] at hmarks

/-- Whether a code point of a key comes to one of a name. -/
def Becomes (c d : CodePoint) : Prop :=
  let c := if c = .scalar '-' then .scalar '_' else c
  c.toNat ≠ 0x3A3 ∧ c.lowercase = [d]

theorem snakeCase_of_becomes {key name : Text}
    (h : List.Forall₂ Becomes (markWords false key) name) : snakeCase key = name := by
  rw [snakeCase, Text.lowercase, Text.replace]
  exact Text.lowercaseAfter_of_forall₂ (List.forall₂_map_left_iff.2 h) []

theorem becomes_self (h : IsWordPart c) : Becomes c c := by
  have hrange : 48 ≤ c.toNat ∧ c.toNat ≤ 57 ∨ 97 ≤ c.toNat ∧ c.toNat ≤ 122 := by
    rcases h with h | h
    · exact Or.inr h
    · exact Or.inl (by simpa [isAsciiDigit] using h)
  have hhyphen : c ≠ .scalar '-' := by
    rintro rfl
    exact absurd hrange (by decide)
  rw [Becomes, if_neg hhyphen]
  exact ⟨by omega, lowercase_eq_self (by omega) (by omega)⟩

theorem becomes_capital (h : c.IsSmallLetter) : Becomes c.capital c := by
  have hn := toNat_capital h
  obtain ⟨hlow, hhigh⟩ := id h
  have hhyphen : c.capital ≠ .scalar '-' := by
    intro heq
    have hnumber : (CodePoint.scalar '-').toNat = 45 := by decide
    rw [heq] at hn
    omega
  rw [Becomes, if_neg hhyphen]
  exact ⟨by omega, lowercase_of_isCaseOf h (Or.inr rfl)⟩

theorem becomes_hyphen : Becomes (.scalar '-') (.scalar '_') := by
  refine ⟨by decide, lowercase_eq_self ?_ ?_⟩ <;> decide

theorem becomes_underscore : Becomes (.scalar '_') (.scalar '_') := by
  refine ⟨by decide, lowercase_eq_self ?_ ?_⟩ <;> decide

theorem becomes_text {t : Text} (ht : ∀ c ∈ t, IsWordPart c) : List.Forall₂ Becomes t t :=
  List.forall₂_same.2 fun c hc => becomes_self (ht c hc)

theorem IsWord.parts {word : Text} (h : IsWord word) : ∀ c ∈ word, IsWordPart c := by
  cases word with
  | nil => cases h
  | cons c word => exact List.forall_mem_cons.2 ⟨Or.inl h.1, h.2⟩

theorem IsWord.ne_nil {word : Text} (h : IsWord word) : word ≠ [] := by
  rintro rfl
  cases h

end Letters

section Words

variable {word first : Text} {words later : List Text}

/-- No word is marked in a key with hyphens: what comes after a hyphen is no capital. -/
theorem becomes_kebabCase (h : ∀ word ∈ words, IsWord word) :
    List.Forall₂ Becomes (markWords false (kebabCase words)) (nameOf words) := by
  induction words with
  | nil => exact .nil
  | cons word words ih =>
      obtain ⟨hword, hwords⟩ := List.forall_mem_cons.1 h
      have hself := becomes_text hword.parts
      cases words with
      | nil =>
          rw [kebabCase, nameOf, Text.join, Text.join, markWords_parts hword.parts]
          exact hself
      | cons next words =>
          rw [kebabCase, nameOf, Text.join_cons (List.cons_ne_nil _ _),
            Text.join_cons (List.cons_ne_nil _ _), List.append_assoc, List.append_assoc,
            markWords_append hword.parts hword.ne_nil]
          exact List.rel_append hself (.cons becomes_hyphen (ih hwords))

theorem joinLetters_ne_nil (hne : words ≠ []) : joinLetters words ≠ [] := by
  cases words with
  | nil => exact absurd rfl hne
  | cons word words =>
      rw [joinLetters]
      split
      next => exact List.cons_ne_nil _ _
      next => split <;> exact List.cons_ne_nil _ _

theorem nameOf_joinLetters_letter (hne : words ≠ []) :
    nameOf (joinLetters ([c] :: words)) = c :: nameOf (joinLetters words) := by
  obtain ⟨next, others, hwords⟩ := List.exists_cons_of_ne_nil (joinLetters_ne_nil hne)
  rw [joinLetters, hwords]
  cases others <;> rfl

theorem nameOf_joinLetters_cons (hne : words ≠ []) (hword : word.length ≠ 1) :
    nameOf (joinLetters (word :: words)) = word ++ .scalar '_' :: nameOf (joinLetters words) := by
  obtain ⟨next, others, hwords⟩ := List.exists_cons_of_ne_nil (joinLetters_ne_nil hne)
  rw [joinLetters, hwords]
  simp only [if_neg hword]
  rw [nameOf, Text.join_cons (List.cons_ne_nil _ _), List.append_assoc]
  rfl

/-- A capital is marked exactly if something of a word stands before it. -/
theorem markWords_capitals (hne : later ≠ []) (h : ∀ word ∈ later, IsWord word) :
    markWords true (later.flatMap capitalized) =
      .scalar '_' :: markWords false (later.flatMap capitalized) := by
  cases later with
  | nil => exact absurd rfl hne
  | cons word words =>
      cases word with
      | nil => cases h [] List.mem_cons_self
      | cons c word =>
          have hc : c.IsSmallLetter := (h _ List.mem_cons_self).1
          rw [List.flatMap_cons, capitalized, List.cons_append, markWords, markWords,
            isCapital_capital hc, endsWord_capital hc]
          rfl

/-- The capitals of later words: a single letter leaves the next capital unmarked. -/
theorem becomes_capitals (h : ∀ word ∈ later, IsWord word) :
    List.Forall₂ Becomes (markWords false (later.flatMap capitalized))
      (nameOf (joinLetters later)) := by
  induction later with
  | nil => exact .nil
  | cons word words ih =>
      obtain ⟨hword, hwords⟩ := List.forall_mem_cons.1 h
      cases word with
      | nil => cases hword
      | cons c rest =>
          have hstart : markWords false ((c :: rest) :: words |>.flatMap capitalized) =
              c.capital :: markWords false (rest ++ words.flatMap capitalized) := by
            rw [List.flatMap_cons, capitalized, List.cons_append, markWords,
              endsWord_capital hword.1]
            rfl
          rw [hstart]
          by_cases hlast : words = []
          · rw [hlast, List.flatMap_nil, List.append_nil, markWords_parts hword.2]
            exact .cons (becomes_capital hword.1) (becomes_text hword.2)
          · cases rest with
            | nil =>
                rw [nameOf_joinLetters_letter hlast]
                exact .cons (becomes_capital hword.1) (ih hwords)
            | cons d rest =>
                rw [nameOf_joinLetters_cons hlast (by simp),
                  markWords_append hword.2 (List.cons_ne_nil _ _), markWords_capitals hlast hwords]
                exact .cons (becomes_capital hword.1)
                  (List.rel_append (becomes_text hword.2) (.cons becomes_underscore (ih hwords)))

/-- What the key with capitals comes to. -/
theorem becomes_camelCase (h : ∀ word ∈ first :: later, IsWord word) :
    List.Forall₂ Becomes (markWords false (camelCase (first :: later)))
      (nameOf (first :: joinLetters later)) := by
  obtain ⟨hfirst, hlater⟩ := List.forall_mem_cons.1 h
  rw [camelCase]
  by_cases hlast : later = []
  · rw [hlast, List.flatMap_nil, List.append_nil, markWords_parts hfirst.parts]
    exact becomes_text hfirst.parts
  · rw [markWords_append hfirst.parts hfirst.ne_nil, markWords_capitals hlast hlater, nameOf,
      Text.join_cons (joinLetters_ne_nil hlast), List.append_assoc]
    exact List.rel_append (becomes_text hfirst.parts)
      (.cons becomes_underscore (becomes_capitals hlater))

theorem length_joinLetters_le (words : List Text) : (joinLetters words).length ≤ words.length := by
  induction words with
  | nil => exact Nat.le_refl 0
  | cons word words ih =>
      rw [joinLetters]
      split
      next => simp
      next next others hwords =>
        rw [hwords] at ih
        split
        next => exact Nat.le_succ_of_le ih
        next => exact Nat.succ_le_succ ih

/-- Only a single letter that has a word after it is put together with something. -/
theorem joinLetters_eq_self_iff (words : List Text) :
    joinLetters words = words ↔ ∀ word ∈ words.dropLast, word.length ≠ 1 := by
  induction words with
  | nil => simp [joinLetters]
  | cons word words ih =>
      by_cases hlast : words = []
      · subst hlast
        simp [joinLetters]
      · obtain ⟨next, others, hwords⟩ := List.exists_cons_of_ne_nil (joinLetters_ne_nil hlast)
        have hlength := length_joinLetters_le words
        rw [List.dropLast_cons_of_ne_nil hlast, List.forall_mem_cons, ← ih, joinLetters, hwords]
        by_cases hletter : word.length = 1
        · rw [hwords, List.length_cons] at hlength
          simp only [if_pos hletter]
          refine iff_of_false (fun heq => ?_) fun h => h.1 hletter
          rw [(List.cons.inj heq).2] at hlength
          exact Nat.not_succ_le_self _ hlength
        · simp only [if_neg hletter, List.cons.injEq, true_and]
          exact (and_iff_right hletter).symm

theorem isWord_of_mem_joinLetters (h : ∀ word ∈ words, IsWord word) :
    ∀ word ∈ joinLetters words, IsWord word := by
  induction words with
  | nil => exact h
  | cons word words ih =>
      obtain ⟨hword, hwords⟩ := List.forall_mem_cons.1 h
      have ih := ih hwords
      rw [joinLetters]
      split
      next => simpa using hword
      next next others hjoined =>
        rw [hjoined] at ih
        obtain ⟨hnext, hothers⟩ := List.forall_mem_cons.1 ih
        split
        next =>
          refine List.forall_mem_cons.2 ⟨?_, hothers⟩
          cases word with
          | nil => cases hword
          | cons c rest => exact ⟨hword.1, List.forall_mem_append.2 ⟨hword.2, hnext.parts⟩⟩
        next => exact List.forall_mem_cons.2 ⟨hword, ih⟩

/-- Words can be told from the name of them. -/
theorem nameOf_inj {others : List Text} (hwords : words ≠ []) (hothers : others ≠ [])
    (h : ∀ word ∈ words, IsWord word) (hall : ∀ word ∈ others, IsWord word) :
    nameOf words = nameOf others ↔ words = others := by
  have hmark : ∀ word, IsWord word → .scalar '_' ∉ word := by
    intro word hword hmem
    exact absurd (hword.parts _ hmem) (by decide)
  refine ⟨fun heq => ?_, congrArg nameOf⟩
  rw [← Text.split_join hwords fun word hmem => hmark word (h word hmem),
    ← Text.split_join hothers fun word hmem => hmark word (hall word hmem)]
  exact congrArg (Text.split (.scalar '_')) heq

end Words

/-- The key of words with hyphens comes to their name. The key with capitals comes to the name of
the words in which a single letter, unless it is the first word, is put together with the next one;
this is the same name if no single letter stands between the first word and the last. -/
theorem snakeCase_of_words {first : Text} {later : List Text}
    (h : ∀ word ∈ first :: later, IsWord word) :
    snakeCase (kebabCase (first :: later)) = nameOf (first :: later) ∧
      snakeCase (camelCase (first :: later)) = nameOf (first :: joinLetters later) ∧
      (snakeCase (camelCase (first :: later)) = nameOf (first :: later) ↔
        ∀ word ∈ later.dropLast, word.length ≠ 1) := by
  have hcamel := snakeCase_of_becomes (becomes_camelCase h)
  obtain ⟨hfirst, hlater⟩ := List.forall_mem_cons.1 h
  have hjoined : ∀ word ∈ first :: joinLetters later, IsWord word :=
    List.forall_mem_cons.2 ⟨hfirst, isWord_of_mem_joinLetters hlater⟩
  refine ⟨snakeCase_of_becomes (becomes_kebabCase h), hcamel, ?_⟩
  rw [hcamel, nameOf_inj (List.cons_ne_nil _ _) (List.cons_ne_nil _ _) hjoined h, List.cons.injEq,
    eq_self, true_and, joinLetters_eq_self_iff]

/-- A digit keeps a word apart from the next one, which a single letter does not do. -/
theorem letter_before_word : (∀ word ∈ (["use", "x2", "y", "eslintrc"] : List Text), IsWord word) ∧
    snakeCase "use-x2-y-eslintrc" = "use_x2_y_eslintrc" ∧
      snakeCase "useX2YEslintrc" = "use_x2_yeslintrc" := by
  have hwords : ∀ word ∈ (["use", "x2", "y", "eslintrc"] : List Text), IsWord word := by decide
  obtain ⟨hkebab, hcamel, -⟩ := snakeCase_of_words hwords
  have hcapitals : camelCase ["use", "x2", "y", "eslintrc"] = "useX2YEslintrc" := by decide
  exact ⟨hwords, hkebab, hcapitals ▸ hcamel⟩

/-- With a single letter between two words the spellings come to different names. -/
theorem middle_letter_joined : (∀ word ∈ (["a", "b", "c"] : List Text), IsWord word) ∧
    snakeCase (kebabCase ["a", "b", "c"]) = "a_b_c" ∧ camelCase ["a", "b", "c"] = "aBC" ∧
      snakeCase (camelCase ["a", "b", "c"]) = "a_bc" ∧
      snakeCase (camelCase ["a", "b", "c"]) ≠ nameOf ["a", "b", "c"] := by
  refine ⟨by decide, ?_, by decide, ?_, ?_⟩ <;> decide +kernel

end ProjectLint.Manifest
