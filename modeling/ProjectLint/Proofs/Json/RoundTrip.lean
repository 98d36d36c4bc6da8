import ProjectLint.Proofs.Json.Float
import ProjectLint.Proofs.Json.String

/-!
Values that are written and read again. Not every value comes back: a floating-point number must be
one that a document gives, a whole number must not have too many digits, no string may hold two
surrogate halves that make one code point, no name may stand twice in an object, and the nesting
must not be too deep. Main statement: a value without these comes back, whatever follows it.
-/

namespace ProjectLint.Json

/-- Whether a value is read back from its text. -/
def Readable (digits : Nat) : (depth : Nat) → Json → Prop
  | _, null | _, bool _ => True
  | _, int n => (decimal n.natAbs).length ≤ digits
  | _, float x => x.IsCanonical
  | _, string t => Unpaired t
  | 0, array _ | 0, object _ => False
  | depth + 1, array items => ∀ item ∈ items, Readable digits depth item
  | depth + 1, object fields =>
      (fields.map (·.1)).Nodup ∧
        ∀ field ∈ fields, Unpaired field.1 ∧ Readable digits depth field.2

section Readable

variable {digits depth : Nat}

theorem readable_int {n : Int} :
    Readable digits depth (int n) ↔ (decimal n.natAbs).length ≤ digits := by
  cases depth <;> rfl

theorem readable_float {x : Binary64} : Readable digits depth (float x) ↔ x.IsCanonical := by
  cases depth <;> rfl

theorem readable_string {t : Text} : Readable digits depth (string t) ↔ Unpaired t := by
  cases depth <;> rfl

end Readable

/-- Whether a value that is no string, array or object starts with a code point. -/
def StartsAtom (c : CodePoint) : Prop :=
  isGap c = false ∧ c ≠ .scalar '"' ∧ c ≠ .scalar '[' ∧ c ≠ .scalar '\x7b' ∧ c ≠ .scalar ']'

instance (c : CodePoint) : Decidable (StartsAtom c) :=
  inferInstanceAs (Decidable (_ ∧ _))

theorem ne_of_isAsciiDigit {c d : CodePoint} (hc : c.isAsciiDigit = true)
    (hd : d.isAsciiDigit = false) : c ≠ d := by
  intro h
  rw [h, hd] at hc
  cases hc

theorem startsAtom_of_isAsciiDigit {c : CodePoint} (h : c.isAsciiDigit = true) :
    StartsAtom c := by
  have hne := fun d hd => ne_of_isAsciiDigit (d := d) h hd
  refine ⟨?_, hne _ rfl, hne _ rfl, hne _ rfl, hne _ rfl⟩
  simp only [isGap, Bool.or_eq_false_iff, beq_eq_false_iff_ne]
  exact ⟨⟨⟨hne _ rfl, hne _ rfl⟩, hne _ rfl⟩, hne _ rfl⟩

theorem not_isPrefixOf_cons {c d : CodePoint} (h : c ≠ d) (t u : Text) :
    (c :: t).isPrefixOf (d :: u) = false := by
  rw [List.isPrefixOf, beq_eq_false_iff_ne.2 h, Bool.false_and]

theorem not_isPrefixOf_cons_cons {a b c d : CodePoint} (h : b ≠ d) (t u : Text) :
    (a :: b :: t).isPrefixOf (c :: d :: u) = false := by
  rw [List.isPrefixOf, not_isPrefixOf_cons h, Bool.and_false]

/-- No word stands where a number does. -/
theorem find?_words_number (negative : Bool) {c : CodePoint} (hc : c.isAsciiDigit = true)
    (t : Text) :
    (words.find? fun word => word.1.isPrefixOf (signText negative ++ c :: t)) = none := by
  have hne := fun d hd => (ne_of_isAsciiDigit (d := d) hc hd).symm
  refine List.find?_eq_none.2 fun word hword => ?_
  rw [Bool.not_eq_true]
  cases negative with
  | false =>
      simp only [words, List.mem_cons, List.not_mem_nil, or_false] at hword
      rcases hword with rfl | rfl | rfl | rfl | rfl | rfl
      all_goals exact not_isPrefixOf_cons (hne _ rfl) _ _
  | true =>
      simp only [words, List.mem_cons, List.not_mem_nil, or_false] at hword
      rcases hword with rfl | rfl | rfl | rfl | rfl | rfl
      iterate 5 exact not_isPrefixOf_cons (by decide) _ _
      exact not_isPrefixOf_cons_cons (hne _ rfl) _ _

/-- What a value without parts is written as, and that it is read back from this. -/
structure Atom (limits : Limits) (v : Json) : Prop where
  starts : ∃ c t, v.write = c :: t ∧ StartsAtom c
  read : ∀ rest, Delimits rest → readAtom limits (v.write ++ rest) = .ok (v, rest)

theorem atom_number {limits : Limits} {v : Json} {n : Numeral} (hn : n.Valid) (negative : Bool)
    (hdigits : n.fraction.isNone = true → n.exponent.isNone = true →
      n.whole.length ≤ limits.digits)
    (hwrite : v.write = signText negative ++ n.text) (hvalue : n.value negative = v) :
    Atom limits v := by
  obtain ⟨c, hhead, hc⟩ := Numeral.head?_text hn
  obtain ⟨t, ht⟩ : ∃ t, n.text = c :: t := List.head?_eq_some_iff.1 hhead
  constructor
  · rw [hwrite, ht]
    cases negative with
    | false => exact ⟨c, t, rfl, startsAtom_of_isAsciiDigit hc⟩
    | true => exact ⟨.scalar '-', c :: t, rfl, by decide⟩
  · intro rest hrest
    have hwords := find?_words_number negative hc (t ++ rest)
    rw [← List.cons_append, ← ht] at hwords
    rw [hwrite, List.append_assoc, readAtom, hwords]
    simp only [readNumber?_text hn negative hrest limits hdigits, hvalue]
    rfl

theorem atom_word (limits : Limits) {word : Text} {v : Json} {c : CodePoint} {t : Text}
    (hwrite : v.write = word) (hword : word = c :: t) (hc : StartsAtom c)
    (hfind : ∀ rest, words.find? (fun word => word.1.isPrefixOf (c :: t ++ rest)) =
      some (word, v)) : Atom limits v := by
  refine ⟨⟨c, t, hwrite.trans hword, hc⟩, fun rest _ => ?_⟩
  rw [hwrite, hword, readAtom, hfind]
  simp only [hword, List.drop_left]

theorem atom_int {limits : Limits} {n : Int} (h : (decimal n.natAbs).length ≤ limits.digits) :
    Atom limits (int n) := by
  have hvalid : (Numeral.mk (decimal n.natAbs) none none).Valid := by
    refine ⟨?_, by simp, by simp⟩
    rcases Nat.eq_zero_or_pos n.natAbs with hzero | hpos
    · rw [hzero]
      exact Or.inl rfl
    · cases hdecimal : decimal n.natAbs with
      | nil => exact absurd hdecimal (decimal_ne_nil _)
      | cons c digits =>
          have hc := head?_decimal hpos
          rw [hdecimal] at hc
          refine Or.inr ⟨c, digits, rfl, fun hzero => hc (by rw [hzero]; rfl), ?_⟩
          exact hdecimal ▸ isDigits_decimal n.natAbs
  cases n with
  | ofNat n =>
      refine atom_number hvalid false (fun _ _ => h) ?_ ?_
      · simp [write, signedDecimal, signText, Numeral.text, Numeral.fractionText,
          Numeral.exponentText]
      · simp [Numeral.value, readDecimal_decimal]
  | negSucc n =>
      refine atom_number hvalid true (fun _ _ => h) ?_ ?_
      · simp [write, signedDecimal, signText, Numeral.text, Numeral.fractionText,
          Numeral.exponentText]
      · simp only [Numeral.value, Int.natAbs_negSucc, readDecimal_decimal]
        rfl

theorem atom_float (limits : Limits) {x : Binary64} (h : x.IsCanonical) :
    Atom limits (float x) := by
  cases x with
  | nan => exact atom_word limits rfl rfl (by decide) fun rest => rfl
  | infinite negative =>
      cases negative with
      | false => exact atom_word limits rfl rfl (by decide) fun rest => rfl
      | true => exact atom_word limits rfl rfl (by decide) fun rest => rfl
  | finite negative mantissa exponent =>
      obtain ⟨n, hvalid, hfloat, hwrite, hvalue⟩ := exists_numeral_finite negative h
      refine atom_number hvalid negative (fun hfraction hexponent => ?_) hwrite ?_
      · rw [hfloat hfraction] at hexponent
        cases hexponent
      · rw [Numeral.value_of_float hfloat, hvalue]

theorem skipGap_cons {c : CodePoint} (h : isGap c = false) (t : Text) :
    skipGap (c :: t) = c :: t := by
  rw [skipGap, List.dropWhile_cons_of_neg (by simp [h])]

theorem skipGap_blank {c : CodePoint} (h : isGap c = false) (t : Text) :
    skipGap (.scalar ' ' :: c :: t) = c :: t :=
  skipGap_cons h t

theorem readValue_atom {c : CodePoint} (hc : StartsAtom c) (limits : Limits) (size depth : Nat)
    (t : Text) : readValue limits size depth (c :: t) = readAtom limits (c :: t) := by
  obtain ⟨-, hquote, hbracket, hbrace, -⟩ := hc
  rw [readValue.eq_def]
  split
  next h => exact absurd (List.cons.inj h).1 hquote
  next h => exact absurd (List.cons.inj h).1 hbracket
  next h => exact absurd (List.cons.inj h).1 hbrace
  next h => exact absurd (List.cons.inj h).1 hbracket
  next h => exact absurd (List.cons.inj h).1 hbrace
  next => rfl

/-- Whether a reader takes a value from its text and leaves what follows. -/
structure ReadBack (read : Text → Except Stop (Json × Text)) (v : Json) : Prop where
  starts : ∃ c t, v.write = c :: t ∧ isGap c = false ∧ c ≠ .scalar ']'
  read : ∀ rest, Delimits rest → read (v.write ++ rest) = .ok (v, rest)

theorem Atom.readBack {limits : Limits} {v : Json} (h : Atom limits v) (size depth : Nat) :
    ReadBack (readValue limits size depth) v := by
  obtain ⟨c, t, hwrite, hc⟩ := h.starts
  refine ⟨⟨c, t, hwrite, hc.1, hc.2.2.2.2⟩, fun rest hrest => ?_⟩
  have hread := h.read rest hrest
  rw [hwrite, List.cons_append] at hread ⊢
  rw [readValue_atom hc, hread]

section Parts

variable {read : Text → Except Stop (Json × Text)}

theorem delimits_cons {c : CodePoint} (h : c.isAsciiDigit = false ∧ c ≠ .scalar '.' ∧
    c ≠ .scalar 'e' ∧ c ≠ .scalar 'E') (t : Text) : Delimits (c :: t) := by
  intro d hd
  cases hd
  exact h

theorem starts_writeItems {item : Json} (h : ReadBack read item) (items : List Json) :
    ∃ c t, writeItems (item :: items) = c :: t ∧ isGap c = false ∧ c ≠ .scalar ']' := by
  obtain ⟨c, t, hwrite, hc⟩ := h.starts
  cases items with
  | nil => exact ⟨c, t, hwrite, hc⟩
  | cons next items =>
      rw [writeItems, hwrite]
      · exact ⟨c, _, List.cons_append, hc⟩
      · simp

theorem readItems_writeItems {items : List Json} (hne : items ≠ [])
    (hitems : ∀ item ∈ items, ReadBack read item) {fuel : Nat} (hfuel : items.length ≤ fuel)
    (rest : Text) :
    readItems read fuel (writeItems items ++ .scalar ']' :: rest) = .ok (items, rest) := by
  induction items generalizing fuel with
  | nil => exact absurd rfl hne
  | cons item items ih =>
      obtain ⟨fuel, rfl⟩ : ∃ n, fuel = n + 1 := Nat.exists_eq_add_one.2 (by simp at hfuel; omega)
      have hitem := hitems item List.mem_cons_self
      cases items with
      | nil =>
          have hread := hitem.read (.scalar ']' :: rest) (delimits_cons (by decide) _)
          simp only [writeItems, readItems, hread, bind, Except.bind,
            skipGap_cons (c := .scalar ']') rfl]
          rfl
      | cons next items =>
          have hread := hitem.read
            (.scalar ',' :: .scalar ' ' :: (writeItems (next :: items) ++ .scalar ']' :: rest))
            (delimits_cons (by decide) _)
          have hmore := ih (by simp) (fun other hother => hitems other (by simp [hother]))
            (Nat.le_of_succ_le_succ hfuel)
          obtain ⟨c, t, hwrite, hgap, -⟩ := 
            starts_writeItems (hitems next (by simp)) items
          rw [hwrite, List.cons_append] at hread hmore
          simp only [writeItems, readItems, List.append_assoc, List.cons_append, hwrite, hread,
            bind, Except.bind, skipGap_cons (c := .scalar ',') rfl, skipGap_blank hgap, hmore]
          rfl

theorem starts_writeFields (field : Text × Json) (fields : Fields) :
    ∃ t, writeFields (field :: fields) = .scalar '"' :: t := by
  obtain ⟨name, value⟩ := field
  cases fields with
  | nil => exact ⟨_, rfl⟩
  | cons next fields => exact ⟨_, rfl⟩

theorem readFields_writeFields {fields : Fields} (hne : fields ≠ [])
    (hfields : ∀ field ∈ fields, Unpaired field.1 ∧ ReadBack read field.2) {fuel : Nat}
    (hfuel : fields.length ≤ fuel) (rest : Text) :
    readFields read fuel (writeFields fields ++ .scalar '\x7d' :: rest) = .ok (fields, rest) := by
  induction fields generalizing fuel with
  | nil => exact absurd rfl hne
  | cons field fields ih =>
      obtain ⟨fuel, rfl⟩ : ∃ n, fuel = n + 1 := Nat.exists_eq_add_one.2 (by simp at hfuel; omega)
      obtain ⟨name, value⟩ := field
      obtain ⟨hname, hvalue⟩ := hfields (name, value) List.mem_cons_self
      obtain ⟨c, t, hwrite, hgap, -⟩ := hvalue.starts
      have hinside : ∀ opening more, readString opening none
          (name.flatMap writeCodePoint ++ .scalar '"' :: more) = .ok (name, more) :=
        fun opening more => readString_writeString opening hname more
      cases fields with
      | nil =>
          have hread := hvalue.read (.scalar '\x7d' :: rest) (delimits_cons (by decide) _)
          rw [hwrite, List.cons_append] at hread
          simp only [writeFields, writeString, readFields, List.append_assoc, List.cons_append,
            List.nil_append, hinside, hwrite, bind, Except.bind, hread,
            skipGap_cons (c := .scalar ':') rfl, skipGap_cons (c := .scalar '\x7d') rfl,
            skipGap_blank hgap]
          rfl
      | cons next fields =>
          have hread := hvalue.read
            (.scalar ',' :: .scalar ' ' :: (writeFields (next :: fields) ++ .scalar '\x7d' :: rest))
            (delimits_cons (by decide) _)
          have hmore := ih (by simp) (fun other hother => hfields other (by simp [hother]))
            (Nat.le_of_succ_le_succ hfuel)
          obtain ⟨u, hnext⟩ := starts_writeFields next fields
          rw [hwrite] at hread
          simp only [hnext, List.cons_append] at hread hmore
          simp only [writeFields, writeString, readFields, List.append_assoc, List.cons_append,
            List.nil_append, hinside, hwrite, hnext, bind, Except.bind, hread,
            skipGap_cons (c := .scalar ':') rfl, skipGap_cons (c := .scalar ',') rfl,
            skipGap_blank hgap, skipGap_blank (c := .scalar '"') rfl, hmore]
          rfl

end Parts

theorem length_write_le {item : Json} {items : List Json} (h : item ∈ items) :
    item.write.length ≤ (writeItems items).length := by
  induction items with
  | nil => cases h
  | cons first items ih =>
      cases items with
      | nil =>
          obtain rfl := List.mem_singleton.1 h
          exact Nat.le_refl _
      | cons next items =>
          simp only [writeItems, List.length_append, List.length_cons]
          rcases List.mem_cons.1 h with rfl | h
          · omega
          · have hmore := ih h
            omega

theorem length_le_writeItems {items : List Json} (h : ∀ item ∈ items, item.write ≠ []) :
    items.length ≤ (writeItems items).length := by
  induction items with
  | nil => exact Nat.zero_le _
  | cons first items ih =>
      have hfirst := List.length_pos_iff.2 (h first List.mem_cons_self)
      cases items with
      | nil => exact hfirst
      | cons next items =>
          have hmore := ih fun other hother => h other (List.mem_cons_of_mem _ hother)
          simp only [writeItems, List.length_append, List.length_cons] at hmore ⊢
          omega

theorem length_write_le_of_field {field : Text × Json} {fields : Fields} (h : field ∈ fields) :
    field.2.write.length ≤ (writeFields fields).length := by
  induction fields with
  | nil => cases h
  | cons first fields ih =>
      obtain ⟨name, value⟩ := first
      cases fields with
      | nil =>
          obtain rfl := List.mem_singleton.1 h
          simp only [writeFields, List.length_append, List.length_cons]
          omega
      | cons next fields =>
          simp only [writeFields, List.length_append, List.length_cons]
          rcases List.mem_cons.1 h with rfl | h
          · simp only
            omega
          · have hmore := ih h
            omega

theorem length_le_writeFields (fields : Fields) :
    fields.length ≤ (writeFields fields).length := by
  induction fields with
  | nil => exact Nat.zero_le _
  | cons first fields ih =>
      obtain ⟨name, value⟩ := first
      cases fields with
      | nil =>
          simp only [writeFields, List.length_append, List.length_cons, List.length_nil]
          omega
      | cons next fields =>
          simp only [writeFields, List.length_append, List.length_cons] at ih ⊢
          omega

theorem Fields.set_of_not_mem {name : Text} {fields : Fields} (h : name ∉ fields.map (·.1))
    (value : Json) : Fields.set name value fields = fields ++ [(name, value)] := by
  induction fields with
  | nil => rfl
  | cons field fields ih =>
      obtain ⟨key, old⟩ := field
      simp only [List.map_cons, List.mem_cons, not_or] at h
      rw [Fields.set, if_neg (Ne.symm h.1), ih h.2, List.cons_append]

/-- Pairs in which no name stands twice are fields as they are. -/
theorem Fields.ofPairs_of_nodup {fields : Fields} (h : (fields.map (·.1)).Nodup) :
    Fields.ofPairs fields = fields := by
  have hfold : ∀ (before after : Fields), ((before ++ after).map (·.1)).Nodup →
      after.foldl (fun fields pair => Fields.set pair.1 pair.2 fields) before =
        before ++ after := by
    intro before after
    induction after generalizing before with
    | nil => simp
    | cons field after ih =>
        intro hnodup
        have hfresh : field.1 ∉ before.map (·.1) := by
          intro hmem
          rw [List.map_append, List.map_cons, List.nodup_append] at hnodup
          exact hnodup.2.2 _ hmem _ List.mem_cons_self rfl
        rw [List.append_cons] at hnodup
        rw [List.foldl_cons, Fields.set_of_not_mem hfresh, ih _ hnodup, ← List.append_cons]
  exact hfold [] fields h

section Value

variable {limits : Limits} {size depth : Nat}

theorem readBack_string {t : Text} (h : Unpaired t) :
    ReadBack (readValue limits size depth) (string t) := by
  refine ⟨⟨_, _, rfl, by decide, by decide⟩, fun rest _ => ?_⟩
  have hread := fun opening => readString_writeString opening h rest
  simp only [write, writeString, List.cons_append, List.append_assoc, List.nil_append, readValue,
    hread]
  rfl

theorem readBack_array {items : List Json}
    (h : ∀ item ∈ items, ReadBack (readValue limits size depth) item)
    (hsize : items.length ≤ size) :
    ReadBack (readValue limits size (depth + 1)) (array items) := by
  refine ⟨⟨_, _, rfl, by decide, by decide⟩, fun rest _ => ?_⟩
  cases items with
  | nil => rfl
  | cons item items =>
      have hread := readItems_writeItems (by simp) h hsize rest
      obtain ⟨c, t, hwrite, hgap, hbracket⟩ := starts_writeItems (h item List.mem_cons_self) items
      rw [hwrite, List.cons_append] at hread
      simp only [write, List.cons_append, List.append_assoc, List.nil_append, readValue, hwrite,
        skipGap_cons hgap]
      split
      next heq => exact absurd (List.cons.inj heq).1 hbracket
      next => simp only [hread, Except.map]

theorem readBack_object {fields : Fields} (hnames : (fields.map (·.1)).Nodup)
    (h : ∀ field ∈ fields, Unpaired field.1 ∧ ReadBack (readValue limits size depth) field.2)
    (hsize : fields.length ≤ size) :
    ReadBack (readValue limits size (depth + 1)) (object fields) := by
  refine ⟨⟨_, _, rfl, by decide, by decide⟩, fun rest _ => ?_⟩
  cases fields with
  | nil => rfl
  | cons field fields =>
      have hread := readFields_writeFields (by simp) h hsize rest
      obtain ⟨t, hwrite⟩ := starts_writeFields field fields
      rw [hwrite, List.cons_append] at hread
      simp only [write, List.cons_append, List.append_assoc, List.nil_append, readValue, hwrite,
        skipGap_cons (c := .scalar '"') rfl]
      split
      next heq => exact absurd (List.cons.inj heq).1 (by decide)
      next => simp only [hread, Except.map, Fields.ofPairs_of_nodup hnames]

end Value

/-- A value is read back, whatever follows it. -/
theorem readBack_write {limits : Limits} {size : Nat} : ∀ {depth : Nat} {v : Json},
    Readable limits.digits depth v → v.write.length ≤ size →
      ReadBack (readValue limits size depth) v
  | depth, null, _, _ =>
      (atom_word limits rfl rfl (by decide) fun _ => rfl : Atom limits null).readBack size depth
  | depth, bool true, _, _ =>
      (atom_word limits rfl rfl (by decide) fun _ => rfl : Atom limits (bool true)).readBack size
        depth
  | depth, bool false, _, _ =>
      (atom_word limits rfl rfl (by decide) fun _ => rfl : Atom limits (bool false)).readBack size
        depth
  | depth, int n, h, _ => (atom_int (readable_int.1 h)).readBack size depth
  | depth, float x, h, _ => (atom_float limits (readable_float.1 h)).readBack size depth
  | depth, string t, h, _ => readBack_string (readable_string.1 h)
  | 0, array items, h, _ => h.elim
  | 0, object fields, h, _ => h.elim
  | depth + 1, array items, h, hsize => by
      have hinside : (writeItems items).length ≤ size := by
        simp only [write, List.length_cons, List.length_append] at hsize
        omega
      have hitems : ∀ item ∈ items, ReadBack (readValue limits size depth) item := fun item hitem =>
        readBack_write (h item hitem) (Nat.le_trans (length_write_le hitem) hinside)
      refine readBack_array hitems (Nat.le_trans (length_le_writeItems fun item hitem => ?_) hinside)
      obtain ⟨c, t, hwrite, -⟩ := (hitems item hitem).starts
      rw [hwrite]
      exact List.cons_ne_nil c t
  | depth + 1, object fields, h, hsize => by
      have hinside : (writeFields fields).length ≤ size := by
        simp only [write, List.length_cons, List.length_append] at hsize
        omega
      refine readBack_object h.1 (fun field hfield => ⟨(h.2 field hfield).1, ?_⟩)
        (Nat.le_trans (length_le_writeFields fields) hinside)
      exact readBack_write (h.2 field hfield).2
        (Nat.le_trans (length_write_le_of_field hfield) hinside)

end ProjectLint.Json
