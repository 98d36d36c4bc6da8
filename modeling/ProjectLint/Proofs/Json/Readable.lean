import ProjectLint.Proofs.Json.RoundTrip

/-!
What the reader gives. Main statement: a value that is read from a text without surrogate halves can
be written and read again.
-/

namespace ProjectLint.Json

section Fields

theorem Fields.mem_set {name : Text} {value : Json} {fields : Fields} {field : Text × Json}
    (h : field ∈ Fields.set name value fields) : field = (name, value) ∨ field ∈ fields := by
  induction fields with
  | nil => exact Or.inl (List.mem_singleton.1 h)
  | cons first rest ih =>
      obtain ⟨key, old⟩ := first
      rw [Fields.set] at h
      split at h
      next hkey =>
        subst hkey
        exact (List.mem_cons.1 h).imp_right fun h => List.mem_cons_of_mem _ h
      next =>
        cases List.mem_cons.1 h with
        | inl h => exact Or.inr (h ▸ List.mem_cons_self)
        | inr h => exact (ih h).imp_right fun h => List.mem_cons_of_mem _ h

theorem Fields.nodup_set {fields : Fields} (h : (fields.map (·.1)).Nodup) (name : Text)
    (value : Json) : ((Fields.set name value fields).map (·.1)).Nodup := by
  rw [Fields.map_fst_set]
  split
  next => exact h
  next hname =>
    refine List.nodup_append.2 ⟨h, List.nodup_singleton name, fun a ha b hb hab => hname ?_⟩
    rw [← List.mem_singleton.1 hb, ← hab]
    exact ha

theorem Fields.ofPairs_induction {P : Fields → Prop} (hnil : P [])
    {pairs : List (Text × Json)}
    (hset : ∀ pair ∈ pairs, ∀ fields, P fields → P (Fields.set pair.1 pair.2 fields)) :
    P (Fields.ofPairs pairs) := by
  have hfold : ∀ fields, P fields →
      P (pairs.foldl (fun fields pair => Fields.set pair.1 pair.2 fields) fields) := by
    induction pairs with
    | nil => exact fun fields h => h
    | cons pair pairs ih =>
        intro fields h
        exact ih (fun other hother => hset other (List.mem_cons_of_mem _ hother)) _
          (hset pair List.mem_cons_self fields h)
  exact hfold [] hnil

theorem Fields.nodup_ofPairs (pairs : List (Text × Json)) :
    ((Fields.ofPairs pairs).map (·.1)).Nodup :=
  Fields.ofPairs_induction (P := fun fields => (fields.map (·.1)).Nodup) List.nodup_nil
    fun pair _ _ h => Fields.nodup_set h pair.1 pair.2

theorem Fields.mem_of_mem_ofPairs {pairs : List (Text × Json)} {field : Text × Json}
    (h : field ∈ Fields.ofPairs pairs) : field ∈ pairs := by
  revert h
  refine Fields.ofPairs_induction (P := fun fields => field ∈ fields → field ∈ pairs)
    (fun h => absurd h List.not_mem_nil) fun pair hpair fields ih h => ?_
  cases Fields.mem_set h with
  | inl h => exact h ▸ hpair
  | inr h => exact ih h

end Fields

theorem suffix_spanDigits (t : Text) : (spanDigits t).2 <:+ t :=
  List.dropWhile_suffix _

theorem isDigits_spanDigits (t : Text) : IsDigits (spanDigits t).1 :=
  fun _ hc => List.mem_takeWhile_imp hc

theorem spanWhole?_eq_some {t whole left : Text} (h : spanWhole? t = some (whole, left)) :
    IsDigits whole ∧ whole ≠ [] ∧ left <:+ t := by
  cases t with
  | nil => cases h
  | cons c rest =>
      rw [spanWhole?] at h
      split at h
      next hzero =>
        cases h
        refine ⟨fun d hd => ?_, List.cons_ne_nil c [], List.suffix_cons c _⟩
        rw [List.mem_singleton.1 hd, hzero]
        rfl
      next =>
        split at h
        next hdigit =>
          have hsome := Option.some.inj h
          have hdigits := isDigits_spanDigits (c :: rest)
          have hsuffix := suffix_spanDigits (c :: rest)
          have hne : (spanDigits (c :: rest)).1 ≠ [] := by
            rw [spanDigits, List.takeWhile_cons_of_pos hdigit]
            exact List.cons_ne_nil _ _
          rw [hsome] at hdigits hsuffix hne
          exact ⟨hdigits, hne, hsuffix⟩
        next => cases h

theorem suffix_spanFraction (t : Text) : (spanFraction t).2 <:+ t := by
  cases t with
  | nil => exact List.suffix_refl []
  | cons c rest =>
      simp only [spanFraction]
      split
      next => exact (suffix_spanDigits rest).trans (List.suffix_cons c rest)
      next => exact List.suffix_refl _

theorem suffix_spanExponent (t : Text) : (spanExponent t).2 <:+ t := by
  cases t with
  | nil => exact List.suffix_refl []
  | cons c rest =>
      have hspan : ∀ {unsigned : Text} {taken : Prop} [Decidable taken] {size : Option Int},
          unsigned <:+ rest →
            (if taken then (size, (spanDigits unsigned).2) else (none, c :: rest)).2 <:+
              c :: rest := by
        intro unsigned taken _ size hunsigned
        split
        next => exact ((suffix_spanDigits unsigned).trans hunsigned).trans (List.suffix_cons c rest)
        next => exact List.suffix_refl _
      rw [spanExponent.eq_def]
      simp only
      split
      next => exact hspan (List.suffix_cons _ _)
      next => exact hspan (List.suffix_cons _ _)
      next => exact hspan (List.suffix_refl _)

theorem exists_sign (t : Text) : ∃ negative unsigned, t = signText negative ++ unsigned ∧
    (negative = false → unsigned.head? ≠ some (.scalar '-')) := by
  by_cases h : t.head? = some (.scalar '-')
  · obtain ⟨rest, rfl⟩ := List.head?_eq_some_iff.1 h
    exact ⟨true, rest, rfl, by simp⟩
  · exact ⟨false, t, rfl, fun _ => h⟩

/-- What is left after a number, and what the number is. -/
theorem readNumber?_eq_some {limits : Limits} {t left : Text} {v : Json}
    (h : readNumber? limits t = some (.ok v, left)) (depth : Nat) :
    Readable limits.digits depth v ∧ left <:+ t := by
  obtain ⟨negative, unsigned, rfl, hunsigned⟩ := exists_sign t
  rw [readNumber?_sign limits hunsigned] at h
  obtain ⟨⟨whole, afterWhole⟩, hwhole, h⟩ := Option.bind_eq_some_iff.1 h
  obtain ⟨hdigits, hne, hsuffix⟩ := spanWhole?_eq_some hwhole
  have hunsigned : unsigned <:+ signText negative ++ unsigned := List.suffix_append _ _
  have hleft := ((suffix_spanExponent (spanFraction afterWhole).2).trans
    (suffix_spanFraction afterWhole)).trans (hsuffix.trans hunsigned)
  simp only at h
  split at h
  next =>
    split at h
    next => cases h
    next hlimit =>
      cases h
      refine ⟨readable_int.2 ?_, hleft⟩
      have hlength := length_decimal_readDecimal_le hdigits hne
      cases negative with
      | false => simpa using hlength.trans (Nat.not_lt.1 hlimit)
      | true => simpa using hlength.trans (Nat.not_lt.1 hlimit)
  next =>
    cases h
    exact ⟨readable_float.2 (Binary64.isCanonical_ofDecimal _ _ _ _), hleft⟩

theorem readAtom_eq_ok {limits : Limits} {t left : Text} {v : Json}
    (h : readAtom limits t = .ok (v, left)) (depth : Nat) :
    Readable limits.digits depth v ∧ left <:+ t := by
  rw [readAtom] at h
  split at h
  next word value hword =>
    cases h
    refine ⟨?_, List.drop_suffix _ _⟩
    have hmem := List.mem_of_find?_eq_some hword
    simp only [words, List.mem_cons, List.not_mem_nil, or_false, Prod.mk.injEq] at hmem
    rcases hmem with ⟨-, rfl⟩ | ⟨-, rfl⟩ | ⟨-, rfl⟩ | ⟨-, rfl⟩ | ⟨-, rfl⟩ | ⟨-, rfl⟩
    iterate 3 exact (by cases depth <;> trivial)
    iterate 3 exact readable_float.2 trivial
  next =>
    split at h
    next value rest hnumber =>
      obtain ⟨number, rfl, hpair⟩ := exists_of_map_eq_ok h
      cases hpair
      exact readNumber?_eq_some hnumber depth
    next => cases h

theorem suffix_skipGap (t : Text) : skipGap t <:+ t :=
  List.dropWhile_suffix _

section Parts

variable {read : Text → Except Stop (Json × Text)} {P : Json → Prop}
  (hread : ∀ t v left, IsScalar t → read t = .ok (v, left) → P v ∧ left <:+ t)

include hread in
theorem of_readItems {fuel : Nat} {t left : Text} {items : List Json} (ht : IsScalar t)
    (h : readItems read fuel t = .ok (items, left)) :
    (∀ item ∈ items, P item) ∧ left <:+ t := by
  induction fuel generalizing t left items with
  | zero => cases h
  | succ fuel ih =>
      obtain ⟨⟨value, rest⟩, hvalue, h⟩ := exists_of_bind_eq_ok h
      obtain ⟨hP, hrest⟩ := hread t value rest ht hvalue
      have hskip := (suffix_skipGap rest).trans hrest
      simp only at h
      split at h
      next more hmore =>
        obtain ⟨⟨values, last⟩, hvalues, h⟩ := exists_of_bind_eq_ok h
        cases h
        rw [hmore] at hskip
        have hinside := ((suffix_skipGap more).trans (List.suffix_cons _ _)).trans hskip
        obtain ⟨hall, hlast⟩ := ih (ht.of_suffix hinside) hvalues
        exact ⟨List.forall_mem_cons.2 ⟨hP, hall⟩, hlast.trans hinside⟩
      next more hmore =>
        cases h
        rw [hmore] at hskip
        refine ⟨fun item hitem => ?_, (List.suffix_cons _ _).trans hskip⟩
        rw [List.mem_singleton.1 hitem]
        exact hP
      next => cases h

include hread in
theorem of_readFields {fuel : Nat} {t left : Text} {fields : Fields} (ht : IsScalar t)
    (h : readFields read fuel t = .ok (fields, left)) :
    (∀ field ∈ fields, Unpaired field.1 ∧ P field.2) ∧ left <:+ t := by
  induction fuel generalizing t left fields with
  | zero => cases h
  | succ fuel ih =>
      obtain ⟨inside, name, afterName, beforeValue, value, rest, rfl, hname, hbefore, hvalue, hnext⟩ :=
        of_readFields_eq_ok h
      have hinside := List.suffix_cons (CodePoint.scalar '"') inside
      have hunpaired := unpaired_of_readString (ht.of_suffix hinside) hname
      have hcolon := ((suffix_skipGap afterName).trans (suffix_of_readString hname)).trans hinside
      rw [hbefore] at hcolon
      have hstart := ((suffix_skipGap beforeValue).trans (List.suffix_cons _ _)).trans hcolon
      obtain ⟨hP, hrest⟩ := hread _ value rest (ht.of_suffix hstart) hvalue
      have hskip := ((suffix_skipGap rest).trans hrest).trans hstart
      rcases hnext with ⟨hclose, rfl⟩ | ⟨more, others, hcomma, hothers, rfl⟩
      · rw [hclose] at hskip
        exact ⟨List.forall_mem_singleton.2 ⟨hunpaired, hP⟩, (List.suffix_cons _ _).trans hskip⟩
      · rw [hcomma] at hskip
        have hmore := ((suffix_skipGap more).trans (List.suffix_cons _ _)).trans hskip
        obtain ⟨hall, hlast⟩ := ih (ht.of_suffix hmore) hothers
        exact ⟨List.forall_mem_cons.2 ⟨⟨hunpaired, hP⟩, hall⟩, hlast.trans hmore⟩

end Parts

section Value

variable {limits : Limits} {t left : Text} {v : Json}

theorem readable_string_of_read {inside s : Text} (ht : IsScalar (.scalar '"' :: inside))
    (h : readString (.scalar '"' :: inside) none inside = .ok (s, left)) (depth : Nat) :
    Readable limits.digits depth (string s) ∧ left <:+ .scalar '"' :: inside := by
  have hinside := List.suffix_cons (CodePoint.scalar '"') inside
  exact ⟨readable_string.2 (unpaired_of_readString (ht.of_suffix hinside) h),
    (suffix_of_readString h).trans hinside⟩

/-- A value that is read from a text without surrogate halves can be written and read again. -/
theorem readable_of_readValue {size depth : Nat} (ht : IsScalar t)
    (h : readValue limits size depth t = .ok (v, left)) :
    Readable limits.digits depth v ∧ left <:+ t := by
  induction depth generalizing t v left with
  | zero =>
      cases gives_of_readValue h with
      | string hread => exact readable_string_of_read ht hread 0
      | atom hread => exact readAtom_eq_ok hread 0
  | succ depth ih =>
      -- The items and fields lie one level deeper, where the induction speaks of them.
      have hread : ∀ t v left, IsScalar t → readValue limits size depth t = .ok (v, left) →
          Readable limits.digits depth v ∧ left <:+ t := fun _ _ _ => ih
      have hgap : ∀ (c : CodePoint) (inside : Text), skipGap inside <:+ c :: inside :=
        fun c inside => (suffix_skipGap inside).trans (List.suffix_cons c inside)
      cases gives_of_readValue h with
      | string hread => exact readable_string_of_read ht hread _
      | @noItems _ inside _ hclose =>
          refine ⟨fun item hitem => absurd hitem List.not_mem_nil, ?_⟩
          exact (List.suffix_cons _ left).trans (hclose ▸ hgap _ inside)
      | @items _ inside _ _ hitems =>
          obtain ⟨hall, hleft⟩ := of_readItems hread (ht.of_suffix (hgap _ inside)) hitems
          exact ⟨hall, hleft.trans (hgap _ inside)⟩
      | @noFields _ inside _ hclose =>
          refine ⟨⟨List.nodup_nil, fun field hfield => absurd hfield List.not_mem_nil⟩, ?_⟩
          exact (List.suffix_cons _ left).trans (hclose ▸ hgap _ inside)
      | @fields _ inside _ fields hfields =>
          obtain ⟨hall, hleft⟩ := of_readFields hread (ht.of_suffix (hgap _ inside)) hfields
          refine ⟨⟨Fields.nodup_ofPairs fields, fun field hfield => ?_⟩, hleft.trans (hgap _ inside)⟩
          exact hall field (Fields.mem_of_mem_ofPairs hfield)
      | atom hread => exact readAtom_eq_ok hread _

theorem readable_of_read {document : Text} (hdocument : IsScalar document)
    (h : read limits document = .ok v) : Readable limits.digits limits.depth v := by
  obtain ⟨left, hread⟩ := exists_of_read_eq_ok h
  exact (readable_of_readValue (hdocument.of_suffix (suffix_skipGap document)) hread).1

end Value

/-- An object stays one that can be read after a field is set to a string. -/
theorem readable_set {digits depth : Nat} {fields : Fields} {name t : Text}
    (h : Readable digits depth (object fields)) (hname : Unpaired name) (ht : Unpaired t) :
    Readable digits depth (object (Fields.set name (string t) fields)) := by
  cases depth with
  | zero => exact h.elim
  | succ depth =>
      refine ⟨Fields.nodup_set h.1 name _, fun field hfield => ?_⟩
      cases Fields.mem_set hfield with
      | inl hfield =>
          rw [hfield]
          exact ⟨hname, readable_string.2 ht⟩
      | inr hfield => exact h.2 field hfield

end ProjectLint.Json
