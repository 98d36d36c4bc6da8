import ProjectLint.Proofs.Json.Readable

/-!
The limits of the reader. Main statements: a document goes beyond them only if it has more opening
brackets than values may be nested, or more digits in a row than a whole number may have; and too
many brackets at the start, or a whole number with too many digits, do go beyond them.
-/

namespace ProjectLint.Json

/-- Whether a code point opens an array or an object. -/
def opens (c : CodePoint) : Bool :=
  c == .scalar '[' || c == .scalar '\x7b'

/-- What a text has if a reader that may go down to a depth stops in it. -/
def Stop.Blames (digits depth : Nat) (t : Text) : Stop → Prop
  | .defect _ _ => True
  | .tooManyDigits => ∃ run, IsDigits run ∧ run <:+: t ∧ digits < run.length
  | .tooDeep => depth < t.countP opens

theorem Stop.Blames.of_suffix {digits depth : Nat} {t u : Text} {stop : Stop}
    (h : stop.Blames digits depth t) (ht : t <:+ u) : stop.Blames digits depth u := by
  cases stop with
  | defect _ _ => trivial
  | tooManyDigits =>
      obtain ⟨run, hrun, hinfix, hlength⟩ := h
      exact ⟨run, hrun, hinfix.trans ht.isInfix, hlength⟩
  | tooDeep => exact Nat.lt_of_lt_of_le h (ht.sublist.countP_le)

theorem Stop.Blames.cons {digits depth : Nat} {t : Text} {stop : Stop}
    (h : stop.Blames digits depth t) {c : CodePoint} (hc : opens c = true) :
    stop.Blames digits (depth + 1) (c :: t) := by
  cases stop with
  | defect _ _ => trivial
  | tooManyDigits => exact h.of_suffix (List.suffix_cons c t)
  | tooDeep =>
      simp only [Blames, List.countP_cons_of_pos hc] at h ⊢
      omega

/-- A string has no limits. -/
theorem blames_readString {opening : Text} {high : Option Nat} {t : Text} {stop : Stop}
    (h : readString opening high t = .error stop) (digits depth : Nat) (u : Text) :
    stop.Blames digits depth u := by
  fun_induction readString opening high t with
  | case1 | case3 | case5 | case6 | case8 | case9 =>
      cases h
      trivial
  | case2 => cases h
  | case4 high a b c d n e rest hn read high' hjoin hquote ih => exact ih (eq_error_of_map h)
  | case7 high e after hu c he hquote ih => exact ih (eq_error_of_map h)
  | case10 high c rest hquote hslash hc ih => exact ih (eq_error_of_map h)

theorem isInfix_of_spanWhole? {t whole left : Text} (h : spanWhole? t = some (whole, left)) :
    whole <:+: t := by
  cases t with
  | nil => cases h
  | cons c rest =>
      rw [spanWhole?] at h
      split at h
      next =>
        cases h
        exact (List.prefix_append [c] _).isInfix
      next =>
        split at h
        next =>
          cases h
          exact (List.takeWhile_prefix _).isInfix
        next => cases h

theorem blames_readNumber? {limits : Limits} {t left : Text} {stop : Stop}
    (h : readNumber? limits t = some (.error stop, left)) (depth : Nat) :
    stop.Blames limits.digits depth t := by
  obtain ⟨negative, unsigned, rfl, hunsigned⟩ := exists_sign t
  rw [readNumber?_sign limits hunsigned] at h
  obtain ⟨⟨whole, afterWhole⟩, hwhole, h⟩ := Option.bind_eq_some_iff.1 h
  simp only at h
  split at h
  next =>
    split at h
    next hlimit =>
      cases h
      exact ⟨whole, (spanWhole?_eq_some hwhole).1,
        (isInfix_of_spanWhole? hwhole).trans (List.suffix_append _ _).isInfix, hlimit⟩
    next => cases h
  next => cases h

theorem blames_readAtom {limits : Limits} {t : Text} {stop : Stop}
    (h : readAtom limits t = .error stop) (depth : Nat) : stop.Blames limits.digits depth t := by
  rw [readAtom] at h
  split at h
  next => cases h
  next =>
    split at h
    next value left hnumber =>
      rw [eq_error_of_map h] at hnumber
      exact blames_readNumber? hnumber depth
    next =>
      cases h
      trivial

section Parts

variable {digits depth : Nat} {read : Text → Except Stop (Json × Text)}
  (hread : ∀ t v left, IsScalar t → read t = .ok (v, left) → left <:+ t)
  (hstop : ∀ t stop, IsScalar t → read t = .error stop → stop.Blames digits depth t)

include hread hstop

theorem blames_readItems {fuel : Nat} {t : Text} {stop : Stop} (ht : IsScalar t)
    (h : readItems read fuel t = .error stop) : stop.Blames digits depth t := by
  induction fuel generalizing t with
  | zero =>
      cases h
      trivial
  | succ fuel ih =>
      rcases bind_eq_error h with h | ⟨⟨value, rest⟩, hvalue, h⟩
      · exact hstop t stop ht h
      · have hskip := (suffix_skipGap rest).trans (hread t value rest ht hvalue)
        simp only at h
        split at h
        next more hmore =>
          rw [hmore] at hskip
          have hinside := ((suffix_skipGap more).trans (List.suffix_cons _ _)).trans hskip
          rcases bind_eq_error h with h | ⟨_, _, h⟩
          · exact (ih (ht.of_suffix hinside) h).of_suffix hinside
          · cases h
        next => cases h
        next =>
          cases h
          trivial

theorem blames_readFields {fuel : Nat} {t : Text} {stop : Stop} (ht : IsScalar t)
    (h : readFields read fuel t = .error stop) : stop.Blames digits depth t := by
  induction fuel generalizing t with
  | zero =>
      cases h
      trivial
  | succ fuel ih =>
      rw [readFields.eq_def] at h
      simp only at h
      split at h
      next inside =>
        rcases bind_eq_error h with h | ⟨⟨name, afterName⟩, hname, h⟩
        · exact blames_readString h digits depth _
        · have hcolon := ((suffix_skipGap afterName).trans (suffix_of_readString hname)).trans
            (List.suffix_cons (.scalar '"') inside)
          simp only at h
          split at h
          next beforeValue hbefore =>
            rw [hbefore] at hcolon
            have hstart := ((suffix_skipGap beforeValue).trans (List.suffix_cons _ _)).trans hcolon
            rcases bind_eq_error h with h | ⟨⟨value, rest⟩, hvalue, h⟩
            · exact (hstop _ stop (ht.of_suffix hstart) h).of_suffix hstart
            · have hskip := ((suffix_skipGap rest).trans
                (hread _ value rest (ht.of_suffix hstart) hvalue)).trans hstart
              simp only at h
              split at h
              next more hmore =>
                rw [hmore] at hskip
                have hnext := ((suffix_skipGap more).trans (List.suffix_cons _ _)).trans hskip
                rcases bind_eq_error h with h | ⟨_, _, h⟩
                · exact (ih (ht.of_suffix hnext) h).of_suffix hnext
                · cases h
              next => cases h
              next =>
                cases h
                trivial
          next =>
            cases h
            trivial
      next =>
        cases h
        trivial

end Parts

/-- A value is not read for its digits or its depth only where the text has too many of them. -/
theorem blames_readValue {limits : Limits} {size depth : Nat} {t : Text} {stop : Stop}
    (ht : IsScalar t) (h : readValue limits size depth t = .error stop) :
    stop.Blames limits.digits depth t := by
  induction depth generalizing t stop with
  | zero =>
      cases halts_of_readValue h with
      | string hread => exact blames_readString hread _ _ _
      | deep hopens =>
          refine List.countP_pos_iff.2 ⟨_, List.mem_cons_self, ?_⟩
          rcases hopens with rfl | rfl <;> rfl
      | atom hread => exact blames_readAtom hread 0
  | succ depth ih =>
      -- What stands inside a bracket is read one level deeper, and holds one opening bracket less.
      have hread : ∀ t v left, IsScalar t → readValue limits size depth t = .ok (v, left) →
          left <:+ t := fun _ _ _ ht h => (readable_of_readValue ht h).2
      have hstop : ∀ t stop, IsScalar t → readValue limits size depth t = .error stop →
          stop.Blames limits.digits depth t := fun _ _ => ih
      cases halts_of_readValue h with
      | string hread => exact blames_readString hread _ _ _
      | @items _ inside _ hitems =>
          have hinside := ht.of_suffix ((suffix_skipGap inside).trans (List.suffix_cons _ _))
          exact ((blames_readItems hread hstop hinside hitems).of_suffix
            (suffix_skipGap inside)).cons rfl
      | @fields _ inside _ hfields =>
          have hinside := ht.of_suffix ((suffix_skipGap inside).trans (List.suffix_cons _ _))
          exact ((blames_readFields hread hstop hinside hfields).of_suffix
            (suffix_skipGap inside)).cons rfl
      | atom hread => exact blames_readAtom hread _

/-- Whether a text cannot go beyond the limits: it has no more opening brackets than values may be
nested, and no more digits in a row than a whole number may have. -/
structure Limits.Spares (limits : Limits) (t : Text) : Prop where
  depth : t.countP opens ≤ limits.depth
  digits : ∀ run, IsDigits run → run <:+: t → run.length ≤ limits.digits

/-- A document that cannot go beyond the limits is read or malformed. -/
theorem Limits.Spares.read_eq {limits : Limits} {document : Text} (h : limits.Spares document)
    (hdocument : IsScalar document) :
    (∃ v, read limits document = .ok v) ∨
      ∃ defect line column offset,
        read limits document = .error (.malformed defect line column offset) := by
  rw [read]
  cases hread : readDocument limits document with
  | ok v => exact Or.inl ⟨v, rfl⟩
  | error stop =>
      have hblames : stop.Blames limits.digits limits.depth document := by
        rcases of_readDocument_eq_error hread with ⟨defect, remaining, rfl⟩ | hvalue
        · trivial
        · have hskip := suffix_skipGap document
          exact (blames_readValue (hdocument.of_suffix hskip) hvalue).of_suffix hskip
      cases stop with
      | defect defect remaining => exact Or.inr ⟨_, _, _, _, rfl⟩
      | tooManyDigits =>
          obtain ⟨run, hrun, hinfix, hlength⟩ := hblames
          exact absurd (h.digits run hrun hinfix) (Nat.not_le.2 hlength)
      | tooDeep => exact absurd h.depth (Nat.not_le.2 hblames)

theorem readDocument_of_error {limits : Limits} {c : CodePoint} {t : Text} {stop : Stop}
    (hmark : c ≠ CodePoint.ofNat 0xFEFF) (hgap : isGap c = false)
    (h : readValue limits (c :: t).length limits.depth (c :: t) = .error stop) :
    readDocument limits (c :: t) = .error stop := by
  have hhead : (c :: t).head? ≠ some (CodePoint.ofNat 0xFEFF) := fun hhead =>
    hmark (Option.some.inj hhead)
  rw [readDocument, if_neg hhead, skipGap_cons hgap, h]

/-- A whole number with too many digits goes beyond the limits. -/
theorem read_of_digits {limits : Limits} {digits : Text} (hdigits : IsDigits digits)
    (hzero : digits.head? ≠ some (.scalar '0')) (hlength : limits.digits < digits.length) :
    read limits digits = .error .tooManyDigits := by
  cases digits with
  | nil => cases hlength
  | cons c t =>
      have hc : c.isAsciiDigit = true := hdigits c List.mem_cons_self
      have hstart := startsAtom_of_isAsciiDigit hc
      have hwhole : spanWhole? (c :: t) = some (c :: t, []) := by
        have hstops : Stops [] := fun _ h => by cases h
        have hspan := spanDigits_append hdigits hstops
        rw [List.append_nil] at hspan
        rw [spanWhole?, if_neg (fun h => hzero (by rw [h]; rfl)), if_pos hc, hspan]
      have hnumber : readNumber? limits (c :: t) = some (.error .tooManyDigits, []) := by
        have hminus : false = false → (c :: t).head? ≠ some (.scalar '-') := fun _ h =>
          ne_of_isAsciiDigit hc rfl (Option.some.inj h)
        have hsign := readNumber?_sign limits hminus
        rw [hwhole] at hsign
        exact hsign.trans (if_pos hlength)
      have hread : readValue limits (c :: t).length limits.depth (c :: t) =
          .error .tooManyDigits := by
        have hwords : (words.find? fun word => word.1.isPrefixOf (c :: t)) = none :=
          find?_words_number false hc t
        rw [readValue_atom hstart, readAtom, hwords]
        simp only [hnumber]
        rfl
      rw [read, readDocument_of_error (ne_of_isAsciiDigit hc rfl) hstart.1 hread]

end ProjectLint.Json
