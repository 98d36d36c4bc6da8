import ProjectLint.Proofs.FileSystem.TextFile
import ProjectLint.Proofs.Json.Readable
import ProjectLint.Proofs.Text.Utf8

/-!
Documents as files. What is written is printable ASCII on one line, so neither UTF-8 nor line
endings change it. Main statement: a value that can be read is what the file of its text is read as.
-/

namespace ProjectLint.Json

/-- Whether a text is printable ASCII. -/
def IsPrintable (t : Text) : Prop :=
  ∀ c ∈ t, 0x20 ≤ c.toNat ∧ c.toNat ≤ 0x7E

theorem isPrintable_nil : IsPrintable [] :=
  fun _ hc => absurd hc List.not_mem_nil

theorem isPrintable_cons {c : CodePoint} {t : Text} :
    IsPrintable (c :: t) ↔ (0x20 ≤ c.toNat ∧ c.toNat ≤ 0x7E) ∧ IsPrintable t :=
  List.forall_mem_cons

theorem isPrintable_append {t u : Text} :
    IsPrintable (t ++ u) ↔ IsPrintable t ∧ IsPrintable u :=
  List.forall_mem_append

theorem isPrintable_of_isDigits {t : Text} (h : IsDigits t) : IsPrintable t := by
  intro c hc
  have hc := digit_bounds (h c hc)
  omega

theorem isPrintable_writeUnit (n : Nat) : IsPrintable (writeUnit n) := by
  have hdigit : ∀ m < 16, 0x20 ≤ (hexDigit m).toNat ∧ (hexDigit m).toNat ≤ 0x7E := by decide
  have hmod := fun m => hdigit (m % 16) (Nat.mod_lt m (by decide))
  rw [writeUnit, hexDigits_four]
  simp only [isPrintable_cons, isPrintable_nil, and_true]
  exact ⟨by decide, by decide, hmod _, hmod _, hmod _, hmod _⟩

theorem isPrintable_writeCodePoint (c : CodePoint) : IsPrintable (writeCodePoint c) := by
  simp only [writeCodePoint]
  split
  next h =>
    simp only [Bool.or_eq_true, decide_eq_true_eq] at h
    rcases h with rfl | rfl
    all_goals unfold IsPrintable; decide
  iterate 5
    split
    next => unfold IsPrintable; decide
  split
  next h =>
    simp only [Bool.and_eq_true, decide_eq_true_eq] at h
    exact isPrintable_cons.2 ⟨h, isPrintable_nil⟩
  split
  next => exact isPrintable_writeUnit _
  next => exact isPrintable_append.2 ⟨isPrintable_writeUnit _, isPrintable_writeUnit _⟩

theorem isPrintable_writeString (t : Text) : IsPrintable (writeString t) := by
  refine isPrintable_cons.2 ⟨by decide, isPrintable_append.2 ⟨?_, ?_⟩⟩
  · intro c hc
    obtain ⟨d, -, hd⟩ := List.mem_flatMap.1 hc
    exact isPrintable_writeCodePoint d c hd
  · exact isPrintable_cons.2 ⟨by decide, isPrintable_nil⟩

theorem Numeral.isPrintable_text {n : Numeral} (h : n.Valid) : IsPrintable n.text := by
  refine isPrintable_append.2 ⟨isPrintable_append.2 ⟨?_, ?_⟩, ?_⟩
  · rcases h.whole with hwhole | ⟨c, digits, hwhole, -, hdigits⟩
    · rw [hwhole]
      exact isPrintable_cons.2 ⟨by decide, isPrintable_nil⟩
    · rw [hwhole]
      exact isPrintable_of_isDigits hdigits
  · cases hfraction : n.fraction with
    | none => exact isPrintable_nil
    | some digits =>
        exact isPrintable_cons.2 ⟨by decide, isPrintable_of_isDigits (h.fraction digits hfraction).1⟩
  · cases hexponent : n.exponent with
    | none => exact isPrintable_nil
    | some size =>
        refine isPrintable_cons.2 ⟨by decide, isPrintable_cons.2 ⟨?_, ?_⟩⟩
        · cases size.1 <;> decide
        · exact isPrintable_of_isDigits (h.exponent size hexponent).1

theorem isPrintable_signedDecimal (n : Int) : IsPrintable (signedDecimal n) := by
  cases n with
  | ofNat n => exact isPrintable_of_isDigits (isDigits_decimal n)
  | negSucc n => exact isPrintable_cons.2 ⟨by decide, isPrintable_of_isDigits (isDigits_decimal _)⟩

theorem isPrintable_float {x : Binary64} (h : x.IsCanonical) :
    IsPrintable (x.write specialWords) := by
  cases x with
  | nan => unfold IsPrintable; decide
  | infinite negative => cases negative <;> (unfold IsPrintable; decide)
  | finite negative mantissa exponent =>
      obtain ⟨n, hvalid, -, hwrite, -⟩ := exists_numeral_finite negative h
      rw [hwrite]
      refine isPrintable_append.2 ⟨?_, n.isPrintable_text hvalid⟩
      cases negative <;> (unfold IsPrintable; decide)

theorem isPrintable_writeItems {items : List Json} (h : ∀ item ∈ items, IsPrintable item.write) :
    IsPrintable (writeItems items) := by
  induction items with
  | nil => exact isPrintable_nil
  | cons item items ih =>
      have hitem := h item List.mem_cons_self
      have hrest := ih fun other hother => h other (List.mem_cons_of_mem _ hother)
      cases items with
      | nil => exact hitem
      | cons next items =>
          refine isPrintable_append.2 ⟨hitem, isPrintable_cons.2 ⟨by decide, ?_⟩⟩
          exact isPrintable_cons.2 ⟨by decide, hrest⟩

theorem isPrintable_writeFields {fields : Fields}
    (h : ∀ field ∈ fields, IsPrintable field.2.write) : IsPrintable (writeFields fields) := by
  induction fields with
  | nil => exact isPrintable_nil
  | cons field fields ih =>
      obtain ⟨name, value⟩ := field
      have hvalue := h (name, value) List.mem_cons_self
      have hrest := ih fun other hother => h other (List.mem_cons_of_mem _ hother)
      have hfirst : IsPrintable (writeString name ++ .scalar ':' :: .scalar ' ' :: value.write) :=
        isPrintable_append.2 ⟨isPrintable_writeString name,
          isPrintable_cons.2 ⟨by decide, isPrintable_cons.2 ⟨by decide, hvalue⟩⟩⟩
      cases fields with
      | nil => exact hfirst
      | cons next fields =>
          have hmore : IsPrintable (.scalar ',' :: .scalar ' ' :: writeFields (next :: fields)) :=
            isPrintable_cons.2 ⟨by decide, isPrintable_cons.2 ⟨by decide, hrest⟩⟩
          rw [writeFields]
          · exact isPrintable_append.2 ⟨hfirst, hmore⟩
          · simp

theorem isPrintable_write {digits : Nat} : ∀ {depth : Nat} {v : Json},
    Readable digits depth v → IsPrintable v.write
  | _, null, _ | _, bool true, _ | _, bool false, _ => by unfold IsPrintable; decide
  | _, int n, _ => isPrintable_signedDecimal n
  | _, float _, h => isPrintable_float (readable_float.1 h)
  | _, string t, _ => isPrintable_writeString t
  | 0, array _, h | 0, object _, h => h.elim
  | _ + 1, array items, h => by
      have hitems := isPrintable_writeItems fun item hitem => isPrintable_write (h item hitem)
      exact isPrintable_cons.2 ⟨by decide,
        isPrintable_append.2 ⟨hitems, isPrintable_cons.2 ⟨by decide, isPrintable_nil⟩⟩⟩
  | _ + 1, object fields, h => by
      have hfields := isPrintable_writeFields fun field hfield =>
        isPrintable_write (h.2 field hfield).2
      exact isPrintable_cons.2 ⟨by decide,
        isPrintable_append.2 ⟨hfields, isPrintable_cons.2 ⟨by decide, isPrintable_nil⟩⟩⟩

/-- A value is what its text is read as. -/
theorem read_write {limits : Limits} {v : Json} (h : Readable limits.digits limits.depth v) :
    read limits v.write = .ok v := by
  have hback := readBack_write h (Nat.le_refl v.write.length)
  obtain ⟨c, t, hwrite, hgap, -⟩ := hback.starts
  have hread := hback.read [] (fun c hc => by cases hc)
  rw [List.append_nil] at hread
  have hmark : v.write.head? ≠ some (CodePoint.ofNat 0xFEFF) := by
    intro hhead
    have hc := (isPrintable_write h _ (List.mem_of_head? hhead)).2
    exact absurd hc (by decide)
  have hskip : skipGap v.write = v.write := by
    rw [hwrite, skipGap_cons hgap]
  have hdocument : readDocument limits v.write = .ok v := by
    rw [readDocument, if_neg hmark, hskip, hread]
    rfl
  rw [read, hdocument]

end ProjectLint.Json

namespace ProjectLint.FileSystem

open Json

/-- The text of a file has no surrogate half. -/
theorem isScalar_readText {fs : FileSystem} {path : Path} {t : Text}
    (h : fs.readText path = .ok t) : IsScalar t := by
  rw [readText] at h
  split at h
  next => cases h
  next bytes _ =>
    split at h
    next => cases h
    next text htext =>
      cases h
      intro c hc
      cases Text.mem_unifyLineEndings hc with
      | inl hc => exact hc ▸ ⟨by decide, by decide⟩
      | inr hc => exact Utf8.isScalar_decode htext c hc

/-- A printable text that is written to a file is what the file is read as. -/
theorem readText_of_isPrintable {fs : FileSystem} {path : Path} {t : Text} (ht : IsPrintable t)
    (h : fs.readBytes path = .ok (Utf8.encode t)) : fs.readText path = .ok t := by
  have hhalf : ∀ half, .surrogate half ∉ t := fun half hmem => by
    have hrange := ht _ hmem
    simp only [CodePoint.toNat] at hrange
    omega
  have hreturn : .scalar '\r' ∉ t := fun hmem => absurd (ht _ hmem).1 (by decide)
  rw [readText_of_encode hhalf h, Text.unifyLineEndings_eq_self hreturn]

/-- A value that is written to a file is what the file is read as. -/
theorem readText_write {fs : FileSystem} {path : Path} {v : Json} {limits : Limits}
    (hv : Readable limits.digits limits.depth v)
    (h : fs.readBytes path = .ok (Utf8.encode v.write)) :
    fs.readText path = .ok v.write ∧ Json.read limits v.write = .ok v :=
  ⟨readText_of_isPrintable (isPrintable_write hv) h, read_write hv⟩

end ProjectLint.FileSystem
