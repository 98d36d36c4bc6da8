import ProjectLint.Text.Utf8.Escaped
import ProjectLint.Text.Utf8.RoundTrip
import ProjectLint.Proofs.Json.String

/-!
Bytes that are read. The bytes of a sequence are those of the number that it spells, which is no
surrogate half. Main statements: a text that is decoded has no surrogate half, and bytes that are
read without loss are written again.
-/

namespace ProjectLint.Utf8

/-- Whether a number is that of a code point with several bytes, and no surrogate half. -/
def IsWide (n : Nat) : Prop :=
  0x80 ≤ n ∧ (n < 0xD800 ∨ 0xDFFF < n ∧ n < 0x110000)

theorem finish?_last {p : Pending} {bytes : Bytes} {n : Nat} (hp : p.missing = 1)
    (h : finish? p bytes = some n) :
    ∃ b rest, bytes = b :: rest ∧ p.low.toNat ≤ b.toNat ∧ b.toNat ≤ p.high.toNat ∧
      n = p.bits * 64 + b.toNat % 64 := by
  cases bytes with
  | nil => cases h
  | cons b rest =>
      simp only [finish?, hp] at h
      split at h
      next hbounds =>
        simp only [Bool.and_eq_true, decide_eq_true_eq, UInt8.le_iff_toNat_le] at hbounds
        exact ⟨b, rest, rfl, hbounds.1, hbounds.2, (Option.some.inj h).symm⟩
      next => cases h

theorem finish?_inner {p : Pending} {bytes : Bytes} {n missing : Nat} (hp : p.missing = missing + 2)
    (h : finish? p bytes = some n) :
    ∃ b rest, bytes = b :: rest ∧ p.low.toNat ≤ b.toNat ∧ b.toNat ≤ p.high.toNat ∧
      finish? (p.next (p.bits * 64 + b.toNat % 64) (missing + 1)) rest = some n := by
  cases bytes with
  | nil => cases h
  | cons b rest =>
      simp only [finish?, hp] at h
      split at h
      next hbounds =>
        simp only [Bool.and_eq_true, decide_eq_true_eq, UInt8.le_iff_toNat_le] at hbounds
        exact ⟨b, rest, rfl, hbounds.1, hbounds.2, h⟩
      next => cases h

theorem ofNat_eq {n : Nat} {b : UInt8} (h : n = b.toNat) : UInt8.ofNat n = b := by
  rw [h, UInt8.ofNat_toNat]

theorem encodeNumber_two {b c : UInt8} (hb : 0xC2 ≤ b.toNat ∧ b.toNat < 0xE0)
    (hc : 0x80 ≤ c.toNat ∧ c.toNat ≤ 0xBF) {n : Nat} (hn : n = b.toNat % 32 * 64 + c.toNat % 64) :
    encodeNumber n = [b, c] ∧ IsWide n := by
  refine ⟨?_, by omega, by omega⟩
  rw [encodeNumber, if_neg (by omega), if_pos (by omega), ofNat_eq (b := b) (by omega),
    ofNat_eq (b := c) (by omega)]

theorem encodeNumber_three {b c d : UInt8} (hb : 0xE0 ≤ b.toNat ∧ b.toNat < 0xF0)
    (hc : 0x80 ≤ c.toNat ∧ c.toNat ≤ 0xBF) (hlow : b.toNat = 0xE0 → 0xA0 ≤ c.toNat)
    (hhigh : b.toNat = 0xED → c.toNat ≤ 0x9F) (hd : 0x80 ≤ d.toNat ∧ d.toNat ≤ 0xBF) {n : Nat}
    (hn : n = (b.toNat % 16 * 64 + c.toNat % 64) * 64 + d.toNat % 64) :
    encodeNumber n = [b, c, d] ∧ IsWide n := by
  refine ⟨?_, by omega, by omega⟩
  rw [encodeNumber, if_neg (by omega), if_neg (by omega), if_pos (by omega),
    ofNat_eq (b := b) (by omega), ofNat_eq (b := c) (by omega), ofNat_eq (b := d) (by omega)]

theorem encodeNumber_four {b c d e : UInt8} (hb : 0xF0 ≤ b.toNat ∧ b.toNat ≤ 0xF4)
    (hc : 0x80 ≤ c.toNat ∧ c.toNat ≤ 0xBF) (hlow : b.toNat = 0xF0 → 0x90 ≤ c.toNat)
    (hhigh : b.toNat = 0xF4 → c.toNat ≤ 0x8F) (hd : 0x80 ≤ d.toNat ∧ d.toNat ≤ 0xBF)
    (he : 0x80 ≤ e.toNat ∧ e.toNat ≤ 0xBF) {n : Nat}
    (hn : n = ((b.toNat % 8 * 64 + c.toNat % 64) * 64 + d.toNat % 64) * 64 + e.toNat % 64) :
    encodeNumber n = [b, c, d, e] ∧ IsWide n := by
  refine ⟨?_, by omega, by omega⟩
  rw [encodeNumber, if_neg (by omega), if_neg (by omega), if_neg (by omega),
    ofNat_eq (b := b) (by omega), ofNat_eq (b := c) (by omega), ofNat_eq (b := d) (by omega),
    ofNat_eq (b := e) (by omega)]

theorem bounds_of_begin? {position : Nat} {b : UInt8} {p : Pending}
    (hp : begin? position b = some p) : 0xC2 ≤ b.toNat ∧ b.toNat ≤ 0xF4 := by
  rw [begin?] at hp
  split at hp
  next => cases hp
  next hb =>
    simp only [Bool.or_eq_true, decide_eq_true_eq, not_or, UInt8.not_lt, gt_iff_lt,
      UInt8.le_iff_toNat_le] at hb
    exact hb

theorem missing_pos_of_begin? {position : Nat} {b : UInt8} {p : Pending}
    (hp : begin? position b = some p) : 0 < p.missing := by
  rw [begin?] at hp
  split at hp
  next => cases hp
  split at hp
  next => exact Option.some.inj hp ▸ Nat.one_pos
  split at hp
  next => exact Option.some.inj hp ▸ Nat.two_pos
  next => exact Option.some.inj hp ▸ Nat.succ_pos 2

theorem le_of_low {P : Prop} [Decidable P] {x : UInt8} {k : Nat} (hx : 0x80 ≤ x.toNat)
    (h : (if P then x else 0x80 : UInt8).toNat ≤ k) : 0x80 ≤ k ∧ (P → x.toNat ≤ k) := by
  split at h
  next => exact ⟨Nat.le_trans hx h, fun _ => h⟩
  next hP => exact ⟨h, fun hP' => absurd hP' hP⟩

theorem le_of_high {P : Prop} [Decidable P] {x : UInt8} {k : Nat} (hx : x.toNat ≤ 0xBF)
    (h : k ≤ (if P then x else 0xBF : UInt8).toNat) : k ≤ 0xBF ∧ (P → k ≤ x.toNat) := by
  split at h
  next => exact ⟨Nat.le_trans h hx, fun _ => h⟩
  next hP => exact ⟨h, fun hP' => absurd hP' hP⟩

/-- A sequence has the bytes of the number that it spells. -/
theorem encodeNumber_of_finish? {position : Nat} {b : UInt8} {p : Pending} {bytes : Bytes} {n : Nat}
    (hp : begin? position b = some p) (h : finish? p bytes = some n) :
    ∃ inner rest, bytes = inner ++ rest ∧ inner.length = p.missing ∧
      encodeNumber n = b :: inner ∧ IsWide n := by
  have hbounds := bounds_of_begin? hp
  have h80 : (0x80 : UInt8).toNat = 0x80 := rfl
  have hBF : (0xBF : UInt8).toNat = 0xBF := rfl
  by_cases htwo : b.toNat < 0xE0
  · rw [begin?_two ⟨hbounds.1, htwo⟩] at hp
    cases hp
    obtain ⟨c, rest, rfl, hlow, hhigh, hn⟩ := finish?_last rfl h
    simp only [h80, hBF] at hlow hhigh
    have hnumber := encodeNumber_two ⟨hbounds.1, htwo⟩ ⟨hlow, hhigh⟩ hn
    exact ⟨[c], rest, rfl, rfl, hnumber⟩
  by_cases hthree : b.toNat < 0xF0
  · rw [begin?_three ⟨Nat.not_lt.1 htwo, hthree⟩] at hp
    cases hp
    obtain ⟨c, _, rfl, hlow, hhigh, h⟩ := finish?_inner rfl h
    obtain ⟨d, rest, rfl, hdlow, hdhigh, hn⟩ := finish?_last rfl h
    simp only [Pending.next, h80, hBF] at hdlow hdhigh hn
    have hclow := le_of_low (P := b.toNat = 0xE0) (x := 0xA0) (by decide) hlow
    have hchigh := le_of_high (P := b.toNat = 0xED) (x := 0x9F) (by decide) hhigh
    have hnumber := encodeNumber_three ⟨Nat.not_lt.1 htwo, hthree⟩ ⟨hclow.1, hchigh.1⟩ hclow.2
      hchigh.2 ⟨hdlow, hdhigh⟩ hn
    exact ⟨[c, d], rest, rfl, rfl, hnumber⟩
  · rw [begin?_four ⟨Nat.not_lt.1 hthree, hbounds.2⟩] at hp
    cases hp
    obtain ⟨c, _, rfl, hlow, hhigh, h⟩ := finish?_inner rfl h
    obtain ⟨d, _, rfl, hdlow, hdhigh, h⟩ := finish?_inner rfl h
    obtain ⟨e, rest, rfl, helow, hehigh, hn⟩ := finish?_last rfl h
    simp only [Pending.next, h80, hBF] at hdlow hdhigh helow hehigh hn
    have hclow := le_of_low (P := b.toNat = 0xF0) (x := 0x90) (by decide) hlow
    have hchigh := le_of_high (P := b.toNat = 0xF4) (x := 0x8F) (by decide) hhigh
    have hnumber := encodeNumber_four ⟨Nat.not_lt.1 hthree, hbounds.2⟩ ⟨hclow.1, hchigh.1⟩ hclow.2
      hchigh.2 ⟨hdlow, hdhigh⟩ ⟨helow, hehigh⟩ hn
    exact ⟨[c, d, e], rest, rfl, rfl, hnumber⟩

theorem not_half_of_isWide {n : Nat} (h : IsWide n) :
    Json.isHighHalf (CodePoint.ofNat n).toNat = false ∧
      Json.isLowHalf (CodePoint.ofNat n).toNat = false := by
  obtain ⟨-, h⟩ := h
  rw [(Json.half_ofNat n).1, (Json.half_ofNat n).2]
  exact Json.not_half (by omega)

theorem decodeFrom_pending {position : Nat} {p : Pending} {bytes : Bytes} {t : Text}
    (hp : 0 < p.missing) (h : decodeFrom position (some p) bytes = .ok t) :
    ∃ n rest later, finish? p bytes = some n ∧ t = CodePoint.ofNat n :: rest ∧
      decodeFrom later none (bytes.drop p.missing) = .ok rest := by
  obtain ⟨missing, hmissing⟩ : ∃ missing, p.missing = missing + 1 := Nat.exists_eq_add_one.2 hp
  induction missing generalizing position p bytes with
  | zero =>
      cases bytes with
      | nil => cases h
      | cons b bytes =>
          simp only [decodeFrom, hmissing] at h
          split at h
          next hb =>
            obtain ⟨rest, hrest, rfl⟩ := Json.exists_of_map_eq_ok h
            refine ⟨_, rest, position + 1, ?_, rfl, ?_⟩
            · simp only [finish?, if_pos hb, hmissing]
            · rw [hmissing]
              exact hrest
          next => cases h
  | succ missing ih =>
      cases bytes with
      | nil => cases h
      | cons b bytes =>
          simp only [decodeFrom, hmissing] at h
          split at h
          next hb =>
            obtain ⟨n, rest, later, hn, ht, hrest⟩ := ih (Nat.succ_pos missing) h rfl
            refine ⟨n, rest, later, ?_, ht, ?_⟩
            · simp only [finish?, if_pos hb, hmissing]
              exact hn
            · rw [hmissing]
              exact hrest
          next => cases h

/-- A text that is decoded has no surrogate half. -/
theorem isScalar_decode {bytes : Bytes} {t : Text} (h : decode bytes = .ok t) :
    Json.IsScalar t := by
  have hfrom : ∀ (size : Nat) {position : Nat} {bytes : Bytes} {t : Text}, bytes.length ≤ size →
      decodeFrom position none bytes = .ok t → Json.IsScalar t := by
    intro size
    induction size with
    | zero =>
        intro position bytes t hsize h
        cases List.length_eq_zero_iff.1 (Nat.le_zero.1 hsize)
        cases h
        exact fun c hc => absurd hc List.not_mem_nil
    | succ size ih =>
        intro position bytes t hsize h
        cases bytes with
        | nil =>
            cases h
            exact fun c hc => absurd hc List.not_mem_nil
        | cons b bytes =>
            have hlength : bytes.length ≤ size := Nat.le_of_succ_le_succ hsize
            simp only [decodeFrom] at h
            split at h
            next hb =>
              obtain ⟨rest, hrest, rfl⟩ := Json.exists_of_map_eq_ok h
              refine List.forall_mem_cons.2 ⟨?_, ih hlength hrest⟩
              rw [(Json.half_ofNat _).1, (Json.half_ofNat _).2]
              have hsmall := UInt8.lt_iff_toNat_lt.1 hb
              exact Json.not_half (by simp at hsmall; omega)
            next hb =>
              split at h
              next => cases h
              next p hp =>
                obtain ⟨n, rest, later, hn, rfl, hrest⟩ :=
                  decodeFrom_pending (missing_pos_of_begin? hp) h
                obtain ⟨-, -, -, -, -, hwide⟩ := encodeNumber_of_finish? hp hn
                refine List.forall_mem_cons.2 ⟨not_half_of_isWide hwide, ?_⟩
                refine ih (Nat.le_trans ?_ hlength) hrest
                rw [List.length_drop]
                exact Nat.sub_le _ _
  exact hfrom bytes.length (Nat.le_refl _) h

theorem toNat_ofNat_wide {n : Nat} (h : n < 0x80 ∨ IsWide n) : (CodePoint.ofNat n).toNat = n := by
  have hn : n < 0x110000 := by
    rcases h with h | ⟨-, h⟩ <;> omega
  rw [CodePoint.toNat_ofNat, if_pos hn]

theorem encodeOneEscaped_ofNat {n : Nat} (h : n < 0x80 ∨ IsWide n) :
    encodeOneEscaped (CodePoint.ofNat n) = encodeNumber n := by
  have hnat := toNat_ofNat_wide h
  have hraw : (CodePoint.ofNat n).rawByte? = none := by
    rw [CodePoint.rawByte?, hnat, if_neg]
    simp only [Bool.and_eq_true, decide_eq_true_eq]
    rcases h with h | ⟨-, h⟩
    · omega
    · omega
  rw [encodeOneEscaped, hraw, encodeOne, hnat]

theorem rawByte?_ofRawByte {b : UInt8} (h : 0x80 ≤ b.toNat) :
    (CodePoint.ofRawByte b).rawByte? = some b := by
  have hlt := b.toNat_lt
  have hnat : (CodePoint.ofRawByte b).toNat = 0xDC00 + b.toNat :=
    (CodePoint.toNat_ofNat _).trans (if_pos (by omega))
  rw [CodePoint.rawByte?, hnat, if_pos, Nat.add_sub_cancel_left, UInt8.ofNat_toNat]
  simp only [Bool.and_eq_true, decide_eq_true_eq]
  omega

theorem encodeOneEscaped_ofRawByte {b : UInt8} (h : 0x80 ≤ b.toNat) :
    encodeOneEscaped (CodePoint.ofRawByte b) = [b] := by
  rw [encodeOneEscaped, rawByte?_ofRawByte h]

theorem decodeEscapedAfter_eq_drop (skip : Nat) (bytes : Bytes) :
    decodeEscapedAfter skip bytes = decodeEscapedAfter 0 (bytes.drop skip) := by
  induction skip generalizing bytes with
  | zero => rfl
  | succ skip ih =>
      cases bytes with
      | nil => rfl
      | cons b bytes => exact ih bytes

/-- Bytes are read without loss by single ones, raw ones and sequences. -/
theorem decodeEscaped_induction {P : Bytes → Text → Prop} (hnil : P [] [])
    (hsmall : ∀ b rest t, b.toNat < 0x80 → P rest t →
      P (b :: rest) (CodePoint.ofNat b.toNat :: t))
    (hraw : ∀ b rest t, 0x80 ≤ b.toNat → P rest t → P (b :: rest) (CodePoint.ofRawByte b :: t))
    (hwide : ∀ n rest t, IsWide n → P rest t →
      P (encodeNumber n ++ rest) (CodePoint.ofNat n :: t)) (bytes : Bytes) :
    P bytes (decodeEscaped bytes) := by
  have hafter : ∀ (size : Nat) (bytes : Bytes), bytes.length ≤ size →
      P bytes (decodeEscapedAfter 0 bytes) := by
    intro size
    induction size with
    | zero =>
        intro bytes hsize
        cases List.length_eq_zero_iff.1 (Nat.le_zero.1 hsize)
        exact hnil
    | succ size ih =>
        intro bytes hsize
        cases bytes with
        | nil => exact hnil
        | cons b bytes =>
            have hlength : bytes.length ≤ size := Nat.le_of_succ_le_succ hsize
            rw [decodeEscapedAfter]
            split
            next hb => exact hsmall b bytes _ (UInt8.lt_iff_toNat_lt.1 hb) (ih bytes hlength)
            next hb =>
              have hlarge : 0x80 ≤ b.toNat := Nat.not_lt.1 fun h => hb (UInt8.lt_iff_toNat_lt.2 h)
              split
              next => exact hraw b bytes _ hlarge (ih bytes hlength)
              next p hp =>
                split
                next => exact hraw b bytes _ hlarge (ih bytes hlength)
                next n hn =>
                  obtain ⟨inner, rest, rfl, hinner, hnumber, hspelled⟩ :=
                    encodeNumber_of_finish? hp hn
                  rw [List.length_append] at hlength
                  rw [decodeEscapedAfter_eq_drop, ← hinner, List.drop_left, ← List.cons_append,
                    ← hnumber]
                  exact hwide n rest _ hspelled (ih rest (by omega))
  exact hafter bytes.length bytes (Nat.le_refl _)

theorem encodeEscaped_cons (c : CodePoint) (t : Text) :
    encodeEscaped (c :: t) = encodeOneEscaped c ++ encodeEscaped t :=
  List.flatMap_cons

/-- Bytes that are read without loss are written again. -/
theorem encodeEscaped_decodeEscaped (bytes : Bytes) :
    encodeEscaped (decodeEscaped bytes) = bytes := by
  apply decodeEscaped_induction (P := fun bytes t => encodeEscaped t = bytes)
  · rfl
  · intro b rest t hb ih
    rw [encodeEscaped_cons, encodeOneEscaped_ofNat (Or.inl hb), ih, encodeNumber, if_pos hb,
      UInt8.ofNat_toNat]
    rfl
  · intro b rest t hb ih
    rw [encodeEscaped_cons, encodeOneEscaped_ofRawByte hb, ih]
    rfl
  · intro n rest t hn ih
    rw [encodeEscaped_cons, encodeOneEscaped_ofNat (Or.inr hn), ih]

/-- What bytes are read as: code points that are no surrogate halves, and those that stand for
bytes. -/
theorem mem_decodeEscaped (bytes : Bytes) : ∀ c ∈ decodeEscaped bytes,
    ¬(0xD800 ≤ c.toNat ∧ c.toNat < 0xE000) ∨ c.rawByte?.isSome = true := by
  apply decodeEscaped_induction (P := fun _ t => ∀ c ∈ t,
    ¬(0xD800 ≤ c.toNat ∧ c.toNat < 0xE000) ∨ c.rawByte?.isSome = true)
  · exact fun c hc => absurd hc List.not_mem_nil
  · intro b rest t hb ih
    refine List.forall_mem_cons.2 ⟨Or.inl ?_, ih⟩
    rw [toNat_ofNat_wide (Or.inl hb)]
    omega
  · intro b rest t hb ih
    exact List.forall_mem_cons.2 ⟨Or.inr (by rw [rawByte?_ofRawByte hb]; rfl), ih⟩
  · intro n rest t hn ih
    refine List.forall_mem_cons.2 ⟨Or.inl ?_, ih⟩
    rw [toNat_ofNat_wide (Or.inr hn)]
    have hn := hn.2
    omega

theorem encodeOneEscaped_of_rawByte? {c : CodePoint} {b : UInt8} (h : c.rawByte? = some b) :
    encodeOneEscaped c = [b] ∧ 0x80 ≤ b.toNat := by
  refine ⟨by rw [encodeOneEscaped, h], ?_⟩
  rw [CodePoint.rawByte?] at h
  split at h
  next hrange =>
    simp only [Bool.and_eq_true, decide_eq_true_eq] at hrange
    rw [← Option.some.inj h, toNat_ofNat (by omega)]
    omega
  next => cases h

theorem mem_encodeOneEscaped {c : CodePoint} {b : UInt8} (hb : b.toNat < 0x80)
    (h : b ∈ encodeOneEscaped c) : c.toNat = b.toNat := by
  have hlt := c.toNat_lt
  have hlarge : ∀ n, 0x80 ≤ n → n < 0x100 → b ≠ UInt8.ofNat n := by
    rintro n hlow hhigh rfl
    rw [toNat_ofNat (by omega)] at hb
    omega
  rw [encodeOneEscaped] at h
  split at h
  next other hraw =>
    have hother := (encodeOneEscaped_of_rawByte? hraw).2
    rw [← List.mem_singleton.1 h] at hother
    omega
  next =>
    rw [encodeOne, encodeNumber] at h
    split at h
    next hsmall =>
      rw [List.mem_singleton.1 h, toNat_ofNat (by omega)]
    next =>
      exfalso
      split at h
      next =>
        simp only [List.mem_cons, List.not_mem_nil, or_false] at h
        rcases h with h | h
        all_goals exact hlarge _ (by omega) (by omega) h
      next =>
        split at h
        next =>
          simp only [List.mem_cons, List.not_mem_nil, or_false] at h
          rcases h with h | h | h
          all_goals exact hlarge _ (by omega) (by omega) h
        next =>
          simp only [List.mem_cons, List.not_mem_nil, or_false] at h
          rcases h with h | h | h | h
          all_goals exact hlarge _ (by omega) (by omega) h

theorem encodeOneEscaped_ascii {c : CodePoint} (hc : c.toNat < 0x80) :
    encodeOneEscaped c = [UInt8.ofNat c.toNat] := by
  have h := encodeOneEscaped_ofNat (Or.inl hc)
  rwa [CodePoint.ofNat_toNat, encodeNumber, if_pos hc] at h

/-- A code point of one byte is in a text exactly if its byte is among the bytes of the text. -/
theorem mem_encodeEscaped {c : CodePoint} (hc : c.toNat < 0x80) {t : Text} :
    UInt8.ofNat c.toNat ∈ encodeEscaped t ↔ c ∈ t := by
  have hbyte : (UInt8.ofNat c.toNat).toNat = c.toNat := toNat_ofNat (by omega)
  rw [encodeEscaped, List.mem_flatMap]
  constructor
  · intro ⟨d, hd, hmem⟩
    have heq := mem_encodeOneEscaped (by rw [hbyte]; exact hc) hmem
    rw [hbyte] at heq
    exact CodePoint.toNat_inj heq ▸ hd
  · intro h
    refine ⟨c, h, ?_⟩
    rw [encodeOneEscaped_ascii hc]
    exact List.mem_singleton_self _

theorem encodeOneEscaped_ne_nil (c : CodePoint) : encodeOneEscaped c ≠ [] := by
  rw [encodeOneEscaped]
  split
  next => exact List.cons_ne_nil _ _
  next =>
    rw [encodeOne, encodeNumber]
    split
    next => exact List.cons_ne_nil _ _
    split
    next => exact List.cons_ne_nil _ _
    split
    next => exact List.cons_ne_nil _ _
    next => exact List.cons_ne_nil _ _

end ProjectLint.Utf8
