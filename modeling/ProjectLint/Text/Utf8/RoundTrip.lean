import ProjectLint.Text.Utf8

/-!
What was written in UTF-8 is read back. The bytes of one code point are followed through the states
of the reader, one lemma for each kind of byte. Main statement: `decode_encode`.
-/

namespace ProjectLint.Utf8

theorem toNat_ofNat {n : Nat} (h : n < 256) : (UInt8.ofNat n).toNat = n := by
  simp only [UInt8.toNat_ofNat']
  omega

theorem decodeFrom_ascii {position : Nat} {b : UInt8} (h : b.toNat < 0x80) (rest : Bytes) :
    decodeFrom position none (b :: rest) =
      (decodeFrom (position + 1) none rest).map (CodePoint.ofNat b.toNat :: ·) := by
  have hb : b < 0x80 := UInt8.lt_iff_toNat_lt.2 h
  simp only [decodeFrom, if_pos hb]

theorem decodeFrom_begin {position : Nat} {b : UInt8} {p : Pending} (h : ¬b.toNat < 0x80)
    (hp : begin? position b = some p) (rest : Bytes) :
    decodeFrom position none (b :: rest) = decodeFrom (position + 1) (some p) rest := by
  have hb : ¬b < 0x80 := fun hb => h (UInt8.lt_iff_toNat_lt.1 hb)
  simp only [decodeFrom, if_neg hb, hp]

theorem decodeFrom_last {position : Nat} {p : Pending} {b : UInt8} (hp : p.missing = 1)
    (hb : p.low.toNat ≤ b.toNat ∧ b.toNat ≤ p.high.toNat) (rest : Bytes) :
    decodeFrom position (some p) (b :: rest) =
      (decodeFrom (position + 1) none rest).map
        (CodePoint.ofNat (p.bits * 64 + b.toNat % 64) :: ·) := by
  have h : (p.low ≤ b && b ≤ p.high) = true := by
    simp [UInt8.le_iff_toNat_le, hb]
  simp only [decodeFrom, if_pos h, hp]

theorem decodeFrom_inner {position missing : Nat} {p : Pending} {b : UInt8}
    (hp : p.missing = missing + 2) (hb : p.low.toNat ≤ b.toNat ∧ b.toNat ≤ p.high.toNat)
    (rest : Bytes) :
    decodeFrom position (some p) (b :: rest) =
      decodeFrom (position + 1)
        (some (p.next (p.bits * 64 + b.toNat % 64) (missing + 1))) rest := by
  have h : (p.low ≤ b && b ≤ p.high) = true := by
    simp [UInt8.le_iff_toNat_le, hb]
  simp only [decodeFrom, if_pos h, hp]

/-- A continuation byte lies within the bounds of every byte after the second one. -/
theorem isContinuation {n : Nat} (h : 0x80 ≤ n ∧ n ≤ 0xBF) :
    (0x80 : UInt8).toNat ≤ n ∧ n ≤ (0xBF : UInt8).toNat :=
  h

theorem begin?_two {position : Nat} {b : UInt8} (h : 0xC2 ≤ b.toNat ∧ b.toNat < 0xE0) :
    begin? position b = some ⟨b, position, b.toNat % 32, 1, 0x80, 0xBF⟩ := by
  have h1 : ¬(b < 0xC2 || b > 0xF4) = true := by
    simp [UInt8.lt_iff_toNat_lt]; omega
  have h2 : b < 0xE0 := UInt8.lt_iff_toNat_lt.2 h.2
  simp only [begin?, if_neg h1, if_pos h2]

theorem begin?_three {position : Nat} {b : UInt8} (h : 0xE0 ≤ b.toNat ∧ b.toNat < 0xF0) :
    begin? position b = some ⟨b, position, b.toNat % 16, 2, if b.toNat = 0xE0 then 0xA0 else 0x80,
      if b.toNat = 0xED then 0x9F else 0xBF⟩ := by
  have h1 : ¬(b < 0xC2 || b > 0xF4) = true := by
    simp [UInt8.lt_iff_toNat_lt]; omega
  have h2 : ¬b < 0xE0 := fun hb => by have := UInt8.lt_iff_toNat_lt.1 hb; simp at this; omega
  have h3 : b < 0xF0 := UInt8.lt_iff_toNat_lt.2 h.2
  simp only [begin?, if_neg h1, if_neg h2, if_pos h3, ← UInt8.toNat_inj]
  rfl

theorem begin?_four {position : Nat} {b : UInt8} (h : 0xF0 ≤ b.toNat ∧ b.toNat ≤ 0xF4) :
    begin? position b = some ⟨b, position, b.toNat % 8, 3, if b.toNat = 0xF0 then 0x90 else 0x80,
      if b.toNat = 0xF4 then 0x8F else 0xBF⟩ := by
  have h1 : ¬(b < 0xC2 || b > 0xF4) = true := by
    simp [UInt8.lt_iff_toNat_lt]; omega
  have h2 : ¬b < 0xE0 := fun hb => by have := UInt8.lt_iff_toNat_lt.1 hb; simp at this; omega
  have h3 : ¬b < 0xF0 := fun hb => by have := UInt8.lt_iff_toNat_lt.1 hb; simp at this; omega
  simp only [begin?, if_neg h1, if_neg h2, if_neg h3, ← UInt8.toNat_inj]
  rfl

theorem decodeFrom_two (position : Nat) {n : Nat} (h : 0x80 ≤ n ∧ n < 0x800) (rest : Bytes) :
    decodeFrom position none (.ofNat (0xC0 + n / 64) :: .ofNat (0x80 + n % 64) :: rest) =
      (decodeFrom (position + 2) none rest).map (CodePoint.ofNat n :: ·) := by
  have ha := toNat_ofNat (n := 0xC0 + n / 64) (by omega)
  have hb := toNat_ofNat (n := 0x80 + n % 64) (by omega)
  have hn : (0xC0 + n / 64) % 32 * 64 + (0x80 + n % 64) % 64 = n := by omega
  rw [decodeFrom_begin (by omega) (begin?_two (by omega)),
    decodeFrom_last rfl (by rw [hb]; exact isContinuation (by omega))]
  simp only [ha, hb, hn, Nat.add_assoc, Nat.reduceAdd]

/-- The bounds of the second byte keep out overlong forms and surrogate halves. -/
theorem decodeFrom_three (position : Nat) {n : Nat} (h : 0x800 ≤ n ∧ n < 0x10000)
    (hhalf : n < 0xD800 ∨ 0xDFFF < n) (rest : Bytes) :
    decodeFrom position none (.ofNat (0xE0 + n / 4096) :: .ofNat (0x80 + n / 64 % 64) ::
        .ofNat (0x80 + n % 64) :: rest) =
      (decodeFrom (position + 3) none rest).map (CodePoint.ofNat n :: ·) := by
  have ha := toNat_ofNat (n := 0xE0 + n / 4096) (by omega)
  have hb := toNat_ofNat (n := 0x80 + n / 64 % 64) (by omega)
  have hc := toNat_ofNat (n := 0x80 + n % 64) (by omega)
  have hn : ((0xE0 + n / 4096) % 16 * 64 + (0x80 + n / 64 % 64) % 64) * 64 +
      (0x80 + n % 64) % 64 = n := by omega
  have hsecond : (if 0xE0 + n / 4096 = 0xE0 then 0xA0 else 0x80 : UInt8).toNat ≤
        0x80 + n / 64 % 64 ∧
      0x80 + n / 64 % 64 ≤ (if 0xE0 + n / 4096 = 0xED then 0x9F else 0xBF : UInt8).toNat := by
    rw [apply_ite UInt8.toNat, apply_ite UInt8.toNat]
    simp only [UInt8.reduceToNat]
    constructor <;> split <;> omega
  rw [decodeFrom_begin (by omega) (begin?_three (by omega)),
    decodeFrom_inner rfl (by rw [ha, hb]; exact hsecond),
    decodeFrom_last rfl (by rw [hc]; exact isContinuation (by omega))]
  simp only [Pending.next, ha, hb, hc, hn, Nat.add_assoc, Nat.reduceAdd]

/-- The bounds of the second byte keep out overlong forms and numbers past the last code point. -/
theorem decodeFrom_four (position : Nat) {n : Nat} (h : 0x10000 ≤ n ∧ n < 0x110000)
    (rest : Bytes) :
    decodeFrom position none (.ofNat (0xF0 + n / 262144) :: .ofNat (0x80 + n / 4096 % 64) ::
        .ofNat (0x80 + n / 64 % 64) :: .ofNat (0x80 + n % 64) :: rest) =
      (decodeFrom (position + 4) none rest).map (CodePoint.ofNat n :: ·) := by
  have ha := toNat_ofNat (n := 0xF0 + n / 262144) (by omega)
  have hb := toNat_ofNat (n := 0x80 + n / 4096 % 64) (by omega)
  have hc := toNat_ofNat (n := 0x80 + n / 64 % 64) (by omega)
  have hd := toNat_ofNat (n := 0x80 + n % 64) (by omega)
  have hn : (((0xF0 + n / 262144) % 8 * 64 + (0x80 + n / 4096 % 64) % 64) * 64 +
      (0x80 + n / 64 % 64) % 64) * 64 + (0x80 + n % 64) % 64 = n := by omega
  have hsecond : (if 0xF0 + n / 262144 = 0xF0 then 0x90 else 0x80 : UInt8).toNat ≤
        0x80 + n / 4096 % 64 ∧
      0x80 + n / 4096 % 64 ≤ (if 0xF0 + n / 262144 = 0xF4 then 0x8F else 0xBF : UInt8).toNat := by
    rw [apply_ite UInt8.toNat, apply_ite UInt8.toNat]
    simp only [UInt8.reduceToNat]
    constructor <;> split <;> omega
  rw [decodeFrom_begin (by omega) (begin?_four (by omega)),
    decodeFrom_inner rfl (by rw [ha, hb]; exact hsecond),
    decodeFrom_inner rfl (by rw [hc]; exact isContinuation (by omega)),
    decodeFrom_last rfl (by rw [hd]; exact isContinuation (by omega))]
  simp only [Pending.next, ha, hb, hc, hd, hn, Nat.add_assoc, Nat.reduceAdd]

/-- The bytes of a number that is no surrogate half are read as its code point. -/
theorem decodeFrom_encodeNumber (position : Nat) {n : Nat}
    (h : n < 0xD800 ∨ 0xDFFF < n ∧ n < 0x110000) (rest : Bytes) :
    decodeFrom position none (encodeNumber n ++ rest) =
      (decodeFrom (position + (encodeNumber n).length) none rest).map (CodePoint.ofNat n :: ·) := by
  rw [encodeNumber]
  split
  · have ha := toNat_ofNat (n := n) (by omega)
    have hone := @decodeFrom_ascii position (.ofNat n) (by omega) rest
    rwa [ha] at hone
  · split
    · exact decodeFrom_two position (by omega) rest
    · split
      · exact decodeFrom_three position (by omega) (by omega) rest
      · exact decodeFrom_four position (by omega) rest

/-- Reading gives back a text that was written, if it has no surrogate half. -/
theorem decode_encode (chars : List Char) :
    decode (encode (chars.map .scalar)) = .ok (chars.map .scalar) := by
  suffices h : ∀ position,
      decodeFrom position none (encode (chars.map .scalar)) = .ok (chars.map .scalar) from h 0
  induction chars with
  | nil => intro position; rfl
  | cons c chars ih =>
      intro position
      have hcons : encode ((c :: chars).map .scalar) =
          encodeOne (.scalar c) ++ encode (chars.map .scalar) := by
        simp [encode]
      have hone := decodeFrom_encodeNumber position (n := (CodePoint.scalar c).toNat) c.valid
      rw [hcons, encodeOne, hone, ih, CodePoint.ofNat_toNat]
      rfl

end ProjectLint.Utf8
