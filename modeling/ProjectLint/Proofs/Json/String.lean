import ProjectLint.Json.Printer
import ProjectLint.Proofs.Json.Steps

/-!
Strings in a document. A code point past U+FFFF is written as the escapes of two surrogate halves,
and a half of the first kind is read back as it is only if no half of the second kind follows it.
Main statements: a string in which this does not happen is read back, and no string that is read
from a text without halves has it.
-/

namespace ProjectLint.Json

/-- Whether no first surrogate half of a pair is followed by a second one. -/
def Unpaired : Text → Prop
  | a :: b :: rest =>
      ¬(isHighHalf a.toNat = true ∧ isLowHalf b.toNat = true) ∧ Unpaired (b :: rest)
  | [_] | [] => True

theorem Unpaired.tail {c : CodePoint} {t : Text} (h : Unpaired (c :: t)) : Unpaired t := by
  cases t with
  | nil => trivial
  | cons d t => exact h.2

theorem Unpaired.cons {c : CodePoint} {t : Text} (h : Unpaired t)
    (hc : isHighHalf c.toNat = true → ∀ d ∈ t.head?, isLowHalf d.toNat = false) :
    Unpaired (c :: t) := by
  cases t with
  | nil => trivial
  | cons d t =>
      refine ⟨fun hpair => ?_, h⟩
      have hd := hc hpair.1 d (by simp)
      rw [hpair.2] at hd
      cases hd

theorem unpaired_of_not_high {t : Text} (h : ∀ c ∈ t, isHighHalf c.toNat = false) :
    Unpaired t := by
  induction t with
  | nil => trivial
  | cons c t ih =>
      refine (ih fun d hd => h d (List.mem_cons_of_mem c hd)).cons fun hc => ?_
      rw [h c List.mem_cons_self] at hc
      cases hc

theorem not_half {n : Nat} (h : ¬(0xD800 ≤ n ∧ n < 0xE000)) :
    isHighHalf n = false ∧ isLowHalf n = false := by
  simp only [isHighHalf, isLowHalf, Bool.and_eq_false_iff, decide_eq_false_iff_not]
  omega

theorem half_ofNat (n : Nat) :
    isHighHalf (CodePoint.ofNat n).toNat = isHighHalf n ∧
      isLowHalf (CodePoint.ofNat n).toNat = isLowHalf n := by
  rw [CodePoint.toNat_ofNat]
  split
  · exact ⟨rfl, rfl⟩
  · have hn := not_half (n := n) (by omega)
    rw [hn.1, hn.2]
    exact ⟨rfl, rfl⟩

theorem hexValue?_hexDigit : ∀ n < 16, (hexDigit n).hexValue? = some n := by
  decide

theorem hexDigits_four (n : Nat) :
    hexDigits 4 n = [hexDigit (n / 4096 % 16), hexDigit (n / 256 % 16), hexDigit (n / 16 % 16),
      hexDigit (n % 16)] := by
  simp [hexDigits, Nat.div_div_eq_div_mul]

theorem escapeUnit?_hexDigits {n : Nat} (h : n < 0x10000) :
    escapeUnit? (hexDigit (n / 4096 % 16)) (hexDigit (n / 256 % 16)) (hexDigit (n / 16 % 16))
      (hexDigit (n % 16)) = some n := by
  have hdigit : ∀ m, (hexDigit (m % 16)).hexValue? = some (m % 16) :=
    fun m => hexValue?_hexDigit _ (Nat.mod_lt m (by decide))
  simp only [escapeUnit?, hdigit, Option.bind_eq_bind, Option.bind_some, Option.pure_def,
    Option.some.injEq]
  omega

/-- Reading goes on after a numeric escape with what the escape adds. -/
theorem readString_writeUnit (opening : Text) (high : Option Nat) {n : Nat} (h : n < 0x10000)
    {rest : Text} (hrest : rest ≠ []) :
    readString opening high (writeUnit n ++ rest) =
      (readString opening (joinEscape high n).2 rest).map fun (t, left) =>
        ((joinEscape high n).1 ++ t, left) := by
  have hquote : CodePoint.scalar '\\' ≠ .scalar '"' := by decide
  cases rest with
  | nil => exact absurd rfl hrest
  | cons c rest =>
      rw [writeUnit, hexDigits_four]
      simp only [List.cons_append, List.nil_append, readString, if_neg hquote, if_true,
        escapeUnit?_hexDigits h]

theorem joinEscape_high (high : Option Nat) {n : Nat} (h : isHighHalf n = true) :
    joinEscape high n = (loneHalf high, some n) := by
  have hlow : isLowHalf n = false := by
    simp only [isHighHalf, Bool.and_eq_true, decide_eq_true_eq] at h
    simp only [isLowHalf, Bool.and_eq_false_iff, decide_eq_false_iff_not]
    omega
  cases high with
  | none => simp [joinEscape, h, loneHalf]
  | some m => simp [joinEscape, h, hlow, loneHalf]

theorem joinEscape_plain {high : Option Nat} {n : Nat} (h : isHighHalf n = false)
    (hlow : isLowHalf n = true → high = none) :
    joinEscape high n = (loneHalf high ++ [.ofNat n], none) := by
  cases high with
  | none => simp [joinEscape, h, loneHalf]
  | some m =>
      have hlow : isLowHalf n = false := by
        cases hn : isLowHalf n with
        | false => rfl
        | true => exact absurd (hlow hn) (by simp)
      simp [joinEscape, h, hlow, loneHalf]

theorem readString_simpleEscape (opening : Text) (high : Option Nat) {c e : CodePoint}
    (hu : e ≠ .scalar 'u') (he : simpleEscape? e = some c) (rest : Text) :
    readString opening high (.scalar '\\' :: e :: rest) =
      (readString opening none rest).map fun (t, left) => (loneHalf high ++ c :: t, left) := by
  have hquote : CodePoint.scalar '\\' ≠ .scalar '"' := by decide
  rw [readString.eq_def]
  simp only [if_neg hquote, if_true, if_neg hu, he]

theorem readString_plain (opening : Text) (high : Option Nat) {c : CodePoint}
    (hquote : c ≠ .scalar '"') (hslash : c ≠ .scalar '\\') (hc : 0x20 ≤ c.toNat) (rest : Text) :
    readString opening high (c :: rest) =
      (readString opening none rest).map fun (t, left) => (loneHalf high ++ c :: t, left) := by
  rw [readString.eq_def]
  simp only [if_neg hquote, if_neg hslash, if_neg (Nat.not_lt.2 hc)]

theorem map_map_readString (read : Except Stop (Text × Text)) (first second : Text) :
    ((read.map fun (t, left) => (second ++ t, left)).map fun (t, left) => (first ++ t, left)) =
      read.map fun (t, left) => (first ++ second ++ t, left) := by
  cases read with
  | error stop => rfl
  | ok found => simp [Except.map]

/-- A code point past U+FFFF is read back from the escapes of its two halves. -/
theorem readString_pair (opening : Text) (high : Option Nat) {c : CodePoint}
    (hc : 0x10000 ≤ c.toNat) {rest : Text} (hrest : rest ≠ []) :
    readString opening high
        (writeUnit (0xD800 + (c.toNat - 0x10000) / 0x400) ++
          (writeUnit (0xDC00 + (c.toNat - 0x10000) % 0x400) ++ rest)) =
      (readString opening none rest).map fun (t, left) => (loneHalf high ++ c :: t, left) := by
  have hlt := c.toNat_lt
  have hhigh : isHighHalf (0xD800 + (c.toNat - 0x10000) / 0x400) = true := by
    simp only [isHighHalf, Bool.and_eq_true, decide_eq_true_eq]
    omega
  have hlow : isLowHalf (0xDC00 + (c.toNat - 0x10000) % 0x400) = true := by
    simp only [isLowHalf, Bool.and_eq_true, decide_eq_true_eq]
    omega
  have hjoin : joinHalves (0xD800 + (c.toNat - 0x10000) / 0x400)
      (0xDC00 + (c.toNat - 0x10000) % 0x400) = c := by
    rw [joinHalves, show 0x10000 + (0xD800 + (c.toNat - 0x10000) / 0x400 - 0xD800) * 0x400 +
      (0xDC00 + (c.toNat - 0x10000) % 0x400 - 0xDC00) = c.toNat by omega, CodePoint.ofNat_toNat]
  rw [readString_writeUnit opening high (by omega) (by simp [writeUnit]),
    joinEscape_high high hhigh, readString_writeUnit opening _ (by omega) hrest]
  simp only [joinEscape, hlow, if_true, hjoin]
  rw [map_map_readString]
  simp only [List.append_assoc, List.singleton_append]

/-- A code point that is no half of a pair to come is added to a string as it is. -/
theorem readString_writeCodePoint (opening : Text) {high : Option Nat} {c : CodePoint}
    (hc : isHighHalf c.toNat = false) (hlow : isLowHalf c.toNat = true → high = none)
    {rest : Text} (hrest : rest ≠ []) :
    readString opening high (writeCodePoint c ++ rest) =
      (readString opening none rest).map fun (t, left) => (loneHalf high ++ c :: t, left) := by
  simp only [writeCodePoint]
  split
  next h =>
    have he : c ≠ .scalar 'u' ∧ simpleEscape? c = some c := by
      rcases Bool.or_eq_true_iff.1 h with h | h
      · rw [of_decide_eq_true h]
        decide
      · rw [of_decide_eq_true h]
        decide
    exact readString_simpleEscape opening high he.1 he.2 rest
  next h =>
  simp only [Bool.or_eq_true, decide_eq_true_eq, not_or] at h
  split
  next hc => exact hc ▸ readString_simpleEscape opening high (by decide) (by decide) rest
  split
  next hc => exact hc ▸ readString_simpleEscape opening high (by decide) (by decide) rest
  split
  next hc => exact hc ▸ readString_simpleEscape opening high (by decide) (by decide) rest
  split
  next hc => exact hc ▸ readString_simpleEscape opening high (by decide) (by decide) rest
  split
  next hc => exact hc ▸ readString_simpleEscape opening high (by decide) (by decide) rest
  split
  next hprint =>
    simp only [Bool.and_eq_true, decide_eq_true_eq] at hprint
    exact readString_plain opening high h.1 h.2 hprint.1 rest
  split
  next hsmall =>
    rw [readString_writeUnit opening high hsmall hrest, joinEscape_plain hc hlow]
    simp only [CodePoint.ofNat_toNat, List.append_assoc, List.singleton_append]
  next hbig =>
    rw [List.append_assoc]
    exact readString_pair opening high (Nat.not_lt.1 hbig) hrest

/-- A first half waits for what follows it. -/
theorem readString_high (opening : Text) (high : Option Nat) {c : CodePoint}
    (hc : isHighHalf c.toNat = true) {rest : Text} (hrest : rest ≠ []) :
    readString opening high (writeCodePoint c ++ rest) =
      (readString opening (some c.toNat) rest).map fun (t, left) => (loneHalf high ++ t, left) := by
  have hn : 0xD800 ≤ c.toNat ∧ c.toNat < 0xDC00 := by
    simpa only [isHighHalf, Bool.and_eq_true, decide_eq_true_eq] using hc
  have hne : ∀ d : CodePoint, d.toNat < 0xD800 → c ≠ d := by
    intro d hd heq
    rw [heq] at hn
    omega
  have hwrite : writeCodePoint c = writeUnit c.toNat := by
    rw [writeCodePoint, if_neg, if_neg (hne _ (by decide)), if_neg (hne _ (by decide)),
      if_neg (hne _ (by decide)), if_neg (hne _ (by decide)), if_neg (hne _ (by decide)), if_neg,
      if_pos (by omega)]
    · simp only [Bool.and_eq_true, decide_eq_true_eq]
      omega
    · simp only [Bool.or_eq_true, decide_eq_true_eq, not_or]
      exact ⟨hne _ (by decide), hne _ (by decide)⟩
  rw [hwrite, readString_writeUnit opening high (by omega) hrest, joinEscape_high high hc]

/-- What was written of a string is read back, after a first half that was read before it. -/
theorem readString_flatMap (opening : Text) {high : Option Nat} {t : Text}
    (hhigh : ∀ n ∈ high, isHighHalf n = true) (ht : Unpaired (loneHalf high ++ t)) (rest : Text) :
    readString opening high (t.flatMap writeCodePoint ++ .scalar '"' :: rest) =
      .ok (loneHalf high ++ t, rest) := by
  induction t generalizing high with
  | nil =>
      rw [readString.eq_def]
      simp
  | cons c t ih =>
      have htail : Unpaired (c :: t) := by
        cases high with
        | none => exact ht
        | some n => exact ht.tail
      have hrest : t.flatMap writeCodePoint ++ .scalar '"' :: rest ≠ [] := by simp
      rw [List.flatMap_cons, List.append_assoc]
      cases hc : isHighHalf c.toNat with
      | true =>
          have hlone : loneHalf (some c.toNat) = [c] := by simp [loneHalf, CodePoint.ofNat_toNat]
          rw [readString_high opening high hc hrest,
            ih (by simpa using hc) (by rw [hlone]; exact htail), hlone]
          rfl
      | false =>
          have hlow : isLowHalf c.toNat = true → high = none := by
            intro hlow
            cases high with
            | none => rfl
            | some n =>
                have hn : isHighHalf n = true := hhigh n rfl
                have hnum : (CodePoint.ofNat n).toNat = n := by
                  simp only [isHighHalf, Bool.and_eq_true, decide_eq_true_eq] at hn
                  exact (CodePoint.toNat_ofNat _).trans (if_pos (by omega))
                exact absurd ⟨by rw [hnum]; exact hn, hlow⟩ ht.1
          rw [readString_writeCodePoint opening hc hlow hrest,
            @ih none (by simp) htail.tail]
          rfl

/-- What is written between the quotes of a string is read back. -/
theorem readString_writeString (opening : Text) {t : Text} (ht : Unpaired t) (rest : Text) :
    readString opening none (t.flatMap writeCodePoint ++ .scalar '"' :: rest) = .ok (t, rest) :=
  @readString_flatMap opening none t (by simp) ht rest

theorem not_half_of_simpleEscape? {c e : CodePoint} (h : simpleEscape? e = some c) :
    isHighHalf c.toNat = false ∧ isLowHalf c.toNat = false := by
  simp only [simpleEscape?] at h
  split at h
  next he =>
    simp only [Bool.or_eq_true, decide_eq_true_eq] at he
    obtain rfl := Option.some.inj h
    rcases he with (rfl | rfl) | rfl
    · decide
    · decide
    · decide
  next =>
  split at h
  next => exact Option.some.inj h ▸ (by decide)
  split at h
  next => exact Option.some.inj h ▸ (by decide)
  split at h
  next => exact Option.some.inj h ▸ (by decide)
  split at h
  next => exact Option.some.inj h ▸ (by decide)
  split at h
  next => exact Option.some.inj h ▸ (by decide)
  next => cases h

/-- What stands between the quotes of a string ends before what is left of the document. -/
theorem suffix_of_readString {opening : Text} {high : Option Nat} {t s left : Text}
    (h : readString opening high t = .ok (s, left)) : left <:+ t := by
  fun_induction readString opening high t generalizing s with
  | case1 | case3 | case5 | case6 | case8 | case9 => cases h
  | case2 high rest =>
      cases h
      exact List.suffix_cons _ _
  | case4 high a b c d n e rest hn read high' hjoin hquote ih =>
      obtain ⟨⟨u, v⟩, hread, hu⟩ := exists_of_map_eq_ok h
      cases hu
      exact (ih hread).trans ⟨[.scalar '\\', .scalar 'u', a, b, c, d], rfl⟩
  | case7 high e after hu c he hquote ih =>
      obtain ⟨⟨u, v⟩, hread, hu⟩ := exists_of_map_eq_ok h
      cases hu
      exact (ih hread).trans ⟨[.scalar '\\', e], rfl⟩
  | case10 high c rest hquote hslash hc ih =>
      obtain ⟨⟨u, v⟩, hread, hu⟩ := exists_of_map_eq_ok h
      cases hu
      exact (ih hread).trans (List.suffix_cons _ _)

/-- Whether no code point is a surrogate half. -/
def IsScalar (t : Text) : Prop :=
  ∀ c ∈ t, isHighHalf c.toNat = false ∧ isLowHalf c.toNat = false

theorem IsScalar.of_suffix {t u : Text} (h : IsScalar t) (hu : u <:+ t) : IsScalar u :=
  fun c hc => h c (hu.subset hc)

/-- What a reader in the middle of a string can give after a first half: no pair is left in it, and
it does not go on with a second half. -/
def GoesOn (high : Option Nat) (t : Text) : Prop :=
  Unpaired t ∧ (high ≠ none → ∀ c ∈ t.head?, isLowHalf c.toNat = false)

theorem goesOn_loneHalf {high : Option Nat} {t : Text} (hhigh : ∀ n ∈ high, isHighHalf n = true)
    (ht : GoesOn high t) : GoesOn high (loneHalf high ++ t) := by
  cases high with
  | none => exact ht
  | some n =>
      refine ⟨ht.1.cons fun _ => ht.2 (by simp), fun _ c hc => ?_⟩
      have hn : isHighHalf n = true := hhigh n rfl
      cases hc
      rw [(half_ofNat n).2]
      simp only [isHighHalf, Bool.and_eq_true, decide_eq_true_eq] at hn
      simp only [isLowHalf, Bool.and_eq_false_iff, decide_eq_false_iff_not]
      omega

theorem goesOn_cons {high other : Option Nat} {c : CodePoint} {t : Text} (ht : GoesOn other t)
    (hc : isHighHalf c.toNat = false) (hlow : high ≠ none → isLowHalf c.toNat = false) :
    GoesOn high (c :: t) := by
  refine ⟨ht.1.cons fun h => ?_, fun h d hd => ?_⟩
  · rw [hc] at h
    cases h
  · cases hd
    exact hlow h

theorem goesOn_joinEscape {high next : Option Nat} {n : Nat} {read t : Text}
    (hhigh : ∀ m ∈ high, isHighHalf m = true) (hjoin : joinEscape high n = (read, next))
    (ht : (∀ m ∈ next, isHighHalf m = true) → GoesOn next t) : GoesOn high (read ++ t) := by
  cases hn : isHighHalf n with
  | true =>
      rw [joinEscape_high high hn] at hjoin
      cases hjoin
      have hrest := ht fun m hm => by cases hm; exact hn
      exact goesOn_loneHalf hhigh ⟨hrest.1, fun _ => hrest.2 (by simp)⟩
  | false =>
      by_cases hlow : isLowHalf n = true → high = none
      · rw [joinEscape_plain hn hlow] at hjoin
        cases hjoin
        rw [List.append_assoc]
        refine goesOn_loneHalf hhigh (goesOn_cons (ht (by simp)) ?_ fun hne => ?_)
        · rw [(half_ofNat n).1, hn]
        · rw [(half_ofNat n).2]
          exact Bool.eq_false_iff.2 fun h => hne (hlow h)
      · obtain ⟨hl, hne⟩ := Classical.not_imp.1 hlow
        obtain ⟨m, rfl⟩ := Option.ne_none_iff_exists'.1 hne
        have hm : isHighHalf m = true := hhigh m rfl
        have hpair : joinEscape (some m) n = ([joinHalves m n], none) := by
          rw [joinEscape, if_pos hl]
        rw [hpair] at hjoin
        cases hjoin
        simp only [isHighHalf, isLowHalf, Bool.and_eq_true, decide_eq_true_eq] at hm hl
        refine goesOn_cons (ht (by simp)) ?_ fun _ => ?_
        · rw [joinHalves, (half_ofNat _).1]
          simp only [isHighHalf, Bool.and_eq_false_iff, decide_eq_false_iff_not]
          omega
        · rw [joinHalves, (half_ofNat _).2]
          simp only [isLowHalf, Bool.and_eq_false_iff, decide_eq_false_iff_not]
          omega

theorem goesOn_readString {opening : Text} {high : Option Nat} {t s left : Text}
    (hhigh : ∀ n ∈ high, isHighHalf n = true) (ht : IsScalar t)
    (h : readString opening high t = .ok (s, left)) : GoesOn high s := by
  fun_induction readString opening high t generalizing s with
  | case1 | case3 | case5 | case6 | case8 | case9 => cases h
  | case2 high rest =>
      cases h
      have hlone := goesOn_loneHalf hhigh (t := []) ⟨trivial, by simp⟩
      rwa [List.append_nil] at hlone
  | case4 high a b c d n e rest hn read next hjoin hquote ih =>
      obtain ⟨⟨u, v⟩, hread, hu⟩ := exists_of_map_eq_ok h
      cases hu
      have hrest : IsScalar (e :: rest) :=
        ht.of_suffix ⟨[.scalar '\\', .scalar 'u', a, b, c, d], rfl⟩
      exact goesOn_joinEscape hhigh hjoin fun hnext => ih hnext hrest hread
  | case7 high e after hu c he hquote ih =>
      obtain ⟨⟨u, v⟩, hread, hu⟩ := exists_of_map_eq_ok h
      cases hu
      have hc := not_half_of_simpleEscape? he
      have hafter : IsScalar after := ht.of_suffix ⟨[.scalar '\\', e], rfl⟩
      exact goesOn_loneHalf hhigh (goesOn_cons (ih (by simp) hafter hread) hc.1 fun _ => hc.2)
  | case10 high c rest hquote hslash hc ih =>
      obtain ⟨⟨u, v⟩, hread, hu⟩ := exists_of_map_eq_ok h
      cases hu
      have hhalf := ht c List.mem_cons_self
      have hrest : IsScalar rest := ht.of_suffix (List.suffix_cons c rest)
      exact goesOn_loneHalf hhigh (goesOn_cons (ih (by simp) hrest hread) hhalf.1 fun _ => hhalf.2)

/-- A string that is read from a text without surrogate halves is one that is read back. -/
theorem unpaired_of_readString {opening t s left : Text} (ht : IsScalar t)
    (h : readString opening none t = .ok (s, left)) : Unpaired s :=
  (goesOn_readString (by simp) ht h).1

end ProjectLint.Json
