import ProjectLint.Json.Reader
import ProjectLint.Proofs.Number.Decimal

/-!
Numbers in a document as a sign, digits, a fraction and an exponent. Main statement: whatever
follows a number, if it cannot be a part of it, the reader takes just the number.
-/

namespace ProjectLint.Json

/-- The parts of a number without its sign. An exponent has a sign of its own. -/
structure Numeral where
  whole : Text
  fraction : Option Text
  exponent : Option (Bool × Text)

namespace Numeral

/-- The text of a fraction. -/
def fractionText : Option Text → Text
  | none => []
  | some digits => .scalar '.' :: digits

/-- The text of an exponent. -/
def exponentText : Option (Bool × Text) → Text
  | none => []
  | some (negative, digits) =>
      .scalar 'e' :: (if negative then .scalar '-' else .scalar '+') :: digits

/-- The text of a number without its sign. -/
def text (n : Numeral) : Text :=
  n.whole ++ fractionText n.fraction ++ exponentText n.exponent

/-- Whether the parts of a number are digits, with no zero before others. -/
structure Valid (n : Numeral) : Prop where
  whole : n.whole = [.scalar '0'] ∨
    ∃ c digits, n.whole = c :: digits ∧ c ≠ .scalar '0' ∧ IsDigits (c :: digits)
  fraction : ∀ digits, n.fraction = some digits → IsDigits digits ∧ digits ≠ []
  exponent : ∀ size, n.exponent = some size → IsDigits size.2 ∧ size.2 ≠ []

/-- The value of an exponent. -/
def power : Option (Bool × Text) → Option Int
  | none => none
  | some (negative, digits) =>
      some (if negative then -(readDecimal digits : Int) else readDecimal digits)

/-- The digits of a number without the zeros at the start. -/
def digits (n : Numeral) : Text :=
  (n.whole ++ n.fraction.getD []).dropWhile (· == .scalar '0')

/-- The power of ten that the digits of a number are multiplied with. -/
def scale (n : Numeral) : Int :=
  (power n.exponent).getD 0 - (n.fraction.getD []).length

/-- What a number with a fraction or an exponent is read as. -/
def float (n : Numeral) (negative : Bool) : Binary64 :=
  .ofDecimal negative (readDecimal n.digits) n.digits.length n.scale

/-- What a number is read as. -/
def value (n : Numeral) (negative : Bool) : Json :=
  if n.fraction.isNone && n.exponent.isNone then
    .int (if negative then -(readDecimal n.whole : Int) else readDecimal n.whole)
  else .float (n.float negative)

end Numeral

/-- Whether a text cannot go on with what digits stand before it. -/
def Stops (t : Text) : Prop :=
  ∀ c, t.head? = some c → c.isAsciiDigit = false

/-- Whether a text cannot go on with a number before it. -/
def Delimits (t : Text) : Prop :=
  ∀ c, t.head? = some c →
    c.isAsciiDigit = false ∧ c ≠ .scalar '.' ∧ c ≠ .scalar 'e' ∧ c ≠ .scalar 'E'

theorem Delimits.stops {t : Text} (h : Delimits t) : Stops t :=
  fun c hc => (h c hc).1

theorem spanDigits_append {digits rest : Text} (hdigits : IsDigits digits) (hrest : Stops rest) :
    spanDigits (digits ++ rest) = (digits, rest) := by
  induction digits with
  | nil =>
      cases rest with
      | nil => rfl
      | cons c rest =>
          have hc := hrest c rfl
          simp [spanDigits, hc]
  | cons c digits ih =>
      have hc := hdigits c (by simp)
      have hrest := ih fun d hd => hdigits d (List.mem_cons_of_mem _ hd)
      simp only [spanDigits, Prod.mk.injEq] at hrest
      simp only [spanDigits, List.cons_append, List.takeWhile_cons_of_pos hc,
        List.dropWhile_cons_of_pos hc, hrest]

theorem spanFraction_of_ne {t : Text} (h : t.head? ≠ some (.scalar '.')) :
    spanFraction t = (none, t) := by
  cases t with
  | nil => rfl
  | cons c t =>
      have hc : c ≠ .scalar '.' := fun hc => h (by rw [hc]; rfl)
      simp [spanFraction, hc]

theorem spanFraction_point {digits rest : Text} (hdigits : IsDigits digits) (hne : digits ≠ [])
    (hrest : Stops rest) : spanFraction (.scalar '.' :: (digits ++ rest)) = (some digits, rest) := by
  simp [spanFraction, spanDigits_append hdigits hrest, hne]

theorem spanExponent_of_ne {t : Text} (hlower : t.head? ≠ some (.scalar 'e'))
    (hupper : t.head? ≠ some (.scalar 'E')) : spanExponent t = (none, t) := by
  cases t with
  | nil => rfl
  | cons c t =>
      have hc : c ≠ .scalar 'e' := fun hc => hlower (by rw [hc]; rfl)
      have hc' : c ≠ .scalar 'E' := fun hc => hupper (by rw [hc]; rfl)
      simp [spanExponent, hc, hc']

theorem spanExponent_e {digits rest : Text} (negative : Bool) (hdigits : IsDigits digits)
    (hne : digits ≠ []) (hrest : Stops rest) :
    spanExponent (Numeral.exponentText (some (negative, digits)) ++ rest) =
      (Numeral.power (some (negative, digits)), rest) := by
  cases negative with
  | false =>
      simp [Numeral.exponentText, Numeral.power, spanExponent, spanDigits_append hdigits hrest, hne]
  | true =>
      simp [Numeral.exponentText, Numeral.power, spanExponent, spanDigits_append hdigits hrest, hne]

theorem spanWhole?_append {n : Numeral} (h : n.Valid) {rest : Text} (hrest : Stops rest) :
    spanWhole? (n.whole ++ rest) = some (n.whole, rest) := by
  rcases h.whole with hzero | ⟨c, digits, hwhole, hc, hdigits⟩
  · rw [hzero]
    rfl
  · rw [hwhole, List.cons_append, spanWhole?, if_neg hc, if_pos (hdigits c (by simp)),
      ← List.cons_append, spanDigits_append hdigits hrest]

namespace Numeral

variable {n : Numeral} (h : n.Valid) {rest : Text} (hrest : Delimits rest)

include h hrest in
theorem spanExponent_rest :
    spanExponent (exponentText n.exponent ++ rest) = (power n.exponent, rest) := by
  cases hexponent : n.exponent with
  | none =>
      exact spanExponent_of_ne (fun hc => (hrest _ hc).2.2.1 rfl) fun hc => (hrest _ hc).2.2.2 rfl
  | some size =>
      obtain ⟨hdigits, hne⟩ := h.exponent size hexponent
      exact spanExponent_e size.1 hdigits hne hrest.stops

include hrest in
theorem stops_exponentText : Stops (exponentText n.exponent ++ rest) := by
  cases n.exponent with
  | none => exact hrest.stops
  | some size =>
      intro c hc
      cases hc
      rfl

include h hrest in
theorem spanFraction_rest :
    spanFraction (fractionText n.fraction ++ (exponentText n.exponent ++ rest)) =
      (n.fraction, exponentText n.exponent ++ rest) := by
  cases hfraction : n.fraction with
  | none =>
      refine spanFraction_of_ne ?_
      cases n.exponent with
      | none => exact fun hc => (hrest _ hc).2.1 rfl
      | some size =>
          intro hc
          cases hc
  | some digits =>
      obtain ⟨hdigits, hne⟩ := h.fraction digits hfraction
      exact spanFraction_point hdigits hne (stops_exponentText hrest)

include hrest in
theorem stops_fractionText :
    Stops (fractionText n.fraction ++ (exponentText n.exponent ++ rest)) := by
  cases n.fraction with
  | none => exact stops_exponentText hrest
  | some digits =>
      intro c hc
      cases hc
      rfl

include h in
theorem head?_text : ∃ c, n.text.head? = some c ∧ c.isAsciiDigit = true := by
  rcases h.whole with hzero | ⟨c, digits, hwhole, -, hdigits⟩
  · exact ⟨.scalar '0', by rw [text, hzero]; rfl, rfl⟩
  · exact ⟨c, by rw [text, hwhole]; rfl, hdigits c (by simp)⟩

end Numeral

/-- A minus sign, or none. -/
def signText (negative : Bool) : Text :=
  if negative then [.scalar '-'] else []

theorem readNumber?_sign (limits : Limits) {negative : Bool} {t : Text}
    (ht : negative = false → t.head? ≠ some (.scalar '-')) :
    readNumber? limits (signText negative ++ t) =
      (spanWhole? t).bind fun (whole, left) =>
        let (fraction, left) := spanFraction left
        let (exponent, left) := spanExponent left
        if fraction.isNone && exponent.isNone then
          if limits.digits < whole.length then some (.error .tooManyDigits, left)
          else
            some (.ok (.int (if negative then -(readDecimal whole : Int) else readDecimal whole)),
              left)
        else
          let digits := (whole ++ fraction.getD []).dropWhile (· == .scalar '0')
          some (.ok (.float (.ofDecimal negative (readDecimal digits) digits.length
            (exponent.getD 0 - (fraction.getD []).length))), left) := by
  cases negative with
  | true => rfl
  | false =>
      cases t with
      | nil => rfl
      | cons c t =>
          unfold readNumber?
          simp only [signText, Bool.false_eq_true, if_false, List.nil_append]
          split
          · rename_i unsigned heq
            exact absurd (by rw [heq]; rfl) (ht rfl)
          · rfl

theorem readNumber?_text {n : Numeral} (h : n.Valid) (negative : Bool) {rest : Text}
    (hrest : Delimits rest) (limits : Limits)
    (hdigits : n.fraction.isNone = true → n.exponent.isNone = true →
      n.whole.length ≤ limits.digits) :
    readNumber? limits (signText negative ++ (n.text ++ rest)) =
      some (.ok (n.value negative), rest) := by
  obtain ⟨c, hhead, hc⟩ := Numeral.head?_text h
  have hminus : (n.text ++ rest).head? ≠ some (.scalar '-') := by
    intro hminus
    rw [List.head?_append, hhead] at hminus
    cases hminus
    cases hc
  have hsplit : n.text ++ rest = n.whole ++ (Numeral.fractionText n.fraction ++
      (Numeral.exponentText n.exponent ++ rest)) := by
    simp [Numeral.text]
  rw [readNumber?_sign limits (fun _ => hminus), hsplit,
    spanWhole?_append h (Numeral.stops_fractionText hrest), Option.bind_some]
  simp only [Numeral.spanFraction_rest h hrest, Numeral.spanExponent_rest h hrest]
  have hpower : (Numeral.power n.exponent).isNone = n.exponent.isNone := by
    cases n.exponent <;> rfl
  rw [hpower, Numeral.value]
  by_cases hint : (n.fraction.isNone && n.exponent.isNone) = true
  · simp only [hint, if_true]
    rw [Bool.and_eq_true] at hint
    rw [if_neg (Nat.not_lt.2 (hdigits hint.1 hint.2))]
  · simp only [hint, Bool.false_eq_true, if_false]
    rfl

end ProjectLint.Json
