import ProjectLint.FileSystem.TextFile
import ProjectLint.Text.Utf8.RoundTrip

/-!
Texts that were written to files. What is read is the text with its line endings unified. Main
statement: `readText_of_encode`. A text without carriage returns keeps its form, and a carriage
return makes one line ending with a line feed that comes next.
-/

namespace ProjectLint

namespace Text

/-- A text without carriage returns keeps its form, whatever comes after it. -/
theorem unifyLineEndings_append {t : Text} (h : .scalar '\r' ∉ t) (rest : Text) :
    (t ++ rest).unifyLineEndings = t ++ rest.unifyLineEndings := by
  induction t with
  | nil => rfl
  | cons c t ih =>
      simp only [List.mem_cons, not_or] at h
      rw [List.cons_append, unifyLineEndings.eq_def]
      split
      next heq => exact absurd (List.cons.inj heq).1.symm h.1
      next heq =>
        cases heq
        rw [if_neg (Ne.symm h.1), ih h.2]
        rfl
      next heq => cases heq

theorem unifyLineEndings_eq_self {t : Text} (h : .scalar '\r' ∉ t) : t.unifyLineEndings = t := by
  have hunify := unifyLineEndings_append h []
  rwa [List.append_nil, unifyLineEndings, List.append_nil] at hunify

/-- A carriage return takes a line feed with it that comes next. -/
theorem unifyLineEndings_return (rest : Text) :
    (∃ more : Text, rest = .scalar '\n' :: more ∧
      unifyLineEndings (.scalar '\r' :: rest) = .scalar '\n' :: more.unifyLineEndings) ∨
    unifyLineEndings (.scalar '\r' :: rest) = .scalar '\n' :: rest.unifyLineEndings := by
  rw [unifyLineEndings.eq_def]
  split
  next more heq => exact Or.inl ⟨more, (List.cons.inj heq).2, rfl⟩
  next heq =>
    cases heq
    exact Or.inr (by rw [if_pos rfl])
  next heq => cases heq

theorem mem_unifyLineEndings {t : Text} {c : CodePoint} (h : c ∈ t.unifyLineEndings) :
    c = .scalar '\n' ∨ c ∈ t := by
  fun_induction Text.unifyLineEndings t with
  | case1 rest ih =>
      cases List.mem_cons.1 h with
      | inl h => exact Or.inl h
      | inr h => exact (ih h).imp_right fun h => by simp [h]
  | case2 d rest hne ih =>
      cases List.mem_cons.1 h with
      | inl h =>
          split at h
          next => exact Or.inl h
          next => exact Or.inr (h ▸ List.mem_cons_self)
      | inr h => exact (ih h).imp_right fun h => List.mem_cons_of_mem _ h
  | case3 => cases h

theorem exists_chars {t : Text} (h : ∀ half, .surrogate half ∉ t) :
    ∃ chars : List Char, t = chars.map .scalar := by
  induction t with
  | nil => exact ⟨[], rfl⟩
  | cons c t ih =>
      obtain ⟨chars, rfl⟩ := ih fun half hmem => h half (List.mem_cons_of_mem _ hmem)
      cases c with
      | scalar c => exact ⟨c :: chars, rfl⟩
      | surrogate half => exact absurd List.mem_cons_self (h half)

end Text

/-- A text that was written to a file is read with its line endings unified. -/
theorem FileSystem.readText_of_encode {fs : FileSystem} {path : Path} {t : Text}
    (ht : ∀ half, .surrogate half ∉ t) (h : fs.readBytes path = .ok (Utf8.encode t)) :
    fs.readText path = .ok t.unifyLineEndings := by
  obtain ⟨chars, hchars⟩ := Text.exists_chars ht
  have hdecode : Utf8.decode (Utf8.encode t) = .ok t := by
    rw [hchars]
    exact Utf8.decode_encode chars
  rw [readText, h]
  simp only [hdecode]

end ProjectLint
