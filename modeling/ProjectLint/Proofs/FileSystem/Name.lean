import ProjectLint.Proofs.FileSystem.Follow
import ProjectLint.Proofs.Text.Utf8

/-!
Names as the system gives them back. Main statement: a text that can be passed to the system as a
name is given back as one that an entry can have.
-/

namespace ProjectLint

open Utf8

namespace Text

theorem encodeEscaped_asName (t : Text) : encodeEscaped t.asName = encodeEscaped t := by
  rw [asName]
  split
  next => exact encodeEscaped_decodeEscaped _
  next => rfl

theorem nameLength_asName (t : Text) : t.asName.nameLength = t.nameLength := by
  rw [nameLength, encodeEscaped_asName, nameLength]

theorem nameLength_append (t u : Text) : (t ++ u).nameLength = t.nameLength + u.nameLength := by
  simp [nameLength, Utf8.encodeEscaped]

theorem nameLength_cons (c : CodePoint) (t : Text) :
    nameLength (c :: t) = nameLength [c] + t.nameLength :=
  nameLength_append [c] t

theorem nameLength_join_le (between : Text) {pieces others : List Text}
    (h : pieces.Sublist others) :
    (join between pieces).nameLength ≤ (join between others).nameLength := by
  induction h with
  | slnil => exact Nat.le_refl _
  | @cons pieces others piece h ih =>
      cases others with
      | nil =>
          rw [List.sublist_nil.1 h]
          exact Nat.zero_le _
      | cons other others =>
          simp only [join, nameLength_append] at ih ⊢
          omega
  | @cons_cons pieces others piece h ih =>
      cases pieces with
      | nil =>
          cases others with
          | nil => exact Nat.le_refl _
          | cons other others =>
              simp only [join, nameLength_append]
              omega
      | cons first pieces =>
          cases others with
          | nil => cases h
          | cons other others =>
              simp only [join, nameLength_append] at ih ⊢
              omega

theorem asName_asName (t : Text) : t.asName.asName = t.asName := by
  by_cases h : (t.asName.any fun c => c.rawByte?.isSome) = true
  · rw [asName, if_pos h, encodeEscaped_asName]
    rw [asName] at h ⊢
    split at h
    next hraw => rw [if_pos hraw]
    next hraw => exact absurd h hraw
  · rw [asName, if_neg h]

/-- Texts with the same bytes are given back alike. -/
theorem encodeEscaped_of_asName {t u : Text} (h : t.asName = u.asName) :
    encodeEscaped t = encodeEscaped u := by
  rw [← encodeEscaped_asName t, h, encodeEscaped_asName]

theorem mem_asName {c : CodePoint} (hc : c.toNat < 0x80) {t : Text} : c ∈ t.asName ↔ c ∈ t := by
  rw [← mem_encodeEscaped hc, encodeEscaped_asName, mem_encodeEscaped hc]

/-- A text that is given back in ASCII is given back as it is. -/
theorem asName_of_ascii {t : Text} (h : ∀ c ∈ t.asName, c.toNat < 0x80) : t.asName = t := by
  by_cases hraw : (t.any fun c => c.rawByte?.isSome) = true
  · obtain ⟨c, hc, hsome⟩ := List.any_eq_true.1 hraw
    obtain ⟨b, hb⟩ := Option.isSome_iff_exists.1 hsome
    obtain ⟨hone, hlarge⟩ := encodeOneEscaped_of_rawByte? hb
    have hmem : b ∈ encodeEscaped t.asName := by
      rw [encodeEscaped_asName]
      exact List.mem_flatMap.2 ⟨c, hc, by rw [hone]; exact List.mem_singleton_self b⟩
    obtain ⟨d, hd, hdb⟩ := List.mem_flatMap.1 hmem
    have hsmall := h d hd
    rw [encodeOneEscaped_ascii hsmall] at hdb
    rw [List.mem_singleton.1 hdb, toNat_ofNat (by omega)] at hlarge
    omega
  · rw [asName, if_neg hraw]

theorem asName_ne_nil {t : Text} (h : t ≠ []) : t.asName ≠ [] := by
  cases t with
  | nil => exact absurd rfl h
  | cons c t =>
      intro hnil
      have hbytes := encodeEscaped_asName (c :: t)
      rw [hnil, encodeEscaped_cons] at hbytes
      exact encodeOneEscaped_ne_nil c (List.append_eq_nil_iff.1 hbytes.symm).1

end Text

theorem isSpelled_asName {t : Text} (h : ∀ c ∈ t, c.IsSpelled) : ∀ c ∈ t.asName, c.IsSpelled := by
  intro c hc
  refine ⟨?_, ?_⟩
  · rw [Text.asName] at hc
    split at hc
    next =>
      rintro ⟨hlow, hhigh, hraw⟩
      cases mem_decodeEscaped _ c hc with
      | inl hhalf => exact hhalf ⟨hlow, hhigh⟩
      | inr hsome =>
          rw [hraw] at hsome
          cases hsome
    next => exact (h c hc).1
  · rintro rfl
    exact (h _ ((Text.mem_asName (by decide)).1 hc)).2 rfl

/-- A text that can be passed to the system as a name is given back as the name of an entry. -/
theorem isEntryName_asName {t : Text} (hdown : leadsDown t = true)
    (hspelled : checkSpelling t = .ok ()) (hlength : t.nameLength ≤ maxNameBytes) :
    isEntryName t.asName = true := by
  have hcheck := checkSpelling_eq_ok.2 (isSpelled_asName (checkSpelling_eq_ok.1 hspelled))
  simp only [leadsDown, Bool.and_eq_true, bne_iff_ne, Bool.not_eq_true', List.contains_eq_mem,
    decide_eq_false_iff_not] at hdown
  obtain ⟨⟨⟨hne, hself⟩, hparent⟩, hslash⟩ := hdown
  have hascii : ∀ u : Text, (∀ c ∈ u, c.toNat < 0x80) → t ≠ u → t.asName ≠ u := by
    rintro u hu hdiff rfl
    exact hdiff (Text.asName_of_ascii hu).symm
  simp only [isEntryName, leadsDown, Bool.and_eq_true, bne_iff_ne, Bool.not_eq_true',
    List.contains_eq_mem, decide_eq_false_iff_not, decide_eq_true_eq, beq_iff_eq]
  refine ⟨⟨⟨⟨⟨⟨Text.asName_ne_nil hne, ?_⟩, ?_⟩, ?_⟩, ?_⟩, ?_⟩, Text.asName_asName t⟩
  · exact hascii selfPart (by decide) hself
  · exact hascii parentPart (by decide) hparent
  · rw [Text.mem_asName (by decide)]
    exact hslash
  · rw [hcheck]
    rfl
  · rw [Text.nameLength_asName]
    exact hlength

end ProjectLint
