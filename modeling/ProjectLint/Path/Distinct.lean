import Std.Data.TreeSet
import ProjectLint.Path.Basic

/-!
Lists of paths in which no path occurs twice. Paths are ordered by what they start from and then by
their components, so that those already met can be kept in a search tree. Main statement:
`firstOccurrences` takes the first path of a list and leaves it out of the rest.
-/

namespace ProjectLint

/-- Code points are ordered by their numbers. -/
instance : Ord CodePoint := ⟨compareOn CodePoint.toNat⟩

instance : Std.TransOrd CodePoint :=
  inferInstanceAs (Std.TransCmp (compareOn CodePoint.toNat))

instance : Std.LawfulEqOrd CodePoint where
  eq_of_compare h := CodePoint.toNat_inj (Std.LawfulEqOrd.eq_of_compare h)

/-- The place of an anchor in the order of anchors. -/
def Anchor.rank : Anchor → Nat
  | relative => 0
  | root => 1
  | doubleRoot => 2

theorem Anchor.rank_inj {a b : Anchor} (h : a.rank = b.rank) : a = b := by
  cases a <;> cases b <;> simp_all [rank]

namespace Path

/-- Paths are ordered by their anchors and then by their components. -/
instance : Ord Path := ⟨compareLex (compareOn fun p => p.anchor.rank) (compareOn Path.parts)⟩

instance : Std.TransOrd Path :=
  inferInstanceAs (Std.TransCmp (compareLex (compareOn fun p => p.anchor.rank) (compareOn parts)))

instance : Std.LawfulEqOrd Path where
  eq_of_compare {p q} h := by
    obtain ⟨hanchor, hparts⟩ := compareLex_eq_eq.1 h
    cases p
    cases q
    simp only [mk.injEq]
    exact ⟨Anchor.rank_inj (Std.LawfulEqOrd.eq_of_compare hanchor),
      Std.LawfulEqOrd.eq_of_compare hparts⟩

def newPaths (seen : Std.TreeSet Path) : List Path → List Path
  | [] => []
  | p :: rest =>
      if seen.contains p then newPaths seen rest else p :: newPaths (seen.insert p) rest

/-- The paths of a list, each where it first occurs. -/
def firstOccurrences (paths : List Path) : List Path :=
  newPaths ∅ paths

theorem contains_insert (seen : Std.TreeSet Path) (p q : Path) :
    (seen.insert p).contains q = (decide (p = q) || seen.contains q) := by
  rw [Std.TreeSet.contains_insert]
  congr 1
  by_cases h : p = q
  · simp [h]
  · simp [h]

theorem newPaths_congr {seen met : Std.TreeSet Path} (paths : List Path)
    (h : ∀ p, seen.contains p = met.contains p) : newPaths seen paths = newPaths met paths := by
  induction paths generalizing seen met with
  | nil => rfl
  | cons p rest ih =>
      have hinsert : newPaths (seen.insert p) rest = newPaths (met.insert p) rest :=
        ih fun q => by rw [contains_insert, contains_insert, h]
      simp only [newPaths, h p, ih h, hinsert]

theorem newPaths_insert (seen : Std.TreeSet Path) (p : Path) (paths : List Path) :
    newPaths (seen.insert p) paths = (newPaths seen paths).filter (· ≠ p) := by
  induction paths generalizing seen with
  | nil => rfl
  | cons q rest ih =>
      simp only [newPaths, contains_insert]
      by_cases hq : p = q
      · subst hq
        have hagain : newPaths ((seen.insert p).insert p) rest = newPaths (seen.insert p) rest :=
          newPaths_congr rest fun r => by simp
        have hself : (newPaths (seen.insert p) rest).filter (· ≠ p) =
            newPaths (seen.insert p) rest :=
          (ih _).symm.trans hagain
        cases seen.contains p with
        | false => simpa using hself.symm
        | true => simpa using ih seen
      · have hswap : newPaths ((seen.insert p).insert q) rest =
            newPaths ((seen.insert q).insert p) rest :=
          newPaths_congr rest fun r => by
            rw [contains_insert, contains_insert, contains_insert, contains_insert,
              Bool.or_left_comm]
        cases seen.contains q <;> simp [hq, Ne.symm hq, ih, hswap]

theorem firstOccurrences_nil : firstOccurrences [] = [] :=
  rfl

/-- The first path of a list is taken and left out of the rest. -/
theorem firstOccurrences_cons (p : Path) (rest : List Path) :
    firstOccurrences (p :: rest) = p :: (firstOccurrences rest).filter (· ≠ p) := by
  rw [firstOccurrences, firstOccurrences, ← newPaths_insert]
  rfl

theorem mem_firstOccurrences {p : Path} {paths : List Path} :
    p ∈ firstOccurrences paths ↔ p ∈ paths := by
  induction paths with
  | nil => simp [firstOccurrences_nil]
  | cons q rest ih =>
      simp only [firstOccurrences_cons, List.mem_cons, List.mem_filter, ih, decide_eq_true_eq]
      by_cases h : p = q <;> simp [h]

theorem nodup_firstOccurrences (paths : List Path) : (firstOccurrences paths).Nodup := by
  induction paths with
  | nil => exact List.nodup_nil
  | cons p rest ih =>
      simp only [firstOccurrences_cons, List.nodup_cons, List.mem_filter, decide_eq_true_eq]
      exact ⟨fun h => h.2 rfl, ih.filter _⟩

end Path
end ProjectLint
