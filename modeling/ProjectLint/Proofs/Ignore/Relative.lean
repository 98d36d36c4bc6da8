import ProjectLint.Proofs.Ignore.Descent

/-!
Relative paths are exact. What is compared with patterns is a path as seen from a base. Main
statement: for normal paths from the root it leads back to the path, so no two paths are seen alike;
it starts with `..` exactly if the path lies outside the base; and inside it consists of the
components that lead down from the base, which may well begin with dots.
-/

namespace ProjectLint

namespace Path

/-- Whether a path starts from the root, could have been read from a text, and holds no `..`. -/
structure IsNormal (p : Path) : Prop where
  anchor : p.anchor = .root
  plain : p.Plain
  noParent : parentPart ∉ p.parts

/-- A path from the root with every `..` taken together with the component before it. -/
def normalized (p : Path) : Path :=
  ⟨p.anchor, collapse p.parts⟩

/-- Whether a text is the exact way from a base to a path: it leads there, it goes up first if the
path lies outside the base, and otherwise it has the components of the path below the base. -/
structure IsWay (base p : Path) (way : Text) : Prop where
  leads : (base.under (ofText way)).normalized = p
  outside : way = parentPart ∨ Source.outside <+: way ↔ ¬base.parts <+: p.parts
  inside : ∀ below, p.parts = base.parts ++ below →
    way = if below = [] then selfPart else Text.join [.scalar '/'] below

variable {p base : Path} (hp : p.IsNormal) (hbase : base.IsNormal)

include hp in
theorem IsNormal.isAbsolute : p.isAbsolute = true := by
  rw [Path.isAbsolute, hp.anchor]
  rfl

include hp hbase

theorem seenParts_of_isNormal (directory : Path) :
    seenParts directory p base = steps p.parts base.parts := by
  rw [seenParts, under_of_isAbsolute hbase.isAbsolute, collapse_eq_self hp.noParent,
    collapse_eq_self hbase.noParent]

theorem relativeTo_of_isNormal (directory : Path) :
    relativeTo directory p base = (Path.mk .relative (steps p.parts base.parts)).toText := by
  rw [relativeTo_of_isAbsolute base hp.isAbsolute, seenParts_of_isNormal hp hbase]

omit hbase in
/-- The components through which a path is seen start with `..` exactly if it lies outside. -/
theorem head?_steps_iff :
    (steps p.parts base.parts).head? = some parentPart ↔ ¬base.parts <+: p.parts := by
  refine ⟨?_, head?_steps_of_not_isPrefix⟩
  rintro hhead ⟨below, hbelow⟩
  rw [← hbelow, steps_self_append] at hhead
  exact hp.noParent (hbelow ▸ List.mem_append_right _ (List.mem_of_head? hhead))

theorem isWay_relativeTo (directory : Path) : IsWay base p (relativeTo directory p base) := by
  rw [relativeTo_of_isNormal hp hbase]
  have hplain : (Path.mk .relative (steps p.parts base.parts)).Plain := plain_steps hp.plain
  refine ⟨?_, ?_, fun below hbelow => ?_⟩
  · have hunder : base.under ⟨.relative, steps p.parts base.parts⟩ =
        ⟨base.anchor, base.parts ++ steps p.parts base.parts⟩ := rfl
    rw [ofText_toText hplain, hunder, normalized, collapse_append_steps hbase.noParent hp.noParent,
      hbase.anchor, ← hp.anchor]
  · rw [← head?_steps_iff hp, ← Source.leadsOutside_iff hplain, Bool.or_eq_true, decide_eq_true_eq,
      List.isPrefixOf_iff_prefix]
  · rw [hbelow, steps_self_append, toText]
    simp only [List.isEmpty_iff]

end Path

namespace Source

open ProjectLint.Path

/-- How paths are seen from a base is exact: each is seen by the way that leads to it, and no other
path is seen so. A source with this base sees the paths inside it in this way and no others, and a
source without a base sees every path. -/
theorem relativePaths_exact {p base : Path} (hp : p.IsNormal) (hbase : base.IsNormal)
    (directory : Path) :
    IsWay base p (relativeSlashed .slash directory p base) ∧
    (∀ q : Path, q.IsNormal →
      relativeSlashed .slash directory q base = relativeSlashed .slash directory p base → q = p) ∧
    ∀ (source : Source) (viewpoint : Viewpoint),
      (source.base = some base → source.view? viewpoint p =
        if base.parts <+: p.parts then some (relativeSlashed .slash directory p base) else none) ∧
      (source.base = none → source.view? viewpoint p ≠ none) := by
  have hway := isWay_relativeTo hp hbase directory
  refine ⟨hway, fun q hq hsame => ?_, fun source viewpoint => ⟨fun hsource => ?_, fun hsource => ?_⟩⟩
  · rw [← hway.leads, ← (isWay_relativeTo hq hbase directory).leads]
    exact congrArg (fun way => (base.under (ofText way)).normalized) hsame
  · have htext : relativeSlashed .slash directory p base = _ :=
      relativeTo_of_isNormal hp hbase directory
    rw [view?_of_isAbsolute source hp.isAbsolute hp.plain, hsource, htext]
    simp only [seenParts_of_isNormal hp hbase, head?_steps_iff hp, ite_not]
  · rw [view?, hsource]
    exact Option.some_ne_none _

/-- A directory whose name goes on with more letters lies outside. -/
theorem sibling_seen_through_parent :
    (Path.absolute ["a", "bc"]).IsNormal ∧ (Path.absolute ["a", "b"]).IsNormal ∧
    IsWay (.absolute ["a", "b"]) (.absolute ["a", "bc"]) "../bc" ∧
    ∀ viewpoint, (Source.mk "" [] true (some (.absolute ["a", "b"]))).view? viewpoint
      (.absolute ["a", "bc"]) = none := by
  have hp : (Path.absolute ["a", "bc"]).IsNormal := ⟨rfl, plain_ofText "/a/bc", by decide⟩
  have hbase : (Path.absolute ["a", "b"]).IsNormal := ⟨rfl, plain_ofText "/a/b", by decide⟩
  obtain ⟨hway, -, hview⟩ := relativePaths_exact hp hbase (.absolute [])
  exact ⟨hp, hbase, hway, fun viewpoint => (hview _ viewpoint).1 rfl⟩

/-- The directory itself is seen as a dot, and what it holds by its name, dots and all. -/
example : relativeSlashed .slash (.absolute []) (.absolute ["a"]) (.absolute ["a"]) = selfPart ∧
    relativeSlashed .slash (.absolute []) (.absolute ["a", "..x"]) (.absolute ["a"]) = "..x" := by
  decide

end Source
end ProjectLint
