import ProjectLint.Proofs.Discovery.Found
import ProjectLint.Proofs.Glob.Meaning

/-!
A component that cannot be read. A component is looked for only in the paths to which those before
it lead, so one that cannot be read does no harm as long as they lead nowhere. Main statement: a
discovery fails for such a component only if one of its patterns comes to look for it. Then it does
fail so, unless the system refuses to answer for a path of another pattern. If no pattern comes to
look for the component, the discovery ends as if it could be read.
-/

namespace ProjectLint.Glob

variable {fs : FileSystem} {enters : Path → Prop} {scope : Scope} {pruned : Pruning}
  {target segment : Text}

/-- The same scope with every component readable. -/
def Scope.readable (scope : Scope) : Scope :=
  { scope with unreadable := none }

/-- Whether components lead from one of some paths to where a component other than `**` has to be
looked for. -/
def Meets (fs : FileSystem) (enters : Path → Prop) (target : Text) (segments : List Text)
    (starts : List Path) : Prop :=
  target ≠ anyDepth ∧ ∃ before after, segments = before ++ target :: after ∧
    ∃ p ∈ starts, ∃ q, Follows fs enters false before p q

/-- A component is met at once or after the first component has been followed. -/
theorem meets_cons {segments : List Text} {starts middle : List Path} {final : Bool}
    (hmiddle : ∀ q, q ∈ middle ↔
      ∃ p ∈ starts, Leads fs enters (final && segments.isEmpty) segment p q) :
    Meets fs enters target (segment :: segments) starts ↔
      target ≠ anyDepth ∧ segment = target ∧ starts ≠ [] ∨
        Meets fs enters target segments middle := by
  have hinner : ∀ {before after : List Text}, segments = before ++ target :: after →
      (final && segments.isEmpty) = false := by
    rintro before after rfl
    simp
  constructor
  · rintro ⟨hne, before, after, hsplit, p, hp, q, hfollows⟩
    cases before with
    | nil =>
        obtain ⟨rfl, rfl⟩ := List.cons.inj hsplit
        exact Or.inl ⟨hne, rfl, List.ne_nil_of_mem hp⟩
    | cons first before =>
        obtain ⟨rfl, hsegments⟩ := List.cons.inj hsplit
        obtain ⟨m, hleads, hfollows⟩ := hfollows
        rw [hinner hsegments] at hmiddle
        exact Or.inr ⟨hne, before, after, hsegments, m, (hmiddle m).2 ⟨p, hp, hleads⟩, q, hfollows⟩
  · rintro (⟨hne, rfl, hstarts⟩ | ⟨hne, before, after, hsegments, m, hm, q, hfollows⟩)
    · obtain ⟨p, hp⟩ := List.exists_mem_of_ne_nil starts hstarts
      exact ⟨hne, [], segments, rfl, p, hp, p, rfl⟩
    · rw [hinner hsegments] at hmiddle
      obtain ⟨p, hp, hleads⟩ := (hmiddle m).1 hm
      exact ⟨hne, segment :: before, after, by rw [hsegments]; rfl, p, hp, q, m, hleads, hfollows⟩

/-- The first component leads to those paths that its step reaches. -/
theorem mem_middle {segments : List Text} {starts : List Path} {final : Bool} {first : Reached}
    (h : step scope pruned segment (final && segments.isEmpty) starts = .ok first) (q : Path) :
    q ∈ Path.firstOccurrences first.paths ↔
      ∃ p ∈ starts, Leads scope.files pruned.enters (final && segments.isEmpty) segment p q := by
  rw [Path.mem_firstOccurrences]
  constructor
  · intro hq
    obtain ⟨p, hp, found, hfound, hq⟩ := of_mem_step h hq
    exact ⟨p, hp, (mem_stepFrom hfound).1 hq⟩
  · rintro ⟨p, hp, hleads⟩
    obtain ⟨found, hfound⟩ := exists_stepFrom h hp
    exact mem_step h hp hfound ((mem_stepFrom hfound).2 hleads)

theorem stepFrom_readable (h : segment = anyDepth ∨ scope.unreadable ≠ some segment)
    (last : Bool) (start : Path) :
    stepFrom scope pruned segment last start =
      stepFrom scope.readable pruned segment last start := by
  rw [stepFrom, stepFrom]
  by_cases hdepth : segment = anyDepth
  · rw [if_pos hdepth, if_pos hdepth]
    rfl
  · have hreadable : scope.readable.unreadable ≠ some segment := by simp [Scope.readable]
    rw [if_neg hdepth, if_neg hdepth, if_neg (h.resolve_left hdepth), if_neg hreadable]
    rfl

section Unreadable

variable (h : scope.unreadable = some target)

include h

theorem step_of_unreadable (hne : target ≠ anyDepth) {starts : List Path} (hstarts : starts ≠ [])
    (last : Bool) :
    step scope pruned target last starts = .error (.unreadableSegment target) := by
  cases starts with
  | nil => exact absurd rfl hstarts
  | cons start starts => rw [step, stepFrom, if_neg hne, if_pos h]

theorem step_readable {starts : List Path}
    (hnone : ¬(target ≠ anyDepth ∧ segment = target ∧ starts ≠ [])) (last : Bool) :
    step scope pruned segment last starts = step scope.readable pruned segment last starts := by
  induction starts with
  | nil => rfl
  | cons start starts ih =>
      have hsegment : segment = anyDepth ∨ scope.unreadable ≠ some segment := by
        by_contra hread
        rw [not_or, not_ne_iff, h, Option.some.injEq] at hread
        obtain ⟨hdepth, rfl⟩ := hread
        exact hnone ⟨hdepth, rfl, by simp⟩
      have hrest : ¬(target ≠ anyDepth ∧ segment = target ∧ starts ≠ []) :=
        fun hhere => hnone ⟨hhere.1, hhere.2.1, by simp⟩
      rw [step, step, stepFrom_readable hsegment, ih hrest]

/-- Components fail for the one that cannot be read where it is met. If it is not met they lead
where they would lead otherwise. -/
theorem steps_unreadable (hanswers : ∀ p, ∃ answer, pruned p = .ok answer)
    (segments : List Text) (final : Bool) (starts : List Path) :
    (Meets scope.files pruned.enters target segments starts →
      steps scope pruned final segments starts = .error (.unreadableSegment target)) ∧
    (¬Meets scope.files pruned.enters target segments starts →
      steps scope pruned final segments starts =
        steps scope.readable pruned final segments starts) := by
  induction segments generalizing starts with
  | nil => exact ⟨fun ⟨_, before, after, hsplit, _⟩ => by simp at hsplit, fun _ => rfl⟩
  | cons segment segments ih =>
      obtain ⟨whole, hwhole⟩ :=
        @exists_steps pruned scope.readable rfl hanswers (segment :: segments) final starts
      obtain ⟨first, ends, hfirst, -, -⟩ := steps_cons_eq_ok.1 hwhole
      have hmiddle : ∀ q, q ∈ Path.firstOccurrences first.paths ↔
          ∃ p ∈ starts, Leads scope.files pruned.enters (final && segments.isEmpty) segment p q :=
        @mem_middle scope.readable _ _ _ _ _ _ hfirst
      rw [meets_cons hmiddle]
      by_cases hhere : target ≠ anyDepth ∧ segment = target ∧ starts ≠ []
      · obtain ⟨hne, rfl, hstarts⟩ := id hhere
        refine ⟨fun _ => ?_, fun hnone => absurd (Or.inl hhere) hnone⟩
        rw [steps, step_of_unreadable h hne hstarts]
      · obtain ⟨hmeets, hleaves⟩ := ih (Path.firstOccurrences first.paths)
        constructor
        · intro hmet
          rw [steps, step_readable h hhere, hfirst]
          simp only [hmeets (hmet.resolve_left hhere)]
        · intro hnone
          rw [steps, step_readable h hhere, steps, hfirst]
          simp only [hleaves (not_or.1 hnone).2]

end Unreadable

/-- Whether the expansion of a glob comes to look for a component. -/
def Scope.LooksFor (scope : Scope) (glob : Path) (target : Text) : Prop :=
  Meets scope.files (Pruning.enters (scope.ignored.prunes scope.viewpoint)) target glob.parts
    [scope.start glob]

theorem keepFiles_readable (paths : List Path) :
    keepFiles scope.readable paths = keepFiles scope paths := by
  induction paths with
  | nil => rfl
  | cons path paths ih =>
      have hone : keepOne scope.readable path = keepOne scope path := rfl
      rw [keepFiles_cons, keepFiles_cons, hone, ih]

theorem expand_unreadable (hset : scope.ignored.Compiles) (h : scope.unreadable = some target)
    (glob : Path) :
    (scope.LooksFor glob target → expand scope glob = .error (.unreadableSegment target)) ∧
      (¬scope.LooksFor glob target → expand scope glob = expand scope.readable glob) := by
  have hanswers := IgnoreSet.exists_prunes hset scope.viewpoint
  obtain ⟨hmeets, hleaves⟩ := steps_unreadable h hanswers glob.parts true [scope.start glob]
  constructor
  · intro hlooks
    rw [expand, expandPruning, hmeets hlooks]
  · intro hnone
    rw [expand, expandPruning, hleaves hnone, expand, expandPruning]
    simp only [keepFiles_readable]
    rfl

theorem expandPruning_eq_error {glob : Path} {failure : Failure} :
    expandPruning pruned scope glob = .error failure ↔
      steps scope pruned true glob.parts [scope.start glob] = .error failure ∨
        ∃ reached, steps scope pruned true glob.parts [scope.start glob] = .ok reached ∧
          keepFiles scope reached.paths = .error failure := by
  rw [expandPruning]
  cases steps scope pruned true glob.parts [scope.start glob] with
  | error other => simp
  | ok reached => cases hkept : keepFiles scope reached.paths <;> simp [hkept]

/-- An expansion in which every component can be read fails only where the system refuses to answer
for a path to which the glob leads. -/
theorem refuses_of_expand_readable (hset : scope.ignored.Compiles) {glob : Path}
    {failure : Failure} (h : expand scope.readable glob = .error failure) :
    ∃ p, scope.Relates glob p ∧ scope.Refuses p failure := by
  obtain ⟨reached, hreached⟩ := @exists_steps _ scope.readable rfl
    (IgnoreSet.exists_prunes hset scope.viewpoint) glob.parts true [scope.start glob]
  rcases expandPruning_eq_error.1 h with hfails | ⟨found, hfound, hkeep⟩
  · cases hreached.symm.trans hfails
  · cases hreached.symm.trans hfound
    rw [keepFiles_readable] at hkeep
    obtain ⟨p, hp, hone⟩ := of_keepFiles_eq_error hkeep
    obtain ⟨start, hstart, hfollows⟩ := (mem_steps hreached).1 hp
    obtain rfl := List.mem_singleton.1 hstart
    exact ⟨p, hfollows, (keepOne_eq_error_iff_refuses hset).1 hone⟩

theorem Scope.Refuses.ne_unreadableSegment {p : Path} {failure : Failure}
    (h : scope.Refuses p failure) (target : Text) : failure ≠ .unreadableSegment target := by
  cases h with
  | check _ => simp
  | @resolve fault _ _ _ => cases fault <;> simp [Failure.ofResolveFault]

end ProjectLint.Glob

namespace ProjectLint.Discovery

open Glob

variable {scope : Scope} {finishing : List Nat} {target : Text}

/-- A refusal of the system for a path to which one of some patterns leads that does not come to
look for a component. -/
def RefusedElsewhere (scope : Scope) (target : Text) (texts : List Text) (failure : Failure) :
    Prop :=
  ∃ text ∈ texts, ¬scope.LooksFor (.ofText text) target ∧
    ∃ p, scope.Relates (.ofText text) p ∧ scope.Refuses p failure

section Unreadable

variable (hset : scope.ignored.Compiles) (h : scope.unreadable = some target) (texts : List Text)

include hset h

/-- Patterns of which one comes to look for the component that cannot be read fail, for it or for a
refusal that another one meets, whichever search ends first. -/
theorem expandAll_of_looksFor (hlooks : ∃ text ∈ texts, scope.LooksFor (.ofText text) target) :
    ∃ failure, expandAll scope finishing (texts.map .text) = .error failure ∧
      (failure = .unreadableSegment target ∨ RefusedElsewhere scope target texts failure) := by
  cases hall : expandAll scope finishing (texts.map .text) with
  | ok found =>
      obtain ⟨text, hmem, htext⟩ := hlooks
      obtain ⟨_, _, hsame, hfound⟩ :=
        exists_expandAll.1 ⟨found, hall⟩ _ (List.mem_map_of_mem hmem)
      cases hsame
      cases ((expand_unreadable hset h _).1 htext).symm.trans hfound
  | error failure =>
      refine ⟨failure, rfl, ?_⟩
      obtain ⟨_, hpattern, hfails⟩ := of_expandAll_eq_error hall
      obtain ⟨text, hmem, rfl⟩ := List.mem_map.1 hpattern
      obtain ⟨hlooked, hreadable⟩ := expand_unreadable hset h (.ofText text)
      rw [expandOne] at hfails
      by_cases htext : scope.LooksFor (.ofText text) target
      · cases (hlooked htext).symm.trans hfails
        exact Or.inl rfl
      · rw [hreadable htext] at hfails
        obtain ⟨p, hp, hrefuses⟩ := refuses_of_expand_readable hset hfails
        exact Or.inr ⟨text, hmem, htext, p, hp, hrefuses⟩

theorem expandAll_readable (hnone : ∀ text ∈ texts, ¬scope.LooksFor (.ofText text) target) :
    expandAll scope finishing (texts.map .text) =
      expandAll scope.readable finishing (texts.map .text) := by
  have hresults : (texts.map Pattern.text).map (expandOne scope) =
      (texts.map Pattern.text).map (expandOne scope.readable) := by
    rw [List.map_map, List.map_map]
    exact List.map_congr_left fun text hmem => (expand_unreadable hset h _).2 (hnone text hmem)
  rw [expandAll, expandAll, hresults]

end Unreadable

theorem refuses_of_expandAll_readable (hset : scope.ignored.Compiles) {texts : List Text}
    {failure : Failure}
    (h : expandAll scope.readable finishing (texts.map .text) = .error failure) :
    ∃ p, scope.Refuses p failure := by
  obtain ⟨_, hpattern, hfails⟩ := of_expandAll_eq_error h
  obtain ⟨text, -, rfl⟩ := List.mem_map.1 hpattern
  obtain ⟨p, -, hrefuses⟩ := refuses_of_expand_readable hset hfails
  exact ⟨p, hrefuses⟩

/-- Sources that can be read always say which paths are kept, so a discovery with them fails only in
the expansion of its patterns. -/
theorem discover_eq_error (hset : ∀ source ∈ scope.ignored, source.Compiles)
    {patterns : List Pattern} {failure : Failure} :
    discover scope finishing patterns = .error failure ↔
      expandAll scope finishing patterns = .error failure := by
  rw [discover]
  cases expandAll scope finishing patterns with
  | error other => rfl
  | ok reached =>
      have hanswers : ∀ path ∈ Path.firstOccurrences reached.paths,
          ∃ ignored, scope.ignored.ignores scope.viewpoint path = .ok ignored := by
        intro path _
        obtain ⟨ignored, hignored, -⟩ := IgnoreSet.anySource_of_answers fun source hmem =>
          Source.exists_ignores (hset source hmem) scope.viewpoint path
        exact ⟨ignored, hignored⟩
      simp [IgnoreSet.keep_eq_ok.2 ⟨hanswers, rfl⟩]

/-- A discovery fails for a component that cannot be read only if a pattern comes to look for it. If
one does, the discovery fails, for the component or for a refusal of the system for a path to which
another pattern leads. If none does, the discovery ends as if the component could be read. -/
theorem unreadable_ends_discovery (hset : ∀ source ∈ scope.ignored, source.Compiles)
    (hunreadable : scope.unreadable = some target) (finishing : List Nat) (texts : List Text) :
    (discover scope finishing (texts.map .text) = .error (.unreadableSegment target) →
      ∃ text ∈ texts, scope.LooksFor (.ofText text) target) ∧
    ((∃ text ∈ texts, scope.LooksFor (.ofText text) target) →
      ∃ failure, discover scope finishing (texts.map .text) = .error failure ∧
        (failure = .unreadableSegment target ∨ RefusedElsewhere scope target texts failure)) ∧
    ((∀ text ∈ texts, ¬scope.LooksFor (.ofText text) target) →
      discover scope finishing (texts.map .text) =
        discover scope.readable finishing (texts.map .text)) := by
  have hglobbing : scope.ignored.Compiles := fun source hmem _ => hset source hmem
  refine ⟨fun hfails => ?_, fun hlooks => ?_, fun hnone => ?_⟩
  · by_contra habsent
    have hnone : ∀ text ∈ texts, ¬scope.LooksFor (.ofText text) target :=
      fun text hmem hlooks => habsent ⟨text, hmem, hlooks⟩
    rw [discover_eq_error hset, expandAll_readable hglobbing hunreadable texts hnone] at hfails
    obtain ⟨p, hrefuses⟩ := refuses_of_expandAll_readable hglobbing hfails
    exact hrefuses.ne_unreadableSegment target rfl
  · simp only [discover_eq_error hset]
    exact expandAll_of_looksFor hglobbing hunreadable texts hlooks
  · rw [discover, discover, expandAll_readable hglobbing hunreadable texts hnone]
    rfl

/-- A source directory beside which names that end in `.md` cannot be looked for. -/
def unreadableScope : Scope :=
  { linkedScope with unreadable := some "*.md" }

/-- One pattern leads to no directory before the component, the other one to all of them. -/
theorem source_pattern_looks : (∀ source ∈ unreadableScope.ignored, source.Compiles) ∧
    unreadableScope.unreadable = some "*.md" ∧
    ∃ text ∈ (["docs/*.md", "**/*.md"] : List Text),
      unreadableScope.LooksFor (.ofText text) "*.md" := by
  have hcompiles : ∀ source ∈ unreadableScope.ignored, source.Compiles :=
    fun source hmem => compiles_builtIn source hmem (by rw [List.mem_singleton.1 hmem]; rfl)
  exact ⟨hcompiles, rfl, (unreadable_ends_discovery hcompiles rfl [] _).1 rfl⟩

/-- A link to a name that is too long for the system, beside directories in each other. -/
def besideNested : Entries :=
  [("b.js", .link (List.replicate 300 (.scalar 'x'))),
    ("c", .directory [("d", .directory [("e", .directory [("f.js", .file [])])])])]

theorem wellFormed_besideNested : Node.entriesWellFormed besideNested = true := by
  rfl

/-- What patterns are expanded in, with no source and a component that cannot be read. -/
def besideNestedScope : Scope :=
  ⟨⟨besideNested, [], wellFormed_besideNested⟩, [], atRoot, some "x"⟩

set_option maxRecDepth 4000 in
/-- A pattern comes to look for the component that cannot be read, but another one meets a refusal
of the system first. -/
theorem refusal_comes_first :
    (∀ source ∈ besideNestedScope.ignored, source.Compiles) ∧
      besideNestedScope.LooksFor (.ofText "**/**/x") "x" ∧
        discover besideNestedScope [] [.text "b.js", .text "**/**/x"] =
          .error (.refused .nameTooLong (some "/b.js")) := by
  have hnoSource : ∀ source ∈ besideNestedScope.ignored, source.Compiles := by
    intro source hmem
    cases hmem
  have hroot : (besideNestedScope.files.entries? (.absolute [])).isSome = true := rfl
  refine ⟨hnoSource, ⟨by decide, [anyDepth, anyDepth], [], rfl, .absolute [], by decide,
    .absolute [], ?_⟩, rfl⟩
  exact ⟨.absolute [], .directory (.here hroot), .absolute [], .directory (.here hroot), rfl⟩

end ProjectLint.Discovery
