import ProjectLint.Proofs.Glob.SafePruning
import ProjectLint.Proofs.Ignore.Literal

/-!
Directories whose whole content is ignored by a line that names them literally. A walk could enter
such a directory only from the one above it, and there it is pruned, however the walk got there.
Main statement: a walk that starts neither in such a directory nor below it comes to no path at it
or below it.
-/

namespace ProjectLint

namespace Viewpoint

variable {viewpoint : Viewpoint}

/-- The components of a path from the root, with every `..` taken together with the component before
it. -/
def normal (viewpoint : Viewpoint) (path : Path) : List Text :=
  Path.collapse (viewpoint.process.under path).parts

theorem normal_child (path : Path) {name : Text} (hname : name ≠ parentPart) :
    viewpoint.normal (path.child name) = viewpoint.normal path ++ [name] := by
  have hunder : (viewpoint.process.under (path.child name)).parts =
      (viewpoint.process.under path).parts ++ [name] := by
    cases habsolute : path.isAbsolute with
    | true =>
        have hchild : (path.child name).isAbsolute = true := habsolute
        rw [Path.under_of_isAbsolute habsolute, Path.under_of_isAbsolute hchild]
        rfl
    | false =>
        have hchild : (path.child name).isAbsolute = false := habsolute
        rw [Path.under, Path.under, if_neg (by simp [hchild]), if_neg (by simp [habsolute])]
        simp [Path.child]
  rw [normal, hunder, Path.collapse_append (by simpa using Ne.symm hname)]
  rfl

end Viewpoint

namespace Glob

variable {set : IgnoreSet} {viewpoint : Viewpoint} {source : Source} {names : List Text}

/-- Whether a path is the directory that names lead to from another one, or lies below it. -/
def Within (viewpoint : Viewpoint) (origin : Path) (names : List Text) (path : Path) : Prop :=
  viewpoint.normal origin ++ names <+: viewpoint.normal path

instance (viewpoint : Viewpoint) (origin : Path) (names : List Text) (path : Path) :
    Decidable (Within viewpoint origin names path) :=
  inferInstanceAs (Decidable (_ <+: _))

/-- A source that leaves out a directory as a whole: it counts while globs are expanded, has a line
for everything below the directory, and no negated line. -/
structure LeavesOut (set : IgnoreSet) (source : Source) (names : List Text) : Prop where
  mem : source ∈ set
  whileGlobbing : source.whileGlobbing = true
  line : .text (Rule.lineBelow names) ∈ source.patterns
  positive : ¬source.Negates

variable (hleaves : LeavesOut set source names) (hnames : Rule.LiteralFolder names)

include hleaves hnames in
/-- The line for everything below the directory can be read, so only the others have to be. -/
theorem compiles_of_others (hothers : ∀ other ∈ set, other.whileGlobbing = true →
      ∀ pattern ∈ other.patterns, pattern ≠ .text (Rule.lineBelow names) →
        ∃ line rule, pattern = .text line ∧ Rule.ofLine line = .ok rule) : set.Compiles := by
  intro other hmem hglobbing pattern hpattern
  by_cases hline : pattern = .text (Rule.lineBelow names)
  · obtain ⟨rule, hrule⟩ := Rule.exists_ofLine_lineBelow hnames
      fun hhead => hleaves.positive ⟨_, hleaves.line, hhead⟩
    exact ⟨_, rule, hline, hrule⟩
  · exact hothers other hmem hglobbing pattern hpattern hline

include hleaves hnames in
/-- The only way into the directory is pruned. -/
theorem not_within_child (hset : set.Compiles) {p : Path} {name : Text} (hname : name ≠ parentPart)
    (hp : ¬Within viewpoint (source.origin viewpoint) names p)
    (hpruned : set.prunes viewpoint (p.child name) = .ok false) :
    ¬Within viewpoint (source.origin viewpoint) names (p.child name) := by
  intro hwithin
  rw [Within, viewpoint.normal_child p hname, List.prefix_concat_iff] at hwithin
  rcases hwithin with heq | hwithin
  · rw [← viewpoint.normal_child p hname] at heq
    have hfolder := Source.ignoresFolder_of_lineBelow
      (hset source hleaves.mem hleaves.whileGlobbing) hleaves.positive hnames hleaves.line heq.symm
    obtain ⟨answer, hanswer, hiff⟩ := IgnoreSet.prunes_of_compiles hset viewpoint (p.child name)
    rw [hiff.2 ⟨source, hleaves.mem, hleaves.whileGlobbing, hfolder⟩, hpruned] at hanswer
    cases hanswer
  · exact hp hwithin

/-- A directory that a literal line leaves out as a whole is not entered by a walk that starts
outside. -/
theorem walk_stays_outside (fs : FileSystem) (hleaves : LeavesOut set source names)
    (hnames : Rule.LiteralFolder names)
    (hothers : ∀ other ∈ set, other.whileGlobbing = true →
      ∀ pattern ∈ other.patterns, pattern ≠ .text (Rule.lineBelow names) →
        ∃ line rule, pattern = .text line ∧ Rule.ofLine line = .ok rule)
    {start : Path} (hstart : ¬Within viewpoint (source.origin viewpoint) names start) :
    ∃ visits, walk fs (set.prunes viewpoint) start = .ok visits ∧
      ∀ visit ∈ visits, ¬Within viewpoint (source.origin viewpoint) names visit.directory := by
  have hset := compiles_of_others hleaves hnames hothers
  obtain ⟨visits, hwalk⟩ : ∃ visits, walk fs (set.prunes viewpoint) start = .ok visits := by
    refine exists_walk (fun p => ?_) start
    obtain ⟨answer, hanswer, -⟩ := IgnoreSet.prunes_of_compiles hset viewpoint p
    exact ⟨answer, hanswer⟩
  have hkept : KeptByWalks fs (set.prunes viewpoint) fun p =>
      ¬Within viewpoint (source.origin viewpoint) names p := by
    intro p entries inner name hp hnode hmem _ hpruned
    have hname := ne_parentPart_of_isEntryName (FileSystem.isEntryName_of_node? hnode hmem)
    exact not_within_child hleaves hnames hset hname hp hpruned
  refine ⟨visits, hwalk, fun visit hvisit => ?_⟩
  obtain ⟨houtside, -⟩ := forall_walk hkept hstart hwalk visit hvisit
  exact houtside

/-- A directory with a generated one and a module in it. -/
def generatedBelow : Entries :=
  [("gen", .directory [("a.js", .file []), ("out", .directory [("x.js", .file [])])])]

theorem wellFormed_generatedBelow : Node.entriesWellFormed generatedBelow = true := by
  rfl

def generatedBelowFiles : FileSystem :=
  ⟨generatedBelow, [], wellFormed_generatedBelow⟩

/-- The names that lead to the generated directory. -/
def outNames : List Text := ["gen", "out"]

/-- A source that leaves out the directory that those names lead to from a base. -/
def outSource (base : Option Path) : Source :=
  ⟨"generated", [.text (Rule.lineBelow outNames)], true, base⟩

theorem literalFolder_outNames : Rule.LiteralFolder outNames where
  ne_nil := by decide
  plain := by
    intro part hpart
    rcases List.mem_cons.1 hpart with rfl | hpart
    · refine ⟨?_, ?_, ?_⟩ <;> decide
    · rw [List.mem_singleton.1 hpart]
      refine ⟨?_, ?_, ?_⟩ <;> decide
  down := by decide
  literal := by
    unfold Rule.IsLiteral
    decide
  noComment := by decide

theorem leavesOut_outSource (base : Option Path) :
    LeavesOut [outSource base] (outSource base) outNames where
  mem := by simp
  whileGlobbing := rfl
  line := by simp [outSource]
  positive := by
    rintro ⟨line, hline, hhead⟩
    obtain rfl : line = Rule.lineBelow outNames := by simpa [outSource] using hline
    revert hhead
    decide

/-- With a base the same line leaves out the directory that lies there, and the one that lies in the
directory of the call is entered. -/
theorem based_source_enters :
    LeavesOut [outSource (some (.absolute ["sub"]))] (outSource (some (.absolute ["sub"])))
        outNames ∧
      Rule.LiteralFolder outNames ∧ ¬Within atRoot atRoot.call outNames (.absolute []) ∧
      ∃ visits, walk generatedBelowFiles
          (IgnoreSet.prunes [outSource (some (.absolute ["sub"]))] atRoot) (.absolute []) =
            .ok visits ∧
        ∃ visit ∈ visits, Within atRoot atRoot.call outNames visit.directory := by
  refine ⟨leavesOut_outSource _, literalFolder_outNames, by decide, _, rfl,
    ⟨.absolute outNames, [.absolute ["gen", "out", "x.js"]]⟩, ?_, ?_⟩
  · decide
  · decide

/-- Without a base the directory is not entered. -/
theorem generated_stays_outside :
    LeavesOut [outSource none] (outSource none) outNames ∧ Rule.LiteralFolder outNames ∧
      (∀ other ∈ [outSource none], other.whileGlobbing = true →
        ∀ pattern ∈ other.patterns, pattern ≠ .text (Rule.lineBelow outNames) →
          ∃ line rule, pattern = .text line ∧ Rule.ofLine line = .ok rule) ∧
      ¬Within atRoot ((outSource none).origin atRoot) outNames (.absolute []) ∧
      ∃ visits, walk generatedBelowFiles (IgnoreSet.prunes [outSource none] atRoot)
          (.absolute []) = .ok visits ∧
        ∀ visit ∈ visits,
          ¬Within atRoot ((outSource none).origin atRoot) outNames visit.directory := by
  have hothers : ∀ other ∈ [outSource none], other.whileGlobbing = true →
      ∀ pattern ∈ other.patterns, pattern ≠ .text (Rule.lineBelow outNames) →
        ∃ line rule, pattern = .text line ∧ Rule.ofLine line = .ok rule := by
    intro other hother _ pattern hpattern hne
    rw [List.mem_singleton.1 hother] at hpattern
    exact absurd (List.mem_singleton.1 hpattern) hne
  have hstart : ¬Within atRoot ((outSource none).origin atRoot) outNames (.absolute []) := by
    decide
  exact ⟨leavesOut_outSource none, literalFolder_outNames, hothers, hstart,
    walk_stays_outside generatedBelowFiles (leavesOut_outSource none) literalFolder_outNames
      hothers hstart⟩

end Glob
end ProjectLint
