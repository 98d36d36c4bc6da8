import ProjectLint.Proofs.Discovery.Union
import ProjectLint.Proofs.Ignore.Inside
import ProjectLint.Proofs.Ignore.Lines
import ProjectLint.Proofs.Lint.Effects
import ProjectLint.Proofs.Manifest.Reading

/-!
The ignore file of a project. Main statement: it means the same for every call that takes place in
the project. It says nothing of paths outside the root, and inside it ignores what its lines select
by the components that lead there from the root, unless a line with blanks before a number sign is
the last one to look for them. No file that it ignores is handed on, however a pattern gets to it.
-/

namespace ProjectLint

open ProjectLint.Action

namespace IgnoreSet

/-- The sources of a set that have a name. -/
def named (set : IgnoreSet) (name : Text) : IgnoreSet :=
  set.filter (·.name == name)

theorem named_append (set others : IgnoreSet) (name : Text) :
    named (set ++ others) name = set.named name ++ others.named name :=
  List.filter_append set others

theorem named_of? (wanted name : Text) (patterns : List Pattern) (whileGlobbing : Bool)
    (base : Option Path) :
    named (Source.of? name patterns whileGlobbing base).toList wanted =
      if name = wanted then (Source.of? name patterns whileGlobbing base).toList else [] := by
  rw [Source.of?]
  split
  · split <;> rfl
  · rw [Option.toList_some, named]
    split
    · rename_i hname
      simp [hname]
    · rename_i hname
      simp [hname]

end IgnoreSet

theorem LintOptions.named_projectSources (root : Path) (block : Option Manifest.Block)
    (lines : Option (List Text)) :
    IgnoreSet.named (projectSources root block lines) ".gitignore" =
      (lines.bind fun lines =>
        Source.of? ".gitignore" (lines.map .text) false (some root)).toList := by
  have hblock : IgnoreSet.named (block.bind fun block =>
      Source.of? "package.json" ((block.ignore.getD []).map .text) true none).toList ".gitignore" =
        [] := by
    cases block with
    | none => rfl
    | some block => exact (IgnoreSet.named_of? _ _ _ _ _).trans (if_neg (by decide))
  rw [projectSources, IgnoreSet.named_append, hblock, List.nil_append]
  cases lines with
  | none => rfl
  | some lines => exact (IgnoreSet.named_of? _ _ _ _ _).trans (if_pos rfl)

namespace Linter

/-- Whether a call takes place in the project of a root whose ignore file has some content. The root
is the nearest directory with a manifest, going up from the directory of the call. -/
structure InProject (linter : Linter) (options : LintOptions) (root : Path) (content : Text)
    (s t : Session) (resolved : ResolvedOptions) : Prop where
  resolves : linter.resolve options s = .ok resolved t
  nearest : ∃ canonical, s.files.resolve resolved.directory = .ok canonical ∧
    canonical.ancestors.find? (Manifest.standsIn s.files) = some root
  content : s.files.readText (root.child Manifest.ignoreFileName) = .ok content

namespace InProject

variable {linter : Linter} {options : LintOptions} {root : Path} {content : Text}
  {s t : Session} {resolved : ResolvedOptions}
  (h : linter.InProject options root content s t resolved)

include h

/-- The root of a project is given by a plain absolute path without `..`. -/
theorem canonical_root : root.Plain ∧ root.isAbsolute = true ∧ parentPart ∉ root.parts := by
  obtain ⟨found, u, hfound, hdirectory, -⟩ := LintOptions.resolve_eq_ok h.resolves
  obtain ⟨canonical, hcanonical, hroot⟩ := h.nearest
  obtain ⟨hplain, -⟩ := LintOptions.plain_directory_of_gather hfound
  rw [hdirectory] at hcanonical
  obtain ⟨hcall, habsolute⟩ := FileSystem.plain_resolve hplain hcanonical
  obtain ⟨hanchor, hparts⟩ := Path.of_mem_ancestors (List.mem_of_find?_eq_some hroot)
  refine ⟨fun part hpart => hcall part (hparts.mem hpart), ?_,
    fun hup => FileSystem.parentPart_not_mem_resolve hcanonical (hparts.mem hup)⟩
  rw [Path.isAbsolute, hanchor]
  exact habsolute

/-- The ignore file of the root is the only source of its name. -/
theorem named_ignored : resolved.ignored.named ".gitignore" = Source.ofIgnoreFile root content := by
  obtain ⟨found, u, hfound, hdirectory, hignored, -⟩ := LintOptions.resolve_eq_ok h.resolves
  obtain ⟨_, patterns, _, v, _, -, -, -, hfindRoot, hsources⟩ := LintOptions.gather_eq_sources hfound
  obtain ⟨canonical, hcanonical, hroot⟩ := h.nearest
  rw [hdirectory] at hcanonical
  rw [Manifest.root_of_findRoot hcanonical hfindRoot, hroot] at hsources
  obtain ⟨block, lines, _, _, -, hlines, hset⟩ := LintOptions.withProject_eq_ok hsources
  have hread := Manifest.gives_readIgnoreFile root s
  rw [gives, hlines, h.content] at hread
  cases Except.ok.inj hread
  have hown : IgnoreSet.named (Source.builtIn :: (Source.of? "options" patterns true none).toList)
      ".gitignore" = [] := by
    rw [← List.singleton_append, IgnoreSet.named_append, IgnoreSet.named_of?, if_neg (by decide)]
    rfl
  rw [hignored, (Prod.mk.inj hset).1, IgnoreSet.named_append, hown, List.nil_append,
    LintOptions.named_projectSources, Source.ofIgnoreFile]
  cases IgnoreFile.patterns content <;> rfl

end InProject

/-- Whether the ignore file of a call's project ignores a path. -/
def ignoredByFile (resolved : ResolvedOptions) (viewpoint : Viewpoint) (path : Path) :
    Except Failure Bool :=
  (resolved.ignored.named ".gitignore").ignores viewpoint path

section InProject

variable {linter : Linter} {options : LintOptions} {root path : Path} {content : Text}
  {s t : Session} {resolved : ResolvedOptions} {rules : List Rule}
  (h : linter.InProject options root content s t resolved) (habsolute : path.isAbsolute = true)
  (hplain : path.Plain)

include h habsolute hplain

theorem InProject.ignoredByFile_eq (viewpoint : Viewpoint) :
    ignoredByFile resolved viewpoint path =
      if List.IsPrefix root.parts (Path.collapse path.parts) then
        (Rule.ofPatterns ((IgnoreFile.patterns content).map .text)).map fun rules =>
          Rule.decides rules
            (Path.mk .relative ((Path.collapse path.parts).drop root.parts.length)).toText
      else .ok false := by
  obtain ⟨-, hroot, hup⟩ := h.canonical_root
  rw [ignoredByFile, h.named_ignored]
  exact IgnoreSet.ignores_ofIgnoreFile hroot hup habsolute hplain content viewpoint

theorem InProject.ignoredByFile_below
    (hrules : Rule.ofPatterns ((IgnoreFile.patterns content).map .text) = .ok rules)
    (viewpoint : Viewpoint) {below : List Text}
    (hbelow : Path.collapse path.parts = root.parts ++ below) :
    ignoredByFile resolved viewpoint path =
      .ok (Rule.decides rules (Path.mk .relative below).toText) := by
  rw [h.ignoredByFile_eq habsolute hplain, hbelow, if_pos (List.prefix_append _ _), hrules,
    List.drop_left]
  rfl

end InProject

/-- No file that the ignore file of the project ignores is found. -/
theorem InProject.decides_of_findFiles {linter : Linter} {options : LintOptions} {root : Path}
    {content : Text} {s t u : Session} {resolved : ResolvedOptions} {rules : List Rule}
    (h : linter.InProject options root content s t resolved)
    (hrules : Rule.ofPatterns ((IgnoreFile.patterns content).map .text) = .ok rules)
    {patterns : Patterns} {paths : List Path}
    (hfiles : findFiles patterns resolved t = .ok paths u) : ∀ path ∈ paths,
      (∃ reached, t.files.isFile reached = .ok true ∧ t.files.resolve reached = .ok path) ∧
        ∀ below, path.parts = root.parts ++ below →
          Rule.decides rules (Path.mk .relative below).toText = false := by
  obtain ⟨gathered, v, hgather, hdirectory, -⟩ := LintOptions.resolve_eq_ok h.resolves
  obtain ⟨hcall, -⟩ := LintOptions.plain_directory_of_gather hgather
  obtain ⟨directory, -, hfound⟩ := of_findFiles (hdirectory ▸ hcall) hfiles
  intro path hmem
  obtain ⟨⟨reached, hreached, hfile, hresolve⟩, hkept⟩ := hfound path hmem
  obtain ⟨hplain, habsolute⟩ := FileSystem.plain_resolve hreached hresolve
  refine ⟨⟨reached, hfile, hresolve⟩, fun below hbelow => ?_⟩
  have hcollapse : Path.collapse path.parts = root.parts ++ below := by
    rw [Path.collapse_eq_self (FileSystem.parentPart_not_mem_resolve hresolve), hbelow]
  have hdecides := h.ignoredByFile_below habsolute hplain hrules
    ⟨Discovery.processPath t.files, directory⟩ hcollapse
  have hspared : ignoredByFile resolved ⟨Discovery.processPath t.files, directory⟩ path =
      .ok false := IgnoreSet.ignores_of_sublist List.filter_sublist hkept
  exact (Except.ok.inj (hspared.symm.trans hdecides)).symm

/-- Whether the last line of an ignore file that looks for a path is an indented comment. -/
def IsOverlooked (content path : Text) : Prop :=
  ∃ line, IgnoreFile.deciding? path (IgnoreFile.lines content) = some line ∧
    IgnoreFile.IsIndentedComment line

/-- The ignore file of a project means the same for every call in the project. It ignores nothing
outside the root, and inside what its lines select by the components that lead down from the root,
except for the paths that an indented comment is the last one to look for. No file that the lines
select is handed on, by whatever path it is reached, unless it is one of these. -/
theorem ignore_file_means_the_same {linter : Linter} {options : LintOptions} {root : Path}
    {content : Text} {s t : Session} {resolved : ResolvedOptions}
    (h : linter.InProject options root content s t resolved)
    (hlines : ∀ line ∈ IgnoreFile.lines content, ∃ rule, Rule.ofLine line = .ok rule) :
    (∀ (other : Linter) (others : LintOptions) (u v : Session) (found : ResolvedOptions),
      other.InProject others root content u v found → ∀ viewpoint elsewhere path,
        path.isAbsolute = true → path.Plain →
          ignoredByFile found elsewhere path = ignoredByFile resolved viewpoint path) ∧
    (∀ viewpoint path, path.isAbsolute = true → path.Plain →
      ¬List.IsPrefix root.parts (Path.collapse path.parts) →
        ignoredByFile resolved viewpoint path = .ok false) ∧
    ∃ rules, Rule.ofPatterns ((IgnoreFile.lines content).map .text) = .ok rules ∧
      (∀ viewpoint below, below.isAbsolute = false → below.Plain → parentPart ∉ below.parts →
        ∃ ignored, ignoredByFile resolved viewpoint (root.under below) = .ok ignored ∧
          (ignored ≠ Rule.decides rules below.toText ↔
            ignored = false ∧ IsOverlooked content below.toText)) ∧
      ∀ patterns, ∃ new,
        ((linter.lintFiles patterns options).leaves s).events = s.events ++ new ∧
          (new = [] ∨ ∃ paths, (∀ event ∈ new, HandsOn resolved.engine paths event) ∧
            ∀ path ∈ paths,
              (∃ reached, t.files.isFile reached = .ok true ∧
                t.files.resolve reached = .ok path) ∧
              ∀ below, path.parts = root.parts ++ below →
                Rule.decides rules (Path.mk .relative below).toText = false ∨
                  IsOverlooked content (Path.mk .relative below).toText) := by
  have hkept : Rule.ofPatterns ((IgnoreFile.patterns content).map .text) =
      .ok ((IgnoreFile.patterns content).filterMap Rule.ofLine?) :=
    Rule.ofPatterns_texts fun line hmem => hlines line (List.mem_filter.1 hmem).1
  have hdiffer (path : Text) := IgnoreFile.decides_filter_ne_iff path (IgnoreFile.lines content)
  refine ⟨?_, ?_, _, Rule.ofPatterns_texts hlines, ?_, ?_⟩
  · intro other others u v found hfound viewpoint elsewhere path habsolute hplain
    rw [h.ignoredByFile_eq habsolute hplain, hfound.ignoredByFile_eq habsolute hplain]
  · intro viewpoint path habsolute hplain houtside
    rw [h.ignoredByFile_eq habsolute hplain, if_neg houtside]
  · intro viewpoint below hrelative hplain hbelow
    obtain ⟨hroot, habsolute, hup⟩ := h.canonical_root
    obtain ⟨anchor, parts⟩ := below
    obtain rfl : anchor = .relative := by simpa [Path.isAbsolute] using hrelative
    have hunder : root.under ⟨.relative, parts⟩ = ⟨root.anchor, root.parts ++ parts⟩ := rfl
    refine ⟨_, ?_, hdiffer (Path.mk .relative parts).toText⟩
    refine h.ignoredByFile_below (hunder ▸ habsolute) (hplain.under hroot) hkept viewpoint ?_
    rw [hunder, Path.collapse_append hbelow, Path.collapse_eq_self hup]
  · intro patterns
    obtain ⟨new, hnew, hshown⟩ := linter.shows_lintFiles patterns options s
    refine ⟨new, hnew, hshown.imp_right fun ⟨found, paths, u, hselect, hhands⟩ => ?_⟩
    obtain ⟨v, hresolved, hfiles⟩ := select_eq_ok.1 hselect
    cases h.resolves.symm.trans hresolved
    refine ⟨paths, hhands, fun path hmem => ?_⟩
    obtain ⟨hreached, hspared⟩ := h.decides_of_findFiles hkept hfiles path hmem
    refine ⟨hreached, fun below hbelow => ?_⟩
    refine or_iff_not_imp_left.2 fun hselects => ((hdiffer _).1 fun heq => hselects ?_).2
    rw [← heq]
    exact hspared below hbelow

/-- A project whose ignore file names one of two files, with a link to that file in a directory. -/
def projectWithLink : Entries :=
  [("p", .directory [
    (".gitignore", .file (Utf8.encode "out.js")),
    ("a.js", .file []),
    ("out.js", .file []),
    ("package.json", .file (Utf8.encode "\x7b\x7d")),
    ("sub", .directory [("link.js", .link "../out.js")])])]

theorem wellFormed_projectWithLink : Node.entriesWellFormed projectWithLink = true := by
  rfl

/-- A session with such a project. -/
def linkSession : Session where
  files := ⟨projectWithLink, [], wellFormed_projectWithLink⟩
  temporary := .absolute ["tmp"]
  stamp := "1"

/-- Options of a caller that lints from a directory. -/
def lintingFrom (directory : Text) : LintOptions where
  directory := .text directory

theorem inProject_linkSession {options : LintOptions} {directory canonical : Path}
    (hdirectory : ((({} : Linter).resolve options).gives linkSession).toOption.map (·.directory) =
      some directory)
    (hcanonical : linkSession.files.resolve directory = .ok canonical)
    (hroot : canonical.ancestors.find? (Manifest.standsIn linkSession.files) =
      some (.absolute ["p"])) :
    ∃ t resolved, InProject {} options (.absolute ["p"]) "out.js" linkSession t resolved := by
  rw [gives] at hdirectory
  cases hresolve : ({} : Linter).resolve options linkSession with
  | error failure t => simp [hresolve, Except.toOption] at hdirectory
  | ok resolved t =>
      simp only [hresolve, Except.toOption, Option.map_some, Option.some.injEq] at hdirectory
      exact ⟨t, resolved, hresolve, ⟨canonical, hdirectory ▸ hcanonical, hroot⟩, rfl⟩

set_option maxRecDepth 4000 in
theorem link_to_ignored_is_left_out :
    ∃ t u resolved found,
      InProject {} (lintingFrom "/p/sub") (.absolute ["p"]) "out.js" linkSession t resolved ∧
      InProject {} (lintingFrom "/p") (.absolute ["p"]) "out.js" linkSession u found ∧
      (∀ viewpoint, ignoredByFile resolved viewpoint (.absolute ["p", "out.js"]) = .ok true ∧
        ignoredByFile found viewpoint (.absolute ["p", "out.js"]) = .ok true) ∧
      ∃ event paths, ((({} : Linter).lintFiles (.ofTexts ["../*.js", "link.js"])
          (lintingFrom "/p/sub")).leaves linkSession).events = [event] ∧
        HandsOn resolved.engine paths event ∧ .absolute ["p", "out.js"] ∉ paths := by
  obtain ⟨t, resolved, hsub⟩ := @inProject_linkSession (lintingFrom "/p/sub")
    (.absolute ["p", "sub"]) _ (by decide +kernel) rfl rfl
  obtain ⟨u, found, hroot⟩ := @inProject_linkSession (lintingFrom "/p") (.absolute ["p"]) _
    (by decide +kernel) rfl rfl
  have hlines : ∀ line ∈ IgnoreFile.lines "out.js", ∃ rule, Rule.ofLine line = .ok rule :=
    List.forall_mem_singleton.2 ⟨_, rfl⟩
  have hplainLine : ¬IsOverlooked "out.js" "out.js" := by
    rintro ⟨line, hline, hindented⟩
    cases hline
    exact absurd hindented (by decide)
  have hplain : (Path.mk .relative ["out.js"]).Plain := Path.plain_ofText "out.js"
  have hpath : (Path.absolute ["p", "out.js"]).Plain := Path.plain_ofText "/p/out.js"
  obtain ⟨hsame, -, rules, hrules, hinside, hlint⟩ := ignore_file_means_the_same hsub hlines
  have hselects : Rule.decides rules "out.js" = true := by
    cases (show _ = Except.ok rules from hrules)
    rfl
  have hignored : ∀ viewpoint, ignoredByFile resolved viewpoint (.absolute ["p", "out.js"]) =
      .ok true := by
    intro viewpoint
    obtain ⟨ignored, hignored, hdiffers⟩ :=
      hinside viewpoint ⟨.relative, ["out.js"]⟩ rfl hplain (by decide)
    have heq : ignored = Rule.decides rules "out.js" :=
      not_not.1 fun hne => hplainLine (hdiffers.1 hne).2
    rw [heq, hselects] at hignored
    exact hignored
  refine ⟨t, u, resolved, found, hsub, hroot, fun viewpoint => ⟨hignored viewpoint, ?_⟩, ?_⟩
  · exact (hsame {} _ linkSession u found hroot viewpoint viewpoint _ rfl hpath).trans
      (hignored viewpoint)
  · obtain ⟨new, hnew, hshown⟩ := hlint (.ofTexts ["../*.js", "link.js"])
    have hlength : ((({} : Linter).lintFiles (.ofTexts ["../*.js", "link.js"])
        (lintingFrom "/p/sub")).leaves linkSession).events.length = 1 := by decide +kernel
    obtain ⟨event, hevent⟩ := List.length_eq_one_iff.1 hlength
    obtain rfl : new = [event] := hnew.symm.trans hevent
    rcases hshown with hnone | ⟨paths, hhands, hpaths⟩
    · cases hnone
    · refine ⟨event, paths, hevent, hhands event (by simp), fun hmem => ?_⟩
      rcases (hpaths _ hmem).2 ["out.js"] rfl with hunselected | hoverlooked
      · exact absurd (hunselected.symm.trans hselects) (by decide)
      · exact hplainLine hoverlooked

/-- A session with a project whose ignore file has one line, with a blank before its number sign. -/
def indentedSession : Session where
  files := ⟨[("p", .directory [(" #x.js", .file []), (".gitignore", .file (Utf8.encode " #x.js")),
    ("package.json", .file (Utf8.encode "\x7b\x7d"))])], [], by rfl⟩
  temporary := .absolute ["tmp"]
  stamp := "1"

set_option maxRecDepth 4000 in
/-- A file that a line of the ignore file selects is handed on. -/
theorem indented_line_spares_file : ∃ t resolved rules,
    InProject {} (lintingFrom "/p") (.absolute ["p"]) " #x.js" indentedSession t resolved ∧
      Rule.ofPatterns ((IgnoreFile.lines " #x.js").map .text) = .ok rules ∧
      Rule.decides rules " #x.js" = true ∧
      ignoredByFile resolved ⟨.absolute [], .absolute ["p"]⟩ (.absolute ["p", " #x.js"]) =
        .ok false ∧
      ((({} : Linter).lintFiles (.ofTexts ["*.js"]) (lintingFrom "/p")).leaves
        indentedSession).events =
          [.engineStarted ["eslint", "--format", "json", "--no-eslintrc", "/p/ #x.js"] none] :=
  ⟨_, _, _, ⟨rfl, ⟨_, rfl, rfl⟩, rfl⟩, rfl, rfl, rfl, rfl⟩

end Linter
end ProjectLint
