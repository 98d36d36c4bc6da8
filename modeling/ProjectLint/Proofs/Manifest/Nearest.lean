import ProjectLint.Proofs.FileSystem.Existing
import ProjectLint.Proofs.Manifest.Reading

/-!
The two searches that go up from a directory: for the root of its project and for the block of a
command. Main statement: each finds the first directory of the chain that has what it looks for, so
a block is never found below the root or outside a project.
-/

namespace ProjectLint

open ProjectLint.Action

namespace Path

theorem ancestors_eq_cons {p : Path} (h : p.parts ≠ []) :
    p.ancestors = p :: p.parent.ancestors := by
  have hlength : p.parent.parts.length = p.parts.length - 1 := List.length_dropLast
  have hpos : p.parts.length = p.parts.length - 1 + 1 := by
    have := List.length_pos_of_ne_nil h
    omega
  rw [ancestors, ancestors, hlength, hpos, ancestors.go, Nat.add_sub_cancel]

theorem ancestors_of_nil {p : Path} (h : p.parts = []) : p.ancestors = [p] := by
  rw [ancestors, h]
  rfl

/-- The rest of a chain of ancestors is the chain of its first member. -/
theorem ancestors_of_append {p q : Path} {nearer farther : List Path}
    (h : p.ancestors = nearer ++ q :: farther) : q.ancestors = q :: farther := by
  induction nearer generalizing p with
  | nil =>
      obtain ⟨rest, hrest⟩ : ∃ rest, p.ancestors = p :: rest := by
        by_cases hparts : p.parts = []
        · exact ⟨[], ancestors_of_nil hparts⟩
        · exact ⟨_, ancestors_eq_cons hparts⟩
      obtain ⟨rfl, rfl⟩ := List.cons.inj (hrest.symm.trans h)
      exact hrest
  | cons first nearer ih =>
      by_cases hparts : p.parts = []
      · rw [ancestors_of_nil hparts, List.cons_append] at h
        simp at h
      · rw [ancestors_eq_cons hparts] at h
        exact ih (List.cons.inj h).2

end Path

namespace Manifest

/-- Whether a directory is the first one in a list of which something holds. -/
def IsFirst (holds : Path → Prop) (directories : List Path) (directory : Path) : Prop :=
  ∃ nearer farther, directories = nearer ++ directory :: farther ∧ holds directory ∧
    ∀ other ∈ nearer, ¬holds other

section Search

variable (fs : FileSystem) (nesting : Nat) (command : Text)

/-- Whether the manifest of a directory is a regular file. -/
def HasManifest (directory : Path) : Prop :=
  fs.isFile (directory.child fileName) = .ok true

/-- Whether the manifest of a directory is read as an object with an object for a command. -/
def HasBlock (directory : Path) (fields : Json.Fields) : Prop :=
  HasManifest fs directory ∧ ∃ text manifest,
    fs.readText (directory.child fileName) = .ok text ∧
    Json.read (.nested nesting) text = .ok (.object manifest) ∧
    Json.Fields.get? command manifest = some (.object fields)

/-- What the searches along a chain of directories should find: the first directory with a manifest,
and the first manifest with a block together with that block. The directory of the block is the root
or lies above it. -/
structure Finds (chain : List Path) (root : Option Path) (found : Option (Path × Block)) :
    Prop where
  root_some : ∀ directory, root = some directory ↔ IsFirst (HasManifest fs) chain directory
  root_none : root = none ↔ ∀ directory ∈ chain, ¬HasManifest fs directory
  block_some : ∀ path block, found = some (path, block) ↔ ∃ directory fields,
    path = directory.child fileName ∧ block = .ofFields fields ∧
    HasBlock fs nesting command directory fields ∧
    IsFirst (fun other => ∃ fields, HasBlock fs nesting command other fields) chain directory
  block_none : found = none ↔
    ∀ directory ∈ chain, ∀ fields, ¬HasBlock fs nesting command directory fields
  agree : ∀ path block, found = some (path, block) → ∃ directory above,
    root = some directory ∧ directory ∈ chain ∧ above ∈ directory.ancestors ∧
    path = above.child fileName

end Search

variable {fs : FileSystem} {nesting : Nat} {command : Text} {chain : List Path} {directory : Path}

theorem find?_eq_some_iff_isFirst {holds : Path → Prop} {test : Path → Bool}
    (htest : ∀ other, test other = true ↔ holds other) :
    chain.find? test = some directory ↔ IsFirst holds chain directory := by
  simp only [List.find?_eq_some_iff_append, IsFirst, ← htest, Bool.not_eq_true, Bool.not_eq_true']
  constructor
  · rintro ⟨hholds, nearer, farther, hchain, hnearer⟩
    exact ⟨nearer, farther, hchain, hholds, hnearer⟩
  · rintro ⟨nearer, farther, hchain, hholds, hnearer⟩
    exact ⟨hholds, nearer, farther, hchain, hnearer⟩

theorem standsIn_iff : standsIn fs directory = true ↔ HasManifest fs directory :=
  standsIn_eq_true

theorem get?_fieldsIn {value : Json} :
    (fieldsIn fs nesting directory).get? command = some value ↔ ∃ text manifest,
      fs.readText (directory.child fileName) = .ok text ∧
      Json.read (.nested nesting) text = .ok (.object manifest) ∧
      Json.Fields.get? command manifest = some value := by
  rw [fieldsIn]
  cases fs.readText (directory.child fileName) with
  | error fault => simp [Json.Fields.get?]
  | ok text =>
      cases hread : Json.read (.nested nesting) text with
      | error fault => simp [hread, Json.Fields.get?]
      | ok manifest => cases manifest <;> simp [hread, Json.Fields.get?]

theorem blockIn_eq_some {block : Block} :
    blockIn fs nesting directory command = some block ↔
      ∃ fields, HasBlock fs nesting command directory fields ∧ block = .ofFields fields := by
  have hblock : ∀ fields, HasBlock fs nesting command directory fields ↔
      standsIn fs directory = true ∧
      (fieldsIn fs nesting directory).get? command = some (.object fields) := fun fields => by
    rw [HasBlock, get?_fieldsIn, standsIn_iff]
  simp only [hblock]
  rw [blockIn]
  cases standsIn fs directory with
  | false => simp
  | true =>
      cases hvalue : (fieldsIn fs nesting directory).get? command with
      | none => simp
      | some value => cases value <;> simp [eq_comm]

theorem blockIn_eq_none :
    blockIn fs nesting directory command = none ↔
      ∀ fields, ¬HasBlock fs nesting command directory fields := by
  simp only [Option.eq_none_iff_forall_ne_some, ne_eq, blockIn_eq_some, not_exists, not_and]
  exact ⟨fun h fields hfields => h _ fields hfields rfl, fun h _ fields hfields _ => h fields hfields⟩

theorem nearestManifest_eq_some {path : Path} {block : Block} :
    nearestManifest fs nesting chain command = some (path, block) ↔ ∃ directory fields,
      path = directory.child fileName ∧ block = .ofFields fields ∧
      HasBlock fs nesting command directory fields ∧
      IsFirst (fun other => ∃ fields, HasBlock fs nesting command other fields) chain directory := by
  simp only [nearestManifest, List.findSome?_eq_some_iff, Option.map_eq_some_iff, Prod.mk.injEq,
    Option.map_eq_none_iff, blockIn_eq_some, blockIn_eq_none]
  constructor
  · rintro ⟨nearer, directory, farther, hchain, ⟨_, ⟨fields, hfields, rfl⟩, rfl, rfl⟩, hnearer⟩
    exact ⟨directory, fields, rfl, rfl, hfields, nearer, farther, hchain, ⟨fields, hfields⟩,
      fun other hother => not_exists.2 (hnearer other hother)⟩
  · rintro ⟨directory, fields, rfl, rfl, hfields, nearer, farther, hchain, -, hnearer⟩
    exact ⟨nearer, directory, farther, hchain, ⟨_, ⟨fields, hfields, rfl⟩, rfl, rfl⟩,
      fun other hother => not_exists.1 (hnearer other hother)⟩

theorem nearestManifest_eq_none :
    nearestManifest fs nesting chain command = none ↔
      ∀ directory ∈ chain, ∀ fields, ¬HasBlock fs nesting command directory fields := by
  simp only [nearestManifest, List.findSome?_eq_none_iff, Option.map_eq_none_iff, blockIn_eq_none]

theorem finds_nearest (fs : FileSystem) (nesting : Nat) (command : Text) (canonical : Path) :
    Finds fs nesting command canonical.ancestors (canonical.ancestors.find? (standsIn fs))
      (nearestManifest fs nesting canonical.ancestors command) where
  root_some _ := find?_eq_some_iff_isFirst fun _ => standsIn_iff
  root_none := by simp only [List.find?_eq_none, standsIn_iff]
  block_some _ _ := nearestManifest_eq_some
  block_none := nearestManifest_eq_none
  agree path block h := by
    obtain ⟨above, fields, hpath, -, ⟨hmanifest, -⟩, nearer, farther, hchain, -⟩ :=
      nearestManifest_eq_some.1 h
    have hmem : above ∈ canonical.ancestors := by simp [hchain]
    obtain ⟨root, hroot⟩ := Option.isSome_iff_exists.1
      (List.find?_isSome.2 ⟨above, hmem, standsIn_iff.2 hmanifest⟩)
    obtain ⟨below, rest, hsplit, -, hbelow⟩ :=
      (find?_eq_some_iff_isFirst fun _ => standsIn_iff).1 hroot
    refine ⟨root, above, hroot, by simp [hsplit], ?_, hpath⟩
    -- No directory before the root has a manifest, so the one with the block comes after them.
    rw [hsplit, List.mem_append] at hmem
    rw [Path.ancestors_of_append hsplit]
    exact hmem.resolve_left fun hmem => hbelow above hmem hmanifest

/-- Where no root is found there is no block either. -/
theorem Finds.eq_none {found : Option (Path × Block)}
    (h : Finds fs nesting command chain none found) :
    found = none := by
  rw [Option.eq_none_iff_forall_ne_some]
  rintro ⟨path, block⟩ hfound
  obtain ⟨_, _, hroot, -⟩ := h.agree path block hfound
  cases hroot

/-- The searches find the first directory with a manifest and the first manifest with a block in the
chain of directories from a start to the root, or fail both if the start has no canonical form. A
start that leads to a place has one if the links on its way can be looked at. -/
theorem searches_find_nearest (command : Text) (start : Path) (s : Session) :
    (∀ canonical, s.files.resolve start = .ok canonical →
      (∀ directory ∈ canonical.ancestors, ¬ExceedsIn s.files s.host.nesting directory) →
      ∃ root found, (findRoot start).gives s = .ok root ∧
        (findBlock command start).gives s = .ok found ∧
        Finds s.files s.host.nesting command canonical.ancestors root found) ∧
    (∀ fault, s.files.resolve start = .error fault →
      (findRoot start).gives s = .error (.ofResolveFault fault) ∧
      (findBlock command start).gives s = .error (.ofResolveFault fault)) ∧
    ∀ place, s.files.LinksShow → s.files.ShowsLinks start →
      s.files.locate .named start = .ok place →
      ∃ canonical, s.files.resolve start = .ok canonical ∧ FileSystem.Spells canonical place := by
  refine ⟨fun canonical hstart hlimits => ?_, fun fault hstart => ?_, fun place hlinks => ?_⟩
  · have hresolves : GivesFrom s.files s.host.nesting (Action.resolve start) (.ok canonical) :=
      givesFrom_resolve hstart
    have hroot : GivesFrom s.files s.host.nesting (findRoot start)
        (.ok (canonical.ancestors.find? (standsIn s.files))) :=
      givesFrom_bind (observes_resolve start) hresolves givesFrom_firstRoot?
    have hblock : GivesFrom s.files s.host.nesting (findBlock command start)
        (.ok (nearestManifest s.files s.host.nesting canonical.ancestors command)) :=
      givesFrom_bind (observes_resolve start) hresolves
        (givesFrom_firstBlock? fun other hother => hlimits other hother.mem)
    exact ⟨_, _, hroot s rfl rfl, hblock s rfl rfl,
      finds_nearest s.files s.host.nesting command canonical⟩
  · have hfails : (Action.resolve start).gives s = .error (.ofResolveFault fault) := by
      rw [gives_resolve, hstart]
    exact ⟨gives_bind_of_error hfails, gives_bind_of_error hfails⟩
  · exact FileSystem.resolve_of_locate hlinks

/-- A session with a project whose manifest has a block, one inside it whose manifest is no object,
and a link to that. -/
def nestedProjects : Session where
  files := ⟨[("here", .link "sub"),
    ("package.json", .file (Utf8.encode "\x7b\"lint\": \x7b\x7d\x7d")),
    ("sub", .directory [("package.json", .file (Utf8.encode "[]"))])], [], by rfl⟩
  temporary := .absolute ["tmp"]
  stamp := "1"

theorem eq_of_link_nestedProjects {place : Place} {target : Text}
    (h : nestedProjects.files.find? place = some (.link target)) :
    place = ["here"] ∧ target = "sub" := by
  rcases place with _ | ⟨first, rest⟩
  · cases h
  · simp only [nestedProjects, FileSystem.find?, FileSystem.root, Node.find?,
      Node.entryNamed?] at h
    split_ifs at h with hhere hmanifest hsub
    · subst hhere
      cases rest <;> cases h
      exact ⟨rfl, rfl⟩
    · cases rest <;> cases h
    · rcases rest with _ | ⟨second, rest⟩
      · cases h
      · simp only [Node.find?, Node.entryNamed?] at h
        split_ifs at h
        cases rest <;> cases h

theorem linksShow_nestedProjects : nestedProjects.files.LinksShow := by
  refine ⟨fun place target h => ?_, fun place target h => ?_⟩
  · obtain ⟨-, rfl⟩ := eq_of_link_nestedProjects h
    rfl
  · obtain ⟨rfl, -⟩ := eq_of_link_nestedProjects h
    rfl

/-- A relative path to the link that goes up on the way. -/
def roundabout : Path :=
  ⟨.relative, ["sub", parentPart, "here"]⟩

theorem showsLinks_roundabout : nestedProjects.files.ShowsLinks roundabout := by
  refine .inr ⟨⟨_, rfl⟩, 0, fun place target h => ?_, fun place target h => ?_⟩
  · obtain ⟨-, rfl⟩ := eq_of_link_nestedProjects h
    decide
  · obtain ⟨rfl, -⟩ := eq_of_link_nestedProjects h
    decide

theorem nested_project_searched :
    nestedProjects.files.LinksShow ∧
    nestedProjects.files.locate .named (.absolute ["here"]) = .ok ["sub"] ∧
    (∃ canonical, nestedProjects.files.resolve (.absolute ["here"]) = .ok canonical ∧
      FileSystem.Spells canonical ["sub"]) ∧
    nestedProjects.files.locate .named roundabout = .ok ["sub"] ∧
    (∃ canonical, nestedProjects.files.resolve roundabout = .ok canonical ∧
      FileSystem.Spells canonical ["sub"]) ∧
    nestedProjects.files.resolve (.absolute ["here"]) = .ok (.absolute ["sub"]) ∧
    (∀ directory ∈ (Path.absolute ["sub"]).ancestors,
      ¬ExceedsIn nestedProjects.files 990 directory) ∧
    ∃ root found, (findRoot (.absolute ["here"])).gives nestedProjects = .ok root ∧
      (findBlock "lint" (.absolute ["here"])).gives nestedProjects = .ok found ∧
      Finds nestedProjects.files 990 "lint" (Path.absolute ["sub"]).ancestors root found := by
  have hplace : nestedProjects.files.locate .named (.absolute ["here"]) = .ok ["sub"] := by
    decide +kernel
  have hround : nestedProjects.files.locate .named roundabout = .ok ["sub"] := by
    decide +kernel
  have hstart : nestedProjects.files.resolve (.absolute ["here"]) = .ok (.absolute ["sub"]) := by
    decide +kernel
  have hreads : ∀ directory text, nestedProjects.files.readText (directory.child fileName) =
      .ok text → (Json.read (.nested 990) text).isOk = true →
      ¬ExceedsIn nestedProjects.files 990 directory := by
    rintro directory text htext hok ⟨other, fault, hother, hread, -⟩
    cases htext.symm.trans hother
    rw [hread] at hok
    cases hok
  have hlimits : ∀ directory ∈ (Path.absolute ["sub"]).ancestors,
      ¬ExceedsIn nestedProjects.files 990 directory := by
    have hchain : (Path.absolute ["sub"]).ancestors = [.absolute ["sub"], .absolute []] := rfl
    rw [hchain, List.forall_mem_cons, List.forall_mem_singleton]
    refine ⟨hreads _ "[]" (by decide +kernel) (by decide +kernel), ?_⟩
    exact hreads _ "\x7b\"lint\": \x7b\x7d\x7d" (by decide +kernel) (by decide +kernel)
  obtain ⟨hfinds, -, hexists⟩ :=
    searches_find_nearest "lint" (.absolute ["here"]) nestedProjects
  obtain ⟨-, -, hround_exists⟩ := searches_find_nearest "lint" roundabout nestedProjects
  exact ⟨linksShow_nestedProjects, hplace,
    hexists _ linksShow_nestedProjects (.inl rfl) hplace, hround,
    hround_exists _ linksShow_nestedProjects showsLinks_roundabout hround, hstart, hlimits,
    hfinds _ hstart hlimits⟩

/-- The longest name with one letter only. -/
def longName (letter : Char) : Text := List.replicate maxNameBytes (.scalar letter)

/-- Entries inside some directories with a long name, one in another. -/
def deepEntries (inner : Entries) : Nat → Entries
  | 0 => inner
  | count + 1 => [(longName 'a', .directory (deepEntries inner count))]

/-- A directory that can be reached through a link whose own path is too long for the system. Beside
that link there is one to itself. -/
def deepLinks : Entries :=
  deepEntries [(longName 'b', .link "/x"), ("x", .link "x")] 15 ++
    ([("k", .link (Path.absolute (List.replicate 15 (longName 'a'))).toText),
      ("x", .directory [(fileName, .file (Utf8.encode "{}"))])] : Entries)

theorem wellFormed_deepLinks : Node.entriesWellFormed deepLinks = true := by
  decide +kernel

def deepLinksSession : Session where
  files := ⟨deepLinks, [], wellFormed_deepLinks⟩
  temporary := .absolute ["tmp"]
  stamp := "1"

/-- The long link is followed to an existing directory with a manifest, but left in the canonical
form, so that what comes after it leads to the other link. -/
theorem deep_link_ends_search :
    deepLinksSession.files.locate .named (.absolute ["k", longName 'b', parentPart, "x"]) =
      .ok ["x"] ∧
    deepLinksSession.files.find? ["x"] =
      some (.directory [(fileName, .file (Utf8.encode "{}"))]) ∧
    ∃ failure, (findRoot (.absolute ["k", longName 'b', parentPart, "x"])).gives deepLinksSession =
      .error failure := by
  have hring : deepLinksSession.files.resolve (.absolute ["k", longName 'b', parentPart, "x"]) =
      .error (.ring (.absolute (List.replicate 15 (longName 'a') ++ [("x" : Text)]))) := by
    decide +kernel
  have hfails : (Action.resolve (.absolute ["k", longName 'b', parentPart, "x"])).gives
      deepLinksSession = .error (.ofResolveFault (.ring (.absolute
        (List.replicate 15 (longName 'a') ++ [("x" : Text)])))) := by
    rw [gives_resolve, hring]
  exact ⟨by decide +kernel, rfl, _, gives_bind_of_error hfails⟩

end Manifest
end ProjectLint
