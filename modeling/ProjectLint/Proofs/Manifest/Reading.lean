import ProjectLint.Proofs.FileSystem.Follow
import ProjectLint.Proofs.Json.Document
import ProjectLint.Proofs.Json.Limits
import ProjectLint.Proofs.Options.Gather

/-!
What the files of a project say. A manifest that cannot be read as an object says no more than one
with no fields, and an ignore file that cannot be read as text no more than a missing one. Main
statements: the root and the block of a project are what these readings give, and looking for the
block fails only at a manifest that goes beyond the limits of the reader. Two file systems are
compared by what their manifests and ignore files say.
-/

namespace ProjectLint

open ProjectLint.Action

namespace Path

theorem of_mem_ancestors {p directory : Path} (h : directory ∈ p.ancestors) :
    directory.anchor = p.anchor ∧ List.IsPrefix directory.parts p.parts := by
  have hgo : ∀ count (q : Path), directory ∈ ancestors.go count q →
      directory.anchor = q.anchor ∧ List.IsPrefix directory.parts q.parts := by
    intro count
    induction count with
    | zero =>
        intro q hq
        rw [List.mem_singleton.1 hq]
        exact ⟨rfl, List.prefix_rfl⟩
    | succ count ih =>
        intro q hq
        rcases List.mem_cons.1 hq with rfl | hq
        · exact ⟨rfl, List.prefix_rfl⟩
        · obtain ⟨hanchor, hparts⟩ := ih q.parent hq
          exact ⟨hanchor, hparts.trans (List.dropLast_prefix q.parts)⟩
  exact hgo p.parts.length p h

end Path

namespace FileSystem

variable {fs : FileSystem} {path : Path} (hspelled : checkSpelling path.toText = .ok ())

include hspelled

/-- All that the system does with a path that can be spelled is to follow or to refuse it. -/
theorem refused_of_locate {aim : Aim} {fault : PathFault} (h : fs.locate aim path = .error fault) :
    ∃ errno, fault = .refused errno := by
  rw [locate, spot, hspelled] at h
  simp only at h
  by_cases hlong : isTooLong path.toText = true
  · rw [if_pos hlong] at h
    cases h
    exact ⟨_, rfl⟩
  · rw [if_neg hlong] at h
    cases hfollow : fs.follow aim maxLinks (if path.isAbsolute then [] else fs.directory)
        path.parts with
    | error errno =>
        simp only [hfollow, Except.error.injEq] at h
        exact ⟨_, h.symm⟩
    | ok spot =>
        cases spot with
        | taken place => simp [hfollow] at h
        | free place =>
            simp only [hfollow, Except.error.injEq] at h
            exact ⟨_, h.symm⟩

theorem refused_of_readText {fault : PathFault} (h : fs.readText path = .error (.path fault)) :
    ∃ errno, fault = .refused errno := by
  rw [readText, readBytes, node?] at h
  cases hlocate : fs.locate .named path with
  | error other =>
      simp only [hlocate, Except.error.injEq, TextFault.path.injEq] at h
      exact h ▸ refused_of_locate hspelled hlocate
  | ok place =>
      cases hfind : fs.find? place with
      | none =>
          simp only [hlocate, hfind, Except.error.injEq, TextFault.path.injEq] at h
          exact ⟨_, h.symm⟩
      | some node =>
          cases node with
          | file content =>
              simp only [hlocate, hfind] at h
              split at h <;> cases h
          | link _ | directory _ =>
              simp only [hlocate, hfind, Except.error.injEq, TextFault.path.injEq] at h
              exact ⟨_, h.symm⟩

end FileSystem

namespace Manifest

section Reading

variable (fs : FileSystem) (nesting : Nat) (directory : Path)

/-- Whether a manifest stands in a directory. One that cannot be checked does not count. -/
def standsIn : Bool :=
  match fs.isFile (directory.child fileName) with
  | .ok found => found
  | .error _ => false

/-- The fields of the manifest in a directory; there are none if it cannot be read as an object. -/
def fieldsIn : Json.Fields :=
  match fs.readText (directory.child fileName) with
  | .error _ => []
  | .ok text =>
      match Json.read (.nested nesting) text with
      | .ok (.object fields) => fields
      | _ => []

/-- Whether a fault is that a document goes beyond the limits of the reader. -/
def IsLimit (fault : Json.Fault) : Prop :=
  fault = .tooManyDigits ∨ fault = .tooDeep

/-- Whether the manifest in a directory goes beyond the limits of the reader. -/
def ExceedsIn : Prop :=
  ∃ text fault, fs.readText (directory.child fileName) = .ok text ∧
    Json.read (.nested nesting) text = .error fault ∧ IsLimit fault

/-- The block for a command of the manifest in a directory. -/
def blockIn (command : Text) : Option Block :=
  if standsIn fs directory then
    match (fieldsIn fs nesting directory).get? command with
    | some (.object fields) => some (.ofFields fields)
    | _ => none
  else none

/-- The block for a command of the first manifest in some directories that has one. -/
def nearestBlock (directories : List Path) (command : Text) : Option Block :=
  directories.findSome? fun directory => blockIn fs nesting directory command

/-- The first manifest in some directories that has a block for a command, with that block. -/
def nearestManifest (directories : List Path) (command : Text) : Option (Path × Block) :=
  directories.findSome? fun directory =>
    (blockIn fs nesting directory command).map fun block => (directory.child fileName, block)

/-- The patterns of the ignore file in a directory; there are none if it cannot be read as text. -/
def linesIn : List Text :=
  match fs.readText (directory.child ignoreFileName) with
  | .error _ => []
  | .ok text => IgnoreFile.patterns text

end Reading

/-- Whether the search for a block among some directories comes to the manifest in one of them. -/
def Consults (fs : FileSystem) (nesting : Nat) (command : Text) (directories : List Path)
    (directory : Path) : Prop :=
  ∃ before after, directories = before ++ directory :: after ∧
    (∀ other ∈ before, blockIn fs nesting other command = none) ∧ standsIn fs directory = true

variable {fs : FileSystem} {nesting : Nat} {directory : Path} {directories : List Path}
  {command : Text}

theorem givesFrom_exists? :
    GivesFrom fs nesting (exists? (directory.child fileName)) (.ok (standsIn fs directory)) := by
  rintro s rfl -
  rw [standsIn]
  rw [exists?, gives, get_bind_apply]
  cases s.files.isFile (directory.child fileName) <;> rfl

theorem givesFrom_firstRoot? :
    GivesFrom fs nesting (firstRoot? directories) (.ok (directories.find? (standsIn fs))) := by
  induction directories with
  | nil => exact fun _ _ _ => rfl
  | cons directory rest ih =>
      refine givesFrom_bind (observes_exists? _) givesFrom_exists? ?_
      cases hstands : standsIn fs directory with
      | true =>
          rw [List.find?_cons_of_pos hstands]
          exact fun _ _ _ => rfl
      | false =>
          rw [List.find?_cons_of_neg (by simp [hstands])]
          exact ih

theorem standsIn_eq_true :
    standsIn fs directory = true ↔ fs.isFile (directory.child fileName) = .ok true := by
  rw [standsIn]
  cases fs.isFile (directory.child fileName) <;> simp

/-- The path of a manifest that stands in a directory can be spelled. -/
theorem checkSpelling_of_standsIn (h : standsIn fs directory = true) :
    checkSpelling (directory.child fileName).toText = .ok () := by
  obtain ⟨content, hnode⟩ := FileSystem.isFile_eq_true.1 (standsIn_eq_true.1 h)
  obtain ⟨place, hplace, -⟩ := FileSystem.node?_eq_ok.1 hnode
  exact FileSystem.checkSpelling_of_locate hplace

theorem map_nearestManifest :
    (nearestManifest fs nesting directories command).map (·.2) =
      nearestBlock fs nesting directories command := by
  rw [nearestManifest, nearestBlock, List.map_findSome?]
  refine congrArg (directories.findSome? ·) (funext fun directory => ?_)
  rw [Function.comp_apply, Option.map_map]
  exact Option.map_id'

/-- The root that is found is the first directory with a manifest, going up from the start. -/
theorem root_of_findRoot {start canonical : Path} {s t : Session} {root : Option Path}
    (hstart : s.files.resolve start = .ok canonical) (h : findRoot start s = .ok root t) :
    root = canonical.ancestors.find? (standsIn s.files) := by
  obtain ⟨found, u, hfound, h⟩ := bind_eq_ok.1 h
  obtain ⟨hresolve, rfl⟩ := resolve_eq_ok.1 hfound
  cases hstart.symm.trans hresolve
  have hgives : (firstRoot? canonical.ancestors).gives s = .ok _ := givesFrom_firstRoot? s rfl rfl
  rw [gives, h] at hgives
  exact Except.ok.inj hgives

/-- What the reading of a manifest comes to. -/
theorem gives_read (path : Path) (s : Session) : (read path).gives s =
    match s.document path with
    | .error (.path (.refused _)) | .error (.undecodable _) => .ok none
    | .error (.path fault) => .error (.spelling fault)
    | .ok (.error (.malformed _ _ _ _)) => .ok none
    | .ok (.error fault) => .error (.unloadable fault)
    | .ok (.ok (.object fields)) => .ok (some fields)
    | .ok (.ok _) => .ok none := by
  rw [read, gives, get_bind_apply]
  rcases s.document path with (((_ | _ | _) | _) | ((_ | _ | _) | value))
  any_goals rfl
  cases value <;> rfl

/-- The document in a file is read from its text. -/
theorem document_of_readText {s : Session} {path : Path} {text : Text} (hs : s.files = fs)
    (hnesting : s.host.nesting = nesting) (htext : fs.readText path = .ok text) :
    s.document path = .ok (Json.read (.nested nesting) text) := by
  rw [Session.document, hs, hnesting, htext]
  rfl

/-- A manifest that can be spelled is read or counts as having no fields, unless it goes beyond the
limits of the reader. -/
theorem givesFrom_read (hspelled : checkSpelling (directory.child fileName).toText = .ok ())
    (hlimits : ¬ExceedsIn fs nesting directory) :
    ∃ fields, GivesFrom fs nesting (read (directory.child fileName)) (.ok fields) ∧
      fields.getD [] = fieldsIn fs nesting directory := by
  rw [fieldsIn]
  cases htext : fs.readText (directory.child fileName) with
  | error fault =>
      refine ⟨none, fun s hs _ => ?_, rfl⟩
      rw [gives_read, Session.document, hs, htext]
      cases fault with
      | path fault =>
          obtain ⟨errno, rfl⟩ := FileSystem.refused_of_readText hspelled htext
          rfl
      | undecodable fault => rfl
  | ok text =>
      have hdocument : ∀ s : Session, s.files = fs → s.host.nesting = nesting →
          s.document (directory.child fileName) = .ok (Json.read (.nested nesting) text) :=
        fun s hs hnesting => document_of_readText hs hnesting htext
      simp only
      cases hjson : Json.read (.nested nesting) text with
      | error fault =>
          cases fault with
          | malformed defect line column offset =>
              exact ⟨none, fun s hs hn => by simp only [gives_read, hdocument s hs hn, hjson], rfl⟩
          | tooManyDigits => exact absurd ⟨text, _, htext, hjson, Or.inl rfl⟩ hlimits
          | tooDeep => exact absurd ⟨text, _, htext, hjson, Or.inr rfl⟩ hlimits
      | ok value =>
          cases value with
          | object fields =>
              exact ⟨some fields,
                fun s hs hn => by simp only [gives_read, hdocument s hs hn, hjson], rfl⟩
          | null | bool _ | int _ | float _ | string _ | array _ =>
              exact ⟨none, fun s hs hn => by simp only [gives_read, hdocument s hs hn, hjson], rfl⟩

theorem givesFrom_read_of_exceeds (h : ExceedsIn fs nesting directory) :
    ∃ fault, IsLimit fault ∧
      GivesFrom fs nesting (read (directory.child fileName)) (.error (.unloadable fault)) := by
  obtain ⟨text, fault, htext, hjson, hlimit⟩ := h
  refine ⟨fault, hlimit, fun s hs hnesting => ?_⟩
  simp only [gives_read, document_of_readText hs hnesting htext, hjson]
  rcases hlimit with rfl | rfl <;> rfl

/-- A manifest with few brackets and digits does not go beyond the limits. -/
theorem not_exceedsIn_of_spares (h : ∀ text, fs.readText (directory.child fileName) = .ok text →
    (Json.Limits.nested nesting).Spares text) : ¬ExceedsIn fs nesting directory := by
  rintro ⟨text, fault, htext, hread, hlimit⟩
  have hscalar := FileSystem.isScalar_readText htext
  rcases (h text htext).read_eq hscalar with ⟨v, hv⟩ | ⟨_, _, _, _, hmalformed⟩
  · cases hv.symm.trans hread
  · cases hmalformed.symm.trans hread
    rcases hlimit with h | h <;> cases h

theorem Consults.mem (h : Consults fs nesting command directories directory) :
    directory ∈ directories := by
  obtain ⟨before, after, rfl, -⟩ := h
  simp

theorem Consults.cons {other : Path} (hother : blockIn fs nesting other command = none)
    (h : Consults fs nesting command directories directory) :
    Consults fs nesting command (other :: directories) directory := by
  obtain ⟨before, after, rfl, hbefore, hstands⟩ := h
  exact ⟨other :: before, after, rfl, List.forall_mem_cons.2 ⟨hother, hbefore⟩, hstands⟩

/-- What the first directory contributes to a search if its manifest can be read or skipped. -/
theorem givesFrom_firstBlock?_cons
    (hlimits : standsIn fs directory = true → ¬ExceedsIn fs nesting directory)
    {result : Except Failure (Option (Path × Block))}
    (hblock : ∀ block, blockIn fs nesting directory command = some block →
      result = .ok (some (directory.child fileName, block)))
    (hrest : blockIn fs nesting directory command = none →
      GivesFrom fs nesting (firstBlock? command directories) result) :
    GivesFrom fs nesting (firstBlock? command (directory :: directories)) result := by
  rw [blockIn] at hblock hrest
  refine givesFrom_bind (observes_exists? _) givesFrom_exists? ?_
  cases hstands : standsIn fs directory with
  | false => exact hrest (by rw [hstands]; rfl)
  | true =>
      obtain ⟨fields, hread, hfields⟩ :=
        givesFrom_read (checkSpelling_of_standsIn hstands) (hlimits hstands)
      rw [hstands, ← hfields] at hblock hrest
      refine givesFrom_bind (observes_read _) hread ?_
      cases fields with
      | none => exact hrest rfl
      | some fields =>
          simp only [Option.bind_some, Option.getD_some, if_true] at hblock hrest ⊢
          cases hget : Json.Fields.get? command fields with
          | none =>
              rw [hget] at hrest
              exact hrest rfl
          | some value =>
              rw [hget] at hblock hrest
              cases value with
              | object inner =>
                  rw [hblock _ rfl]
                  exact fun _ _ _ => rfl
              | null | bool _ | int _ | float _ | string _ | array _ => exact hrest rfl

/-- A search that comes to no manifest beyond the limits finds the first block. -/
theorem givesFrom_firstBlock?
    (hlimits : ∀ other, Consults fs nesting command directories other →
      ¬ExceedsIn fs nesting other) :
    GivesFrom fs nesting (firstBlock? command directories)
      (.ok (nearestManifest fs nesting directories command)) := by
  induction directories with
  | nil => exact fun _ _ _ => rfl
  | cons directory rest ih =>
      have hlimit : standsIn fs directory = true → ¬ExceedsIn fs nesting directory := fun hstands =>
        hlimits directory ⟨[], rest, rfl, by simp, hstands⟩
      rw [nearestManifest, List.findSome?_cons]
      cases hblock : blockIn fs nesting directory command with
      | some block =>
          refine givesFrom_firstBlock?_cons hlimit (fun other hother => ?_) fun hnone => ?_
          · cases hblock.symm.trans hother
            rfl
          · cases hblock.symm.trans hnone
      | none =>
          refine givesFrom_firstBlock?_cons hlimit (fun other hother => ?_) fun _ =>
            ih fun other hother => hlimits other (hother.cons hblock)
          cases hblock.symm.trans hother

theorem givesFrom_firstBlock?_of_exceeds {other : Path}
    (hother : Consults fs nesting command directories other)
    (hexceeds : ExceedsIn fs nesting other) :
    ∃ fault, IsLimit fault ∧
      GivesFrom fs nesting (firstBlock? command directories) (.error (.unloadable fault)) := by
  induction directories with
  | nil =>
      obtain ⟨before, after, hsplit, -, -⟩ := hother
      cases before <;> cases hsplit
  | cons directory rest ih =>
      -- The search may fail before it comes to `other`, but then for a limit as well.
      by_cases hfirst : standsIn fs directory = true ∧ ExceedsIn fs nesting directory
      · obtain ⟨fault, hlimit, hread⟩ := givesFrom_read_of_exceeds hfirst.2
        refine ⟨fault, hlimit, givesFrom_bind (observes_exists? _) givesFrom_exists? ?_⟩
        rw [hfirst.1]
        exact givesFrom_bind_of_error hread
      · -- The first manifest is read and has no block, so the search goes on above it.
        obtain ⟨before, after, hsplit, hbefore, hstands⟩ := hother
        cases before with
        | nil =>
            cases hsplit
            exact absurd ⟨hstands, hexceeds⟩ hfirst
        | cons first before =>
            cases hsplit
            obtain ⟨hblock, hbefore⟩ := List.forall_mem_cons.1 hbefore
            obtain ⟨fault, hlimit, hrest⟩ := ih ⟨before, after, rfl, hbefore, hstands⟩
            refine ⟨fault, hlimit, givesFrom_firstBlock?_cons
              (fun hstands hexceeds => hfirst ⟨hstands, hexceeds⟩) (fun other hother => ?_)
                fun _ => hrest⟩
            cases hblock.symm.trans hother

/-- The block that is found is that of the first directory with one, going up from the start. -/
theorem block_of_findBlock {start canonical : Path} {s t : Session}
    {found : Option (Path × Block)} (hstart : s.files.resolve start = .ok canonical)
    (h : findBlock command start s = .ok found t) :
    found = nearestManifest s.files s.host.nesting canonical.ancestors command := by
  obtain ⟨other, u, hother, h⟩ := bind_eq_ok.1 h
  obtain ⟨hresolve, rfl⟩ := resolve_eq_ok.1 hother
  cases hstart.symm.trans hresolve
  have hlimits : ∀ other, Consults s.files s.host.nesting command canonical.ancestors other →
      ¬ExceedsIn s.files s.host.nesting other := by
    intro other hconsults hexceeds
    obtain ⟨fault, -, hfails⟩ := givesFrom_firstBlock?_of_exceeds hconsults hexceeds
    have hgives := hfails s rfl rfl
    rw [gives, h] at hgives
    cases hgives
  have hgives := givesFrom_firstBlock? hlimits s rfl rfl
  rw [gives, h] at hgives
  exact Except.ok.inj hgives

theorem gives_readIgnoreFile (directory : Path) (s : Session) :
    (readIgnoreFile directory).gives s =
      match s.files.readText (directory.child ignoreFileName) with
      | .error (.path (.refused _)) | .error (.undecodable _) => .ok none
      | .error (.path fault) => .error (.spelling fault)
      | .ok text =>
          .ok (if (IgnoreFile.patterns text).isEmpty then none
            else some (IgnoreFile.patterns text)) := by
  rw [readIgnoreFile, gives, get_bind_apply]
  cases s.files.readText (directory.child ignoreFileName) with
  | error fault => rcases fault with (_ | _ | _) | _ <;> rfl
  | ok text => rfl

/-- An ignore file that can be spelled is read or counts as having no patterns. -/
theorem givesFrom_readIgnoreFile
    (hspelled : checkSpelling (directory.child ignoreFileName).toText = .ok ()) :
    ∃ lines, GivesFrom fs nesting (readIgnoreFile directory) (.ok lines) ∧
      lines.getD [] = linesIn fs directory := by
  rw [linesIn]
  cases htext : fs.readText (directory.child ignoreFileName) with
  | error fault =>
      refine ⟨none, fun s hs _ => ?_, rfl⟩
      rw [gives_readIgnoreFile, hs, htext]
      cases fault with
      | path fault =>
          obtain ⟨errno, rfl⟩ := FileSystem.refused_of_readText hspelled htext
          rfl
      | undecodable fault => rfl
  | ok text =>
      refine ⟨if (IgnoreFile.patterns text).isEmpty then none else some (IgnoreFile.patterns text),
        fun s hs _ => by simp only [gives_readIgnoreFile, hs, htext], ?_⟩
      simp only
      cases IgnoreFile.patterns text <;> rfl

theorem lines_of_readIgnoreFile {lines : Option (List Text)} {s t : Session}
    (h : readIgnoreFile directory s = .ok lines t) : lines.getD [] = linesIn s.files directory := by
  have hgives := gives_readIgnoreFile directory s
  rw [gives, h] at hgives
  rw [linesIn]
  cases htext : s.files.readText (directory.child ignoreFileName) with
  | error fault =>
      rw [htext] at hgives
      rcases fault with (_ | _ | _) | _ <;> cases hgives <;> rfl
  | ok text =>
      rw [htext] at hgives
      cases hgives
      simp only
      cases IgnoreFile.patterns text <;> rfl

section Comparison

variable (fs gs : FileSystem) (nesting : Nat) (directory : Path)

/-- Whether a manifest is the same in two file systems, or cannot be read as an object in the first
and is an object without fields in the second. -/
structure KeepsManifest : Prop where
  stands : standsIn gs directory = standsIn fs directory
  reads : gs.readText (directory.child fileName) = fs.readText (directory.child fileName) ∨
    (∀ text fields, fs.readText (directory.child fileName) = .ok text →
      Json.read (.nested nesting) text ≠ .ok (.object fields)) ∧
    ∃ text, gs.readText (directory.child fileName) = .ok text ∧
      Json.read (.nested nesting) text = .ok (.object [])

/-- Whether an ignore file is the same in two file systems, or cannot be read as text in the first
and is missing in the second. -/
def KeepsIgnoreFile : Prop :=
  gs.readText (directory.child ignoreFileName) = fs.readText (directory.child ignoreFileName) ∨
    (∃ fault, fs.readText (directory.child ignoreFileName) = .error fault) ∧
    gs.readText (directory.child ignoreFileName) = .error (.path (.refused .notFound))

end Comparison

variable {gs : FileSystem}

theorem blockIn_congr (hstands : standsIn gs directory = standsIn fs directory)
    (hfields : fieldsIn gs nesting directory = fieldsIn fs nesting directory) (command : Text) :
    blockIn gs nesting directory command = blockIn fs nesting directory command := by
  rw [blockIn, blockIn, hstands, hfields]

theorem KeepsManifest.fieldsIn_eq (h : KeepsManifest fs gs nesting directory) :
    fieldsIn gs nesting directory = fieldsIn fs nesting directory := by
  rw [fieldsIn, fieldsIn]
  rcases h.reads with hsame | ⟨hobject, hempty⟩
  · rw [hsame]
  · obtain ⟨empty, hempty, hnone⟩ := hempty
    rw [hempty]
    cases htext : fs.readText (directory.child fileName) with
    | error fault => simp only [hnone]
    | ok text =>
        simp only [hnone]
        split
        · next fields hread => exact absurd hread (hobject text fields htext)
        · rfl

theorem KeepsManifest.exceedsIn (h : KeepsManifest fs gs nesting directory)
    (hexceeds : ExceedsIn gs nesting directory) : ExceedsIn fs nesting directory := by
  obtain ⟨text, fault, htext, hread, hlimit⟩ := hexceeds
  rcases h.reads with hsame | ⟨-, empty, hempty, hnone⟩
  · exact ⟨text, fault, hsame ▸ htext, hread, hlimit⟩
  · cases hempty.symm.trans htext
    cases hnone.symm.trans hread

theorem KeepsIgnoreFile.linesIn_eq (h : KeepsIgnoreFile fs gs directory) :
    linesIn gs directory = linesIn fs directory := by
  rw [linesIn, linesIn]
  rcases h with hsame | ⟨⟨fault, hfault⟩, hmissing⟩
  · rw [hsame]
  · rw [hfault, hmissing]

/-- A search comes to the same manifests where all of them are kept. -/
theorem Consults.of_keeps
    (hkeeps : ∀ other ∈ directories, KeepsManifest fs gs nesting other)
    (h : Consults gs nesting command directories directory) :
    Consults fs nesting command directories directory := by
  obtain ⟨before, after, rfl, hbefore, hstands⟩ := h
  refine ⟨before, after, rfl, fun other hmem => ?_, ?_⟩
  · have hother := hkeeps other (by simp [hmem])
    rw [← blockIn_congr hother.stands hother.fieldsIn_eq, hbefore other hmem]
  · rw [← (hkeeps directory (by simp)).stands, hstands]

end Manifest
end ProjectLint
