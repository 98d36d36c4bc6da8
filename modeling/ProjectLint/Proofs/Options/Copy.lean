import ProjectLint.Proofs.FileSystem.Deposit
import ProjectLint.Proofs.FileSystem.Frame
import ProjectLint.Proofs.Json.Document
import ProjectLint.Proofs.Options.ParserFile

/-!
The copy of a configuration file in the temporary directory. Main statements: a copy that was
written is read as the fields of its source with the parser set, and writing a copy leaves the other
entries of the directory alone.
-/

namespace ProjectLint

open ProjectLint.Action FileSystem

/-- Sessions on one host with one temporary directory. -/
structure Session.SameSystem (s t : Session) : Prop where
  temporary : t.temporary = s.temporary
  host : t.host = s.host

namespace ParserFile

/-- The name under which a copy is written first. -/
def partialName (session : Session) (name : Text) : Text :=
  name ++ session.stamp ++ (".partial" : Text)

theorem goesIn_of_long {name : Text} (h : 2 < name.length) : GoesIn name := by
  refine ⟨?_, ?_, ?_⟩
  · rintro rfl
    exact absurd h (by decide)
  · rintro rfl
    exact absurd h (by decide)
  · rintro rfl
    exact absurd h (by decide)

theorem goesIn_partialName (session : Session) (name : Text) :
    GoesIn (partialName session name) := by
  have hlength : ((".partial" : Text) : Text).length = 8 := rfl
  refine goesIn_of_long ?_
  simp only [partialName, List.length_append, hlength]
  omega

theorem leadsDown_copyName (parser : Text) : leadsDown (copyName parser) = true := by
  have hlength : 2 < (copyName parser).length := by
    have hprefix : ((".eslintrc-" : Text) : Text).length = 10 := rfl
    simp only [copyName, List.length_append, hprefix]
    omega
  obtain ⟨hne, hself, hparent⟩ := goesIn_of_long hlength
  have hslash : .scalar '/' ∉ copyName parser := by
    rw [copyName, List.mem_append, not_or]
    refine ⟨by decide, fun hmem => ?_⟩
    obtain ⟨c, -, hc⟩ := List.mem_map.1 hmem
    split at hc
    next => cases hc
    next h =>
      simp only [Bool.or_eq_true, decide_eq_true_eq, not_or] at h
      exact h.1.2 hc
  simp [leadsDown, hne, hself, hparent, hslash]

theorem goesIn_of_leadsDown {name : Text} (h : leadsDown name = true) : GoesIn name := by
  simp only [leadsDown, Bool.and_eq_true, bne_iff_ne] at h
  exact ⟨h.1.1.1, h.1.1.2, h.1.2⟩

theorem exists_move_of_ok {name : Text} {content : Utf8.Bytes} {s t : Session} {goal : Path}
    (h : writeAtomically name content s = .ok goal t) :
    ∃ files moved, s.files.writeFile (partialPath s name) content = .ok files ∧
      files.move (partialPath s name) (s.temporary.child name) = .ok moved ∧
      goal = s.temporary.child name ∧ t = { s with files := moved } := by
  obtain ⟨_, hfail⟩ | ⟨files, hwrite, ⟨_, hfail⟩ | ⟨moved, hmove, hdone⟩⟩ :=
    writeAtomically_cases name content s
  · cases hfail.symm.trans h
  · cases hfail.symm.trans h
  · cases hdone.symm.trans h
    exact ⟨files, moved, hwrite, hmove, rfl, rfl⟩

theorem exists_write_of_error {name : Text} {content : Utf8.Bytes} {s t : Session}
    {failure : Failure} (h : writeAtomically name content s = .error failure t) :
    t = s ∨ ∃ files, s.files.writeFile (partialPath s name) content = .ok files ∧
      t = { s with files } := by
  obtain ⟨_, hfail⟩ | ⟨files, hwrite, ⟨_, hfail⟩ | ⟨_, -, hdone⟩⟩ :=
    writeAtomically_cases name content s
  · cases hfail.symm.trans h
    exact Or.inl rfl
  · cases hfail.symm.trans h
    exact Or.inr ⟨files, hwrite, rfl⟩
  · cases hdone.symm.trans h

section Write

variable {place : Place} {s t : Session} {name : Text} {content : Utf8.Bytes}
  (hstands : s.files.StandsFor s.temporary place)
  (hfree : s.files.find? (place ++ [(partialName s name).asName]) = none)

include hstands hfree in
/-- A file that is written by way of another one is the only entry that changes, and nothing else in
the tree does. -/
theorem writeAtomically_eq_ok {goal : Path} (hdown : leadsDown name = true)
    (h : writeAtomically name content s = .ok goal t) :
    goal = s.temporary.child name ∧ Fits s.temporary name ∧
      ∃ files, t = { s with files } ∧ ChangedIn place s.files files ∧
        (∀ other, other ≠ place ++ [name.asName] →
          files.surface? other = s.files.surface? other) ∧
        ∀ other, files.find? (place ++ [other]) =
          if other = name.asName then some (.file content)
          else s.files.find? (place ++ [other]) := by
  obtain ⟨files, moved, hwrite, hmove, rfl, rfl⟩ := exists_move_of_ok h
  have hpartial := goesIn_partialName s name
  obtain ⟨hfiles, hfits⟩ := writeFile_eq_ok hstands hpartial hfree hwrite
  have hchanged : ChangedIn place s.files files := hfiles ▸ .put .refl _ content
  have hafter := hstands.changed hchanged
  have hput : ∀ other, files.find? (place ++ [other]) =
      if other = (partialName s name).asName ∧ isEntryName (partialName s name).asName = true
      then some (.file content) else s.files.find? (place ++ [other]) := fun other =>
    hfiles ▸ find?_put content hstands.directory
  have hfile : ∀ node, files.find? (place ++ [(partialName s name).asName]) = some node →
      node = .file content := by
    intro node hnode
    rw [hput] at hnode
    split at hnode
    next => exact (Option.some.inj hnode).symm
    next => simp [hfree] at hnode
  obtain ⟨-, hfitsGoal, hkind, rfl⟩ :=
    move_eq_ok hafter hpartial (goesIn_of_leadsDown hdown) hfits hfile hmove
  have hentry := isEntryName_of_fits hfitsGoal hdown
  have hrest := hasDirectory_remove (partialName s name).asName hafter.directory
  have hfind : ∀ other, ((files.remove (place ++ [(partialName s name).asName])).put
      (.file content) (place ++ [name.asName])).find? (place ++ [other]) =
        if other = name.asName then some (.file content)
        else s.files.find? (place ++ [other]) := by
    intro other
    rw [find?_put content hrest, find?_remove hafter.directory, hput]
    by_cases hgoal : other = name.asName
    · rw [if_pos ⟨hgoal, hentry⟩, if_pos hgoal]
    · rw [if_neg fun h => hgoal h.1, if_neg hgoal]
      by_cases hother : other = (partialName s name).asName
      · rw [if_pos hother, hother, hfree]
      · rw [if_neg hother, if_neg fun h => hother h.1]
  refine ⟨rfl, hfitsGoal, _, rfl, (hchanged.remove _).put _ content, fun other hother => ?_, hfind⟩
  have hgone : (files.remove (place ++ [(partialName s name).asName])).find?
      (place ++ [(partialName s name).asName]) = none := by
    rw [find?_remove hafter.directory, if_pos rfl]
  exact surface?_moved (by rw [hfiles]) rfl hfree hgone hkind (by rw [hfind, if_pos rfl]) hother

include hstands hfree in
/-- A file that could not be written leaves the entries of the directory alone. -/
theorem writeAtomically_eq_error {failure : Failure}
    (h : writeAtomically name content s = .error failure t) :
    ∃ files, t = { s with files } ∧ ChangedIn place s.files files ∧
      ∀ other, s.files.find? (place ++ [other]) ≠ none →
        files.find? (place ++ [other]) = s.files.find? (place ++ [other]) := by
  cases exists_write_of_error h with
  | inl heq => exact ⟨s.files, heq, .refl, fun _ _ => rfl⟩
  | inr hwrite =>
      obtain ⟨files, hwrite, rfl⟩ := hwrite
      obtain ⟨rfl, -⟩ := writeFile_eq_ok hstands (goesIn_partialName s name) hfree hwrite
      refine ⟨_, rfl, .put .refl _ content, fun other hother => ?_⟩
      rw [find?_put content hstands.directory, if_neg]
      rintro ⟨rfl, -⟩
      exact hother hfree

end Write

theorem readConfig_eq_ok {path : Path} {s t : Session} {fields : Json.Fields} :
    readConfig path s = .ok fields t ↔
      s = t ∧ ∃ text, s.files.readText path = .ok text ∧
        Json.read (.nested s.host.nesting) text = .ok (.object fields) := by
  rw [readConfig, get_bind_apply, Session.document]
  cases htext : s.files.readText path with
  | error fault =>
      constructor
      · intro h
        rcases fault with (_ | _ | _) | _ <;> cases h
      · rintro ⟨-, text, htext, -⟩
        cases htext
  | ok text =>
      simp only [Except.ok.injEq, exists_eq_left']
      simp only [Except.map]
      cases hjson : Json.read (.nested s.host.nesting) text with
      | error fault =>
          constructor
          · intro h
            cases fault <;> cases h
          · rintro ⟨-, h⟩
            cases h
      | ok value =>
          cases value with
          | object found =>
              refine pure_eq_ok.trans ?_
              rw [Except.ok.injEq, Json.object.injEq]
              exact and_comm
          | null | bool _ | int _ | float _ | string _ | array _ =>
              constructor
              · intro h
                cases h
              · rintro ⟨-, h⟩
                cases h

/-- The fields of a copy. -/
def copyFields (parser : Text) (fields : Json.Fields) : Json.Fields :=
  Json.Fields.set "parser" (.string parser) fields

/-- The content of a file with some fields. -/
def contentOf (fields : Json.Fields) : Utf8.Bytes :=
  Utf8.encode (Json.object fields).write

/-- Fields that a configuration file can have where values may be nested to some depth. -/
def IsConfig (nesting : Nat) (fields : Json.Fields) : Prop :=
  Json.Readable (Json.Limits.nested nesting).digits nesting (.object fields)

/-- A parser that is a part of a file name can be written and read. -/
theorem unpaired_of_fits {path : Path} {parser : Text} (h : Fits path (copyName parser)) :
    Json.Unpaired parser := by
  refine Json.unpaired_of_not_high fun c hc => ?_
  cases hhigh : Json.isHighHalf c.toNat with
  | false => rfl
  | true =>
      simp only [Json.isHighHalf, Bool.and_eq_true, decide_eq_true_eq] at hhigh
      have hkept : ∀ d : CodePoint, d.toNat < 0xD800 → c ≠ d := by
        rintro d hd rfl
        omega
      have hsafe : c ∈ copyName parser := by
        refine List.mem_append_right _ (List.mem_map.2 ⟨c, hc, ?_⟩)
        rw [if_neg]
        simp only [Bool.or_eq_true, decide_eq_true_eq, not_or]
        exact ⟨⟨hkept _ (by decide), hkept _ (by decide)⟩, hkept _ (by decide)⟩
      have hpart : copyName parser ∈ (path.child (copyName parser)).parts :=
        List.mem_append_right _ (List.mem_singleton_self _)
      refine absurd ⟨hhigh.1, by omega, ?_⟩
        (checkSpelling_eq_ok.1 h.spelled c (Path.mem_toText hpart hsafe)).1
      rw [CodePoint.rawByte?, if_neg]
      simp only [Bool.and_eq_true, decide_eq_true_eq]
      omega

theorem isConfig_of_readConfig {path : Path} {s t : Session} {fields : Json.Fields}
    (h : readConfig path s = .ok fields t) : IsConfig s.host.nesting fields := by
  obtain ⟨-, text, htext, hjson⟩ := readConfig_eq_ok.1 h
  exact Json.readable_of_read (isScalar_readText htext) hjson

theorem isConfig_copyFields {nesting : Nat} {path : Path} {parser : Text} {fields : Json.Fields}
    (h : IsConfig nesting fields) (hfits : Fits path (copyName parser)) :
    IsConfig nesting (copyFields parser fields) := by
  have hname : Json.Unpaired ("parser" : Text) := Json.unpaired_of_not_high (by decide)
  exact Json.readable_set h hname (unpaired_of_fits hfits)

theorem readConfig_child {place : Place} {path : Path} {name : Text} {fields : Json.Fields}
    {s : Session} (hstands : s.files.StandsFor path place) (hname : GoesIn name)
    (hfits : Fits path name) (hconfig : IsConfig s.host.nesting fields)
    (h : s.files.find? (place ++ [name.asName]) = some (.file (contentOf fields))) :
    readConfig (path.child name) s = .ok fields s := by
  obtain ⟨htext, hjson⟩ := readText_write hconfig (readBytes_child hstands hname hfits h)
  exact readConfig_eq_ok.2 ⟨rfl, _, htext, hjson⟩

section Copy

variable {place : Place} {s t : Session} {source : Path} {parser : Text}
  (hstands : s.files.StandsFor s.temporary place)
  (hfree : s.files.find? (place ++ [(partialName s (copyName parser)).asName]) = none)

include hstands hfree in
theorem write_eq_ok {goal : Path} (h : write source parser s = .ok goal t) :
    ∃ fields, readConfig source s = .ok fields s ∧ goal = s.temporary.child (copyName parser) ∧
      (∀ other, other ≠ place ++ [(copyName parser).asName] →
        t.files.surface? other = s.files.surface? other) ∧
      Fits s.temporary (copyName parser) ∧ s.SameSystem t ∧
      ChangedIn place s.files t.files ∧
      ∀ other, t.files.find? (place ++ [other]) =
        if other = (copyName parser).asName then some (.file (contentOf (copyFields parser fields)))
        else s.files.find? (place ++ [other]) := by
  obtain ⟨fields, u, hread, h⟩ := bind_eq_ok.1 h
  obtain ⟨rfl, -⟩ := readConfig_eq_ok.1 hread
  obtain ⟨path, v, hwrite, h⟩ := bind_eq_ok.1 h
  obtain ⟨_, w, hnote, h⟩ := bind_eq_ok.1 h
  obtain ⟨rfl, rfl⟩ := pure_eq_ok.1 h
  obtain ⟨hgoal, hfits, files, rfl, hchanged, hframe, hfind⟩ :=
    writeAtomically_eq_ok hstands hfree (leadsDown_copyName parser) hwrite
  obtain rfl := note_eq_ok.1 hnote
  exact ⟨fields, hread, hgoal, hframe, hfits, ⟨rfl, rfl⟩, hchanged, hfind⟩

include hstands hfree in
theorem write_eq_error {failure : Failure} (h : write source parser s = .error failure t) :
    s.SameSystem t ∧ ChangedIn place s.files t.files ∧
      ∀ other, s.files.find? (place ++ [other]) ≠ none →
        t.files.find? (place ++ [other]) = s.files.find? (place ++ [other]) := by
  cases bind_eq_error.1 h with
  | inl hread =>
      obtain ⟨notes, rfl⟩ := (observes_readConfig source).session_eq_of_error hread
      exact ⟨⟨rfl, rfl⟩, .refl, fun _ _ => rfl⟩
  | inr hrest =>
      obtain ⟨fields, u, hread, hrest⟩ := hrest
      obtain ⟨rfl, -⟩ := readConfig_eq_ok.1 hread
      cases bind_eq_error.1 hrest with
      | inl hwrite =>
          obtain ⟨files, rfl, hchanged, hfind⟩ := writeAtomically_eq_error hstands hfree hwrite
          exact ⟨⟨rfl, rfl⟩, hchanged, hfind⟩
      | inr hnote =>
          obtain ⟨path, v, -, hnote⟩ := hnote
          cases bind_eq_error.1 hnote with
          | inl hnote => cases hnote
          | inr hpure =>
              obtain ⟨_, w, -, hpure⟩ := hpure
              cases hpure

end Copy

end ParserFile

/-- Whether a copy can be made of a configuration file: the path of the temporary directory stands
for a directory, and nothing is there under a name that a copy is written under first. -/
structure Session.TakesCopies (s : Session) (place : Place) : Prop where
  stands : s.files.StandsFor s.temporary place
  free : ∀ parser, s.files.find? (place ++
    [(ParserFile.partialName s (ParserFile.copyName parser)).asName]) = none

namespace LintOptions

open ParserFile

variable {config engine : EngineConfig} {setting : Setting} {place : Place} {s t : Session}

/-- A parser leaves the session as it is, or it is a text that a copy was written for. -/
theorem withParser_eq_ok (hcopies : s.TakesCopies place)
    (h : withParser config setting s = .ok engine t) :
    (t = s ∧ ∀ parser, setting = .text parser → parser = [] ∨ config.configFile = none) ∨
      ∃ parser source fields, setting = .text parser ∧ parser ≠ [] ∧
        config.configFile = some source ∧ readConfig source s = .ok fields s ∧
        engine = { config with configFile := some (s.temporary.child (copyName parser)) } ∧
        Fits s.temporary (copyName parser) ∧ s.SameSystem t ∧
        ChangedIn place s.files t.files ∧
        ∀ other, t.files.find? (place ++ [other]) =
          if other = (copyName parser).asName then
            some (.file (contentOf (copyFields parser fields)))
          else s.files.find? (place ++ [other]) := by
  rw [withParser] at h
  split at h
  next hblank =>
    refine Or.inl ⟨(pure_eq_ok.1 h).2.symm, fun parser hparser => Or.inl ?_⟩
    rw [hparser] at hblank
    exact List.isEmpty_iff.1 hblank
  next hblank =>
    rw [choose] at h
    cases hsource : config.configFile with
    | none =>
        rw [hsource] at h
        exact Or.inl ⟨(pure_eq_ok.1 h).2.symm, fun _ _ => Or.inr rfl⟩
    | some source =>
        rw [hsource] at h
        obtain ⟨goal, u, hwrite, h⟩ := bind_eq_ok.1 h
        obtain ⟨hengine, rfl⟩ := pure_eq_ok.1 h
        cases setting with
        | unset | other _ =>
            obtain ⟨_, _, -, hthrow⟩ := bind_eq_ok.1 hwrite
            cases hthrow
        | text parser =>
            obtain ⟨fields, hread, hgoal, -, hrest⟩ :=
              write_eq_ok hcopies.stands (hcopies.free parser) hwrite
            have hne : parser ≠ [] := fun hnil => hblank (List.isEmpty_iff.2 hnil)
            rw [hgoal] at hengine
            exact Or.inr ⟨parser, source, fields, rfl, hne, rfl, hread, hengine.symm, hrest⟩

theorem withParser_eq_error {failure : Failure} (hcopies : s.TakesCopies place)
    (h : withParser config setting s = .error failure t) :
    s.SameSystem t ∧ ChangedIn place s.files t.files ∧
      ∀ other, s.files.find? (place ++ [other]) ≠ none →
        t.files.find? (place ++ [other]) = s.files.find? (place ++ [other]) := by
  rw [withParser] at h
  split at h
  next => cases h
  next =>
    rw [choose] at h
    cases hsource : config.configFile with
    | none =>
        rw [hsource] at h
        cases h
    | some source =>
        rw [hsource] at h
        cases bind_eq_error.1 h with
        | inr hpure =>
            obtain ⟨_, _, -, hpure⟩ := hpure
            cases hpure
        | inl hwrite =>
            cases setting with
            | text parser => exact write_eq_error hcopies.stands (hcopies.free parser) hwrite
            | unset | other _ =>
                cases bind_eq_error.1 hwrite with
                | inl hread =>
                    obtain ⟨notes, rfl⟩ := (observes_readConfig source).session_eq_of_error hread
                    exact ⟨⟨rfl, rfl⟩, .refl, fun _ _ => rfl⟩
                | inr hthrow =>
                    obtain ⟨_, u, hread, hthrow⟩ := hthrow
                    obtain ⟨rfl, -⟩ := readConfig_eq_ok.1 hread
                    cases hthrow
                    exact ⟨⟨rfl, rfl⟩, .refl, fun _ _ => rfl⟩

end LintOptions
end ProjectLint
