import ProjectLint.Proofs.Manifest.Reading
import ProjectLint.Proofs.Options.Precedence

/-!
Rewriting a configuration file for a parser. Main statements: a file that cannot be used ends the
rewriting before anything is written, but with an error of the configuration only if its path can be
spelled, its bytes are UTF-8 and its text is within the limits of the reader; a file that was
rewritten is its source with the parser set, and nothing but its own entry in the temporary
directory has changed.
-/

namespace ProjectLint

open ProjectLint.Action FileSystem Manifest

namespace ParserFile

/-- Whether the text of a file is read as an object with some fields. -/
def HoldsObject (s : Session) (path : Path) (fields : Json.Fields) : Prop :=
  ∃ text, s.files.readText path = .ok text ∧
    Json.read (.nested s.host.nesting) text = .ok (.object fields)

/-- Whether what can be wrong with a configuration file is nothing but that there is no such file to
read, that its text is no JSON, or that it is no object. -/
structure Decodes (s : Session) (path : Path) : Prop where
  spelled : checkSpelling path.toText = .ok ()
  utf8 : ∀ bytes, s.files.readBytes path = .ok bytes → ∃ text, Utf8.decode bytes = .ok text
  within : ∀ text fault, s.files.readText path = .ok text →
    Json.read (.nested s.host.nesting) text = .error fault → ¬IsLimit fault

theorem readText_eq_undecodable {fs : FileSystem} {path : Path} {fault : Utf8.Fault} :
    fs.readText path = .error (.undecodable fault) ↔
      ∃ bytes, fs.readBytes path = .ok bytes ∧ Utf8.decode bytes = .error fault := by
  rw [readText]
  cases fs.readBytes path with
  | error _ => simp
  | ok bytes => cases hdecode : Utf8.decode bytes <;> simp [hdecode]

theorem exists_decode {fs : FileSystem} {path : Path} {bytes : Utf8.Bytes}
    (h : ∀ fault, fs.readText path ≠ .error (.undecodable fault))
    (hbytes : fs.readBytes path = .ok bytes) : ∃ text, Utf8.decode bytes = .ok text := by
  cases hdecode : Utf8.decode bytes with
  | ok text => exact ⟨text, rfl⟩
  | error fault => exact absurd (readText_eq_undecodable.2 ⟨bytes, hbytes, hdecode⟩) (h fault)

theorem readText_of_misspelled {fs : FileSystem} {path : Path} {fault : PathFault}
    (h : checkSpelling path.toText = .error fault) : fs.readText path = .error (.path fault) := by
  simp only [readText, readBytes, node?, locate, spot, h]

theorem ne_refused_of_misspelled {t : Text} {fault : PathFault} {errno : Errno}
    (h : checkSpelling t = .error fault) : fault ≠ .refused errno := by
  rintro rfl
  rw [checkSpelling] at h
  split at h
  next => cases h
  next => split at h <;> cases h

theorem spelled_of_readText {fs : FileSystem} {path : Path} {text : Text}
    (h : fs.readText path = .ok text) : checkSpelling path.toText = .ok () := by
  cases hspelled : checkSpelling path.toText with
  | ok _ => rfl
  | error fault =>
      rw [readText_of_misspelled hspelled] at h
      cases h

theorem decodes_of_refused {s : Session} {path : Path} {fault : TextFault}
    (h : s.files.readText path = .error fault) :
    Decodes s path ↔ ∃ errno, fault = .path (.refused errno) := by
  refine ⟨fun hdecodes => ?_, ?_⟩
  · cases fault with
    | undecodable fault =>
        obtain ⟨bytes, hbytes, hfault⟩ := readText_eq_undecodable.1 h
        obtain ⟨text, hdecode⟩ := hdecodes.utf8 bytes hbytes
        rw [hfault] at hdecode
        cases hdecode
    | path fault =>
        obtain ⟨errno, rfl⟩ := refused_of_readText hdecodes.spelled h
        exact ⟨errno, rfl⟩
  · rintro ⟨errno, rfl⟩
    have hdecoded : ∀ fault, s.files.readText path ≠ .error (.undecodable fault) := by simp [h]
    refine ⟨?_, fun _ => exists_decode hdecoded, fun text _ htext => ?_⟩
    · cases hspelled : checkSpelling path.toText with
      | ok _ => rfl
      | error fault =>
          rw [readText_of_misspelled hspelled] at h
          cases h
          exact absurd rfl (ne_refused_of_misspelled hspelled)
    · rw [h] at htext
      cases htext

theorem decodes_of_read {s : Session} {path : Path} {text : Text}
    (h : s.files.readText path = .ok text) :
    Decodes s path ↔
      ∀ fault, Json.read (.nested s.host.nesting) text = .error fault → ¬IsLimit fault := by
  refine ⟨fun hdecodes fault => hdecodes.within text fault h, fun hwithin => ?_⟩
  have hdecoded : ∀ fault, s.files.readText path ≠ .error (.undecodable fault) := by simp [h]
  refine ⟨spelled_of_readText h, fun _ => exists_decode hdecoded, fun other fault hother => ?_⟩
  rw [h] at hother
  cases hother
  exact hwithin fault

/-- A file that cannot be used is an error of the configuration if it decodes, and another failure if
it does not. -/
theorem readConfig_eq_error {path : Path} {s : Session}
    (h : ∀ fields, ¬HoldsObject s path fields) :
    ∃ failure, readConfig path s = .error failure s ∧
      ((∃ fault, failure = .config fault) ↔ Decodes s path) := by
  rw [readConfig, get_bind_apply, Session.document]
  cases htext : s.files.readText path with
  | error fault =>
      rw [decodes_of_refused htext]
      cases fault with
      | undecodable fault => exact ⟨_, rfl, by simp⟩
      | path fault =>
          cases fault with
          | refused errno => exact ⟨_, rfl, fun _ => ⟨errno, rfl⟩, fun _ => ⟨_, rfl⟩⟩
          | zeroByte | surrogate => exact ⟨_, rfl, by simp⟩
  | ok text =>
      rw [decodes_of_read htext]
      simp only [Except.map]
      cases hread : Json.read (.nested s.host.nesting) text with
      | error fault =>
          cases fault with
          | malformed _ _ _ _ =>
              refine ⟨_, rfl, fun _ fault hfault => ?_, fun _ => ⟨_, rfl⟩⟩
              cases hfault
              rintro (hlimit | hlimit) <;> cases hlimit
          | tooManyDigits => exact ⟨_, rfl, by simp, fun h => absurd (Or.inl rfl) (h _ rfl)⟩
          | tooDeep => exact ⟨_, rfl, by simp, fun h => absurd (Or.inr rfl) (h _ rfl)⟩
      | ok value =>
          cases value with
          | object fields => exact absurd ⟨text, htext, hread⟩ (h fields)
          | null | bool _ | int _ | float _ | string _ | array _ =>
              exact ⟨_, rfl, by simp, fun _ => ⟨_, rfl⟩⟩

/-- A configuration file that cannot be used ends the rewriting, and nothing is written. -/
theorem write_of_unusable {source : Path} (parser : Text) {s : Session}
    (h : ∀ fields, ¬HoldsObject s source fields) :
    ∃ failure, write source parser s = .error failure s ∧
      ((∃ fault, failure = .config fault) ↔ Decodes s source) := by
  obtain ⟨failure, hread, hkind⟩ := readConfig_eq_error h
  exact ⟨failure, bind_eq_error.2 (Or.inl hread), hkind⟩

/-- A session with nothing but a configuration file and an empty temporary directory. -/
def sessionWith (content : Utf8.Bytes) : Session where
  files := ⟨[("base.json", .file content), ("tmp", .directory [])], [], by rfl⟩
  temporary := .absolute ["tmp"]
  stamp := "1"

theorem list_config_reported :
    (∀ fields, ¬HoldsObject (sessionWith (Utf8.encode "[]"))
      (.absolute ["base.json"]) fields) ∧
    ∃ fault, write (.absolute ["base.json"]) "espree" (sessionWith (Utf8.encode "[]")) =
      .error (.config fault) (sessionWith (Utf8.encode "[]")) := by
  have htext : (sessionWith (Utf8.encode "[]")).files.readText (.absolute ["base.json"]) =
      .ok "[]" := by decide +kernel
  have hlist : Json.read (.nested (sessionWith (Utf8.encode "[]")).host.nesting) "[]" =
      .ok (.array []) := rfl
  have hunusable : ∀ fields, ¬HoldsObject (sessionWith (Utf8.encode "[]"))
      (.absolute ["base.json"]) fields := by
    rintro fields ⟨text, htext', hread⟩
    rw [htext] at htext'
    cases htext'
    rw [hlist] at hread
    cases hread
  obtain ⟨failure, hwrite, hkind⟩ := write_of_unusable "espree" hunusable
  obtain ⟨fault, rfl⟩ := hkind.2 ((decodes_of_read htext).2 fun fault h => by
    rw [hlist] at h
    cases h)
  exact ⟨hunusable, fault, hwrite⟩

/-- A byte that no UTF-8 text has is another failure than one of the configuration. -/
theorem undecodable_config_escapes :
    ¬∀ (source : Path) (parser : Text) (s : Session),
      (∀ fields, ¬HoldsObject s source fields) →
        ∃ fault, write source parser s = .error (.config fault) s := by
  intro hclaim
  have htext : (sessionWith [0xFF]).files.readText (.absolute ["base.json"]) =
      .error (.undecodable ⟨.badStart, 0, 0, 0xFF⟩) := by decide +kernel
  have hunusable : ∀ fields, ¬HoldsObject (sessionWith [0xFF])
      (.absolute ["base.json"]) fields := by
    rintro fields ⟨text, htext', -⟩
    rw [htext] at htext'
    cases htext'
  obtain ⟨failure, hread, hkind⟩ := readConfig_eq_error hunusable
  obtain ⟨fault, hwrite⟩ := hclaim _ "espree" _ hunusable
  have hfailed : write (.absolute ["base.json"]) "espree" (sessionWith [0xFF]) =
      .error failure (sessionWith [0xFF]) := bind_eq_error.2 (Or.inl hread)
  rw [hwrite, EStateM.Result.error.injEq] at hfailed
  obtain ⟨errno, herrno⟩ := (decodes_of_refused htext).1 (hkind.1 ⟨fault, hfailed.1.symm⟩)
  cases herrno

/-- Whether the second fields are the first ones with a name set: in its old place if it is there, and
as the last one if not. -/
inductive IsSet (name : Text) (value : Json) : Json.Fields → Json.Fields → Prop
  | replaced {before after : Json.Fields} {old : Json} (h : name ∉ before.map (·.1)) :
      IsSet name value (before ++ (name, old) :: after) (before ++ (name, value) :: after)
  | appended {fields : Json.Fields} (h : name ∉ fields.map (·.1)) :
      IsSet name value fields (fields ++ [(name, value)])

theorem isSet_set (name : Text) (value : Json) (fields : Json.Fields) :
    IsSet name value fields (Json.Fields.set name value fields) := by
  induction fields with
  | nil => exact .appended List.not_mem_nil
  | cons field rest ih =>
      obtain ⟨key, old⟩ := field
      rw [Json.Fields.set]
      split
      next hkey =>
        subst hkey
        have hfirst : key ∉ ([] : Json.Fields).map (·.1) := List.not_mem_nil
        exact .replaced hfirst
      next hkey =>
        have hcons : ∀ fields : Json.Fields, name ∉ fields.map (·.1) →
            name ∉ ((key, old) :: fields).map (·.1) := fun fields h => by
          rw [List.map_cons, List.mem_cons, not_or]
          exact ⟨Ne.symm hkey, h⟩
        generalize Json.Fields.set name value rest = altered at ih ⊢
        cases ih with
        | replaced h => exact .replaced (hcons _ h)
        | appended h => exact .appended (hcons _ h)

/-- A name that is written first is longer than the one it is moved to. -/
theorem asName_partialName_ne_self (s : Session) (name : Text) :
    (partialName s name).asName ≠ name.asName := by
  intro heq
  have hbytes := congrArg List.length (Text.encodeEscaped_of_asName heq)
  have happend : Utf8.encodeEscaped (partialName s name) = Utf8.encodeEscaped name ++
      Utf8.encodeEscaped s.stamp ++ Utf8.encodeEscaped ".partial" := by
    rw [partialName, Utf8.encodeEscaped, List.flatMap_append, List.flatMap_append]
    rfl
  have hending : (Utf8.encodeEscaped ".partial").length = 8 := by rfl
  rw [happend, List.length_append, List.length_append, hending] at hbytes
  omega

section Rewritten

variable {place : Place} {s t : Session} {source goal : Path} {parser : Text}

/-- A configuration file that was rewritten is its source with the parser set, it lies directly in
the temporary directory, and nothing else in the file system has changed. -/
theorem rewritten_of_write (hstands : s.files.StandsFor s.temporary place)
    (hfree : s.files.find? (place ++ [(partialName s (copyName parser)).asName]) = none)
    (h : write source parser s = .ok goal t) :
    ∃ fields copy name, HoldsObject s source fields ∧ HoldsObject t goal copy ∧
      IsSet "parser" (.string parser) fields copy ∧
      goal = s.temporary.child name ∧ leadsDown name = true ∧
      t.files.locate .named goal = .ok (place ++ [name.asName]) ∧
      t.files.find? (place ++ [(partialName s name).asName]) = none ∧
      ∀ other, other ≠ place ++ [name.asName] →
        t.files.surface? other = s.files.surface? other := by
  obtain ⟨fields, hread, hgoal, hframe, hfits, hsystem, hchanged, hfind⟩ :=
    write_eq_ok hstands hfree h
  have hdown := leadsDown_copyName parser
  have hname := goesIn_of_leadsDown hdown
  have hafter := hstands.changed hchanged
  have hfile := hfind (copyName parser).asName
  rw [if_pos rfl] at hfile
  have hcopy := readConfig_child hafter hname hfits
    (hsystem.host ▸ isConfig_copyFields (isConfig_of_readConfig hread) hfits) hfile
  refine ⟨fields, copyFields parser fields, copyName parser, (readConfig_eq_ok.1 hread).2,
    hgoal ▸ (readConfig_eq_ok.1 hcopy).2, isSet_set _ _ _, hgoal, hdown, ?_, ?_, hframe⟩
  · have hspot := spot_eq hafter hname hfits .named fun target htarget => by
      rw [hfile] at htarget
      cases htarget
    rw [hfile] at hspot
    rw [hgoal, locate, hspot]
    rfl
  · rw [hfind, if_neg (asName_partialName_ne_self s _)]
    exact hfree

theorem scoped_parser_rewritten :
    ∃ s, s.files.StandsFor s.temporary ["tmp"] ∧
      s.files.find? ([("tmp" : Text)] ++ [(partialName s (copyName "a/b")).asName]) = none ∧
      ∃ goal t fields copy, write (.absolute ["base.json"]) "a/b" s = .ok goal t ∧
        HoldsObject s (.absolute ["base.json"]) fields ∧ HoldsObject t goal copy ∧
        IsSet "parser" (.string "a/b") fields copy := by
  have hstands : (sessionWith (Utf8.encode "\x7b\"parser\": 1\x7d")).files.StandsFor
      (.absolute ["tmp"]) ["tmp"] := standsFor_absolute ⟨[], rfl⟩ (by decide)
  obtain ⟨goal, t, h, -⟩ := LintOptions.exists_of_passes
    (write (.absolute ["base.json"]) "a/b" (sessionWith (Utf8.encode "\x7b\"parser\": 1\x7d")))
    (fun _ => true) (by decide +kernel)
  obtain ⟨fields, copy, -, hsource, hcopy, hset, -⟩ := rewritten_of_write hstands rfl h
  exact ⟨_, hstands, rfl, goal, t, fields, copy, h, hsource, hcopy, hset⟩

end Rewritten

end ParserFile
end ProjectLint
