import ProjectLint.Proofs.Path.Plain

/-!
Following a path with one more name at its end. What comes before the name is followed as if it
stood alone, and only links in it use up links that may be followed. Main statements: a name in a
directory that a path leads to is looked up in that directory, and a directory found there is what
the longer path names.
-/

namespace ProjectLint

/-- Whether a code point can stand in a path that is passed to the system. -/
def CodePoint.IsSpelled (c : CodePoint) : Prop :=
  ¬(0xD800 ≤ c.toNat ∧ c.toNat < 0xE000 ∧ c.rawByte? = none) ∧ c ≠ .scalar '\x00'

theorem checkSpelling_eq_ok {t : Text} :
    checkSpelling t = .ok () ↔ ∀ c ∈ t, c.IsSpelled := by
  rw [checkSpelling]
  by_cases hhalf : (t.any fun c => 0xD800 ≤ c.toNat && c.toNat < 0xE000 && c.rawByte?.isNone) = true
  · rw [if_pos hhalf]
    obtain ⟨c, hc, htest⟩ := List.any_eq_true.1 hhalf
    refine ⟨fun h => (by cases h), fun h => absurd ?_ (h c hc).1⟩
    simpa [and_assoc] using htest
  · rw [if_neg hhalf]
    have hnone : ∀ c ∈ t, ¬(0xD800 ≤ c.toNat ∧ c.toNat < 0xE000 ∧ c.rawByte? = none) := by
      intro c hc h
      exact hhalf (List.any_eq_true.2 ⟨c, hc, by simpa [and_assoc] using h⟩)
    by_cases hzero : t.contains (.scalar '\x00') = true
    · rw [if_pos hzero]
      refine ⟨fun h => (by cases h), fun h => ?_⟩
      exact absurd rfl (h _ (List.contains_iff_mem.1 hzero)).2
    · rw [if_neg hzero]
      refine ⟨fun _ c hc => ⟨hnone c hc, ?_⟩, fun _ => rfl⟩
      rintro rfl
      exact hzero (List.contains_iff_mem.2 hc)

theorem checkSpelling_of_isEntryName {name : Text} (h : isEntryName name = true) :
    checkSpelling name = .ok () := by
  simp only [isEntryName, Bool.and_eq_true] at h
  cases hcheck : checkSpelling name with
  | ok _ => rfl
  | error fault =>
      rw [hcheck] at h
      exact absurd h.1.1.2 (by simp [Except.isOk, Except.toBool])

theorem nameLength_of_isEntryName {name : Text} (h : isEntryName name = true) :
    name.nameLength ≤ maxNameBytes := by
  simp only [isEntryName, Bool.and_eq_true, decide_eq_true_eq] at h
  exact h.1.2

theorem asName_of_isEntryName {name : Text} (h : isEntryName name = true) : name.asName = name := by
  simp only [isEntryName, Bool.and_eq_true, beq_iff_eq] at h
  exact h.2

/-- Whether a component leads into a directory when it is followed. -/
def GoesIn (name : Text) : Prop :=
  name ≠ [] ∧ name ≠ selfPart ∧ name ≠ parentPart

theorem ne_parentPart_of_isEntryName {name : Text} (h : isEntryName name = true) :
    name ≠ parentPart := by
  have hdown := leadsDown_of_isEntryName h
  simp only [leadsDown, Bool.and_eq_true, bne_iff_ne] at hdown
  exact hdown.1.2

theorem goesIn_of_isEntryName {name : Text} (h : isEntryName name = true) : GoesIn name :=
  ⟨(isComponent_of_isEntryName h).1, (isComponent_of_isEntryName h).2.1,
    ne_parentPart_of_isEntryName h⟩

theorem Text.mem_join {between : Text} {pieces : List Text} {c : CodePoint}
    (h : c ∈ join between pieces) : c ∈ between ∨ ∃ piece ∈ pieces, c ∈ piece := by
  induction pieces with
  | nil => cases h
  | cons piece pieces ih =>
      cases pieces with
      | nil => exact Or.inr ⟨piece, by simp, h⟩
      | cons other pieces =>
          simp only [join, List.mem_append] at h
          rcases h with (h | h) | h
          · exact Or.inr ⟨piece, by simp, h⟩
          · exact Or.inl h
          · rcases ih h with h | ⟨found, hmem, h⟩
            · exact Or.inl h
            · exact Or.inr ⟨found, List.mem_cons_of_mem _ hmem, h⟩

theorem Text.mem_join_of_mem {between piece : Text} {pieces : List Text} {c : CodePoint}
    (hpiece : piece ∈ pieces) (hc : c ∈ piece) : c ∈ join between pieces := by
  induction pieces with
  | nil => cases hpiece
  | cons first pieces ih =>
      cases pieces with
      | nil =>
          rw [List.mem_singleton.1 hpiece] at hc
          exact hc
      | cons other pieces =>
          simp only [join, List.mem_append]
          rcases List.mem_cons.1 hpiece with rfl | hpiece
          · exact Or.inl (Or.inl hc)
          · exact Or.inr (ih hpiece)

namespace Path

theorem mem_toText {p : Path} {part : Text} {c : CodePoint} (hpart : part ∈ p.parts)
    (hc : c ∈ part) : c ∈ p.toText := by
  have hbody : c ∈ Text.join [.scalar '/'] p.parts := Text.mem_join_of_mem hpart hc
  rw [toText]
  cases p.anchor with
  | relative =>
      have hne : p.parts.isEmpty = false := by
        cases hparts : p.parts with
        | nil => simp [hparts] at hpart
        | cons _ _ => rfl
      simpa [hne] using hbody
  | root => exact List.mem_cons_of_mem _ hbody
  | doubleRoot => exact List.mem_cons_of_mem _ (List.mem_cons_of_mem _ hbody)

/-- A path can be passed to the system if its components can. -/
theorem checkSpelling_toText {p : Path} (h : ∀ part ∈ p.parts, checkSpelling part = .ok ()) :
    checkSpelling p.toText = .ok () := by
  have hslash : (CodePoint.scalar '/').IsSpelled := ⟨by decide, by decide⟩
  have hdot : (CodePoint.scalar '.').IsSpelled := ⟨by decide, by decide⟩
  have hbody : ∀ c ∈ Text.join [.scalar '/'] p.parts, c.IsSpelled := by
    intro c hc
    rcases Text.mem_join hc with hc | ⟨part, hpart, hc⟩
    · rw [List.mem_singleton.1 hc]
      exact hslash
    · exact checkSpelling_eq_ok.1 (h part hpart) c hc
  rw [checkSpelling_eq_ok, toText]
  intro c hc
  cases hanchor : p.anchor with
  | relative =>
      rw [hanchor] at hc
      by_cases hempty : p.parts.isEmpty = true
      · simp only [hempty, if_true, selfPart, List.mem_singleton] at hc
        exact hc ▸ hdot
      · simp only [hempty, if_false, Bool.false_eq_true] at hc
        exact hbody c hc
  | root =>
      rw [hanchor] at hc
      rcases List.mem_cons.1 hc with rfl | hc
      · exact hslash
      · exact hbody c hc
  | doubleRoot =>
      rw [hanchor] at hc
      rcases List.mem_cons.1 hc with rfl | hc
      · exact hslash
      · rcases List.mem_cons.1 hc with rfl | hc
        · exact hslash
        · exact hbody c hc

theorem checkSpelling_child {p : Path} {name : Text} (hp : checkSpelling p.toText = .ok ())
    (hname : checkSpelling name = .ok ()) : checkSpelling (p.child name).toText = .ok () := by
  refine checkSpelling_toText fun part hpart => ?_
  rcases List.mem_append.1 hpart with hpart | hpart
  · exact checkSpelling_eq_ok.2 fun c hc => checkSpelling_eq_ok.1 hp c (mem_toText hpart hc)
  · rw [List.mem_singleton.1 hpart]
    exact hname

end Path

namespace Node

theorem find?_append (place more : Place) (root : Node) :
    find? (place ++ more) root = (find? place root).bind (find? more) := by
  induction place generalizing root with
  | nil => rfl
  | cons name place ih =>
      cases root with
      | file _ | link _ => rfl
      | directory entries =>
          simp only [List.cons_append, find?]
          cases entryNamed? name entries with
          | none => rfl
          | some node => exact ih node

theorem find?_name {name : Text} {entries : Entries} :
    find? [name] (directory entries) = entryNamed? name entries := by
  rw [find?]
  cases entryNamed? name entries <;> rfl

end Node

namespace FileSystem

theorem find?_child {fs : FileSystem} {place : Place} (name : Text) {entries : Entries}
    (h : fs.find? place = some (.directory entries)) :
    fs.find? (place ++ [name]) = Node.entryNamed? name entries := by
  rw [find?] at h ⊢
  rw [Node.find?_append, h]
  exact Node.find?_name

theorem reach_append {fs : FileSystem} {aim : Aim} {trail parts : List Text} {node : Option Node}
    {name : Text} (hnode : node = fs.find? trail.reverse) (hname : name ≠ []) :
    fs.reach aim trail node (parts ++ [name]) =
      match fs.reach .named trail node parts with
      | .arrived place => fs.reach aim place.reverse (fs.find? place) [name]
      | .free _ => .refused .notFound
      | .atLink place target rest => .atLink place target (rest ++ [name])
      | .refused errno => .refused errno := by
  have hnil : ∀ rest : List Text, (rest ++ [name]).isEmpty = false := by simp
  have hslash : ∀ rest : List Text, endsInSlash (rest ++ [name]) = false := by
    simp [endsInSlash, hname]
  -- What the path is for matters at its last component only.
  fun_induction fs.reach .named trail node parts with
  | case1 trail =>
      subst hnode
      simp only [List.nil_append, List.reverse_reverse]
  | case2 => rfl
  | case3 trail part rest entries hself ih =>
      simp only [List.cons_append, reach, if_pos hself]
      exact ih hnode
  | case4 trail rest entries hself ih =>
      simp only [List.cons_append, reach, if_neg hself, if_true]
      exact ih rfl
  | case5 trail part rest entries hself hparent hlast => simp at hlast
  | case6 trail part rest entries hself hparent _ hlong =>
      simp only [List.cons_append, reach, hslash, if_neg hself, if_neg hparent, if_pos hlong,
        Bool.and_false, Bool.false_eq_true, if_false]
  | case7 trail part rest entries hself hparent _ hlong here hentry
  | case8 trail part rest entries hself hparent _ hlong hentry =>
      simp only [List.cons_append, reach, hslash, hnil, hentry, if_neg hself, if_neg hparent,
        if_neg hlong, Bool.and_false, Bool.false_eq_true, if_false]
  | case9 trail part rest entries hself hparent _ hlong here target hentry hlast => simp at hlast
  | case10 trail part rest entries hself hparent _ hlong target hentry =>
      simp only [List.cons_append, reach, hslash, hnil, hentry, if_neg hself, if_neg hparent,
        if_neg hlong, Bool.and_false, Bool.false_and, Bool.false_eq_true, if_false]
  | case11 trail part rest entries hself hparent _ hlong here inner hinner hentry ih =>
      have hfound := find?_child part.asName hnode.symm
      have hhere : here.reverse = trail.reverse ++ [part.asName] := List.reverse_cons
      rw [hentry, ← hhere] at hfound
      rw [← ih hfound.symm, List.cons_append, reach.eq_def]
      simp only [hslash, hentry, if_neg hself, if_neg hparent, if_neg hlong, Bool.and_false,
        Bool.false_eq_true, if_false]
      cases inner with
      | link target => exact absurd rfl (hinner target)
      | file _ | directory _ => rfl
  | case12 trail part rest node hother =>
      cases node with
      | directory entries => exact absurd rfl (hother entries)
      | file _ | link _ => rfl

theorem follow_of_reach {fs : FileSystem} {aim : Aim} {place goal : Place} {parts others : List Text}
    (h : fs.reach aim place.reverse (fs.find? place) parts =
      fs.reach aim goal.reverse (fs.find? goal) others) (budget : Nat) :
    fs.follow aim budget place parts = fs.follow aim budget goal others := by
  unfold follow
  rw [h]

/-- A path that leads to a place leads on from there by one more name. Links in the path leave fewer
of them to be followed. -/
theorem follow_append {fs : FileSystem} {budget : Nat} {place goal : Place} {parts : List Text}
    (h : fs.follow .named budget place parts = .ok (.taken goal)) :
    ∃ left, ∀ aim name, name ≠ [] →
      fs.follow aim budget place (parts ++ [name]) = fs.follow aim left goal [name] := by
  fun_induction fs.follow .named budget place parts with
  | case1 budget place parts found hreach =>
      cases h
      refine ⟨budget, fun aim name hname => follow_of_reach ?_ budget⟩
      rw [reach_append (by simp) hname, hreach]
  | case5 place parts found target rest hreach budget ih =>
      obtain ⟨left, hleft⟩ := ih h
      refine ⟨left, fun aim name hname => ?_⟩
      rw [follow, reach_append (by simp) hname, hreach]
      simp only
      rw [← List.append_assoc]
      exact hleft aim name hname
  | case2 | case3 | case4 => cases h

/-- A name that leads down is looked up among the entries of a directory. -/
theorem reach_name {fs : FileSystem} {aim : Aim} {trail : List Text} {entries : Entries}
    {name : Text} (hname : GoesIn name) (hlength : name.nameLength ≤ maxNameBytes) :
    fs.reach aim trail (some (.directory entries)) [name] =
      match Node.entryNamed? name.asName entries with
      | none => .free (name.asName :: trail).reverse
      | some (.link target) =>
          if aim = .entry then .arrived (name.asName :: trail).reverse
          else .atLink trail.reverse target []
      | some _ => .arrived (name.asName :: trail).reverse := by
  have hself : (name = [] || name = selfPart) = false := by
    simp [hname.1, hname.2.1]
  have hparent := hname.2.2
  have hlong : ¬maxNameBytes < name.nameLength := Nat.not_lt.2 hlength
  have hslash : endsInSlash [] = false := rfl
  rcases hentry : Node.entryNamed? name.asName entries with _ | (_ | _ | _)
  all_goals simp only [reach, hself, hparent, hslash, hlong, hentry, Bool.false_eq_true, if_false,
    Bool.and_false, List.isEmpty_nil, if_true, Bool.true_and, decide_eq_true_eq]

theorem follow_name {fs : FileSystem} {aim : Aim} {budget : Nat} {place : Place}
    {entries : Entries} {name : Text} (hplace : fs.find? place = some (.directory entries))
    (hname : GoesIn name) (hlength : name.nameLength ≤ maxNameBytes)
    (hlink : ∀ target, Node.entryNamed? name.asName entries = some (.link target) →
      aim = .entry) :
    fs.follow aim budget place [name] =
      match Node.entryNamed? name.asName entries with
      | none => .ok (.free (place ++ [name.asName]))
      | some _ => .ok (.taken (place ++ [name.asName])) := by
  have hplaced : (name.asName :: place.reverse).reverse = place ++ [name.asName] := by simp
  unfold follow
  rw [hplace, reach_name hname hlength, hplaced]
  cases hentry : Node.entryNamed? name.asName entries with
  | none => rfl
  | some node =>
      cases node with
      | link target =>
          rw [hlink target hentry]
          rfl
      | file _ | directory _ => rfl

theorem spot_of_locate {fs : FileSystem} {path : Path} {place : Place}
    (h : fs.locate .named path = .ok place) :
    fs.follow .named maxLinks (if path.isAbsolute then [] else fs.directory) path.parts =
      .ok (.taken place) := by
  rw [locate, spot] at h
  cases hcheck : checkSpelling path.toText with
  | error fault => simp [hcheck] at h
  | ok _ =>
      simp only [hcheck] at h
      by_cases hlong : isTooLong path.toText = true
      · simp [hlong] at h
      · simp only [hlong, if_false, Bool.false_eq_true] at h
        cases hfollow : fs.follow .named maxLinks (if path.isAbsolute then [] else fs.directory)
            path.parts with
        | error errno => simp [hfollow] at h
        | ok spot =>
            cases spot with
            | free _ => simp [hfollow] at h
            | taken found =>
                simp only [hfollow, Except.ok.injEq] at h
                rw [h]

/-- What the path of a name in a directory leads to, if it is not a link that is followed. -/
theorem spot_child {fs : FileSystem} (aim : Aim) {path : Path} {place : Place} {entries : Entries}
    {name : Text} (hpath : fs.locate .named path = .ok place)
    (hplace : fs.find? place = some (.directory entries))
    (hspelled : checkSpelling (path.child name).toText = .ok ())
    (hshort : isTooLong (path.child name).toText = false)
    (hname : GoesIn name) (hlength : name.nameLength ≤ maxNameBytes)
    (hlink : ∀ target, Node.entryNamed? name.asName entries = some (.link target) →
      aim = .entry) :
    fs.spot aim (path.child name) =
      match Node.entryNamed? name.asName entries with
      | none => .ok (.free (place ++ [name.asName]))
      | some _ => .ok (.taken (place ++ [name.asName])) := by
  obtain ⟨left, hleft⟩ := follow_append (spot_of_locate hpath)
  have habsolute : (path.child name).isAbsolute = path.isAbsolute := rfl
  have hparts : (path.child name).parts = path.parts ++ [name] := rfl
  rw [spot, hspelled]
  simp only [hshort, Bool.false_eq_true, if_false]
  rw [habsolute, hparts, hleft aim name hname.1,
    follow_name hplace hname hlength hlink]
  cases Node.entryNamed? name.asName entries <;> rfl

theorem checkSpelling_of_locate {fs : FileSystem} {aim : Aim} {path : Path} {place : Place}
    (h : fs.locate aim path = .ok place) : checkSpelling path.toText = .ok () := by
  rw [locate, spot] at h
  cases hcheck : checkSpelling path.toText with
  | error fault => simp [hcheck] at h
  | ok _ => rfl

theorem isTooLong_of_locate {fs : FileSystem} {aim : Aim} {path : Path} {place : Place}
    (h : fs.locate aim path = .ok place) : isTooLong path.toText = false := by
  rw [locate, spot, checkSpelling_of_locate h] at h
  cases hlong : isTooLong path.toText with
  | false => rfl
  | true => simp [hlong] at h

/-- Whether a name is short enough, or comes after a link. -/
def Reach.Admits (name : Text) : Reach → Prop
  | .arrived _ | .free _ => name.nameLength ≤ maxNameBytes
  | .atLink _ _ rest => name ∈ rest ∨ name.nameLength ≤ maxNameBytes
  | .refused _ => True

theorem Reach.admits_of_short {name : Text} (h : name.nameLength ≤ maxNameBytes) (r : Reach) :
    r.Admits name := by
  cases r with
  | arrived _ | free _ => exact h
  | atLink _ _ rest => exact Or.inr h
  | refused _ => trivial

theorem admits_reach (fs : FileSystem) (aim : Aim) (trail : List Text) (node : Option Node)
    {parts : List Text} {name : Text} (hmem : name ∈ parts) (hname : GoesIn name) :
    (fs.reach aim trail node parts).Admits name := by
  fun_induction fs.reach aim trail node parts with
  | case1 => cases hmem
  | case3 trail part rest entries hself ih =>
      have hne : name ≠ part := by
        rintro rfl
        simp [hname.1, hname.2.1] at hself
      exact ih (List.mem_of_ne_of_mem hne hmem)
  | case4 trail rest entries hself ih => exact ih (List.mem_of_ne_of_mem hname.2.2 hmem)
  | case7 trail part rest entries hself hparent hslash hlong here hentry hlast =>
      rw [List.isEmpty_iff.1 hlast, List.mem_singleton] at hmem
      exact hmem ▸ Nat.not_lt.1 hlong
  | case9 trail part rest entries hself hparent hslash hlong here target hentry hlast =>
      simp only [Bool.and_eq_true, List.isEmpty_iff] at hlast
      rw [hlast.1, List.mem_singleton] at hmem
      exact hmem ▸ Nat.not_lt.1 hlong
  | case10 trail part rest entries hself hparent hslash hlong =>
      rcases List.mem_cons.1 hmem with rfl | hrest
      · exact Or.inr (Nat.not_lt.1 hlong)
      -- The name is still among the components after the link.
      · exact Or.inl hrest
  | case11 trail part rest entries hself hparent hslash hlong here inner hinner hentry ih =>
      rcases List.mem_cons.1 hmem with rfl | hrest
      · exact Reach.admits_of_short (Nat.not_lt.1 hlong) _
      · exact ih hrest
  | case2 | case5 | case6 | case8 | case12 => trivial

/-- Names in a path that leads somewhere are not too long. -/
theorem nameLength_of_follow {fs : FileSystem} {aim : Aim} {budget : Nat} {place : Place}
    {parts : List Text} {spot : Spot} {name : Text}
    (h : fs.follow aim budget place parts = .ok spot) (hmem : name ∈ parts)
    (hname : GoesIn name) : name.nameLength ≤ maxNameBytes := by
  have hadmits : ∀ place parts, name ∈ parts →
      (fs.reach aim place.reverse (fs.find? place) parts).Admits name := fun place parts hmem =>
    admits_reach fs aim place.reverse (fs.find? place) hmem hname
  fun_induction fs.follow aim budget place parts with
  | case1 budget place parts found hreach | case2 budget place parts found hreach =>
      have hshort := hadmits place parts hmem
      rwa [hreach] at hshort
  | case5 place parts found target rest hreach budget ih =>
      have hlater := hadmits place parts hmem
      rw [hreach] at hlater
      rcases hlater with hrest | hshort
      · exact ih h (List.mem_append_right _ hrest)
      · exact hshort
  | case3 | case4 => cases h

theorem nameLength_of_locate {fs : FileSystem} {path : Path} {place : Place} {name : Text}
    (h : fs.locate .named path = .ok place) (hmem : name ∈ path.parts) (hname : GoesIn name) :
    name.nameLength ≤ maxNameBytes :=
  nameLength_of_follow (spot_of_locate h) hmem hname

theorem node?_eq_ok {fs : FileSystem} {path : Path} {node : Node} :
    fs.node? path = .ok node ↔
      ∃ place, fs.locate .named path = .ok place ∧ fs.find? place = some node := by
  rw [node?]
  cases fs.locate .named path with
  | error fault => simp
  | ok place => cases hfind : fs.find? place <;> simp [hfind]

theorem isFile_eq_true {fs : FileSystem} {path : Path} :
    fs.isFile path = .ok true ↔ ∃ content, fs.node? path = .ok (.file content) := by
  rw [isFile, names]
  cases fs.node? path with
  | ok node => cases node <;> simp
  | error fault => split <;> simp_all

theorem entries?_eq_some {fs : FileSystem} {path : Path} {entries : Entries} :
    fs.entries? path = some entries ↔ fs.node? path = .ok (.directory entries) := by
  rw [entries?]
  cases fs.node? path with
  | error fault => simp
  | ok node => cases node <;> simp

theorem wellFormed_of_node? {fs : FileSystem} {path : Path} {node : Node}
    (h : fs.node? path = .ok node) : node.wellFormed = true := by
  obtain ⟨place, -, hplace⟩ := node?_eq_ok.1 h
  exact (Node.wellFormed_of_find? fs.wellFormed_root hplace).1

/-- The names of entries in a directory that a path names can be names. -/
theorem isEntryName_of_node? {fs : FileSystem} {path : Path} {entries : Entries} {name : Text}
    {node : Node} (h : fs.node? path = .ok (.directory entries)) (hmem : (name, node) ∈ entries) :
    isEntryName name = true := by
  have hwell := wellFormed_of_node? h
  rw [Node.wellFormed] at hwell
  exact (Node.isEntryName_of_mem hwell hmem).1

/-- An entry of a directory that a path names, if it is not a link, is what the longer path
names. -/
theorem node?_child {fs : FileSystem} {path : Path} {entries : Entries} {name : Text} {node : Node}
    (h : fs.node? path = .ok (.directory entries)) (hmem : (name, node) ∈ entries)
    (hlink : ∀ target, node ≠ .link target)
    (hshort : isTooLong (path.child name).toText = false) :
    fs.node? (path.child name) = .ok node := by
  have hname := isEntryName_of_node? h hmem
  have hasName := asName_of_isEntryName hname
  have hwell := wellFormed_of_node? h
  rw [Node.wellFormed] at hwell
  have hentry := (Node.entryNamed?_eq_some_iff hwell).2 hmem
  obtain ⟨place, hlocate, hplace⟩ := node?_eq_ok.1 h
  have hspot := spot_child .named hlocate hplace
    (Path.checkSpelling_child (checkSpelling_of_locate hlocate)
      (checkSpelling_of_isEntryName hname))
    hshort (goesIn_of_isEntryName hname) (nameLength_of_isEntryName hname) fun target htarget => by
      rw [hasName, hentry] at htarget
      exact absurd (Option.some.inj htarget) (hlink target)
  rw [hasName, hentry] at hspot
  refine node?_eq_ok.2 ⟨place ++ [name], ?_, ?_⟩
  · rw [locate, hspot]
  · rw [find?_child name hplace, hentry]

end FileSystem
end ProjectLint
