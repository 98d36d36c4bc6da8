import ProjectLint.Proofs.FileSystem.Name
import ProjectLint.Proofs.FileSystem.Walks
import ProjectLint.Proofs.Path.Below

/-!
Paths that lead to a place through no link: by names from the root, or from the working directory up
some levels first. A relative path spells each of these steps up, so a link can be out of its sight
that an absolute path shows. Main statement: a link can be looked at by a path whose steps up leave
enough room for its own path.
-/

namespace ProjectLint

namespace Path

/-- How many steps up a path spells. -/
def climbs (p : Path) : Nat :=
  p.parts.count parentPart

theorem climbs_child {p : Path} {part : Text} (h : part ≠ parentPart) :
    (p.child part).climbs = p.climbs := by
  rw [climbs, child, List.count_append, List.count_singleton, if_neg (by simpa using h),
    Nat.add_zero, climbs]

theorem climbs_child_parentPart (p : Path) : (p.child parentPart).climbs = p.climbs + 1 := by
  rw [climbs, child, List.count_append, List.count_singleton_self, climbs]

theorem climbs_up_le (p : Path) : p.up.climbs ≤ p.climbs + 1 := by
  rw [up]
  split
  · split
    · exact Nat.le_succ _
    · exact Nat.le_of_eq (climbs_child_parentPart p)
  · split
    · exact Nat.le_of_eq (climbs_child_parentPart p)
    · exact Nat.le_succ_of_le ((List.dropLast_sublist p.parts).count_le parentPart)

theorem up_child (p : Path) {name : Text} (h : name ≠ parentPart) : (p.child name).up = p := by
  obtain ⟨anchor, parts⟩ := p
  rw [up, child, List.getLast?_concat]
  simp only [if_neg h, parent, List.dropLast_concat]

theorem up_of_forall_parentPart {p : Path} (hrelative : p.isAbsolute = false)
    (h : ∀ part ∈ p.parts, part = parentPart) : p.up = p.child parentPart := by
  rw [up, hrelative]
  cases hlast : p.parts.getLast? with
  | none => rfl
  | some part => simp only [h part (List.mem_of_getLast? hlast), if_true]

theorem anchor_of_isAbsolute_eq_false {p : Path} (h : p.isAbsolute = false) :
    p.anchor = .relative := by
  simpa [isAbsolute] using h

theorem isAbsolute_up (p : Path) : p.up.isAbsolute = p.isAbsolute := by
  rw [up]
  split <;> split <;> rfl

theorem climbs_eq_zero {p : Path} (h : parentPart ∉ p.parts) : p.climbs = 0 :=
  List.count_eq_zero.2 h

/-- Whether a path spells at most some number of steps up more than the path that it comes from. One
from the root spells none. -/
def Rises (p q : Path) (steps : Nat) : Prop :=
  q.isAbsolute = true ∨ p.isAbsolute = false ∧ q.climbs ≤ p.climbs + steps

section Rises

variable {p q r : Path} {steps more : Nat}

theorem Rises.trans (h : Rises p q steps) (hmore : Rises q r more) : Rises p r (steps + more) := by
  rcases hmore with hroot | ⟨hrelative, hclimbs⟩
  · exact .inl hroot
  · rcases h with hroot | ⟨hstart, hsteps⟩
    · cases hroot.symm.trans hrelative
    · exact .inr ⟨hstart, by omega⟩

theorem rises_of_climbs_le (hanchor : q.isAbsolute = p.isAbsolute)
    (hclimbs : q.climbs ≤ p.climbs + steps) : Rises p q steps := by
  cases habsolute : p.isAbsolute with
  | true => exact .inl (hanchor.trans habsolute)
  | false => exact .inr ⟨habsolute, hclimbs⟩

theorem rises_up (p : Path) : Rises p p.up 1 :=
  rises_of_climbs_le (isAbsolute_up p) (climbs_up_le p)

theorem rises_child_iff {part : Text} (h : part ≠ parentPart) :
    Rises (p.child part) q steps ↔ Rises p q steps := by
  rw [Rises, Rises, climbs_child h]
  rfl

theorem rises_targetStart (p : Path) (target : Text) : Rises p (p.targetStart target) 0 := by
  rw [targetStart]
  split
  · exact .inl rfl
  · exact rises_of_climbs_le rfl (Nat.le_refl _)

end Rises

end Path

namespace FileSystem

variable {fs : FileSystem} {m n : Nat} {place goal : Place} {parts : List Text}

/-- Whether a path consists of the names on the way to a place. -/
structure Spells (path : Path) (place : Place) : Prop where
  anchor : path.anchor = .root
  noParent : parentPart ∉ path.parts
  spelled : ∀ part ∈ path.parts, checkSpelling part = .ok ()
  names : path.parts.map Text.asName = place

/-- Whether the target of every link can be passed to the system, and the path of every link is short
enough to be. -/
structure LinksShow (fs : FileSystem) : Prop where
  spelled : ∀ place target, fs.find? place = some (.link target) → checkSpelling target = .ok ()
  short : ∀ place target, fs.find? place = some (.link target) →
    isTooLong (Path.absolute place).toText = false

theorem Spells.up {path : Path} (h : Spells path place) : Spells path.up place.dropLast := by
  obtain ⟨anchor, parts⟩ := path
  obtain ⟨rfl, hparent, hspelled, rfl⟩ := h
  rw [Path.up]
  cases hlast : parts.getLast? with
  | none =>
      rw [List.getLast?_eq_none_iff] at hlast
      subst hlast
      exact ⟨rfl, hparent, hspelled, rfl⟩
  | some part =>
      have hne : part ≠ parentPart := fun heq => hparent (heq ▸ List.mem_of_getLast? hlast)
      simp only [if_neg hne]
      exact ⟨rfl, fun hmem => hparent (List.dropLast_subset _ hmem),
        fun other hmem => hspelled other (List.dropLast_subset _ hmem), List.map_dropLast⟩

theorem Spells.child {path : Path} {part : Text} (h : Spells path place) (hpart : GoesIn part)
    (hspelled : checkSpelling part = .ok ()) :
    Spells (path.child part) (place ++ [part.asName]) := by
  obtain ⟨hanchor, hparent, hall, rfl⟩ := h
  refine ⟨hanchor, fun hmem => ?_, ?_, List.map_append⟩
  · rcases List.mem_append.1 hmem with hmem | hmem
    · exact hparent hmem
    · exact hpart.2.2 (List.mem_singleton.1 hmem).symm
  · exact List.forall_mem_append.2 ⟨hall, List.forall_mem_singleton.2 hspelled⟩

theorem spells_root : Spells (.absolute []) [] :=
  ⟨rfl, List.not_mem_nil, List.forall_mem_nil _, rfl⟩

theorem Spells.targetStart {path : Path} (h : Spells path place) (target : Text) :
    Spells (path.targetStart target) (linkStart place target) := by
  rw [Path.targetStart, linkStart]
  split
  · exact spells_root
  · exact h

theorem Spells.isAbsolute {path : Path} (h : Spells path place) : path.isAbsolute = true := by
  rw [Path.isAbsolute, h.anchor]
  rfl

theorem Spells.placeOf {path : Path} (h : Spells path place) : fs.placeOf path = place := by
  rw [FileSystem.placeOf, h.isAbsolute]
  exact h.names

theorem encodeEscaped_join_asName (mark : Text) (parts : List Text) :
    Utf8.encodeEscaped (Text.join mark (parts.map Text.asName)) =
      Utf8.encodeEscaped (Text.join mark parts) := by
  induction parts with
  | nil => rfl
  | cons part parts ih =>
      cases parts with
      | nil => exact Text.encodeEscaped_asName part
      | cons next parts =>
          have happend : ∀ t u : Text, Utf8.encodeEscaped (t ++ u) =
              Utf8.encodeEscaped t ++ Utf8.encodeEscaped u := fun _ _ => List.flatMap_append
          simp only [List.map_cons, Text.join, happend, Text.encodeEscaped_asName] at ih ⊢
          rw [ih]

theorem Spells.isTooLong_eq {path : Path} (h : Spells path place) :
    isTooLong path.toText = isTooLong (Path.absolute place).toText := by
  obtain ⟨anchor, parts⟩ := path
  obtain ⟨rfl, -, -, rfl⟩ := h
  have hbytes : Utf8.encodeEscaped (Path.mk .root parts).toText =
      Utf8.encodeEscaped (Path.absolute (parts.map Text.asName)).toText := by
    have hcons := fun t => Utf8.encodeEscaped_cons (.scalar '/') t
    simp only [Path.toText, Path.absolute, hcons, encodeEscaped_join_asName]
  rw [isTooLong, isTooLong, Text.nameLength, Text.nameLength, hbytes]

theorem asName_ne_parentPart {part : Text} (h : part ≠ parentPart) : part.asName ≠ parentPart := by
  intro heq
  have hascii : ∀ c ∈ part.asName, c.toNat < 0x80 := by
    rw [heq]
    decide
  exact h ((Text.asName_of_ascii hascii).symm.trans heq)

theorem placeOf_child {part : Text} (path : Path) (h : part ≠ parentPart) :
    fs.placeOf (path.child part) = fs.placeOf path ++ [part.asName] := by
  have hparts : (path.child part).parts.map Text.asName =
      path.parts.map Text.asName ++ [part.asName] := List.map_append
  have hname : parentPart ∉ [part.asName] := by simpa using (asName_ne_parentPart h).symm
  have hanchor : (path.child part).isAbsolute = path.isAbsolute := rfl
  simp only [placeOf, hanchor, hparts]
  split
  · rfl
  · rw [← List.append_assoc, Path.collapse_append hname]

theorem placeOf_child_parentPart {path : Path} (h : path.isAbsolute = false) :
    fs.placeOf (path.child parentPart) = (fs.placeOf path).dropLast := by
  have hparts : (path.child parentPart).parts.map Text.asName =
      path.parts.map Text.asName ++ [parentPart] := List.map_append
  have hanchor : (path.child parentPart).isAbsolute = path.isAbsolute := rfl
  simp only [placeOf, hanchor, hparts, h, Bool.false_eq_true, if_false]
  rw [← List.append_assoc, Path.collapse_concat_parentPart]

/-- Whether a path leads to a place through no link: by names from the root, or from the working
directory up some levels first. -/
structure Denotes (fs : FileSystem) (path : Path) (place : Place) : Prop where
  anchor : path.anchor = .root ∧ parentPart ∉ path.parts ∨ path.anchor = .relative
  spelled : ∀ part ∈ path.parts, checkSpelling part = .ok ()
  upFirst : ∃ names, path.parts = List.replicate path.climbs parentPart ++ names ∧
    parentPart ∉ names
  placeOf : fs.placeOf path = place

theorem Spells.denotes {path : Path} (h : Spells path place) : fs.Denotes path place :=
  ⟨.inl ⟨h.anchor, h.noParent⟩, h.spelled,
    ⟨path.parts, by rw [Path.climbs_eq_zero h.noParent]; rfl, h.noParent⟩, h.placeOf⟩

theorem nameLength_join_replicate_le (n : Nat) (names : List Text) :
    (Text.join [.scalar '/'] (List.replicate n parentPart ++ names)).nameLength ≤
      3 * n + (Text.join [.scalar '/'] names).nameLength := by
  induction n with
  | zero => exact Nat.le_add_left _ _
  | succ n ih =>
      rw [List.replicate_succ, List.cons_append]
      cases hrest : List.replicate n parentPart ++ names with
      | nil => exact Nat.le_add_right_of_le (by change 2 ≤ 3 * (n + 1); omega)
      | cons first rest =>
          rw [hrest] at ih
          have hjoin : (Text.join [.scalar '/'] (parentPart :: first :: rest)).nameLength =
              3 + (Text.join [.scalar '/'] (first :: rest)).nameLength := by
            rw [Text.join_cons (List.cons_ne_nil _ _), Text.nameLength_append]
            rfl
          omega

namespace Denotes

theorem spells {path : Path} (h : fs.Denotes path place) (habsolute : path.isAbsolute = true) :
    Spells path place := by
  rcases h.anchor with ⟨hanchor, hparent⟩ | hanchor
  · refine ⟨hanchor, hparent, h.spelled, ?_⟩
    rw [← h.placeOf, FileSystem.placeOf, if_pos habsolute]
  · rw [Path.isAbsolute, hanchor] at habsolute
    cases habsolute

theorem child {path : Path} {part : Text} (h : fs.Denotes path place) (hpart : GoesIn part)
    (hspelled : checkSpelling part = .ok ()) :
    fs.Denotes (path.child part) (place ++ [part.asName]) := by
  have hname : parentPart ∉ [part] := by simpa using hpart.2.2.symm
  refine ⟨h.anchor.imp (.imp_right fun hparent => ?_) id, ?_, ?_, ?_⟩
  · exact List.not_mem_append hparent hname
  · exact List.forall_mem_append.2 ⟨h.spelled, List.forall_mem_singleton.2 hspelled⟩
  · obtain ⟨names, hparts, hnames⟩ := h.upFirst
    refine ⟨names ++ [part], ?_, List.not_mem_append hnames hname⟩
    rw [Path.climbs_child hpart.2.2, ← List.append_assoc, ← hparts]
    rfl
  · rw [placeOf_child path hpart.2.2, h.placeOf]

theorem child_parentPart {path : Path} (h : fs.Denotes path place)
    (hparts : path.parts = List.replicate path.climbs parentPart)
    (hrelative : path.isAbsolute = false) :
    fs.Denotes (path.child parentPart) place.dropLast := by
  refine ⟨.inr ?_, ?_, ⟨[], ?_, List.not_mem_nil⟩, ?_⟩
  · exact Path.anchor_of_isAbsolute_eq_false hrelative
  · exact List.forall_mem_append.2 ⟨h.spelled, List.forall_mem_singleton.2 rfl⟩
  · rw [Path.climbs_child_parentPart, List.replicate_succ', List.append_nil, ← hparts]
    rfl
  · rw [placeOf_child_parentPart hrelative, h.placeOf]

theorem parent {path : Path} {before : List Text} {name : Text}
    (h : fs.Denotes (path.child name) place) (hname : name ≠ parentPart)
    (hparts : path.parts = List.replicate path.climbs parentPart ++ before)
    (hbefore : parentPart ∉ before) (hrelative : path.isAbsolute = false) :
    fs.Denotes path place.dropLast := by
  refine ⟨.inr (Path.anchor_of_isAbsolute_eq_false hrelative), fun part hmem => ?_,
    ⟨before, hparts, hbefore⟩, ?_⟩
  · exact h.spelled part (List.mem_append_left _ hmem)
  · rw [← h.placeOf, placeOf_child path hname, List.dropLast_concat]

theorem up {path : Path} (h : fs.Denotes path place) : fs.Denotes path.up place.dropLast := by
  cases habsolute : path.isAbsolute with
  | true => exact (h.spells habsolute).up.denotes
  | false =>
      obtain ⟨names, hparts, hnames⟩ := h.upFirst
      rcases List.eq_nil_or_concat names with rfl | ⟨before, name, rfl⟩
      · rw [List.append_nil] at hparts
        rw [Path.up_of_forall_parentPart habsolute fun part hmem =>
          List.eq_of_mem_replicate (hparts ▸ hmem)]
        exact h.child_parentPart hparts habsolute
      · obtain ⟨anchor, parts⟩ := path
        rw [List.concat_eq_append] at hparts hnames
        simp only [List.mem_append, List.mem_singleton, not_or] at hnames
        obtain ⟨hbefore, hname⟩ := hnames
        rw [← List.append_assoc] at hparts
        obtain ⟨inner, rfl⟩ : ∃ inner, parts = inner ++ [name] := ⟨_, hparts⟩
        have hinner := (List.append_inj' hparts rfl).1
        have hclimbs := Path.climbs_child (p := ⟨anchor, inner⟩) (Ne.symm hname)
        have hup := Path.up_child ⟨anchor, inner⟩ (Ne.symm hname)
        rw [Path.child] at hup
        rw [hup]
        exact parent h (Ne.symm hname) (hclimbs ▸ hinner) hbefore habsolute

theorem targetStart {path : Path} (h : fs.Denotes path place) (target : Text) :
    fs.Denotes (path.targetStart target) (linkStart place target) := by
  rw [Path.targetStart, linkStart]
  split
  · exact spells_root.denotes
  · exact h

/-- A relative path is spelled by its steps up and by names on the way to its place. -/
theorem nameLength_le {path : Path} (h : fs.Denotes path place)
    (hrelative : path.isAbsolute = false) :
    path.toText.nameLength ≤ 3 * path.climbs + (Path.absolute place).toText.nameLength := by
  obtain ⟨anchor, parts⟩ := path
  obtain ⟨names, hparts, hnames⟩ := h.upFirst
  have hanchor : anchor = .relative := Path.anchor_of_isAbsolute_eq_false hrelative
  subst hanchor
  have hplace : place = Path.collapse (fs.directory ++ (List.replicate
      (Path.mk .relative parts).climbs parentPart).map Text.asName) ++ names.map Text.asName := by
    have hmap : parentPart ∉ names.map Text.asName := fun hmem => by
      obtain ⟨name, hname, heq⟩ := List.mem_map.1 hmem
      exact asName_ne_parentPart (fun hsame => hnames (hsame ▸ hname)) heq
    rw [← Path.collapse_append hmap, List.append_assoc, ← List.map_append, ← hparts, ← h.placeOf]
    rfl
  have hbelow : (Text.join [.scalar '/'] names).nameLength ≤
      (Text.join [.scalar '/'] place).nameLength := by
    have hsame : (Text.join [.scalar '/'] names).nameLength =
        (Text.join [.scalar '/'] (names.map Text.asName)).nameLength := by
      rw [Text.nameLength, Text.nameLength, encodeEscaped_join_asName]
    rw [hsame, hplace]
    exact Text.nameLength_join_le _ (List.sublist_append_right _ _)
  have hroot : (Path.absolute place).toText.nameLength =
      1 + (Text.join [.scalar '/'] place).nameLength := Text.nameLength_cons _ _
  have hbody : (Path.mk .relative parts).toText.nameLength ≤
      1 + (Text.join [.scalar '/'] parts).nameLength := by
    rw [Path.toText]
    simp only
    split
    · exact Nat.le_add_right 1 _
    · exact Nat.le_add_left _ 1
  have hsteps := nameLength_join_replicate_le (Path.mk .relative parts).climbs names
  rw [← hparts] at hsteps
  change (Text.join _ parts).nameLength ≤ _ at hsteps
  omega

end Denotes

/-- Whether every link can still be looked at by a relative path that spells some steps up before
its names, and the targets of links have at most `steep` of them each. -/
structure LinksShowAfter (fs : FileSystem) (steep steps : Nat) : Prop where
  climbs : ∀ place target, fs.find? place = some (.link target) →
    (target.split '/').count parentPart ≤ steep
  short : ∀ place target, fs.find? place = some (.link target) →
    3 * steps + (Path.absolute place).toText.nameLength ≤ maxPathBytes

/-- Whether links can be looked at after a path has taken some more steps up. -/
def MayClimb (fs : FileSystem) (steep : Nat) (path : Path) (steps : Nat) : Prop :=
  path.isAbsolute = true ∨ fs.LinksShowAfter steep (path.climbs + steps)

section Climbing

variable {steep steps more : Nat} {path found : Path}

theorem LinksShowAfter.mono (h : fs.LinksShowAfter steep steps) (hle : more ≤ steps) :
    fs.LinksShowAfter steep more where
  climbs := h.climbs
  short place target hnode := Nat.le_trans (by omega) (h.short place target hnode)

theorem MayClimb.mono (h : fs.MayClimb steep path steps) (hle : more ≤ steps) :
    fs.MayClimb steep path more :=
  h.imp_right fun hshow => hshow.mono (by omega)

theorem MayClimb.child {part : Text} (h : fs.MayClimb steep path steps)
    (hpart : part ≠ parentPart) : fs.MayClimb steep (path.child part) steps := by
  rwa [MayClimb, Path.climbs_child hpart]

theorem MayClimb.of_rises (h : fs.MayClimb steep path (steps + more))
    (hrises : path.Rises found steps) : fs.MayClimb steep found more := by
  rcases hrises with hroot | ⟨hrelative, hclimbs⟩
  · exact .inl hroot
  · rcases h with hroot | hshow
    · cases hroot.symm.trans hrelative
    · exact .inr (hshow.mono (by omega))

/-- The steps up in the target of a link, and those of `more` links in it, are accounted for. -/
theorem MayClimb.target {target : Text} (h : fs.MayClimb steep path (steep + more))
    (hnode : fs.find? place = some (.link target)) :
    fs.MayClimb steep (path.targetStart target) ((target.split '/').count parentPart + more) := by
  have hsteps : fs.MayClimb steep path (0 + ((target.split '/').count parentPart + more)) :=
    h.imp_right fun hshow => hshow.mono (by
      have hsteep := hshow.climbs place target hnode
      omega)
  exact hsteps.of_rises (Path.rises_targetStart path target)

theorem MayClimb.rises_target {target : Text} (h : fs.MayClimb steep path steps)
    (hnode : fs.find? place = some (.link target))
    (hrises : (path.targetStart target).Rises found ((target.split '/').count parentPart + more)) :
    path.Rises found (steep + more) := by
  rcases (Path.rises_targetStart path target).trans hrises with hroot | ⟨hrelative, hclimbs⟩
  · exact .inl hroot
  · rcases h with hroot | hshow
    · cases hroot.symm.trans hrelative
    · have hsteep := hshow.climbs place target hnode
      exact .inr ⟨hrelative, by omega⟩

theorem isTooLong_of_mayClimb (hlinks : fs.LinksShow) (hpath : fs.Denotes path place)
    (hclimb : fs.MayClimb steep path steps) {target : Text}
    (hnode : fs.find? place = some (.link target)) : isTooLong path.toText = false := by
  cases habsolute : path.isAbsolute with
  | true =>
      rw [(hpath.spells habsolute).isTooLong_eq]
      exact hlinks.short place target hnode
  | false =>
      rcases hclimb with hroot | hshow
      · cases hroot.symm.trans habsolute
      · have hlength := hpath.nameLength_le habsolute
        have hshort := hshow.short place target hnode
        simp only [isTooLong, decide_eq_false_iff_not, Nat.not_lt]
        omega

end Climbing

end FileSystem
end ProjectLint
