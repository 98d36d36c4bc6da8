import Mathlib.Data.List.Induction
import ProjectLint.Proofs.FileSystem.Canonical
import ProjectLint.Proofs.FileSystem.Denotes
import ProjectLint.Proofs.FileSystem.Frame

/-!
Paths that lead somewhere, and their canonical forms. To find the canonical form of a path the
target of each link is settled on its own, links inside it first. Main statements: an absolute path
that leads to a place has the names on the way to that place as its canonical form, if every link
can be looked at, and that is its own canonical form. So has a relative path, if links can still be
looked at when the steps up from the working directory are spelled before their names.
-/

namespace ProjectLint

namespace FileSystem

variable {fs : FileSystem} {m n : Nat} {place goal : Place} {parts : List Text}

section Stroll

variable {steep steps : Nat} {path : Path} {part : Text} {rest : List Text}

theorem stroll_stay (hpart : part = [] ∨ part = selfPart) :
    fs.stroll path (part :: rest) = fs.stroll path rest := by
  rw [stroll, if_pos (by simpa using hpart)]

theorem stroll_up : fs.stroll path (parentPart :: rest) = fs.stroll path.up rest := by
  rw [stroll, if_neg (by simpa using not_stays_parentPart), if_pos rfl]

theorem stroll_goesIn (hpart : GoesIn part) (hspelled : checkSpelling part = .ok ()) :
    fs.stroll path (part :: rest) =
      match fs.linkTarget? (path.child part) with
      | some target => .atLink path part target rest
      | none => fs.stroll (path.child part) rest := by
  have hstays : ¬(part = [] || part = selfPart) = true := by
    simpa using not_stays_of_goesIn hpart
  cases htarget : fs.linkTarget? (path.child part) <;>
    simp only [stroll, if_neg hstays, if_neg hpart.2.2, hspelled, htarget]

theorem linkTarget?_of_denotes (hlinks : fs.LinksShow) (hpath : fs.Denotes path place)
    (hclimb : fs.MayClimb steep path steps) :
    fs.linkTarget? path =
      match fs.find? place with
      | some (.link target) => some target
      | _ => none := by
  rw [linkTarget?, hpath.placeOf]
  cases hnode : fs.find? place with
  | none => rfl
  | some node =>
      cases node with
      | file _ | directory _ => rfl
      | link target =>
          have hshort := isTooLong_of_mayClimb hlinks hpath hclimb hnode
          simp only [hshort, Bool.false_eq_true, if_false]

theorem stroll_enter (hlinks : fs.LinksShow) (hpath : fs.Denotes path place) (hpart : GoesIn part)
    (hspelled : checkSpelling part = .ok ())
    (hnode : ∀ target, fs.find? (place ++ [part.asName]) ≠ some (.link target))
    (hclimb : fs.MayClimb steep (path.child part) steps) :
    fs.stroll path (part :: rest) = fs.stroll (path.child part) rest := by
  rw [stroll_goesIn hpart hspelled,
    linkTarget?_of_denotes hlinks (hpath.child hpart hspelled) hclimb]
  split
  next target htarget =>
    split at htarget
    next found hfound => exact absurd hfound (hnode found)
    next => cases htarget
  next => rfl

theorem stroll_link (hlinks : fs.LinksShow) (hpath : fs.Denotes path place) (hpart : GoesIn part)
    (hspelled : checkSpelling part = .ok ()) {target : Text}
    (hnode : fs.find? (place ++ [part.asName]) = some (.link target))
    (hclimb : fs.MayClimb steep (path.child part) steps) :
    fs.stroll path (part :: rest) = .atLink path part target rest := by
  rw [stroll_goesIn hpart hspelled,
    linkTarget?_of_denotes hlinks (hpath.child hpart hspelled) hclimb, hnode]

theorem settle_of_stroll {other : Path} {others : List Text} (fuel : Nat) (active : List Path)
    (known : Known) (h : fs.stroll path parts = fs.stroll other others) :
    fs.settle fuel active known path parts = fs.settle fuel active known other others := by
  cases fuel with
  | zero => rfl
  | succ fuel => rw [settle, settle, h]

end Stroll

theorem checkSpelling_of_mem_split {t piece : Text} {mark : CodePoint}
    (h : checkSpelling t = .ok ()) (hmem : piece ∈ t.split mark) : checkSpelling piece = .ok () := by
  refine checkSpelling_eq_ok.2 fun c hc => checkSpelling_eq_ok.1 h c ?_
  rw [← Text.join_split mark t]
  exact Text.mem_join_of_mem hmem hc

/-- Whether a path is that of a link, and the walk along its target is over some number of links. -/
def Leads (fs : FileSystem) (path : Path) (n : Nat) (goal : Place) : Prop :=
  ∃ place name target, fs.Denotes path (place ++ [name]) ∧
    fs.find? (place ++ [name]) = some (.link target) ∧
    Walks fs n (linkStart place target) (target.split '/') goal

theorem Leads.unique {path : Path} {other : Place} (h : Leads fs path m goal)
    (hother : Leads fs path n other) : m = n ∧ goal = other := by
  obtain ⟨place, name, target, hpath, hnode, hwalks⟩ := h
  obtain ⟨place', name', target', hpath', hnode', hwalks'⟩ := hother
  obtain ⟨rfl, hname⟩ := List.append_inj' (hpath.placeOf.symm.trans hpath'.placeOf) rfl
  obtain rfl := List.singleton_inj.1 hname
  cases hnode.symm.trans hnode'
  exact hwalks.unique hwalks'

/-- Whether links that are being followed need at least some number of links. -/
def Outlast (fs : FileSystem) (active : List Path) (n : Nat) : Prop :=
  ∀ link ∈ active, ∃ m middle, Leads fs link m middle ∧ n ≤ m

theorem Outlast.mono {active : List Path} (h : fs.Outlast active n) (hle : m ≤ n) :
    fs.Outlast active m := by
  intro link hmem
  obtain ⟨k, middle, hleads, hk⟩ := h link hmem
  exact ⟨k, middle, hleads, Nat.le_trans hle hk⟩

theorem Outlast.cons {active : List Path} (h : fs.Outlast active n) {link : Path}
    (hlink : Leads fs link m goal) (hle : m ≤ n) : fs.Outlast (link :: active) m :=
  List.forall_mem_cons.2 ⟨⟨m, goal, hlink, Nat.le_refl m⟩, h.mono hle⟩

/-- A link that needs fewer links is none of those that are being followed. -/
theorem Outlast.not_contains {active : List Path} (h : fs.Outlast active n) {link : Path}
    (hlink : Leads fs link m goal) (hlt : m < n) : ¬active.contains link = true := by
  intro hmem
  obtain ⟨k, _, hother, hk⟩ := h link (List.contains_iff_mem.1 hmem)
  obtain ⟨rfl, -⟩ := hlink.unique hother
  omega

/-- Whether links lead where they are known to lead, with at most `steep` steps up for each link on
the way. -/
def Sound (fs : FileSystem) (steep : Nat) (known : Known) : Prop :=
  ∀ link ∈ known, ∃ n middle, Leads fs link.1 n middle ∧ fs.Denotes link.2 middle ∧
    link.1.Rises link.2 (steep + n * steep)

variable {steep : Nat}

theorem Sound.cons {known : Known} (h : fs.Sound steep known) {link found : Path}
    (hlink : Leads fs link n goal) (hfound : fs.Denotes found goal)
    (hrises : link.Rises found (steep + n * steep)) : fs.Sound steep ((link, found) :: known) :=
  List.forall_mem_cons.2 ⟨⟨n, goal, hlink, hfound, hrises⟩, h⟩

theorem Sound.of_lookup {known : Known} (h : fs.Sound steep known) {link found : Path}
    (hlink : Leads fs link n goal) (hlookup : known.lookup link = some found) :
    fs.Denotes found goal ∧ link.Rises found (steep + n * steep) := by
  obtain ⟨_, _, hother, hfound, hrises⟩ := h _ (mem_of_lookup hlookup)
  obtain ⟨rfl, rfl⟩ := hlink.unique hother
  exact ⟨hfound, hrises⟩

/-- How many steps up a walk along components over some number of links can take. -/
def stepsUp (steep n : Nat) (parts : List Text) : Nat :=
  parts.count parentPart + n * steep

theorem stepsUp_cons {part : Text} (h : part ≠ parentPart) (steep n : Nat) (rest : List Text) :
    stepsUp steep n (part :: rest) = stepsUp steep n rest := by
  rw [stepsUp, stepsUp, List.count_cons_of_ne h]

theorem stepsUp_parentPart (steep n : Nat) (rest : List Text) :
    stepsUp steep n (parentPart :: rest) = 1 + stepsUp steep n rest := by
  rw [stepsUp, stepsUp, List.count_cons_self]
  omega

theorem stepsUp_link (steep m n : Nat) (rest : List Text) :
    stepsUp steep (m + n + 1) rest = steep + m * steep + stepsUp steep n rest := by
  rw [stepsUp, stepsUp, Nat.add_mul, Nat.add_mul]
  omega

/-- Whether a path to a goal has come out, with at most some number of steps up more than the path
that it comes from. -/
def Settles (fs : FileSystem) (steep : Nat) (result : Settled) (path : Path) (steps : Nat)
    (goal : Place) : Prop :=
  ∃ found known, result = .path found known ∧ fs.Denotes found goal ∧ path.Rises found steps ∧
    fs.Sound steep known

theorem Settles.of_rises {result : Settled} {path middle : Path} {steps more : Nat}
    (h : fs.Settles steep result middle more goal) (hrises : path.Rises middle steps) :
    fs.Settles steep result path (steps + more) goal := by
  obtain ⟨found, known, hresult, hfound, hmore, hknown⟩ := h
  exact ⟨found, known, hresult, hfound, hrises.trans hmore, hknown⟩

section Links

variable {fuel : Nat} {active : List Path} {known others : Known} {path found : Path}
  {part target : Text} {rest : List Text}

theorem settle_of_known (hstroll : fs.stroll path parts = .atLink path part target rest)
    (hlookup : known.lookup (path.child part) = some found) :
    fs.settle (fuel + 1) active known path parts = fs.settle fuel active known found rest := by
  simp only [settle, hstroll, hlookup]

theorem settle_of_new (hstroll : fs.stroll path parts = .atLink path part target rest)
    (hlookup : known.lookup (path.child part) = none)
    (hactive : ¬active.contains (path.child part) = true) (hdepth : active.length < maxNesting)
    (htarget : fs.settle fuel (path.child part :: active) known (path.targetStart target)
      (target.split '/') = .path found others) :
    fs.settle (fuel + 1) active known path parts =
      fs.settle fuel active ((path.child part, found) :: others) found rest := by
  simp only [settle, hstroll, hlookup, if_neg hactive, if_neg (Nat.not_le.2 hdepth), htarget]

/-- A link that is not being followed is settled, whether it is known or not, if its target is and
what comes after the link goes on from where the target has led. -/
theorem settles_link {steps : Nat} {middle : Place}
    (hstroll : fs.stroll path parts = .atLink path part target rest) (hpart : part ≠ parentPart)
    (hleads : Leads fs (path.child part) m middle) (hknown : fs.Sound steep known)
    (hactive : ¬active.contains (path.child part) = true) (hdepth : active.length < maxNesting)
    (htarget : fs.Settles steep (fs.settle fuel (path.child part :: active) known
      (path.targetStart target) (target.split '/')) path (steep + m * steep) middle)
    (hrest : ∀ found others, fs.Denotes found middle →
      path.Rises found (steep + m * steep) → fs.Sound steep others →
      fs.Settles steep (fs.settle fuel active others found rest) path steps goal) :
    fs.Settles steep (fs.settle (fuel + 1) active known path parts) path steps goal := by
  cases hlookup : known.lookup (path.child part) with
  | some found =>
      obtain ⟨hfound, hrises⟩ := hknown.of_lookup hleads hlookup
      rw [settle_of_known hstroll hlookup]
      exact hrest found known hfound ((Path.rises_child_iff hpart).1 hrises) hknown
  | none =>
      obtain ⟨found, others, hsettle, hfound, hrises, hothers⟩ := htarget
      rw [settle_of_new hstroll hlookup hactive hdepth hsettle]
      exact hrest found _ hfound hrises
        (hothers.cons hleads hfound ((Path.rises_child_iff hpart).2 hrises))

end Links

/-- Components that are walked are settled to a path to where the walk ends. A link that is met
again while its target is followed would need more links than it does. -/
theorem settle_of_walks (hlinks : fs.LinksShow) (h : Walks fs n place parts goal) {fuel : Nat}
    {active : List Path} {known : Known} {path : Path} (hfuel : n < fuel)
    (hpath : fs.Denotes path place) (hspelled : ∀ part ∈ parts, checkSpelling part = .ok ())
    (hdepth : active.length + n ≤ maxLinks) (hactive : fs.Outlast active n)
    (hknown : fs.Sound steep known) (hclimb : fs.MayClimb steep path (stepsUp steep n parts)) :
    fs.Settles steep (fs.settle fuel active known path parts) path (stepsUp steep n parts) goal := by
  induction h generalizing fuel active known path with
  | nil place =>
      obtain ⟨fuel, rfl⟩ := Nat.exists_eq_add_of_lt hfuel
      exact ⟨path, known, rfl, hpath, Path.rises_of_climbs_le rfl (Nat.le_add_right _ _), hknown⟩
  | stay hpart _ ih =>
      have hparent : _ ≠ parentPart := fun heq => not_stays_parentPart (heq ▸ hpart)
      rw [stepsUp_cons hparent] at hclimb ⊢
      rw [settle_of_stroll fuel active known (stroll_stay hpart)]
      exact ih hfuel hpath (List.forall_mem_cons.1 hspelled).2 hdepth hactive hknown hclimb
  | up _ ih =>
      rw [stepsUp_parentPart] at hclimb ⊢
      rw [settle_of_stroll fuel active known stroll_up]
      have hup := ih hfuel hpath.up (List.forall_mem_cons.1 hspelled).2 hdepth hactive hknown
        (hclimb.of_rises (Path.rises_up path))
      exact hup.of_rises (Path.rises_up path)
  | enter hgoes hnode _ ih =>
      obtain ⟨hpart, hrest⟩ := List.forall_mem_cons.1 hspelled
      rw [stepsUp_cons hgoes.2.2] at hclimb ⊢
      have hclimb := hclimb.child hgoes.2.2
      rw [settle_of_stroll fuel active known (stroll_enter hlinks hpath hgoes hpart hnode hclimb)]
      obtain ⟨found, others, hsettle, hfound, hrises, hothers⟩ :=
        ih hfuel (hpath.child hgoes hpart) hrest hdepth hactive hknown hclimb
      exact ⟨found, others, hsettle, hfound, (Path.rises_child_iff hgoes.2.2).1 hrises, hothers⟩
  | @link m n place middle goal part target rest hgoes hnode htarget _ ihtarget ihrest =>
      obtain ⟨hpart, hrest⟩ := List.forall_mem_cons.1 hspelled
      have hleads : Leads fs (path.child part) m middle :=
        ⟨_, _, _, hpath.child hgoes hpart, hnode, htarget⟩
      have hshallow : active.length < maxNesting := by
        have hbound : maxLinks < maxNesting := by decide
        omega
      obtain ⟨fuel, rfl⟩ : ∃ less, fuel = less + 1 := Nat.exists_eq_succ_of_ne_zero (by omega)
      rw [stepsUp_cons hgoes.2.2, stepsUp_link] at hclimb ⊢
      refine settles_link (stroll_link hlinks hpath hgoes hpart hnode (hclimb.child hgoes.2.2))
        hgoes.2.2 hleads hknown (hactive.not_contains hleads (by omega)) hshallow ?_ ?_
      · obtain ⟨found, others, hsettle, hfound, hrises, hothers⟩ :=
          ihtarget (by omega : m < fuel) (hpath.targetStart target)
            (fun piece hmem => checkSpelling_of_mem_split (hlinks.spelled _ _ hnode) hmem)
            (by rw [List.length_cons]; omega) (hactive.cons hleads (by omega)) hknown
            ((hclimb.mono (Nat.le_add_right _ _)).target hnode)
        exact ⟨found, others, hsettle, hfound, hclimb.rises_target hnode hrises, hothers⟩
      · intro found others hfound hrises hothers
        have hmore := ihrest (by omega : n < fuel) hfound hrest (by omega)
          (hactive.mono (by omega)) hothers (hclimb.of_rises hrises)
        exact hmore.of_rises hrises

theorem lt_settleFuel (fs : FileSystem) (parts : List Text) : maxLinks < fs.settleFuel parts := by
  have hbound : maxLinks < maxNesting + 1 := by decide
  have hmul : maxNesting + 1 ≤ (maxNesting + 1) * (fs.root.longestTarget + 2) :=
    Nat.le_mul_of_pos_right _ (by omega)
  rw [settleFuel]
  omega

/-- Whether the links on the way of a path can be looked at as it spells them. They can if it is
absolute, or comes from an existing working directory and takes not too many steps up on the way. -/
def ShowsLinks (fs : FileSystem) (path : Path) : Prop :=
  path.isAbsolute = true ∨ fs.HasDirectory fs.directory ∧
    ∃ steep, fs.LinksShowAfter steep (path.climbs + maxLinks * steep)

theorem parentPart_not_mem_of_hasDirectory (h : fs.HasDirectory place) : parentPart ∉ place :=
  fun hmem => ne_parentPart_of_isEntryName (isEntryName_of_hasDirectory h _ hmem) rfl

theorem collapse_map_asName (parts : List Text) :
    (Path.collapse parts).map Text.asName = Path.collapse (parts.map Text.asName) := by
  induction parts using List.reverseRecOn with
  | nil => rfl
  | append_singleton parts part ih =>
      rw [List.map_append]
      by_cases hpart : part = parentPart
      · subst hpart
        change _ = Path.collapse (_ ++ [parentPart])
        rw [Path.collapse_concat_parentPart, Path.collapse_concat_parentPart, List.map_dropLast, ih]
      · have hname : parentPart ∉ [part] := by simpa using Ne.symm hpart
        have hmap : parentPart ∉ [part].map Text.asName := by
          simpa using Ne.symm (asName_ne_parentPart hpart)
        rw [Path.collapse_append hname, Path.collapse_append hmap, List.map_append, ih]

/-- What a path without links is made absolute to. -/
theorem finish_of_denotes {path : Path} (hpath : fs.Denotes path place)
    (h : path.isAbsolute = true ∨ fs.HasDirectory fs.directory) :
    ∃ canonical, fs.finish path = .ok canonical ∧ Spells canonical place := by
  cases habsolute : path.isAbsolute with
  | true =>
      have hspells := hpath.spells habsolute
      obtain ⟨anchor, parts⟩ := path
      obtain rfl := hspells.anchor
      have hfinish : fs.finish ⟨.root, parts⟩ = .ok ⟨.root, Path.collapse parts⟩ := rfl
      rw [Path.collapse_eq_self hspells.noParent] at hfinish
      exact ⟨_, hfinish, hspells⟩
  | false =>
      have hdirectory := h.resolve_left (by rw [habsolute]; exact Bool.false_ne_true)
      have hworking : fs.workingPath = .ok (.absolute fs.directory) := by
        obtain ⟨entries, hfind⟩ := hdirectory
        rw [workingPath, hfind]
      refine ⟨⟨.root, Path.collapse (fs.directory ++ path.parts)⟩, ?_, rfl,
        Path.parentPart_not_mem_collapse _, fun part hmem => ?_, ?_⟩
      · rw [finish, habsolute, if_neg Bool.false_ne_true, hworking]
        simp only [Path.under, habsolute, Bool.false_eq_true, if_false]
        rfl
      · rcases List.mem_append.1 (Path.mem_of_mem_collapse hmem) with hmem | hmem
        · exact checkSpelling_of_isEntryName (isEntryName_of_hasDirectory hdirectory part hmem)
        · exact hpath.spelled part hmem
      · rw [collapse_map_asName, List.map_append, map_asName_of_hasDirectory hdirectory,
          ← hpath.placeOf, placeOf, habsolute, if_neg Bool.false_ne_true]

/-- Where the search for a canonical form starts. -/
def startOf (path : Path) : Path :=
  if path.isAbsolute then .absolute [] else ⟨.relative, []⟩

theorem denotes_startOf {path : Path} (h : fs.ShowsLinks path) :
    fs.Denotes (startOf path) (if path.isAbsolute then [] else fs.directory) := by
  rw [startOf]
  split
  next => exact spells_root.denotes
  next hrelative =>
    obtain ⟨hdirectory, -⟩ := h.resolve_left hrelative
    refine ⟨.inr rfl, List.forall_mem_nil _, ⟨[], rfl, List.not_mem_nil⟩, ?_⟩
    change Path.collapse (fs.directory ++ []) = fs.directory
    rw [List.append_nil, Path.collapse_eq_self (parentPart_not_mem_of_hasDirectory hdirectory)]

theorem mayClimb_startOf {path : Path} (h : fs.ShowsLinks path) (hn : n ≤ maxLinks) :
    ∃ steep, fs.MayClimb steep (startOf path) (stepsUp steep n path.parts) := by
  rw [startOf]
  rcases h with habsolute | ⟨-, steep, hshow⟩
  · rw [if_pos habsolute]
    exact ⟨0, .inl rfl⟩
  · split
    next => exact ⟨0, .inl rfl⟩
    next =>
      refine ⟨steep, .inr (hshow.mono ?_)⟩
      have hlinks : n * steep ≤ maxLinks * steep := Nat.mul_le_mul_right steep hn
      have hnone : Path.climbs ⟨.relative, []⟩ = 0 := rfl
      rw [hnone, stepsUp, Path.climbs]
      omega

/-- A path that leads to a place has a canonical form, which consists of the names on the way to
that place. -/
theorem resolve_of_locate (hlinks : fs.LinksShow) {path : Path} (hshows : fs.ShowsLinks path)
    (h : fs.locate .named path = .ok place) :
    ∃ canonical, fs.resolve path = .ok canonical ∧ Spells canonical place := by
  obtain ⟨n, hn, hwalks⟩ := walks_of_follow (spot_of_locate h)
  have hspelled : ∀ part ∈ path.parts, checkSpelling part = .ok () := fun part hpart =>
    checkSpelling_eq_ok.2 fun c hc =>
      checkSpelling_eq_ok.1 (checkSpelling_of_locate h) c (Path.mem_toText hpart hc)
  have hactive : fs.Outlast [] n := List.forall_mem_nil _
  obtain ⟨steep, hclimb⟩ := mayClimb_startOf hshows hn
  have hknown : fs.Sound steep [] := List.forall_mem_nil _
  obtain ⟨found, known, hsettle, hfound, hrises, -⟩ := settle_of_walks hlinks hwalks
    (Nat.lt_of_le_of_lt hn (lt_settleFuel fs path.parts)) (denotes_startOf hshows) hspelled
    (by simpa using hn) hactive hknown hclimb
  have hroot : found.isAbsolute = true ∨ fs.HasDirectory fs.directory := by
    refine hrises.imp_right fun ⟨hrelative, _⟩ => ?_
    refine (hshows.resolve_left fun habsolute => ?_).1
    rw [startOf, if_pos habsolute] at hrelative
    cases hrelative
  obtain ⟨canonical, hfinish, hspells⟩ := finish_of_denotes hfound hroot
  rw [startOf] at hsettle
  refine ⟨canonical, ?_, hspells⟩
  rw [resolve]
  simp only [hsettle, hfinish]

/-- A path that consists of the names on the way to a file or a directory is its own canonical
form. -/
theorem resolve_of_spells {path : Path} {node : Node} (hplain : path.Plain)
    (hpath : Spells path place) (hnode : fs.find? place = some node)
    (hlink : ∀ target, node ≠ .link target) : fs.resolve path = .ok path := by
  have hdown : ∀ part ∈ path.parts, IsComponent part ∧ part ≠ parentPart := fun part hmem =>
    ⟨hplain part hmem, fun heq => hpath.noParent (heq ▸ hmem)⟩
  have hnone : ∀ before after, path.parts = before ++ after →
      fs.linkTarget? (.absolute before) = none := by
    intro before after hsplit
    have hplace := hpath.names
    rw [hsplit, List.map_append] at hplace
    have hbefore : fs.placeOf (.absolute before) = before.map Text.asName := rfl
    rw [linkTarget?, hbefore]
    split
    next target htarget =>
      -- A link stands at the end of a place only.
      have hbelow : ∀ entries, fs.find? (before.map Text.asName) ≠ some (.directory entries) := by
        rw [htarget]
        intro entries hsame
        cases hsame
      cases after with
      | nil =>
          rw [List.map_nil, List.append_nil] at hplace
          rw [hplace, hnode] at htarget
          exact absurd (Option.some.inj htarget) (hlink target)
      | cons name after =>
          rw [← hplace, find?_below hbelow (by simp)] at hnode
          cases hnode
    next => rfl
  obtain ⟨anchor, parts⟩ := path
  obtain rfl := hpath.anchor
  refine (resolve_of_noLink_or hpath.isAbsolute hdown hnone).resolve_right ?_
  rintro ⟨part, hmem, fault, hfault, -⟩
  cases (hpath.spelled part hmem).symm.trans hfault

/-- A path that consists of the names on the way to a file or a directory leads there, if it is short
enough. -/
theorem locate_of_spells {path : Path} {node : Node} (hplain : path.Plain)
    (hpath : Spells path place) (hnode : fs.find? place = some node)
    (hlink : ∀ target, node ≠ .link target) (hshort : isTooLong path.toText = false) :
    fs.locate .named path = .ok place := by
  have hentry := (Node.wellFormed_of_find? fs.wellFormed_root hnode).2
  have hparts : ∀ part ∈ path.parts, GoesIn part ∧ part.nameLength ≤ maxNameBytes := by
    intro part hmem
    have hname := hentry part.asName (hpath.names ▸ List.mem_map_of_mem hmem)
    obtain ⟨hne, hself, -⟩ := hplain part hmem
    refine ⟨⟨hne, hself, fun heq => hpath.noParent (heq ▸ hmem)⟩, ?_⟩
    rw [← Text.nameLength_asName]
    exact nameLength_of_isEntryName hname
  refine locate_of_reach hpath.isAbsolute (Path.checkSpelling_toText hpath.spelled) hshort ?_
  rw [reach_place hparts (hpath.names ▸ hnode) hlink, hpath.names]
  rfl

/-- The canonical form of an existing directory is its own canonical form. -/
theorem resolve_resolve (hlinks : fs.LinksShow) {path canonical : Path} {entries : Entries}
    (hplain : path.Plain) (hshows : fs.ShowsLinks path)
    (h : fs.locate .named path = .ok place) (hnode : fs.find? place = some (.directory entries))
    (hcanonical : fs.resolve path = .ok canonical) : fs.resolve canonical = .ok canonical := by
  obtain ⟨found, hfound, hspells⟩ := resolve_of_locate hlinks hshows h
  cases hfound.symm.trans hcanonical
  exact resolve_of_spells (plain_resolve hplain hcanonical).1 hspells hnode (by simp)

end FileSystem
end ProjectLint
