import ProjectLint.Proofs.FileSystem.Follow

/-!
Following a path link by link. Main statement: a path that is followed to a place is walked to it,
the target of each link on its own before what comes after the link.
-/

namespace ProjectLint

namespace FileSystem

/-- Walking along components from one place to another over some number of links. The target of a
link is walked first, and then what comes after the link. -/
inductive Walks (fs : FileSystem) : Nat → Place → List Text → Place → Prop
  | nil (place : Place) : Walks fs 0 place [] place
  | stay {n : Nat} {place goal : Place} {part : Text} {rest : List Text}
      (hpart : part = [] ∨ part = selfPart) (hrest : Walks fs n place rest goal) :
      Walks fs n place (part :: rest) goal
  | up {n : Nat} {place goal : Place} {rest : List Text}
      (hrest : Walks fs n place.dropLast rest goal) : Walks fs n place (parentPart :: rest) goal
  | enter {n : Nat} {place goal : Place} {part : Text} {rest : List Text} (hpart : GoesIn part)
      (hnode : ∀ target, fs.find? (place ++ [part.asName]) ≠ some (.link target))
      (hrest : Walks fs n (place ++ [part.asName]) rest goal) :
      Walks fs n place (part :: rest) goal
  | link {m n : Nat} {place middle goal : Place} {part target : Text} {rest : List Text}
      (hpart : GoesIn part) (hnode : fs.find? (place ++ [part.asName]) = some (.link target))
      (htarget : Walks fs m (linkStart place target) (target.split '/') middle)
      (hrest : Walks fs n middle rest goal) : Walks fs (m + n + 1) place (part :: rest) goal

variable {fs : FileSystem} {m n : Nat} {place goal : Place} {parts : List Text}

/-- A walk is a walk along its first components and then one along the others. -/
theorem Walks.split {others : List Text} (h : Walks fs n place (parts ++ others) goal) :
    ∃ first second middle, n = first + second ∧ Walks fs first place parts middle ∧
      Walks fs second middle others goal := by
  induction parts generalizing n place with
  | nil => exact ⟨0, n, place, (Nat.zero_add n).symm, .nil place, h⟩
  | cons part parts ih =>
      cases h with
      | stay hpart hrest =>
          obtain ⟨first, second, middle, hn, hfirst, hsecond⟩ := ih hrest
          exact ⟨first, second, middle, hn, .stay hpart hfirst, hsecond⟩
      | up hrest =>
          obtain ⟨first, second, middle, hn, hfirst, hsecond⟩ := ih hrest
          exact ⟨first, second, middle, hn, .up hfirst, hsecond⟩
      | enter hpart hnode hrest =>
          obtain ⟨first, second, middle, hn, hfirst, hsecond⟩ := ih hrest
          exact ⟨first, second, middle, hn, .enter hpart hnode hfirst, hsecond⟩
      | link hpart hnode htarget hrest =>
          obtain ⟨first, second, middle, rfl, hfirst, hsecond⟩ := ih hrest
          exact ⟨_, second, middle, by omega, .link hpart hnode htarget hfirst, hsecond⟩

theorem not_stays_of_goesIn {part : Text} (h : GoesIn part) : ¬(part = [] ∨ part = selfPart) :=
  not_or.2 ⟨h.1, h.2.1⟩

theorem not_stays_parentPart : ¬(parentPart = [] ∨ parentPart = selfPart) := by
  decide

/-- There is one walk only, over one number of links. -/
theorem Walks.unique {other : Place} (h : Walks fs m place parts goal)
    (hother : Walks fs n place parts other) : m = n ∧ goal = other := by
  induction h generalizing n other with
  | nil place =>
      cases hother
      exact ⟨rfl, rfl⟩
  | stay hpart _ ih =>
      cases hother with
      | stay _ hrest => exact ih hrest
      | up _ => exact absurd hpart not_stays_parentPart
      | enter hgoes _ _ | link hgoes _ _ _ => exact absurd hpart (not_stays_of_goesIn hgoes)
  | up _ ih =>
      cases hother with
      | stay hpart _ => exact absurd hpart not_stays_parentPart
      | up hrest => exact ih hrest
      | enter hgoes _ _ | link hgoes _ _ _ => exact absurd rfl hgoes.2.2
  | enter hgoes hnode _ ih =>
      cases hother with
      | stay hpart _ => exact absurd hpart (not_stays_of_goesIn hgoes)
      | up _ => exact absurd rfl hgoes.2.2
      | enter _ _ hrest => exact ih hrest
      | link _ hlink _ _ => exact absurd hlink (hnode _)
  | link hgoes hnode _ _ ihtarget ihrest =>
      cases hother with
      | stay hpart _ => exact absurd hpart (not_stays_of_goesIn hgoes)
      | up _ => exact absurd rfl hgoes.2.2
      | enter _ hother _ => exact absurd hnode (hother _)
      | link _ hlink htarget hrest =>
          cases hnode.symm.trans hlink
          obtain ⟨rfl, rfl⟩ := ihtarget htarget
          obtain ⟨rfl, rfl⟩ := ihrest hrest
          exact ⟨rfl, rfl⟩

/-- Whether components can be walked to where following them has led, or further if that is a link
from whose target there is a walk. -/
def Reach.Agrees (fs : FileSystem) (place : Place) (parts : List Text) : Reach → Prop
  | .arrived goal => Walks fs 0 place parts goal
  | .atLink before target rest => ∀ n goal,
      Walks fs n (linkStart before target) (target.split '/' ++ rest) goal →
        Walks fs (n + 1) place parts goal
  | .free _ | .refused _ => True

theorem Reach.Agrees.imp {r : Reach} {other : Place} {others : List Text}
    (h : r.Agrees fs place parts)
    (himp : ∀ n goal, Walks fs n place parts goal → Walks fs n other others goal) :
    r.Agrees fs other others := by
  cases r with
  | arrived goal => exact himp 0 goal h
  | atLink _ _ _ => exact fun n goal hwalks => himp (n + 1) goal (h n goal hwalks)
  | free _ | refused _ => trivial

theorem goesIn_of_ne {part : Text} (hself : ¬(part = [] || part = selfPart) = true)
    (hparent : part ≠ parentPart) : GoesIn part := by
  simp only [Bool.or_eq_true, decide_eq_true_eq, not_or] at hself
  exact ⟨hself.1, hself.2, hparent⟩

theorem agrees_reach {trail : List Text} {node : Option Node}
    (hnode : node = fs.find? trail.reverse) :
    (fs.reach .named trail node parts).Agrees fs trail.reverse parts := by
  fun_induction fs.reach .named trail node parts with
  | case1 trail => exact .nil _
  | case3 trail part rest entries hself ih =>
      have hpart : part = [] ∨ part = selfPart := by simpa using hself
      exact (ih hnode).imp fun _ _ => .stay hpart
  | case4 trail rest entries hself ih =>
      refine (ih rfl).imp fun _ _ hrest => .up ?_
      rwa [List.dropLast_reverse]
  | case9 trail part rest entries hself hparent hslash hlong here target hentry hlast =>
      simp at hlast
  | case10 trail part rest entries hself hparent hslash hlong target hentry =>
      intro n goal hwalks
      obtain ⟨_, _, _, rfl, hfirst, hsecond⟩ := hwalks.split
      have hlink := find?_child part.asName hnode.symm
      rw [hentry] at hlink
      exact .link (goesIn_of_ne hself hparent) hlink hfirst hsecond
  | case11 trail part rest entries hself hparent hslash hlong here inner hinner hentry ih =>
      have hfound := find?_child part.asName hnode.symm
      rw [hentry] at hfound
      have hhere : here.reverse = trail.reverse ++ [part.asName] := List.reverse_cons
      refine (ih (by rw [hhere, hfound])).imp fun _ _ hrest => ?_
      rw [hhere] at hrest
      refine .enter (goesIn_of_ne hself hparent) (fun target htarget => ?_) hrest
      exact hinner target (Option.some.inj (hfound.symm.trans htarget))
  | case2 | case5 | case6 | case7 | case8 | case12 => trivial

theorem agrees_reach_place (fs : FileSystem) (place : Place) (parts : List Text) :
    (fs.reach .named place.reverse (fs.find? place) parts).Agrees fs place parts := by
  have hreverse := @agrees_reach fs parts place.reverse (fs.find? place) (by simp)
  rwa [List.reverse_reverse] at hreverse

/-- A path that is followed to a place is walked to it, over no more links than were allowed. -/
theorem walks_of_follow {budget : Nat}
    (h : fs.follow .named budget place parts = .ok (.taken goal)) :
    ∃ n ≤ budget, Walks fs n place parts goal := by
  fun_induction fs.follow .named budget place parts with
  | case1 budget place parts found hreach =>
      have hagrees := agrees_reach_place fs place parts
      rw [hreach] at hagrees
      cases h
      exact ⟨0, Nat.zero_le budget, hagrees⟩
  | case5 place parts before target rest hreach budget ih =>
      have hagrees := agrees_reach_place fs place parts
      rw [hreach] at hagrees
      obtain ⟨n, hn, hwalks⟩ := ih h
      exact ⟨n + 1, Nat.succ_le_succ hn, hagrees n goal hwalks⟩
  | case2 | case3 | case4 => cases h

end FileSystem
end ProjectLint
