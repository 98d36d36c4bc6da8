/-!
Text as a sequence of code points. A text holds every Unicode scalar value and also lone
surrogate halves, because an escape in a JSON document can name one half of a pair. Main
statements: a code point is determined by its number, a text cut into pieces can be put together
again, and pieces without the mark that were put together can be cut apart again.
-/

namespace ProjectLint

/-- A Unicode code point: a scalar value, or one surrogate half standing alone. -/
inductive CodePoint where
  | scalar (c : Char)
  | surrogate (half : Fin 2048)
deriving DecidableEq, Inhabited

namespace CodePoint

/-- The number of a code point, below `0x110000`. -/
def toNat : CodePoint → Nat
  | scalar c => c.toNat
  | surrogate half => 0xD800 + half.val

/-- The code point with the given number; a number past the last one gives U+0000. -/
def ofNat (n : Nat) : CodePoint :=
  if h : 0xD800 ≤ n ∧ n < 0xE000 then
    surrogate ⟨n - 0xD800, by omega⟩
  else
    scalar (Char.ofNat n)

/-- Whether a code point is one of the ASCII digits. -/
def isAsciiDigit (c : CodePoint) : Bool :=
  decide (48 ≤ c.toNat ∧ c.toNat ≤ 57)

theorem toNat_lt (c : CodePoint) : c.toNat < 0x110000 := by
  cases c with
  | scalar c =>
      have h := c.valid
      simp only [UInt32.isValidChar, Nat.isValidChar] at h
      simp only [toNat, Char.toNat]
      omega
  | surrogate half => simp only [toNat]; omega

theorem ofNat_toNat (c : CodePoint) : ofNat c.toNat = c := by
  cases c with
  | scalar c =>
      have h := c.valid
      simp only [UInt32.isValidChar, Nat.isValidChar] at h
      have hn : ¬(0xD800 ≤ c.toNat ∧ c.toNat < 0xE000) := by
        simp only [Char.toNat]
        omega
      simp only [toNat, ofNat, dif_neg hn, Char.ofNat_toNat]
  | surrogate half =>
      have hn : 0xD800 ≤ 0xD800 + half.val ∧ 0xD800 + half.val < 0xE000 := by omega
      simp only [toNat, ofNat, dif_pos hn, Nat.add_sub_cancel_left]

/-- The code point with a number has this number, if there is such a code point. -/
theorem toNat_ofNat (n : Nat) : (ofNat n).toNat = if n < 0x110000 then n else 0 := by
  rw [ofNat]
  split
  · simp only [toNat]
    rw [if_pos (by omega)]
    omega
  · rename_i hhalf
    rw [toNat, Char.ofNat]
    by_cases hn : n < 0x110000
    · rw [dif_pos (show n.isValidChar by simp only [Nat.isValidChar]; omega), if_pos hn]
      rfl
    · rw [dif_neg (by simp only [Nat.isValidChar]; omega), if_neg hn]
      rfl

/-- A code point is determined by its number. -/
theorem toNat_inj {a b : CodePoint} (h : a.toNat = b.toNat) : a = b := by
  cases a with
  | scalar c =>
      cases b with
      | scalar d => exact congrArg scalar (Char.toNat_inj.1 h)
      | surrogate half =>
          have hc := c.valid
          have hh := half.isLt
          simp only [UInt32.isValidChar, Nat.isValidChar] at hc
          simp only [toNat, Char.toNat] at h
          omega
  | surrogate half =>
      cases b with
      | scalar d =>
          have hd := d.valid
          have hh := half.isLt
          simp only [UInt32.isValidChar, Nat.isValidChar] at hd
          simp only [toNat, Char.toNat] at h
          omega
      | surrogate other =>
          simp only [toNat] at h
          exact congrArg surrogate (Fin.ext (by omega))

end CodePoint

instance : Coe Char CodePoint := ⟨.scalar⟩

/-- A text is a list of code points. -/
abbrev Text := List CodePoint

namespace Text

/-- The code points of a string, none of which is a surrogate half. -/
def ofString (s : String) : Text :=
  s.toList.map .scalar

instance : Coe String Text := ⟨ofString⟩

/-- A string for display, in which U+FFFD stands for a surrogate half. -/
def display (t : Text) : String :=
  String.ofList (t.map fun
    | .scalar c => c
    | .surrogate _ => '\uFFFD')

/-- Cuts a text at every occurrence of one code point. There is always at least one piece. -/
def split (mark : CodePoint) : Text → List Text
  | [] => [[]]
  | c :: rest =>
      if c = mark then
        [] :: split mark rest
      else
        match split mark rest with
        | [] => [[c]]
        | piece :: pieces => (c :: piece) :: pieces

/-- Puts the pieces together with one text between each two. -/
def join (between : Text) : List Text → Text
  | [] => []
  | [piece] => piece
  | piece :: pieces => piece ++ between ++ join between pieces

theorem join_cons {between piece : Text} {pieces : List Text} (h : pieces ≠ []) :
    join between (piece :: pieces) = piece ++ between ++ join between pieces := by
  cases pieces with
  | nil => exact absurd rfl h
  | cons other pieces => rfl

theorem split_ne_nil (mark : CodePoint) (t : Text) : split mark t ≠ [] := by
  cases t with
  | nil => simp [split]
  | cons c rest =>
      simp only [split]
      split
      · simp
      · split <;> simp

/-- Pieces put together again with the mark between them give the text. -/
theorem join_split (mark : CodePoint) (t : Text) : join [mark] (split mark t) = t := by
  induction t with
  | nil => rfl
  | cons c rest ih =>
      simp only [split]
      split
      · rename_i h
        subst h
        cases hs : split c rest with
        | nil => exact absurd hs (split_ne_nil c rest)
        | cons piece pieces => rw [← ih, hs]; rfl
      · cases hs : split mark rest with
        | nil => exact absurd hs (split_ne_nil mark rest)
        | cons piece pieces =>
            rw [← ih, hs]
            cases pieces <;> rfl

theorem split_append (mark : CodePoint) (t u : Text) :
    split mark (t ++ mark :: u) = split mark t ++ split mark u := by
  induction t with
  | nil => simp [split]
  | cons c t ih =>
      simp only [List.cons_append, split, ih]
      by_cases hc : c = mark
      · simp [hc]
      · simp only [if_neg hc]
        cases hs : split mark t with
        | nil => exact absurd hs (split_ne_nil mark t)
        | cons piece pieces => rfl

theorem split_of_not_mem {mark : CodePoint} {t : Text} (h : mark ∉ t) : split mark t = [t] := by
  induction t with
  | nil => rfl
  | cons c t ih =>
      simp only [List.mem_cons, not_or] at h
      simp only [split, if_neg (Ne.symm h.1), ih h.2]

/-- Pieces without the mark are what a text made of them is cut into. -/
theorem split_join {mark : CodePoint} {pieces : List Text} (hne : pieces ≠ [])
    (h : ∀ piece ∈ pieces, mark ∉ piece) : split mark (join [mark] pieces) = pieces := by
  induction pieces with
  | nil => exact absurd rfl hne
  | cons piece pieces ih =>
      obtain ⟨hpiece, hpieces⟩ := List.forall_mem_cons.1 h
      by_cases hlast : pieces = []
      · rw [hlast, join, split_of_not_mem hpiece]
      · rw [join_cons hlast, List.append_assoc, List.singleton_append, split_append,
          split_of_not_mem hpiece, ih hlast hpieces, List.singleton_append]

theorem not_mem_of_mem_split {mark : CodePoint} {t piece : Text} (h : piece ∈ split mark t) :
    mark ∉ piece := by
  induction t generalizing piece with
  | nil =>
      simp only [split, List.mem_singleton] at h
      simp [h]
  | cons c rest ih =>
      simp only [split] at h
      split at h
      · rcases List.mem_cons.1 h with rfl | h
        · simp
        · exact ih h
      · rename_i hc
        cases hs : split mark rest with
        | nil => exact absurd hs (split_ne_nil mark rest)
        | cons first pieces =>
            rw [hs] at h
            rcases List.mem_cons.1 h with rfl | h
            · have hfirst : mark ∉ first := ih (by simp [hs])
              simp only [List.mem_cons, not_or]
              exact ⟨fun e => hc e.symm, hfirst⟩
            · exact ih (by simp [hs, h])

/-- Writes `new` wherever `old` stands. -/
def replace (old new : CodePoint) (t : Text) : Text :=
  t.map fun c => if c = old then new else c

end Text
end ProjectLint
