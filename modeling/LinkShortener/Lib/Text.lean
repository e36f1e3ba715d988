import Mathlib.Data.List.TakeWhile

/-!
# Text that is cut at characters

Text is a list of characters. `cut c s` is what stands before the first `c` and what stands after it; `cutLast c s` is
what comes up to the last `c`, that `c` included, and what stands after it. Both are empty on the far side when there is
no `c`.

* `cut_append`, `cut_of_not_mem`: cutting what was joined. `cut_join`: joining what was cut.
* `cutLast_append`, `cutLast_of_not_mem`, `cutLast_join`: the same for the last one.
* `mark c` writes a part after its `c`, `after c` reads it: `cut_mark`, `cut_append_mark`.
* `takeWhile_stop`, `dropWhile_stop`: a run of characters up to the first that does not belong.
* `exists_mem_splitOn`, `getLast?_splitOn`: the pieces of a split, and the last of them.
* `splitOn_map`: a map that fixes the separator and reaches it from nowhere else goes through a split.
* `toNat_toLower`, `toLower_eq_iff`, `toLower_toLower`: the lower case of ASCII letters.
-/

namespace Text

variable {α : Type} [DecidableEq α] {c : α} {s t : List α}

/-- What stands before the first `c`, and what stands after it. -/
def cut (c : α) (s : List α) : List α × List α := (s.takeWhile (· ≠ c), (s.dropWhile (· ≠ c)).drop 1)

/-- What comes up to the last `c` and with it, and what stands after it. -/
def cutLast (c : α) (s : List α) : List α × List α :=
  ((s.reverse.dropWhile (· ≠ c)).reverse, (s.reverse.takeWhile (· ≠ c)).reverse)

omit [DecidableEq α] in
/-- A run ends at the first character that does not belong to it. -/
theorem takeWhile_stop {p : α → Bool} {a : α} (h : ∀ a ∈ s, p a = true) (ha : p a = false) :
    (s ++ a :: t).takeWhile p = s := by
  rw [List.takeWhile_append_of_pos h, List.takeWhile_cons_of_neg (by simp [ha]), List.append_nil]

omit [DecidableEq α] in
theorem dropWhile_stop {p : α → Bool} {a : α} (h : ∀ a ∈ s, p a = true) (ha : p a = false) :
    (s ++ a :: t).dropWhile p = a :: t := by
  rw [List.dropWhile_append_of_pos h, List.dropWhile_cons_of_neg (by simp [ha])]

omit [DecidableEq α] in
/-- A run ends where the text that follows it does not go on with it. -/
theorem takeWhile_append_stop {p : α → Bool} (h : ∀ a ∈ s, p a = true) (ht : ∀ a ∈ t.head?, p a = false) :
    (s ++ t).takeWhile p = s := by
  cases t with
  | nil => rw [List.append_nil, List.takeWhile_eq_self_iff.mpr h]
  | cons a t => exact takeWhile_stop h (ht a rfl)

omit [DecidableEq α] in
theorem dropWhile_append_stop {p : α → Bool} (h : ∀ a ∈ s, p a = true) (ht : ∀ a ∈ t.head?, p a = false) :
    (s ++ t).dropWhile p = t := by
  cases t with
  | nil => rw [List.append_nil, List.dropWhile_eq_nil_iff.mpr h]
  | cons a t => exact dropWhile_stop h (ht a rfl)

omit [DecidableEq α] in
/-- A run does not go beyond a character that does not belong. -/
theorem takeWhile_append_cons {p : α → Bool} {a : α} (s : List α) (ha : p a = false) :
    (s ++ a :: t).takeWhile p = s.takeWhile p := by
  induction s with
  | nil => exact List.takeWhile_cons_of_neg (by simp [ha])
  | cons b s ih => rw [List.cons_append, List.takeWhile_cons, List.takeWhile_cons, ih]

omit [DecidableEq α] in
theorem dropWhile_append_cons {p : α → Bool} {a : α} (s : List α) (ha : p a = false) :
    (s ++ a :: t).dropWhile p = s.dropWhile p ++ a :: t := by
  induction s with
  | nil => exact List.dropWhile_cons_of_neg (by simp [ha])
  | cons b s ih =>
    rw [List.cons_append, List.dropWhile_cons, List.dropWhile_cons, ih]
    split <;> rfl

theorem ne_of_not_mem (h : c ∉ s) : ∀ a ∈ s, decide (a ≠ c) = true := by
  intro a ha
  exact decide_eq_true fun he => h (he ▸ ha)

theorem cut_of_not_mem (h : c ∉ s) : cut c s = (s, []) := by
  unfold cut
  rw [List.takeWhile_eq_self_iff.mpr (ne_of_not_mem h), List.dropWhile_eq_nil_iff.mpr (ne_of_not_mem h)]
  rfl

theorem cut_append (h : c ∉ s) (t : List α) : cut c (s ++ c :: t) = (s, t) := by
  unfold cut
  rw [takeWhile_stop (ne_of_not_mem h) (by simp), dropWhile_stop (ne_of_not_mem h) (by simp)]
  rfl

theorem not_mem_cut : c ∉ (cut c s).1 := by
  intro h
  have hne := List.mem_takeWhile_imp h
  simp at hne

theorem mem_of_mem_cut {a : α} (h : a ∈ (cut c s).1 ∨ a ∈ (cut c s).2) : a ∈ s := by
  rcases h with h | h
  · exact (List.takeWhile_prefix _).subset h
  · exact (List.dropWhile_suffix _).subset (List.mem_of_mem_drop h)

/-- What is left of a text from its first `c` on begins with it. -/
theorem dropWhile_ne_of_mem (h : c ∈ s) : ∃ t, s.dropWhile (· ≠ c) = c :: t := by
  induction s with
  | nil => cases h
  | cons a s ih =>
    by_cases ha : a = c
    · subst ha
      exact ⟨s, List.dropWhile_cons_of_neg (by simp)⟩
    · rw [List.dropWhile_cons_of_pos (by simp [ha])]
      exact ih ((List.mem_cons.mp h).resolve_left (Ne.symm ha))

theorem cut_join (h : c ∈ s) : (cut c s).1 ++ c :: (cut c s).2 = s := by
  obtain ⟨t, ht⟩ := dropWhile_ne_of_mem h
  have hs : s.takeWhile (· ≠ c) ++ s.dropWhile (· ≠ c) = s := List.takeWhile_append_dropWhile
  rw [ht] at hs
  unfold cut
  rw [ht]
  exact hs

theorem cutLast_of_not_mem (h : c ∉ s) : cutLast c s = ([], s) := by
  have hr : c ∉ s.reverse := fun hm => h (List.mem_reverse.mp hm)
  unfold cutLast
  rw [List.takeWhile_eq_self_iff.mpr (ne_of_not_mem hr), List.dropWhile_eq_nil_iff.mpr (ne_of_not_mem hr),
    List.reverse_reverse]
  rfl

theorem cutLast_append (s : List α) (h : c ∉ t) : cutLast c (s ++ c :: t) = (s ++ [c], t) := by
  have hr : c ∉ t.reverse := fun hm => h (List.mem_reverse.mp hm)
  have hrev : (s ++ c :: t).reverse = t.reverse ++ c :: s.reverse := by simp
  unfold cutLast
  rw [hrev, takeWhile_stop (ne_of_not_mem hr) (by simp), dropWhile_stop (ne_of_not_mem hr) (by simp)]
  simp

theorem not_mem_cutLast : c ∉ (cutLast c s).2 := by
  intro h
  have hne := List.mem_takeWhile_imp (List.mem_reverse.mp h)
  simp at hne

theorem cutLast_join (c : α) (s : List α) : (cutLast c s).1 ++ (cutLast c s).2 = s := by
  unfold cutLast
  rw [← List.reverse_append, List.takeWhile_append_dropWhile, List.reverse_reverse]

theorem cutLast_append_of_not_mem (s : List α) (h : c ∉ t) :
    cutLast c (s ++ t) = ((cutLast c s).1, (cutLast c s).2 ++ t) := by
  have hr : c ∉ t.reverse := fun hm => h (List.mem_reverse.mp hm)
  unfold cutLast
  rw [List.reverse_append, List.takeWhile_append_of_pos (ne_of_not_mem hr),
    List.dropWhile_append_of_pos (ne_of_not_mem hr), List.reverse_append, List.reverse_reverse]

/-- Text that begins with a `c` has it before the last one, or as the last one. -/
theorem head?_cutLast (h : s.head? = some c) : (cutLast c s).1.head? = some c := by
  have hjoin := cutLast_join c s
  cases hcut : (cutLast c s).1 with
  | nil =>
    rw [hcut, List.nil_append] at hjoin
    exact absurd (hjoin ▸ List.mem_of_head? h) not_mem_cutLast
  | cons a x =>
    rw [hcut] at hjoin
    rw [← hjoin] at h
    exact h

/-! ## Parts that may be missing -/

/-- What stands after the first `c`, if there is one. -/
def after (c : α) (s : List α) : Option (List α) := if c ∈ s then some (cut c s).2 else none

/-- A part with the `c` it stands after; a missing part is nothing at all. -/
def mark (c : α) : Option (List α) → List α
  | none => []
  | some t => c :: t

theorem after_getD (c : α) (s : List α) : (after c s).getD [] = (cut c s).2 := by
  unfold after
  split
  · rfl
  · rename_i h
    rw [cut_of_not_mem h]
    rfl

/-- Joining what was cut, whether or not there was a `c`. -/
theorem cut_mark (c : α) (s : List α) : (cut c s).1 ++ mark c (after c s) = s := by
  unfold after
  split
  · rename_i h
    exact cut_join h
  · rename_i h
    rw [cut_of_not_mem h]
    exact List.append_nil s

/-- Cutting what was joined, whether or not there is a part. -/
theorem cut_append_mark (h : c ∉ s) (t : Option (List α)) : cut c (s ++ mark c t) = (s, t.getD []) := by
  cases t with
  | none =>
    rw [mark, List.append_nil]
    exact cut_of_not_mem h
  | some t => exact cut_append h t

/-- A text and the part that is marked behind it are read off what is written. -/
theorem append_mark_inj {s' : List α} {t t' : Option (List α)} (h : c ∉ s) (h' : c ∉ s')
    (heq : s ++ mark c t = s' ++ mark c t') : s = s' ∧ t = t' := by
  have hfront : s = s' := by
    have hcut := congrArg (fun text => (cut c text).1) heq
    simpa only [cut_append_mark h, cut_append_mark h'] using hcut
  refine ⟨hfront, ?_⟩
  rw [hfront, List.append_cancel_left_eq] at heq
  cases t with
  | none =>
    cases t' with
    | none => rfl
    | some t' => cases heq
  | some t =>
    cases t' with
    | none => cases heq
    | some t' => exact congrArg some (List.cons_eq_cons.mp heq).2

omit [DecidableEq α] in
theorem not_mem_mark {d : α} {t : Option (List α)} (hne : c ≠ d) (h : ∀ s ∈ t, c ∉ s) : c ∉ mark d t := by
  cases t with
  | none => exact List.not_mem_nil
  | some t =>
    rw [mark, List.mem_cons, not_or]
    exact ⟨hne, h t rfl⟩

omit [DecidableEq α] in
theorem mem_mark {d : α} {part : Option (List α)} (hm : c ∈ mark d part) : c = d ∨ ∃ s ∈ part, c ∈ s := by
  cases part with
  | none => cases hm
  | some s =>
    rcases List.mem_cons.mp hm with rfl | hm
    · exact .inl rfl
    · exact .inr ⟨s, rfl, hm⟩

/-- A part that is empty is written as a missing one. -/
def nonempty (s : List α) : Option (List α) := if s = [] then none else some s

omit [DecidableEq α] in
theorem nonempty_getD (s : List α) : (nonempty s).getD [] = s := by
  unfold nonempty
  split
  · rename_i h
    exact h.symm
  · rfl

omit [DecidableEq α] in
theorem eq_of_mem_nonempty (h : t ∈ nonempty s) : t = s := by
  unfold nonempty at h
  split at h
  · cases h
  · exact (Option.mem_some.mp h).symm

/-! ## Pieces between separators -/

/-- What is no separator is in a piece. -/
theorem exists_mem_splitOn {x : α} (h : x ∈ s) (hne : x ≠ c) : ∃ piece ∈ s.splitOn c, x ∈ piece := by
  induction s with
  | nil => cases h
  | cons a s ih =>
    rw [List.splitOn_cons_eq_if_modifyHead]
    rcases List.mem_cons.mp h with rfl | h
    · rw [if_neg (by simpa using hne)]
      cases hs : s.splitOn c with
      | nil => exact absurd hs (List.splitOn_ne_nil c s)
      | cons p ps => exact ⟨x :: p, List.mem_cons_self, List.mem_cons_self⟩
    · obtain ⟨piece, hpiece, hx⟩ := ih h
      split
      · exact ⟨piece, List.mem_cons_of_mem _ hpiece, hx⟩
      · cases hs : s.splitOn c with
        | nil => exact absurd hs (List.splitOn_ne_nil c s)
        | cons p ps =>
          rw [hs] at hpiece
          rcases List.mem_cons.mp hpiece with rfl | hpiece
          · exact ⟨a :: piece, List.mem_cons_self, List.mem_cons_of_mem a hx⟩
          · exact ⟨piece, List.mem_cons_of_mem _ hpiece, hx⟩

omit [DecidableEq α] in
/-- A piece has no separator in it. -/
theorem not_sep_of_mem_splitOnP {sep : α → Bool} {piece : List α} (h : piece ∈ s.splitOnP sep) :
    ∀ a ∈ piece, sep a = false := by
  induction s generalizing piece with
  | nil =>
    rw [List.splitOnP_nil, List.mem_singleton] at h
    rw [h]
    nofun
  | cons b s ih =>
    rw [List.splitOnP_cons_eq_if_modifyHead] at h
    split at h
    · rcases List.mem_cons.mp h with rfl | h
      · nofun
      · exact ih h
    · rename_i hb
      cases hs : s.splitOnP sep with
      | nil => exact absurd hs (List.splitOnP_ne_nil sep s)
      | cons p ps =>
        rw [hs] at h ih
        rcases List.mem_cons.mp h with rfl | h
        · intro a ha
          rcases List.mem_cons.mp ha with rfl | ha
          · simpa using hb
          · exact ih List.mem_cons_self a ha
        · exact ih (List.mem_cons_of_mem _ h)

omit [DecidableEq α] in
/-- What is in a text that was joined is in a piece, or the separator. -/
theorem mem_of_mem_intercalate {x : α} {pieces : List (List α)} (h : x ∈ [c].intercalate pieces) :
    x = c ∨ ∃ piece ∈ pieces, x ∈ piece := by
  induction pieces with
  | nil => cases h
  | cons piece pieces ih =>
    by_cases hnil : pieces = []
    · subst hnil
      rw [List.intercalate_singleton] at h
      exact .inr ⟨piece, List.mem_cons_self, h⟩
    · rw [List.intercalate_cons_of_ne_nil hnil] at h
      rcases List.mem_append.mp h with hfront | hrest
      · rcases List.mem_append.mp hfront with hpiece | hsep
        · exact .inr ⟨piece, List.mem_cons_self, hpiece⟩
        · exact .inl (List.mem_singleton.mp hsep)
      · rcases ih hrest with hsep | ⟨piece', hpiece, hx⟩
        · exact .inl hsep
        · exact .inr ⟨piece', List.mem_cons_of_mem _ hpiece, hx⟩

omit [DecidableEq α] in
/-- Pieces of bounded length, joined. -/
theorem length_intercalate_le {n : Nat} {pieces : List (List α)} (h : ∀ piece ∈ pieces, piece.length ≤ n) :
    ([c].intercalate pieces).length ≤ pieces.length * (n + 1) := by
  induction pieces with
  | nil => exact Nat.zero_le _
  | cons piece pieces ih =>
    obtain ⟨hpiece, hpieces⟩ := List.forall_mem_cons.mp h
    have hrest := ih hpieces
    rw [List.length_cons, Nat.succ_mul]
    by_cases hnil : pieces = []
    · subst hnil
      rw [List.intercalate_singleton]
      omega
    · rw [List.intercalate_cons_of_ne_nil hnil, List.length_append, List.length_append, List.length_singleton]
      omega

omit [DecidableEq α] in
theorem exists_last_of_mem (h : c ∈ s) : ∃ x y, s = x ++ c :: y ∧ c ∉ y := by
  obtain ⟨x, y, hs, hx⟩ := List.eq_append_cons_of_mem (List.mem_reverse.mpr h)
  refine ⟨y.reverse, x.reverse, ?_, fun hm => hx (List.mem_reverse.mp hm)⟩
  rw [← List.reverse_reverse s, hs]
  simp

/-- The last piece is what stands after the last separator. -/
theorem getLast?_splitOn (c : α) (s : List α) : (s.splitOn c).getLast? = some (cutLast c s).2 := by
  by_cases h : c ∈ s
  · obtain ⟨x, y, rfl, hy⟩ := exists_last_of_mem h
    rw [List.splitOn_append_cons_self, List.splitOn_eq_singleton hy, cutLast_append x hy, List.getLast?_concat]
  · rw [List.splitOn_eq_singleton h, cutLast_of_not_mem h]
    rfl

/-- The last piece is empty when the text is, or ends in a separator. -/
theorem cutLast_eq_nil : (cutLast c s).2 = [] ↔ s = [] ∨ s.getLast? = some c := by
  by_cases h : c ∈ s
  · obtain ⟨x, y, rfl, hy⟩ := exists_last_of_mem h
    rw [cutLast_append x hy]
    rcases List.eq_nil_or_concat y with rfl | ⟨y', a, rfl⟩
    · simp
    · have ha : a ≠ c := by
        rintro rfl
        exact hy (by simp)
      have hlast : (x ++ c :: y'.concat a).getLast? = some a := by
        rw [List.concat_eq_append, show x ++ c :: (y' ++ [a]) = (x ++ c :: y') ++ [a] by simp]
        exact List.getLast?_concat
      rw [hlast]
      simp [ha]
  · rw [cutLast_of_not_mem h]
    constructor
    · exact .inl
    · rintro (hs | hlast)
      · exact hs
      · exact absurd (List.mem_of_getLast? hlast) h

/-- A map that reaches the separator only from the separator goes through a split. -/
theorem splitOn_map {f : α → α} (hf : ∀ a, f a = c ↔ a = c) (s : List α) :
    (s.map f).splitOn c = (s.splitOn c).map (List.map f) := by
  induction s with
  | nil => rfl
  | cons a s ih =>
    rw [List.map_cons, List.splitOn_cons_eq_if_modifyHead, List.splitOn_cons_eq_if_modifyHead, ih]
    by_cases ha : a = c
    · subst ha
      simp [(hf a).mpr rfl]
    · have hfa : f a ≠ c := fun h => ha ((hf a).mp h)
      rw [if_neg (by simpa using hfa), if_neg (by simpa using ha)]
      cases s.splitOn c with
      | nil => rfl
      | cons x xs => rfl

/-! ## White space -/

/-- `str.isspace` of one character, and what `\s` matches. -/
def isSpace (c : Char) : Bool :=
  decide (9 ≤ c.toNat ∧ c.toNat ≤ 13 ∨ 28 ≤ c.toNat ∧ c.toNat ≤ 32 ∨ c.toNat = 0x85 ∨ c.toNat = 0xA0 ∨ c.toNat = 0x1680 ∨
    0x2000 ≤ c.toNat ∧ c.toNat ≤ 0x200A ∨ c.toNat = 0x2028 ∨ c.toNat = 0x2029 ∨ c.toNat = 0x202F ∨ c.toNat = 0x205F ∨
    c.toNat = 0x3000)

/-! ## Letter case -/

theorem toNat_toLower (c : Char) :
    c.toLower.toNat = if 65 ≤ c.toNat ∧ c.toNat ≤ 90 then c.toNat + 32 else c.toNat := by
  unfold Char.toLower
  split
  · rename_i h
    have hlo : 65 ≤ c.toNat := UInt32.le_iff_toNat_le.mp h.1
    have hhi : c.toNat ≤ 90 := UInt32.le_iff_toNat_le.mp h.2
    have hval : c.val.toNat = c.toNat := rfl
    rw [if_pos ⟨hlo, hhi⟩]
    show (c.val + 32).toNat = c.toNat + 32
    rw [UInt32.toNat_add, hval]
    simp
    omega
  · rename_i h
    rw [if_neg]
    rintro ⟨hlo, hhi⟩
    exact h ⟨UInt32.le_iff_toNat_le.mpr hlo, UInt32.le_iff_toNat_le.mpr hhi⟩

/-- What is no letter is the lower case of itself only. -/
theorem toLower_eq_iff {c t : Char} (ht : (t.toNat < 65 ∨ 90 < t.toNat) ∧ (t.toNat < 97 ∨ 122 < t.toNat)) :
    c.toLower = t ↔ c = t := by
  rw [← Char.toNat_inj, ← Char.toNat_inj, toNat_toLower]
  split <;> omega

theorem toLower_toLower (c : Char) : c.toLower.toLower = c.toLower := by
  rw [← Char.toNat_inj, toNat_toLower]
  apply if_neg
  rw [toNat_toLower]
  split <;> omega

end Text
