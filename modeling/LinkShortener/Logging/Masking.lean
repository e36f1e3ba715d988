import Mathlib.Data.List.DropRight
import LinkShortener.Lib.Substitution
import LinkShortener.Urls.RoundTrip

/-!
# Addresses that are logged

An address is masked before it is written down: credentials in front of its host first, then those of every address inside
it, and what is long is cut.

* `withoutUserinfo`: the address itself, taken apart and put together again when it has credentials.
* `withoutNestedUserinfo`: a substitution of `nestedUserinfo`, an occurrence of a scheme, `://`, and everything up to the
  last `@` of the authority.
* `maskUrl`: both, and the cut.

Of the substitution: `sub_takeWhile`, nothing changes up to the first slash; `sub_slash`, how it goes on after it;
`sub_append`, it does not go beyond a question mark or a number sign; `settled_sub`, no occurrence is left but masked ones.
-/

namespace LinkShortener.Logging

open Text Urls Substitution

/-- What stands in the place of credentials. -/
def mask : Str := ['*', '*', '*']

/-- The delimiter between a scheme and an authority. -/
def separator : Str := [':', '/', '/']

/-! ## The model -/

def withoutUserinfo (libs : Libraries) (url : Str) : Str :=
  match urlsplit libs url with
  | none => url
  | some parts =>
    if '@' ∉ parts.netloc then url
    else urlunsplit { parts with netloc := mask ++ '@' :: hostAndPort parts.netloc }

/-- What cannot stand in the userinfo of a nested address: `[/?#\s]`. -/
def endsUserinfo (c : Char) : Bool := endsNetloc c || isSpace c

/-- As far as an authority that is open at the beginning of a text can go. -/
def openAuthority (s : Str) : Str := s.takeWhile fun c => !endsUserinfo c

/-- `([a-zA-Z][a-zA-Z0-9+.\-]*://)[^/?#\s]+@` at the beginning of a text: the group, and what follows the match. The
userinfo goes up to the last `@` it can. -/
def matchUserinfo (s : Str) : Option (Str × Str) :=
  let scheme := s.takeWhile isSchemeChar
  let rest := s.dropWhile isSchemeChar
  let userinfo := (cutLast '@' (openAuthority (rest.drop 3))).1
  if (scheme.head?.any Char.isAlpha) = true ∧ rest.take 3 = separator ∧ 2 ≤ userinfo.length then
    some (scheme ++ separator, (rest.drop 3).drop userinfo.length)
  else none

theorem matchUserinfo_shorter {s group rest : Str} (h : matchUserinfo s = some (group, rest)) :
    rest.length < s.length := by
  unfold matchUserinfo at h
  dsimp only at h
  split at h
  · rename_i hfound
    cases h
    have hle := (List.dropWhile_suffix (l := s) isSchemeChar).length_le
    have hthree := congrArg List.length hfound.2.1
    rw [List.length_take] at hthree
    change _ = 3 at hthree
    rw [List.length_drop, List.length_drop]
    omega
  · cases h

/-- An occurrence keeps its scheme, and its userinfo is masked. -/
def nestedUserinfo : Pattern Char where
  find s := (matchUserinfo s).map fun m => (m.1 ++ mask ++ ['@'], m.2)
  shorter h := by
    obtain ⟨m, hm, heq⟩ := Option.map_eq_some_iff.mp h
    cases heq
    exact matchUserinfo_shorter hm

def withoutNestedUserinfo (url : Str) : Str := nestedUserinfo.sub url

/-- The address as it is written down, before anything is cut. -/
def masked (libs : Libraries) (url : Str) : Str := withoutNestedUserinfo (withoutUserinfo libs url)

def maskUrl (libs : Libraries) (url : Str) : Str :=
  let url := masked libs url
  if 100 < url.length then url.take 50 ++ ['.', '.', '.'] ++ url.rtake 20 else url

/-! ## Occurrences -/

/-- `[a-zA-Z][a-zA-Z0-9+.\-]*`. -/
def IsScheme (s : Str) : Prop := s.head?.any Char.isAlpha = true ∧ s.all isSchemeChar = true

/-- `[^/?#\s]+`. -/
def IsUserinfo (s : Str) : Prop := s ≠ [] ∧ ∀ c ∈ s, endsUserinfo c = false

section Occurrences

variable {scheme s t : Str}

theorem mem_mask_iff {c : Char} : c ∈ mask ↔ c = '*' := by simp [mask]

theorem isUserinfo_mask : IsUserinfo mask := by
  refine ⟨List.cons_ne_nil _ _, fun c hc => ?_⟩
  rw [mem_mask_iff.mp hc]
  decide

theorem openAuthority_append {x : Str} (h : ∀ c ∈ x, endsUserinfo c = false) (t : Str) :
    openAuthority (x ++ t) = x ++ openAuthority t := by
  apply List.takeWhile_append_of_pos
  intro c hc
  rw [h c hc]
  rfl

/-- Nothing is found in an authority without credentials, or with empty ones. -/
theorem matchUserinfo_eq_none (hscheme : IsScheme scheme) (h : '@' ∉ (openAuthority t).tail) :
    matchUserinfo (scheme ++ ':' :: '/' :: '/' :: t) = none := by
  have hrest : (scheme ++ ':' :: '/' :: '/' :: t).dropWhile isSchemeChar = ':' :: '/' :: '/' :: t :=
    dropWhile_stop (List.all_eq_true.mp hscheme.2) (by decide)
  unfold matchUserinfo
  dsimp only
  rw [hrest]
  apply if_neg
  rintro ⟨-, -, hlong⟩
  change 2 ≤ (cutLast '@' (openAuthority t)).1.length at hlong
  cases hopen : openAuthority t with
  | nil =>
    rw [hopen] at hlong
    exact absurd hlong (by decide)
  | cons a y =>
    rw [hopen] at h hlong
    have hy : '@' ∉ y := h
    by_cases ha : a = '@'
    · subst ha
      rw [show '@' :: y = [] ++ '@' :: y from rfl, cutLast_append [] hy] at hlong
      exact absurd hlong (show ¬ 2 ≤ 1 by decide)
    · rw [cutLast_of_not_mem (List.not_mem_cons_of_ne_of_not_mem (Ne.symm ha) hy)] at hlong
      exact absurd hlong (show ¬ 2 ≤ 0 by decide)

/-- The credentials of an address go up to the last `@` of its authority. -/
theorem matchUserinfo_found {userinfo rest : Str} (hscheme : IsScheme scheme) (huserinfo : IsUserinfo userinfo)
    (hlast : '@' ∉ openAuthority rest) :
    matchUserinfo (scheme ++ ':' :: '/' :: '/' :: (userinfo ++ '@' :: rest)) = some (scheme ++ separator, rest) := by
  have htake : (scheme ++ ':' :: '/' :: '/' :: (userinfo ++ '@' :: rest)).takeWhile isSchemeChar = scheme :=
    takeWhile_stop (List.all_eq_true.mp hscheme.2) (by decide)
  have hrest : (scheme ++ ':' :: '/' :: '/' :: (userinfo ++ '@' :: rest)).dropWhile isSchemeChar =
      ':' :: '/' :: '/' :: (userinfo ++ '@' :: rest) :=
    dropWhile_stop (List.all_eq_true.mp hscheme.2) (by decide)
  have hopen : openAuthority (userinfo ++ '@' :: rest) = userinfo ++ '@' :: openAuthority rest := by
    rw [openAuthority_append huserinfo.2]
    rfl
  unfold matchUserinfo
  dsimp only
  have hdrop : (':' :: '/' :: '/' :: (userinfo ++ '@' :: rest)).drop 3 = userinfo ++ '@' :: rest := rfl
  rw [htake, hrest, hdrop, hopen, cutLast_append userinfo hlast]
  dsimp only
  rw [if_pos]
  · rw [show userinfo ++ '@' :: rest = (userinfo ++ ['@']) ++ rest by simp, List.drop_left]
  · refine ⟨hscheme.1, rfl, ?_⟩
    have hpos := List.length_pos_iff.mpr huserinfo.1
    rw [List.length_append, List.length_singleton]
    omega

/-- An open authority has no credentials, or empty ones, or they end with its last `@`. -/
theorem openAuthority_cases (t : Str) : '@' ∉ (openAuthority t).tail ∨
    ∃ userinfo rest, IsUserinfo userinfo ∧ '@' ∉ openAuthority rest ∧ t = userinfo ++ '@' :: rest := by
  by_cases h : '@' ∈ (openAuthority t).tail
  · right
    have hjoin : openAuthority t ++ t.dropWhile (fun c => !endsUserinfo c) = t := List.takeWhile_append_dropWhile
    have hfree : ∀ c ∈ openAuthority t, endsUserinfo c = false := by
      intro c hc
      simpa using List.mem_takeWhile_imp hc
    have hstop := openAuthority_append hfree (t.dropWhile fun c => !endsUserinfo c)
    rw [hjoin] at hstop
    have hnone : openAuthority (t.dropWhile fun c => !endsUserinfo c) = [] := List.append_right_eq_self.mp hstop.symm
    cases hopen : openAuthority t with
    | nil =>
      rw [hopen] at h
      cases h
    | cons a y =>
      rw [hopen] at h hjoin hfree
      obtain ⟨x, z, rfl, hz⟩ := exists_last_of_mem (show '@' ∈ y from h)
      refine ⟨a :: x, z ++ t.dropWhile fun c => !endsUserinfo c, ⟨List.cons_ne_nil _ _, ?_⟩, ?_, ?_⟩
      · intro c hc
        apply hfree
        rw [← List.cons_append]
        exact List.mem_append_left _ hc
      · rw [openAuthority_append, hnone, List.append_nil]
        · exact hz
        · intro c hc
          apply hfree
          rw [← List.cons_append]
          exact List.mem_append_right _ (List.mem_cons_of_mem _ hc)
      · conv_lhs => rw [← hjoin]
        simp
  · exact .inl h

/-- What is found is a scheme and an authority with credentials. -/
theorem matchUserinfo_eq_some {group rest : Str} (h : matchUserinfo s = some (group, rest)) :
    ∃ scheme userinfo, IsScheme scheme ∧ IsUserinfo userinfo ∧ '@' ∉ openAuthority rest ∧ group = scheme ++ separator ∧
      s = scheme ++ ':' :: '/' :: '/' :: (userinfo ++ '@' :: rest) := by
  obtain ⟨scheme, t, hscheme, rfl⟩ : ∃ scheme t, IsScheme scheme ∧ s = scheme ++ ':' :: '/' :: '/' :: t := by
    unfold matchUserinfo at h
    dsimp only at h
    split at h
    · rename_i hfound
      refine ⟨s.takeWhile isSchemeChar, (s.dropWhile isSchemeChar).drop 3, ⟨hfound.1, ?_⟩, ?_⟩
      · exact List.all_eq_true.mpr fun c hc => List.mem_takeWhile_imp hc
      · conv_lhs => rw [← List.takeWhile_append_dropWhile (p := isSchemeChar) (l := s),
          ← List.take_append_drop 3 (s.dropWhile isSchemeChar), hfound.2.1]
        rfl
    · cases h
  rcases openAuthority_cases t with hnone | ⟨userinfo, rest', huserinfo, hlast, rfl⟩
  · rw [matchUserinfo_eq_none hscheme hnone] at h
    cases h
  · rw [matchUserinfo_found hscheme huserinfo hlast] at h
    cases h
    exact ⟨scheme, userinfo, hscheme, huserinfo, hlast, rfl, rfl⟩

end Occurrences

/-! ## What the substitution does -/

section Sub

variable {s : Str}

theorem find_found {scheme userinfo rest : Str} (hscheme : IsScheme scheme) (huserinfo : IsUserinfo userinfo)
    (hlast : '@' ∉ openAuthority rest) :
    nestedUserinfo.find (scheme ++ ':' :: '/' :: '/' :: (userinfo ++ '@' :: rest)) =
      some (scheme ++ ':' :: '/' :: '/' :: (mask ++ ['@']), rest) := by
  have hgroup : scheme ++ separator ++ mask ++ ['@'] = scheme ++ ':' :: '/' :: '/' :: (mask ++ ['@']) := by
    simp [separator]
  show (matchUserinfo _).map _ = _
  rw [matchUserinfo_found hscheme huserinfo hlast, Option.map_some, hgroup]

theorem find_eq_some {written rest : Str} (h : nestedUserinfo.find s = some (written, rest)) :
    ∃ scheme userinfo, IsScheme scheme ∧ IsUserinfo userinfo ∧ '@' ∉ openAuthority rest ∧
      written = scheme ++ ':' :: '/' :: '/' :: (mask ++ ['@']) ∧
      s = scheme ++ ':' :: '/' :: '/' :: (userinfo ++ '@' :: rest) := by
  obtain ⟨⟨group, rest'⟩, hm, heq⟩ := Option.map_eq_some_iff.mp h
  cases heq
  obtain ⟨scheme, userinfo, hscheme, huserinfo, hlast, rfl, rfl⟩ := matchUserinfo_eq_some hm
  refine ⟨scheme, userinfo, hscheme, huserinfo, hlast, ?_, rfl⟩
  simp [separator]

/-- An occurrence begins with a letter. -/
theorem find_eq_none {c : Char} (h : c.isAlpha = false) (s : Str) : nestedUserinfo.find (c :: s) = none := by
  cases hfind : nestedUserinfo.find (c :: s) with
  | none => rfl
  | some out =>
    obtain ⟨scheme, userinfo, hscheme, -, -, -, hs⟩ := find_eq_some hfind
    cases scheme with
    | nil => cases hscheme.1
    | cons d scheme =>
      cases hs
      rw [show c.isAlpha = true from hscheme.1] at h
      cases h

/-- Nothing changes up to the first slash. -/
theorem sub_takeWhile {p : Char → Bool} (hp : p '/' = false) (s : Str) :
    (withoutNestedUserinfo s).takeWhile p = s.takeWhile p := by
  unfold withoutNestedUserinfo
  induction s using nestedUserinfo.textRec with
  | nil => rw [Pattern.sub_nil]
  | stays c s hnone ih =>
    rw [Pattern.sub_none hnone, List.takeWhile_cons, List.takeWhile_cons, ih]
  | found s written rest hsome ih =>
    obtain ⟨scheme, userinfo, -, -, -, rfl, rfl⟩ := find_eq_some hsome
    have hslash : ∀ t, (scheme ++ ':' :: '/' :: t).takeWhile p = (scheme ++ [':']).takeWhile p := by
      intro t
      rw [show scheme ++ ':' :: '/' :: t = (scheme ++ [':']) ++ '/' :: t by simp, takeWhile_append_cons _ hp]
    rw [Pattern.sub_some hsome, List.append_assoc]
    exact (hslash _).trans (hslash _).symm

theorem openAuthority_sub (s : Str) : openAuthority (withoutNestedUserinfo s) = openAuthority s :=
  sub_takeWhile (by decide) s

/-- What is no letter stays where it is. -/
theorem sub_eq_cons {c : Char} {t : Str} (hc : c.isAlpha = false) (h : withoutNestedUserinfo s = c :: t) :
    ∃ s', s = c :: s' ∧ withoutNestedUserinfo s' = t := by
  unfold withoutNestedUserinfo at h ⊢
  cases hfind : nestedUserinfo.find s with
  | some out =>
    obtain ⟨scheme, userinfo, hscheme, -, -, hwritten, -⟩ := find_eq_some hfind
    rw [Pattern.sub_some hfind, hwritten] at h
    cases scheme with
    | nil => cases hscheme.1
    | cons d scheme =>
      cases h
      rw [show c.isAlpha = true from hscheme.1] at hc
      cases hc
  | none =>
    cases s with
    | nil =>
      rw [Pattern.sub_nil] at h
      cases h
    | cons d s =>
      rw [Pattern.sub_none hfind] at h
      cases h
      exact ⟨s, rfl, rfl⟩

/-- A scheme that is there after the substitution was there before, with credentials if it has some now. -/
theorem sub_eq_scheme {scheme t : Str} (hscheme : scheme.all isSchemeChar = true)
    (h : withoutNestedUserinfo s = scheme ++ ':' :: '/' :: '/' :: t) :
    ∃ t', s = scheme ++ ':' :: '/' :: '/' :: t' ∧ ('@' ∈ (openAuthority t).tail → '@' ∈ (openAuthority t').tail) := by
  induction scheme generalizing s with
  | nil =>
    obtain ⟨s, rfl, hcolon⟩ := sub_eq_cons (by decide) h
    obtain ⟨s, rfl, hslash⟩ := sub_eq_cons (by decide) hcolon
    obtain ⟨s, rfl, hrest⟩ := sub_eq_cons (by decide) hslash
    refine ⟨s, rfl, ?_⟩
    rw [← hrest, openAuthority_sub]
    exact id
  | cons d scheme ih =>
    cases hfind : nestedUserinfo.find s with
    | some out =>
      obtain ⟨scheme', userinfo, hscheme', huserinfo, -, hwritten, rfl⟩ := find_eq_some hfind
      unfold withoutNestedUserinfo at h
      rw [Pattern.sub_some hfind, hwritten, List.append_assoc] at h
      have hsame : scheme' = d :: scheme := by
        have htake := congrArg (List.takeWhile isSchemeChar) h
        rw [takeWhile_stop (List.all_eq_true.mp hscheme) (by decide)] at htake
        exact (takeWhile_stop (List.all_eq_true.mp hscheme'.2) (by decide)).symm.trans htake
      refine ⟨userinfo ++ '@' :: out.2, by rw [hsame], fun _ => ?_⟩
      rw [openAuthority_append huserinfo.2, List.tail_append_of_ne_nil huserinfo.1]
      exact List.mem_append_right _ List.mem_cons_self
    | none =>
      cases s with
      | nil =>
        unfold withoutNestedUserinfo at h
        rw [Pattern.sub_nil] at h
        cases h
      | cons c s =>
        unfold withoutNestedUserinfo at h
        rw [Pattern.sub_none hfind] at h
        obtain ⟨rfl, hrest⟩ := List.cons_eq_cons.mp h
        rw [List.all_cons, Bool.and_eq_true] at hscheme
        obtain ⟨t', rfl, hcredentials⟩ := ih hscheme.2 hrest
        exact ⟨t', rfl, hcredentials⟩

/-- The substitution makes no occurrence. -/
theorem find_cons_sub {c : Char} (h : nestedUserinfo.find (c :: s) = none) :
    nestedUserinfo.find (c :: withoutNestedUserinfo s) = none := by
  cases hfind : nestedUserinfo.find (c :: withoutNestedUserinfo s) with
  | none => rfl
  | some out =>
    exfalso
    obtain ⟨scheme, userinfo, hscheme, huserinfo, -, -, hs⟩ := find_eq_some hfind
    cases scheme with
    | nil => cases hscheme.1
    | cons d scheme =>
      obtain ⟨rfl, hrest⟩ := List.cons_eq_cons.mp hs
      obtain ⟨-, hchars⟩ := Bool.and_eq_true_iff.mp (List.all_cons ▸ hscheme.2)
      obtain ⟨t, rfl, hcredentials⟩ := sub_eq_scheme hchars hrest
      have hopen : '@' ∈ (openAuthority (userinfo ++ '@' :: out.2)).tail := by
        rw [openAuthority_append huserinfo.2, List.tail_append_of_ne_nil huserinfo.1]
        exact List.mem_append_right _ List.mem_cons_self
      rcases openAuthority_cases t with hnone | ⟨userinfo', rest, huserinfo', hlast, rfl⟩
      · exact hnone (hcredentials hopen)
      · have hfound := find_found hscheme huserinfo' hlast
        rw [List.cons_append, h] at hfound
        cases hfound

/-- A masked address is settled. -/
theorem settled_masked {scheme t : Str} (hscheme : scheme.all isSchemeChar = true) (hlast : '@' ∉ openAuthority t)
    (h : nestedUserinfo.Settled t) : nestedUserinfo.Settled (scheme ++ ':' :: '/' :: '/' :: (mask ++ '@' :: t)) := by
  have hskip : ∀ {c : Char} {s : Str}, c.isAlpha =
      false → nestedUserinfo.Settled s → nestedUserinfo.Settled (c :: s) := by
    intro c s hc hs
    refine Pattern.settled_cons.mpr ⟨?_, hs⟩
    rw [find_eq_none hc]
    exact nofun
  induction scheme with
  | nil =>
    have hmask : nestedUserinfo.Settled (mask ++ '@' :: t) :=
      hskip (by decide) (hskip (by decide) (hskip (by decide) (hskip (by decide) h)))
    exact hskip (by decide) (hskip (by decide) (hskip (by decide) hmask))
  | cons c scheme ih =>
    obtain ⟨-, hchars⟩ := Bool.and_eq_true_iff.mp (List.all_cons ▸ hscheme)
    cases hc : c.isAlpha with
    | false => exact hskip hc (ih hchars)
    | true =>
      have hfound := find_found (show IsScheme (c :: scheme) from ⟨hc, hscheme⟩) isUserinfo_mask hlast
      rw [List.cons_append] at hfound ⊢
      refine Pattern.settled_cons.mpr ⟨?_, ih hchars⟩
      intro written rest hfind
      rw [hfound] at hfind
      cases hfind
      simp

/-- **After the substitution there is no occurrence** but those that are masked. -/
theorem settled_sub (s : Str) : nestedUserinfo.Settled (withoutNestedUserinfo s) := by
  unfold withoutNestedUserinfo
  induction s using nestedUserinfo.textRec with
  | nil =>
    rw [Pattern.sub_nil]
    exact Pattern.settled_nil
  | stays c s hnone ih =>
    rw [Pattern.sub_none hnone]
    refine Pattern.settled_cons.mpr ⟨?_, ih⟩
    have hnot : nestedUserinfo.find (c :: nestedUserinfo.sub s) = none := find_cons_sub hnone
    rw [hnot]
    exact nofun
  | found s written rest hsome ih =>
    obtain ⟨scheme, userinfo, hscheme, -, hlast, hwritten, rfl⟩ := find_eq_some hsome
    have hlast' : '@' ∉ openAuthority (nestedUserinfo.sub rest) := (openAuthority_sub rest).symm ▸ hlast
    have hmasked := settled_masked hscheme.2 hlast' ih
    rw [Pattern.sub_some hsome, hwritten, List.append_assoc]
    exact hmasked

/-- The first slash stays, and what follows it is substituted by itself unless the slash is that of an occurrence. -/
theorem sub_slash {front : Str} (hfront : '/' ∉ front) (t : Str) :
    withoutNestedUserinfo (front ++ '/' :: t) = front ++ '/' :: withoutNestedUserinfo t ∨
      ∃ userinfo rest, IsUserinfo userinfo ∧ t = '/' :: (userinfo ++ '@' :: rest) ∧
        withoutNestedUserinfo (front ++ '/' :: t) = front ++ '/' :: '/' :: (mask ++ '@' :: withoutNestedUserinfo rest) := by
  unfold withoutNestedUserinfo
  induction front with
  | nil => exact .inl (Pattern.sub_none (find_eq_none (by decide) t))
  | cons c front ih =>
    cases hfind : nestedUserinfo.find (c :: front ++ '/' :: t) with
    | none =>
      rw [List.cons_append] at hfind ⊢
      rw [Pattern.sub_none hfind]
      rcases ih (List.not_mem_of_not_mem_cons hfront) with hsame | ⟨userinfo, rest, huserinfo, ht, hmasked⟩
      · exact .inl (congrArg (c :: ·) hsame)
      · exact .inr ⟨userinfo, rest, huserinfo, ht, congrArg (c :: ·) hmasked⟩
    | some out =>
      obtain ⟨scheme, userinfo, hscheme, huserinfo, -, hwritten, hs⟩ := find_eq_some hfind
      have hslash : '/' ∉ scheme ++ [':'] := by
        intro hm
        rcases List.mem_append.mp hm with hm | hm
        · exact absurd (List.all_eq_true.mp hscheme.2 _ hm) (by decide)
        · exact absurd hm (by decide)
      have hcut := congrArg (cut '/') hs
      rw [show scheme ++ ':' :: '/' :: '/' :: (userinfo ++ '@' :: out.2) =
        (scheme ++ [':']) ++ '/' :: '/' :: (userinfo ++ '@' :: out.2) by simp, cut_append hfront, cut_append hslash] at hcut
      obtain ⟨hsame, rfl⟩ := Prod.mk.inj hcut
      refine .inr ⟨userinfo, out.2, huserinfo, rfl, ?_⟩
      rw [Pattern.sub_some hfind, hwritten, hsame]
      simp

/-- Nothing changes in a text without a slash. -/
theorem sub_of_not_mem (h : '/' ∉ s) : withoutNestedUserinfo s = s := by
  unfold withoutNestedUserinfo
  induction s using nestedUserinfo.textRec with
  | nil => exact Pattern.sub_nil
  | stays c s hnone ih => rw [Pattern.sub_none hnone, ih (List.not_mem_of_not_mem_cons h)]
  | found s written rest hsome ih =>
    obtain ⟨scheme, userinfo, -, -, -, -, rfl⟩ := find_eq_some hsome
    exact absurd (by simp) h

/-- A substituted text has no characters that are new, but those of a mask. -/
theorem mem_sub {c : Char} (h : c ∈ withoutNestedUserinfo s) : c ∈ s ∨ c = '*' ∨ c = '@' := by
  unfold withoutNestedUserinfo at h
  induction s using nestedUserinfo.textRec with
  | nil =>
    rw [Pattern.sub_nil] at h
    cases h
  | stays d s hnone ih =>
    rw [Pattern.sub_none hnone] at h
    rcases List.mem_cons.mp h with rfl | h
    · exact .inl List.mem_cons_self
    · exact (ih h).imp_left (List.mem_cons_of_mem d)
  | found s written rest hsome ih =>
    obtain ⟨scheme, userinfo, -, -, -, hwritten, rfl⟩ := find_eq_some hsome
    rw [Pattern.sub_some hsome, hwritten] at h
    rcases List.mem_append.mp h with h | h
    · simp [mask] at h ⊢
      tauto
    · refine (ih h).imp_left fun hrest => ?_
      simp [hrest]

theorem sub_eq_nil : withoutNestedUserinfo s = [] ↔ s = [] := by
  unfold withoutNestedUserinfo
  constructor
  · intro h
    cases hfind : nestedUserinfo.find s with
    | some out =>
      obtain ⟨scheme, userinfo, -, -, -, hwritten, -⟩ := find_eq_some hfind
      rw [Pattern.sub_some hfind, hwritten] at h
      simp at h
    | none =>
      cases s with
      | nil => rfl
      | cons c s =>
        rw [Pattern.sub_none hfind] at h
        cases h
  · rintro rfl
    exact Pattern.sub_nil

end Sub

/-! ## Delimiters -/

section Delimiters

variable {d : Char}

/-- What ends an authority and is no slash. -/
def isDelimiter (c : Char) : Bool := c = '?' || c = '#'

theorem isDelimiter_iff : isDelimiter d = true ↔ d = '?' ∨ d = '#' := by
  unfold isDelimiter
  rw [Bool.or_eq_true, decide_eq_true_iff, decide_eq_true_iff]

/-- An occurrence does not go beyond a delimiter. -/
theorem find_append (hd : isDelimiter d = true) (s t : Str) :
    nestedUserinfo.find (s ++ d :: t) = (nestedUserinfo.find s).map fun m => (m.1, m.2 ++ d :: t) := by
  obtain ⟨hstop, hscheme, hcolon⟩ : endsUserinfo d = true ∧ isSchemeChar d = false ∧ d ∉ [':', '/', '/', '@'] := by
    rcases isDelimiter_iff.mp hd with rfl | rfl
    · exact ⟨by decide, by decide, by decide⟩
    · exact ⟨by decide, by decide, by decide⟩
  have hopen : ∀ rest, openAuthority (rest ++ d :: t) = openAuthority rest :=
    fun rest => takeWhile_append_cons rest (by rw [hstop]; rfl)
  cases hfind : nestedUserinfo.find s with
  | some out =>
    obtain ⟨scheme, userinfo, hs, huserinfo, hlast, hwritten, rfl⟩ := find_eq_some hfind
    have hlast' : '@' ∉ openAuthority (out.2 ++ d :: t) := (hopen out.2).symm ▸ hlast
    have hfound := find_found hs huserinfo hlast'
    rw [Option.map_some, hwritten, ← hfound]
    simp
  | none =>
    rw [Option.map_none]
    cases hwhole : nestedUserinfo.find (s ++ d :: t) with
    | none => rfl
    | some out =>
      exfalso
      obtain ⟨scheme, userinfo, hs, huserinfo, hlast, -, heq⟩ := find_eq_some hwhole
      -- The delimiter is in none of the parts of the occurrence, so it is in what follows.
      have hnot : d ∉ scheme ++ ':' :: '/' :: '/' :: (userinfo ++ ['@']) := by
        have hinScheme : d ∉ scheme := by
          intro hm
          rw [List.all_eq_true.mp hs.2 d hm] at hscheme
          cases hscheme
        have hinUserinfo : d ∉ userinfo := by
          intro hm
          rw [huserinfo.2 d hm] at hstop
          cases hstop
        simp at hcolon ⊢
        tauto
      have heq' : s ++ d :: t = (scheme ++ ':' :: '/' :: '/' :: (userinfo ++ ['@'])) ++ out.2 := by
        rw [heq]
        simp
      obtain ⟨rest, rfl, hrest⟩ : ∃ rest, s = (scheme ++ ':' :: '/' :: '/' :: (userinfo ++ ['@'])) ++ rest ∧
          out.2 = rest ++ d :: t := by
        rcases List.append_eq_append_iff.mp heq' with ⟨x, hfront, hback⟩ | ⟨rest, hfront, hback⟩
        · cases x with
          | nil => exact ⟨[], by simpa using hfront.symm, by simpa using hback.symm⟩
          | cons a x =>
            cases hback
            exact absurd (by rw [hfront]; simp) hnot
        · exact ⟨rest, hfront, hback⟩
      rw [hrest, hopen] at hlast
      have hfound := find_found hs huserinfo hlast
      rw [show scheme ++ ':' :: '/' :: '/' :: (userinfo ++ '@' :: rest) =
        (scheme ++ ':' :: '/' :: '/' :: (userinfo ++ ['@'])) ++ rest by simp, hfind] at hfound
      cases hfound

/-- **The substitution does not go beyond a delimiter.** -/
theorem sub_append (hd : isDelimiter d = true) (s t : Str) :
    withoutNestedUserinfo (s ++ d :: t) = withoutNestedUserinfo s ++ d :: withoutNestedUserinfo t := by
  have halpha : d.isAlpha = false := by
    rcases isDelimiter_iff.mp hd with rfl | rfl
    · decide
    · decide
  unfold withoutNestedUserinfo
  induction s using nestedUserinfo.textRec with
  | nil =>
    rw [Pattern.sub_nil]
    exact Pattern.sub_none (find_eq_none halpha t)
  | stays c s hnone ih =>
    have hnone' := find_append hd (c :: s) t
    rw [hnone, Option.map_none, List.cons_append] at hnone'
    rw [List.cons_append, Pattern.sub_none hnone, Pattern.sub_none hnone', ih]
    rfl
  | found s written rest hsome ih =>
    have hsome' := find_append hd s t
    rw [hsome, Option.map_some] at hsome'
    rw [Pattern.sub_some hsome, Pattern.sub_some hsome', ih, List.append_assoc]

end Delimiters

end LinkShortener.Logging
