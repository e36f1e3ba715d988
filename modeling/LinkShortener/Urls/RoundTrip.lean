import LinkShortener.Urls.OriginalUrl

/-!
# URLs as they are written

`Written` is a URL with an authority, part by part, and with each delimiter there or not there as its author wrote it.

* `urlparse_text`: a written URL is split into its parts.
* `exists_written`: a URL that is split into parts with a scheme and an authority is a written one.
* `geturl_eq`: what the parts of a URL are put together to.
* `Authority.hostinfo_text`, `exists_authority`: the same for the authority, its host and its port.
* `Written.eq_of_text`, `Authority.eq_of_text`: a text is written in one way.
-/

namespace LinkShortener.Urls

open Text

/-- A URL as it is written. A part that is `none` is missing with its delimiter. -/
@[ext]
structure Written where
  lead : Str
  scheme : Str
  netloc : Str
  path : Str
  params : Option Str
  query : Option Str
  fragment : Option Str
  blank : ∀ c ∈ lead, c = ' '
  schemeForm : scheme.head?.any Char.isAlpha = true ∧ scheme.all isSchemeChar = true
  netlocForm : netloc ≠ [] ∧ ∀ c ∈ netloc, endsNetloc c = false
  pathForm : (path = [] ∧ params = none) ∨ path.head? = some '/'
  pathChars : '?' ∉ path ∧ '#' ∉ path
  /-- The parameters stand after the first semicolon of the last segment. -/
  segment : asciiLower scheme ∈ usesParams → ';' ∉ (cutLast '/' path).2
  paramsForm : ∀ s ∈ params, asciiLower scheme ∈ usesParams ∧ '/' ∉ s ∧ '?' ∉ s ∧ '#' ∉ s
  queryForm : ∀ s ∈ query, '#' ∉ s

namespace Written

/-- What follows the authority. -/
def rest (w : Written) : Str := w.path ++ mark ';' w.params ++ mark '?' w.query ++ mark '#' w.fragment

def text (w : Written) : Str := w.lead ++ (w.scheme ++ ':' :: '/' :: '/' :: (w.netloc ++ w.rest))

def parts (w : Written) : ParseResult :=
  ⟨asciiLower w.scheme, w.netloc, w.path, w.params.getD [], w.query.getD [], w.fragment.getD []⟩

end Written

/-! ## Reading what is written -/

section Reading

theorem isControl_iff {c : Char} : isControl c = true ↔ c.toNat < 32 ∨ c.toNat = 127 := decide_eq_true_iff

/-- Text without control characters loses its leading spaces only. -/
theorem cleaned_eq {url : Str} (h : url.any isControl = false) : cleaned url = url.dropWhile isControlOrSpace := by
  unfold cleaned
  apply List.filter_eq_self.mpr
  intro c hc
  have hcontrol := List.any_eq_false.mp h c ((List.dropWhile_suffix _).subset hc)
  rw [isControl_iff] at hcontrol
  have hne : ∀ d : Char, d.toNat < 32 → c ≠ d := by
    rintro d hd rfl
    exact hcontrol (.inl hd)
  simp [hne '\t' (by decide), hne '\r' (by decide), hne '\n' (by decide)]

theorem isSchemeChar_colon {s : Str} (h : s.all isSchemeChar = true) : ':' ∉ s := by
  intro hm
  have hcolon := List.all_eq_true.mp h ':' hm
  revert hcolon
  decide

theorem isSchemeChar_iff {c : Char} : isSchemeChar c = true ↔ (65 ≤ c.toNat ∧ c.toNat ≤ 90) ∨
    (97 ≤ c.toNat ∧ c.toNat ≤ 122) ∨ (48 ≤ c.toNat ∧ c.toNat ≤ 57) ∨ c.toNat = 43 ∨ c.toNat = 45 ∨ c.toNat = 46 := by
  have heq : ∀ d : Char, c = d ↔ c.toNat = d.toNat := fun d => Char.toNat_inj.symm
  unfold isSchemeChar Char.isAlphanum
  simp only [Bool.or_eq_true, decide_eq_true_eq, isAlpha_iff, isDigit_iff, heq]
  simp [or_assoc]

theorem scheme_lower {scheme : Str} (hform : scheme.head?.any Char.isAlpha = true ∧ scheme.all isSchemeChar = true) :
    (asciiLower scheme).head?.any Char.isAlpha = true ∧ (asciiLower scheme).all isSchemeChar = true := by
  obtain ⟨hhead, hall⟩ := hform
  constructor
  · cases scheme with
    | nil => cases hhead
    | cons c scheme =>
      have hc : c.isAlpha = true := hhead
      show c.toLower.isAlpha = true
      rw [isAlpha_iff] at hc ⊢
      rw [toNat_toLower]
      split <;> omega
  · apply List.all_eq_true.mpr
    intro d hd
    obtain ⟨c, hc, rfl⟩ := List.mem_map.mp hd
    have hchar := isSchemeChar_iff.mp (List.all_eq_true.mp hall c hc)
    rw [isSchemeChar_iff, toNat_toLower]
    split <;> omega

theorem splitScheme_append {scheme : Str} (hhead : scheme.head?.any Char.isAlpha = true)
    (hall : scheme.all isSchemeChar = true) (rest : Str) :
    splitScheme (scheme ++ ':' :: rest) = (asciiLower scheme, rest) := by
  have hcut : cut ':' (scheme ++ ':' :: rest) = (scheme, rest) := cut_append (isSchemeChar_colon hall) rest
  unfold splitScheme
  rw [hcut]
  exact if_pos ⟨by simp, hhead, hall⟩

theorem splitNetloc_append {netloc tail : Str} (hnetloc : ∀ c ∈ netloc, endsNetloc c = false)
    (htail : ∀ c ∈ tail.head?, endsNetloc c = true) :
    splitNetloc ('/' :: '/' :: (netloc ++ tail)) = (netloc, tail) := by
  have hin : ∀ c ∈ netloc, (!endsNetloc c) = true := by
    intro c hc
    rw [hnetloc c hc]
    rfl
  have hout : ∀ c ∈ tail.head?, (!endsNetloc c) = false := by
    intro c hc
    rw [htail c hc]
    rfl
  have htake : ('/' :: '/' :: (netloc ++ tail)).take 2 = ['/', '/'] := rfl
  unfold splitNetloc
  rw [if_pos htake]
  exact Prod.ext (takeWhile_append_stop hin hout) (dropWhile_append_stop hin hout)

/-- What follows an authority begins with a delimiter. -/
theorem tail_head {path : Str} {query fragment : Option Str} (hpath : path = [] ∨ path.head? = some '/') :
    ∀ c ∈ (path ++ mark '?' query ++ mark '#' fragment).head?, endsNetloc c = true := by
  intro c hc
  rcases hpath with rfl | hpath
  · cases query with
    | some q =>
      cases hc
      rfl
    | none =>
      cases fragment with
      | some f =>
        cases hc
        rfl
      | none => cases hc
  · rw [List.append_assoc, List.head?_append, hpath] at hc
    cases hc
    rfl

variable (w : Written)

theorem Written.cleaned_text (h : w.text.any isControl = false) :
    cleaned w.text = w.scheme ++ ':' :: '/' :: '/' :: (w.netloc ++ w.rest) := by
  rw [cleaned_eq h]
  apply dropWhile_append_stop
  · intro c hc
    rw [w.blank c hc]
    decide
  · intro c hc
    obtain ⟨hhead, -⟩ := w.schemeForm
    cases hs : w.scheme with
    | nil =>
      rw [hs] at hhead
      cases hhead
    | cons a s =>
      rw [hs] at hc hhead
      cases hc
      have ha := isAlpha_iff.mp hhead
      unfold isControlOrSpace
      simp
      omega

theorem Written.splitScheme_text (rest : Str) :
    splitScheme (w.scheme ++ ':' :: rest) = (asciiLower w.scheme, rest) :=
  splitScheme_append w.schemeForm.1 w.schemeForm.2 rest

theorem Written.rest_head : ∀ c ∈ w.rest.head?, endsNetloc c = true := by
  apply tail_head
  rcases w.pathForm with ⟨hpath, hparams⟩ | hpath
  · rw [hpath, hparams]
    exact .inl rfl
  · rw [List.head?_append, hpath]
    exact .inr rfl

theorem Written.splitNetloc_text : splitNetloc ('/' :: '/' :: (w.netloc ++ w.rest)) = (w.netloc, w.rest) :=
  splitNetloc_append w.netlocForm.2 w.rest_head

/-- The path with its parameters. -/
theorem Written.cut_rest : cut '#' w.rest = (w.path ++ mark ';' w.params ++ mark '?' w.query, w.fragment.getD []) ∧
    cut '?' (w.path ++ mark ';' w.params ++ mark '?' w.query) = (w.path ++ mark ';' w.params, w.query.getD []) := by
  have hparams : '?' ∉ mark ';' w.params ∧ '#' ∉ mark ';' w.params :=
    ⟨not_mem_mark (by decide) fun s hs => (w.paramsForm s hs).2.2.1,
      not_mem_mark (by decide) fun s hs => (w.paramsForm s hs).2.2.2⟩
  have hquery : '#' ∉ mark '?' w.query := not_mem_mark (by decide) w.queryForm
  refine ⟨cut_append_mark ?_ _, cut_append_mark ?_ _⟩
  · simp [w.pathChars.2, hparams.2, hquery]
  · simp [w.pathChars.1, hparams.1]

theorem Written.splitParams_path (h : asciiLower w.scheme ∈ usesParams) :
    splitParams (w.path ++ mark ';' w.params) = (w.path, w.params.getD []) := by
  have hslash : '/' ∉ mark ';' w.params := not_mem_mark (by decide) fun s hs => (w.paramsForm s hs).2.1
  have hcut := cut_append_mark (w.segment h) w.params
  unfold splitParams
  rw [cutLast_append_of_not_mem w.path hslash]
  dsimp only
  rw [hcut]
  exact Prod.ext (cutLast_join '/' w.path) rfl

/-- **A URL is written in one way.** -/
theorem Written.eq_of_text {w w' : Written} (htext : w.text = w'.text) (hcontrol : w.text.any isControl = false) : w = w' := by
  have hbody : w.scheme ++ ':' :: '/' :: '/' :: (w.netloc ++ w.rest) =
      w'.scheme ++ ':' :: '/' :: '/' :: (w'.netloc ++ w'.rest) := by
    rw [← w.cleaned_text hcontrol, htext, w'.cleaned_text (htext ▸ hcontrol)]
  have hlead : w.lead = w'.lead := by
    unfold Written.text at htext
    rw [hbody] at htext
    exact List.append_cancel_right htext
  obtain ⟨hscheme, hslashes⟩ := Prod.mk.inj ((cut_append (isSchemeChar_colon w.schemeForm.2) _).symm.trans
    ((congrArg (cut ':') hbody).trans (cut_append (isSchemeChar_colon w'.schemeForm.2) _)))
  obtain ⟨hnetloc, hrest⟩ := Prod.mk.inj (w.splitNetloc_text.symm.trans
    ((congrArg splitNetloc hslashes).trans w'.splitNetloc_text))
  have hno : ∀ w : Written, '#' ∉ w.path ++ mark ';' w.params ++ mark '?' w.query ∧ '?' ∉ w.path ++ mark ';' w.params ∧
      '/' ∉ mark ';' w.params := by
    intro w
    have hquestion : '?' ∉ mark ';' w.params := not_mem_mark (by decide) fun s hs => (w.paramsForm s hs).2.2.1
    have hnumber : '#' ∉ mark ';' w.params := not_mem_mark (by decide) fun s hs => (w.paramsForm s hs).2.2.2
    have hquery : '#' ∉ mark '?' w.query := not_mem_mark (by decide) w.queryForm
    exact ⟨by simp [w.pathChars.2, hnumber, hquery], by simp [w.pathChars.1, hquestion],
      not_mem_mark (by decide) fun s hs => (w.paramsForm s hs).2.1⟩
  obtain ⟨hbefore, hfragment⟩ := append_mark_inj (hno w).1 (hno w').1 hrest
  obtain ⟨hpath, hquery⟩ := append_mark_inj (hno w).2.1 (hno w').2.1 hbefore
  have hparams : w.path = w'.path ∧ w.params = w'.params := by
    by_cases huses : asciiLower w.scheme ∈ usesParams
    · have huses' : asciiLower w'.scheme ∈ usesParams := hscheme ▸ huses
      have hlast := congrArg (cutLast '/') hpath
      rw [cutLast_append_of_not_mem _ (hno w).2.2, cutLast_append_of_not_mem _ (hno w').2.2] at hlast
      obtain ⟨hfront, hsegment⟩ := Prod.mk.inj hlast
      obtain ⟨hback, hparams⟩ := append_mark_inj (w.segment huses) (w'.segment huses') hsegment
      refine ⟨?_, hparams⟩
      rw [← cutLast_join '/' w.path, ← cutLast_join '/' w'.path, hfront, hback]
    · have hnone : ∀ w' : Written, w'.scheme = w.scheme → w'.params = none := by
        intro w' hsame
        cases hp : w'.params with
        | none => rfl
        | some s => exact absurd (hsame ▸ (w'.paramsForm s hp).1) huses
      rw [hnone w rfl, hnone w' hscheme.symm] at hpath ⊢
      simpa [mark] using hpath
  exact Written.ext hlead hscheme hnetloc hparams.1 hparams.2 hquery hfragment

/-- **A written URL is split into its parts**, when its authority passes the checks. -/
theorem urlparse_text {libs : Libraries} (hcontrol : w.text.any isControl = false)
    (hbrackets : checkBrackets w.netloc = true) (hnetloc : checkNetloc libs w.netloc = true) :
    urlparse libs w.text = some w.parts := by
  obtain ⟨hfragment, hquery⟩ := w.cut_rest
  have hsplit : urlsplit libs w.text = some
      ⟨asciiLower w.scheme, w.netloc, w.path ++ mark ';' w.params, w.query.getD [], w.fragment.getD []⟩ := by
    unfold urlsplit
    rw [w.cleaned_text hcontrol, w.splitScheme_text]
    dsimp only
    rw [w.splitNetloc_text]
    dsimp only
    rw [hfragment]
    dsimp only
    rw [hquery, hbrackets, hnetloc]
    rfl
  unfold urlparse
  rw [hsplit, Option.map_some]
  split
  · rename_i h
    rw [w.splitParams_path h.1]
    rfl
  · rename_i h
    -- Without parameters to split off there are none.
    have hparams : w.params = none := by
      cases hp : w.params with
      | none => rfl
      | some s => exact absurd ⟨(w.paramsForm s hp).1, by simp [hp, mark]⟩ h
    rw [Written.parts, hparams]
    simp [mark]

end Reading

/-! ## Every URL is written -/

section Writing

variable {libs : Libraries} {url : Str} {r : ParseResult}

/-- What the splitting of a URL has found. -/
theorem urlsplit_eq_some {r : SplitResult} (h : urlsplit libs url = some r) :
    ∃ rest tail, splitScheme (cleaned url) = (r.scheme, rest) ∧ splitNetloc rest = (r.netloc, tail) ∧
      r.path = (cut '?' (cut '#' tail).1).1 ∧ r.query = (cut '?' (cut '#' tail).1).2 ∧ r.fragment = (cut '#' tail).2 ∧
      checkBrackets r.netloc = true ∧ checkNetloc libs r.netloc = true := by
  unfold urlsplit at h
  dsimp only at h
  split at h
  · rename_i hchecks
    cases h
    obtain ⟨hbrackets, hnetloc⟩ := Bool.and_eq_true_iff.mp hchecks
    exact ⟨_, _, rfl, rfl, rfl, rfl, rfl, hbrackets, hnetloc⟩
  · cases h

theorem splitScheme_of_ne_nil {s scheme rest : Str} (h : splitScheme s = (scheme, rest)) (hne : scheme ≠ []) :
    ∃ written, s = written ++ ':' :: rest ∧ asciiLower written = scheme ∧
      written.head?.any Char.isAlpha = true ∧ written.all isSchemeChar = true := by
  unfold splitScheme at h
  dsimp only at h
  split at h
  · rename_i hcond
    cases h
    exact ⟨(cut ':' s).1, (cut_join hcond.1).symm, rfl, hcond.2.1, hcond.2.2⟩
  · cases h
    exact absurd rfl hne

theorem splitNetloc_of_ne_nil {s netloc tail : Str} (h : splitNetloc s = (netloc, tail)) (hne : netloc ≠ []) :
    s = '/' :: '/' :: (netloc ++ tail) ∧ (∀ c ∈ netloc, endsNetloc c = false) ∧ ∀ c ∈ tail.head?, endsNetloc c =
      true := by
  unfold splitNetloc at h
  split at h
  · rename_i hslashes
    cases h
    refine ⟨?_, ?_, ?_⟩
    · rw [List.takeWhile_append_dropWhile]
      conv_lhs => rw [← List.take_append_drop 2 s, hslashes]
      rfl
    · intro c hc
      simpa using List.mem_takeWhile_imp hc
    · intro c hc
      have hstop := List.head?_dropWhile_not (fun c => !endsNetloc c) (s.drop 2)
      rw [hc] at hstop
      simpa using hstop
  · cases h
    exact absurd rfl hne

/-- The path of a URL with an authority is empty or begins with a slash. -/
theorem path_head {tail : Str} (h : ∀ c ∈ tail.head?, endsNetloc c = true) :
    (cut '?' (cut '#' tail).1).1 = [] ∨ (cut '?' (cut '#' tail).1).1.head? = some '/' := by
  cases tail with
  | nil => exact .inl rfl
  | cons c tail =>
    have hc := h c rfl
    unfold endsNetloc at hc
    rw [Bool.or_eq_true, Bool.or_eq_true, decide_eq_true_iff, decide_eq_true_iff, decide_eq_true_iff] at hc
    rcases hc with (rfl | rfl) | rfl
    · right
      simp [cut]
    · left
      simp [cut]
    · left
      simp [cut]

/-- The path and the parameters that `urlparse` makes of a path. -/
theorem urlparse_eq_some (h : urlparse libs url = some r) :
    ∃ split, urlsplit libs url = some split ∧ r.scheme = split.scheme ∧ r.netloc = split.netloc ∧
      r.query = split.query ∧ r.fragment = split.fragment ∧
      ((split.scheme ∈ usesParams ∧ (r.path, r.params) = splitParams split.path) ∨
        (split.scheme ∉ usesParams ∧ r.path = split.path ∧ r.params = [])) := by
  obtain ⟨split, hsplit, hr⟩ := Option.map_eq_some_iff.mp h
  refine ⟨split, hsplit, ?_⟩
  split at hr
  · rename_i hcond
    subst hr
    exact ⟨rfl, rfl, rfl, rfl, .inl ⟨hcond.1, rfl⟩⟩
  · rename_i hcond
    subst hr
    refine ⟨rfl, rfl, rfl, rfl, ?_⟩
    by_cases huses : split.scheme ∈ usesParams
    · refine .inl ⟨huses, ?_⟩
      -- A path without a semicolon is left whole.
      have hnone : ';' ∉ (cutLast '/' split.path).2 := by
        intro hm
        apply hcond
        refine ⟨huses, ?_⟩
        rw [← cutLast_join '/' split.path]
        exact List.mem_append_right _ hm
      unfold splitParams
      dsimp only
      rw [cut_of_not_mem hnone, cutLast_join]
    · exact .inr ⟨huses, rfl, rfl⟩

/-- The path and the parameters of a path, as they are written. -/
theorem exists_params {path : Str} (hhead : path = [] ∨ path.head? = some '/') :
    ∃ base params, path = base ++ mark ';' params ∧ splitParams path = (base, params.getD []) ∧
      ((base = [] ∧ params = none) ∨ base.head? = some '/') ∧ ';' ∉ (cutLast '/' base).2 ∧ ∀ s ∈ params, '/' ∉ s := by
  have hjoin := cut_mark ';' (cutLast '/' path).2
  have hslash : '/' ∉ (cut ';' (cutLast '/' path).2).1 ++ mark ';' (after ';' (cutLast '/' path).2) := by
    rw [hjoin]
    exact not_mem_cutLast
  rw [List.mem_append, not_or] at hslash
  have hlast : cutLast '/' (cutLast '/' path).1 = ((cutLast '/' path).1, []) := by
    have hwhole := cutLast_append_of_not_mem (cutLast '/' path).1 (not_mem_cutLast (s := path) (c := '/'))
    rw [cutLast_join] at hwhole
    exact Prod.ext (congrArg Prod.fst hwhole).symm (List.append_left_eq_self.mp (congrArg Prod.snd hwhole).symm)
  refine ⟨(cutLast '/' path).1 ++ (cut ';' (cutLast '/' path).2).1, after ';' (cutLast '/' path).2, ?_, ?_, ?_, ?_, ?_⟩
  · rw [List.append_assoc, hjoin, cutLast_join]
  · unfold splitParams
    dsimp only
    rw [after_getD]
  · rcases hhead with rfl | hhead
    · exact .inl ⟨rfl, rfl⟩
    · right
      have hfirst := head?_cutLast hhead
      rw [List.head?_append, hfirst]
      rfl
  · rw [cutLast_append_of_not_mem _ hslash.1, hlast]
    exact not_mem_cut
  · intro s hs hm
    apply hslash.2
    rw [Option.mem_def] at hs
    rw [hs, mark]
    exact List.mem_cons_of_mem _ hm

/-- **A URL that is split into parts with a scheme and an authority is a written one.** -/
theorem exists_written (h : urlparse libs url = some r) (hscheme : r.scheme ≠ []) (hnetloc : r.netloc ≠ [])
    (hcontrol : url.any isControl = false) :
    ∃ w : Written, w.text = url ∧ w.parts = r ∧ checkBrackets r.netloc = true ∧ checkNetloc libs r.netloc = true := by
  obtain ⟨split, hsplit, hs, hn, hq, hf, hparams⟩ := urlparse_eq_some h
  obtain ⟨rest, tail, hrest, htail, hpath, hquery, hfragment, hbrackets, hchecked⟩ := urlsplit_eq_some hsplit
  obtain ⟨written, hwritten, hlower, halpha, hchars⟩ := splitScheme_of_ne_nil hrest (hs ▸ hscheme)
  obtain ⟨hauthority, hinside, hafter⟩ := splitNetloc_of_ne_nil htail (hn ▸ hnetloc)
  rw [cleaned_eq hcontrol] at hwritten
  have hlead : ∀ c ∈ url.takeWhile isControlOrSpace, c = ' ' := by
    intro c hc
    have hin : isControlOrSpace c = true := List.mem_takeWhile_imp hc
    have hle : c.toNat ≤ 32 := of_decide_eq_true hin
    have hnot := List.any_eq_false.mp hcontrol c ((List.takeWhile_prefix _).subset hc)
    rw [isControl_iff] at hnot
    apply Char.toNat_inj.mp
    show c.toNat = 32
    omega
  have hwhole : split.path ++ mark '?' (after '?' (cut '#' tail).1) ++ mark '#' (after '#' tail) = tail := by
    rw [hpath, cut_mark, cut_mark]
  have hquestion : '?' ∉ split.path := hpath ▸ not_mem_cut
  have hnumber : '#' ∉ split.path ++ mark '?' (after '?' (cut '#' tail).1) := by
    rw [hpath, cut_mark]
    exact not_mem_cut
  rw [List.mem_append, not_or] at hnumber
  obtain ⟨base, params, hbase, hrpath, hrparams, hform, hsegment, hparamsForm⟩ : ∃ base params,
      split.path = base ++ mark ';' params ∧ r.path = base ∧ r.params = params.getD [] ∧
        ((base = [] ∧ params = none) ∨ base.head? = some '/') ∧
        (split.scheme ∈ usesParams → ';' ∉ (cutLast '/' base).2) ∧
        ∀ s ∈ params, split.scheme ∈ usesParams ∧ '/' ∉ s := by
    have hhead := path_head hafter
    rw [← hpath] at hhead
    rcases hparams with ⟨huses, hr⟩ | ⟨huses, hrpath, hrparams⟩
    · obtain ⟨base, params, hbase, hsplitParams, hform, hsegment, hslash⟩ := exists_params hhead
      rw [hsplitParams, Prod.mk.injEq] at hr
      exact ⟨base, params, hbase, hr.1, hr.2, hform, fun _ => hsegment, fun s hs => ⟨huses, hslash s hs⟩⟩
    · refine ⟨split.path, none, (List.append_nil _).symm, hrpath, hrparams, ?_, fun h => absurd h huses, nofun⟩
      exact hhead.imp_left fun h => ⟨h, rfl⟩
  have hmem : ∀ s ∈ params, ∀ c ∈ s, c ∈ split.path := by
    intro s hs c hc
    rw [Option.mem_def] at hs
    rw [hbase, hs, mark]
    exact List.mem_append_right _ (List.mem_cons_of_mem _ hc)
  have hsub : ∀ c ∈ base, c ∈ split.path := fun c hc => hbase ▸ List.mem_append_left _ hc
  refine ⟨{ lead := url.takeWhile isControlOrSpace, scheme := written, netloc := r.netloc, path := base,
            params := params, query := after '?' (cut '#' tail).1, fragment := after '#' tail, blank := hlead,
            schemeForm := ⟨halpha, hchars⟩, netlocForm := ⟨hnetloc, hn ▸ hinside⟩, pathForm := hform,
            pathChars := ⟨fun hm => hquestion (hsub _ hm), fun hm => hnumber.1 (hsub _ hm)⟩,
            segment := hlower ▸ hsegment,
            paramsForm := fun s hs => ⟨hlower ▸ (hparamsForm s hs).1, (hparamsForm s hs).2,
              fun hm => hquestion (hmem s hs _ hm), fun hm => hnumber.1 (hmem s hs _ hm)⟩,
            queryForm := ?_ }, ?_, ?_, hn ▸ hbrackets, hn ▸ hchecked⟩
  · intro s hs hm
    apply hnumber.2
    rw [Option.mem_def] at hs
    rw [hs, mark]
    exact List.mem_cons_of_mem _ hm
  · unfold Written.text Written.rest
    dsimp only
    rw [← hbase, hwhole, hn, ← hauthority, ← hwritten, List.takeWhile_append_dropWhile]
  · unfold Written.parts
    dsimp only
    rw [after_getD, after_getD, ← hquery, ← hfragment, hlower, ← hs, ← hq, ← hf, ← hrpath, ← hrparams]

end Writing

/-- An empty part leaves no delimiter. -/
theorem append_mark_nonempty (c : Char) (s part : Str) :
    (if part ≠ [] then s ++ c :: part else s) = s ++ mark c (nonempty part) := by
  unfold nonempty
  by_cases h : part = []
  · simp [h, mark]
  · simp [h, mark]

/-- A URL with an authority is put together from its parts; those that are empty leave no delimiter. -/
theorem geturl_eq {r : ParseResult} (hscheme : r.scheme ≠ []) (hnetloc : r.netloc ≠ [])
    (hpath : r.path.head? = some '/') :
    r.geturl = r.scheme ++ ':' :: '/' :: '/' :: (r.netloc ++ (r.path ++ mark ';' (nonempty r.params) ++
      mark '?' (nonempty r.query) ++ mark '#' (nonempty r.fragment))) := by
  have hhead : (r.path ++ mark ';' (nonempty r.params)).head? = some '/' := by
    rw [List.head?_append, hpath]
    rfl
  unfold ParseResult.geturl urlunsplit
  rw [append_mark_nonempty]
  dsimp only
  rw [append_mark_nonempty, append_mark_nonempty, if_pos hscheme, if_pos (Or.inl hnetloc), if_neg (fun h => h.2 hhead)]
  simp

/-! ## The authority -/

/-- An authority without credentials as it is written: a host, in brackets or not, and a port. -/
@[ext]
structure Authority where
  bracketed : Bool
  host : Str
  port : Option Str
  literal : bracketed = true → ']' ∉ host ∧ checkBracketedHost host = true
  name : bracketed = false → '[' ∉ host ∧ ']' ∉ host ∧ ':' ∉ host
  noCredentials : '@' ∉ host
  digits : ∀ s ∈ port, s.all Char.isDigit = true

namespace Authority

def text (a : Authority) : Str := (if a.bracketed then '[' :: (a.host ++ [']']) else a.host) ++ mark ':' a.port

variable (a : Authority)

theorem not_mem_port {c : Char} (hcolon : c ≠ ':') (hdigit : c.isDigit = false) : c ∉ mark ':' a.port := by
  apply not_mem_mark hcolon
  intro s hs hm
  have h := List.all_eq_true.mp (a.digits s hs) c hm
  rw [hdigit] at h
  cases h

theorem text_bracketed (h : a.bracketed = true) : a.text = [] ++ '[' :: (a.host ++ ']' :: mark ':' a.port) := by
  unfold text
  rw [h]
  simp

theorem text_name (h : a.bracketed = false) : a.text = a.host ++ mark ':' a.port := by
  unfold text
  rw [h]
  rfl

theorem not_mem_credentials : '@' ∉ a.text := by
  have hport := a.not_mem_port (c := '@') (by decide) (by decide)
  cases h : a.bracketed with
  | true => simp [a.text_bracketed h, a.noCredentials, hport]
  | false => simp [a.text_name h, a.noCredentials, hport]

theorem hostAndPort_text : hostAndPort a.text = a.text := by
  unfold hostAndPort
  rw [cutLast_of_not_mem a.not_mem_credentials]

theorem mem_bracket : '[' ∈ a.text ↔ a.bracketed = true := by
  cases h : a.bracketed with
  | true => simp [a.text_bracketed h]
  | false => simp [a.text_name h, (a.name h).1, a.not_mem_port (c := '[') (by decide) (by decide)]

theorem mem_closing : ']' ∈ a.text ↔ a.bracketed = true := by
  cases h : a.bracketed with
  | true => simp [a.text_bracketed h]
  | false => simp [a.text_name h, (a.name h).2.1, a.not_mem_port (c := ']') (by decide) (by decide)]

/-- **The host and the port of a written authority**; an empty port is none. -/
theorem hostinfo_text : hostinfo a.text = (a.host, nonempty (a.port.getD [])) := by
  unfold hostinfo
  rw [a.hostAndPort_text]
  dsimp only
  cases h : a.bracketed with
  | true =>
    rw [if_pos (a.mem_bracket.mpr h), a.text_bracketed h, cut_append List.not_mem_nil]
    dsimp only
    rw [cut_append (a.literal h).1]
    dsimp only
    have hport : cut ':' (mark ':' a.port) = ([], a.port.getD []) := cut_append_mark List.not_mem_nil a.port
    rw [hport]
    rfl
  | false =>
    have hnot : '[' ∉ a.text := fun hm => by simp [a.mem_bracket.mp hm] at h
    rw [if_neg hnot, a.text_name h, cut_append_mark (a.name h).2.2]
    rfl

theorem checkBrackets_text : checkBrackets a.text = true := by
  unfold checkBrackets
  cases h : a.bracketed with
  | true =>
    rw [if_pos ⟨a.mem_bracket.mpr h, a.mem_closing.mpr h⟩]
    unfold checkBracketedNetloc
    rw [a.hostAndPort_text]
    dsimp only
    rw [if_pos (a.mem_bracket.mpr h), a.text_bracketed h, cut_append List.not_mem_nil]
    dsimp only
    rw [cut_append (a.literal h).1, (a.literal h).2]
    cases a.port with
    | none => rfl
    | some s => rfl
  | false =>
    have hopening : '[' ∉ a.text := fun hm => by simp [a.mem_bracket.mp hm] at h
    have hclosing : ']' ∉ a.text := fun hm => by simp [a.mem_closing.mp hm] at h
    rw [if_neg fun hm => hopening hm.1]
    exact decide_eq_true ⟨hopening, hclosing⟩

end Authority

/-- **An authority is written in one way.** -/
theorem Authority.eq_of_text {a a' : Authority} (h : a.text = a'.text) : a = a' := by
  have hbracketed : a.bracketed = a'.bracketed := by
    rw [Bool.eq_iff_iff, ← a.mem_bracket, ← a'.mem_bracket, h]
  have hparts : a.host = a'.host ∧ a.port = a'.port := by
    cases hb : a.bracketed with
    | true =>
      have hb' : a'.bracketed = true := hbracketed ▸ hb
      rw [a.text_bracketed hb, a'.text_bracketed hb'] at h
      obtain ⟨hhost, hport⟩ := Prod.mk.inj ((cut_append (a.literal hb).1 _).symm.trans
        ((congrArg (cut ']') (List.cons_eq_cons.mp h).2).trans (cut_append (a'.literal hb').1 _)))
      have hmarks : [] ++ mark ':' a.port = [] ++ mark ':' a'.port := hport
      exact ⟨hhost, (append_mark_inj List.not_mem_nil List.not_mem_nil hmarks).2⟩
    | false =>
      have hb' : a'.bracketed = false := hbracketed ▸ hb
      rw [a.text_name hb, a'.text_name hb'] at h
      exact append_mark_inj (a.name hb).2.2 (a'.name hb').2.2 h
  exact Authority.ext hbracketed hparts.1 hparts.2

/-- An authority without credentials, with its brackets in order and a port that can be read, is a written one. -/
theorem exists_authority {netloc : Str} (hat : '@' ∉ netloc) (hbrackets : checkBrackets netloc = true)
    (hport : ∀ s ∈ (hostinfo netloc).2, s.all Char.isDigit = true) : ∃ a : Authority, a.text = netloc := by
  have hhost : hostAndPort netloc = netloc := by
    unfold hostAndPort
    rw [cutLast_of_not_mem hat]
  unfold hostinfo at hport
  rw [hhost] at hport
  have hdigits : ∀ (port : Str) s, s ∈ after ':' port → (∀ t ∈ nonempty (cut ':' port).2, t.all Char.isDigit = true) →
      s.all Char.isDigit = true := by
    intro port s hs hall
    have hgetD := after_getD ':' port
    rw [Option.mem_def] at hs
    rw [hs, Option.getD_some] at hgetD
    rw [← hgetD] at hall
    cases s with
    | nil => rfl
    | cons c s => exact hall _ rfl
  unfold checkBrackets at hbrackets
  split at hbrackets
  · rename_i hmem
    unfold checkBracketedNetloc at hbrackets
    rw [hhost] at hbrackets
    dsimp only at hport hbrackets
    rw [if_pos hmem.1] at hport hbrackets
    obtain ⟨hfront, hliteral⟩ := Bool.and_eq_true_iff.mp hbrackets
    obtain ⟨hnothing, hafter⟩ := Bool.and_eq_true_iff.mp hfront
    have hopen := cut_join hmem.1
    rw [of_decide_eq_true hnothing] at hopen
    have hclose : ']' ∈ (cut '[' netloc).2 := by
      have hm := hmem.2
      rw [← hopen] at hm
      simpa using hm
    have hwhole := cut_join hclose
    have hmark : mark ':' (after ':' (cut ']' (cut '[' netloc).2).2) = (cut ']' (cut '[' netloc).2).2 := by
      have hjoin := cut_mark ':' (cut ']' (cut '[' netloc).2).2
      cases hrest : (cut ']' (cut '[' netloc).2).2 with
      | nil => rfl
      | cons c rest =>
        rw [hrest] at hafter
        have hc : c = ':' := by simpa using hafter
        subst hc
        rw [hrest] at hjoin
        simpa [cut] using hjoin
    refine ⟨⟨true, (cut ']' (cut '[' netloc).2).1, after ':' (cut ']' (cut '[' netloc).2).2,
      fun _ => ⟨not_mem_cut, hliteral⟩, nofun, ?_, fun s hs => hdigits _ s hs hport⟩, ?_⟩
    · intro hm
      apply hat
      rw [← hopen, ← hwhole]
      simp [hm]
    · rw [Authority.text_bracketed _ rfl]
      dsimp only
      rw [hmark, hwhole, hopen]
  · rename_i hnot
    have hnone := of_decide_eq_true hbrackets
    dsimp only at hport
    rw [if_neg hnone.1] at hport
    have hjoin := cut_mark ':' netloc
    have hsub : ∀ c ∈ (cut ':' netloc).1, c ∈ netloc := fun c hc => hjoin ▸ List.mem_append_left _ hc
    refine ⟨⟨false, (cut ':' netloc).1, after ':' netloc, nofun, fun _ => ⟨fun hm => hnone.1 (hsub _ hm),
      fun hm => hnone.2 (hsub _ hm), not_mem_cut⟩, fun hm => hat (hsub _ hm), fun s hs => hdigits _ s hs hport⟩, ?_⟩
    rw [Authority.text_name _ rfl]
    exact hjoin

end LinkShortener.Urls
