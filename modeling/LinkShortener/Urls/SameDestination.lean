import LinkShortener.Urls.NormalForms

/-!
# Equal normal forms

URLs with the same normal form share one hash and one short code. What they may differ in is said of the URLs as they are
written: `SameDestination` compares two of them part by part, `SameRequest` tells an empty query or empty parameters from
none, and `DiffersAsListed` allows only what the normal form is said to even out.

* `hasForm_ascii`: how a host comes to its ASCII form.
* `equal_normal_forms_same_destination`: admitted URLs with one normal form have one destination. `geturl` leaves out the
  delimiter of an empty part, so they ask for one thing there exactly if those delimiters agree (`DelimitersAgree`).
-/

namespace LinkShortener.Urls

open Text

/-! ## Hosts -/

/-- The letters of a text in lower case, up to some point: the zone of an address keeps its own. -/
def LetterCase (libs : Libraries) (s t : Str) : Prop := ∃ front back, s = front ++ back ∧ t = libs.lower front ++ back

/-- A host has a form: with its letters in lower case and without one root dot it is that form in some letter case, or
the form is its UTS-46 encoding. -/
def HasForm (libs : Libraries) (host form : Str) : Prop :=
  ∃ lowered plain, LetterCase libs host lowered ∧ (lowered = plain ∨ lowered = plain ++ ['.']) ∧
    (LetterCase libs plain form ∨ libs.idnaEncode plain = .ok form)

/-- The number of a port; a port without digits is none. -/
def portNumber (port : Option Str) : Option Nat := (nonempty (port.getD [])).map (int .decimal)

/-- A port as it is written, unless it is the one the scheme omits. -/
def shownText (scheme : Str) (port : Option Str) : Option Str :=
  port.filter fun digits => decide (defaultPort scheme ≠ some (int .decimal digits))

/-! ## Destinations -/

/-- Two URLs agree but for leading spaces, the letter case of scheme and host, the form and the root dot of the host, the
spelling of the port and a port the scheme omits, an empty path, the delimiters of empty parameters and of an empty
query, and the fragment. -/
structure SameDestination (libs : Libraries) (u v : Written) (a b : Authority) : Prop where
  scheme : asciiLower u.scheme = asciiLower v.scheme
  brackets : a.bracketed = b.bracketed
  host : ∃ form, HasForm libs a.host form ∧ HasForm libs b.host form
  port : shownPort (asciiLower u.scheme) (portNumber a.port) = shownPort (asciiLower v.scheme) (portNumber b.port)
  path : (if u.path = [] then ['/'] else u.path) = if v.path = [] then ['/'] else v.path
  params : u.params.getD [] = v.params.getD []
  query : u.query.getD [] = v.query.getD []

/-- Besides, what is asked for there is written alike: a part that is empty is not a part that is missing. -/
structure SameRequest (libs : Libraries) (u v : Written) (a b : Authority) : Prop
    extends SameDestination libs u v a b where
  paramsText : u.params = v.params
  queryText : u.query = v.query

/-- Two URLs agree but for the letter case of scheme and host, the form and the root dot of the host, a port the scheme
omits, an empty path, and the fragment. -/
structure DiffersAsListed (libs : Libraries) (u v : Written) (a b : Authority) : Prop
    extends SameRequest libs u v a b where
  lead : u.lead = v.lead
  portText : shownText (asciiLower u.scheme) a.port = shownText (asciiLower v.scheme) b.port

/-- Both URLs have a `;` before their parameters or neither has, and so with the `?` before their query. -/
def DelimitersAgree (u v : Written) : Prop := u.params.isSome = v.params.isSome ∧ u.query.isSome = v.query.isSome

/-- A URL as it is written, with its authority. There is one way at most (`Written.eq_of_text`). -/
def IsWritten (url : Str) (w : Written) (a : Authority) : Prop := w.text = url ∧ a.text = w.netloc

section Delimiters

variable {libs : Libraries} {u v : Written} {a b : Authority}

/-- A part is known from its text and from whether its delimiter is there. -/
theorem eq_of_getD {s t : Option Str} (hpart : s.getD [] = t.getD []) (hsome : s.isSome = t.isSome) : s = t := by
  cases s with
  | none =>
    cases t with
    | none => rfl
    | some t => cases hsome
  | some s =>
    cases t with
    | none => cases hsome
    | some t => exact congrArg some hpart

theorem SameDestination.sameRequest_iff (h : SameDestination libs u v a b) :
    SameRequest libs u v a b ↔ DelimitersAgree u v := by
  constructor
  · intro hsame
    exact ⟨congrArg _ hsame.paramsText, congrArg _ hsame.queryText⟩
  · rintro ⟨hparams, hquery⟩
    exact ⟨h, eq_of_getD h.params hparams, eq_of_getD h.query hquery⟩

theorem SameDestination.differsAsListed_iff (h : SameDestination libs u v a b) :
    DiffersAsListed libs u v a b ↔ DelimitersAgree u v ∧ u.lead = v.lead ∧
      shownText (asciiLower u.scheme) a.port = shownText (asciiLower v.scheme) b.port := by
  rw [← h.sameRequest_iff]
  exact ⟨fun hlisted => ⟨hlisted.toSameRequest, hlisted.lead, hlisted.portText⟩,
    fun ⟨hsame, hlead, hport⟩ => ⟨hsame, hlead, hport⟩⟩

end Delimiters

section Equal

variable {libs : Libraries} {cfg : Settings} {url host ascii : Str} {w : Written} {a : Authority} {port : Option Nat}

theorem letterCase_hostname {r : ParseResult} (h : r.hostname libs = some host) :
    LetterCase libs (hostinfo r.netloc).1 host := by
  unfold ParseResult.hostname at h
  dsimp only at h
  split at h
  · cases h
  · split at h
    · rename_i hzone
      cases h
      exact ⟨(cut '%' (hostinfo r.netloc).1).1, '%' :: (cut '%' (hostinfo r.netloc).1).2, (cut_join hzone).symm, rfl⟩
    · cases h
      exact ⟨(hostinfo r.netloc).1, [], (List.append_nil _).symm, (List.append_nil _).symm⟩

/-- **How a host comes to its ASCII form.** -/
theorem Admitted.hasForm_ascii (h : Admitted libs cfg url w a host port) (hlibs : libs.Correct)
    (hascii : toAsciiHost libs host = .ok ascii) : HasForm libs a.host ascii := by
  have hcase := letterCase_hostname h.hostname
  rw [show w.parts.netloc = w.netloc from rfl, h.hostinfo_eq] at hcase
  refine ⟨host, withoutRootLabel host, hcase, ?_, ?_⟩
  · rcases root_cases host with hlast | ⟨x, rfl, hx⟩ | ⟨x, rfl⟩
    · exact .inl (withoutRootLabel_of_getLast hlast).symm
    · rw [withoutRootLabel_concat hx]
      exact .inr rfl
    · exact .inl (withoutRootLabel_dots x).symm
  · rcases toAsciiHost_cases hascii with ⟨his, rfl⟩ | ⟨-, hencode⟩
    · left
      refine ⟨withoutRootLabel host, [], (List.append_nil _).symm, ?_⟩
      rw [hlibs.lower_ascii _ (isAscii_withoutRootLabel.trans his), List.append_nil]
    · exact .inr hencode

theorem Admitted.portNumber_eq (h : Admitted libs cfg url w a host port) : portNumber a.port = port := by
  have hport := h.port
  unfold ParseResult.port at hport
  rw [show w.parts.netloc = w.netloc from rfl, h.hostinfo_eq] at hport
  unfold portNumber
  cases hdigits : nonempty (a.port.getD []) with
  | none =>
    rw [hdigits] at hport
    cases hport
    rfl
  | some digits =>
    rw [hdigits] at hport
    dsimp only at hport
    split at hport
    · cases hport
      rfl
    · cases hport

theorem Admitted.sameDestination {cfg' : Settings} {url' host' n : Str} {w' : Written} {a' : Authority} {port' : Option Nat}
    (h : Admitted libs cfg url w a host port) (hlibs : libs.CaseCorrect) (h' : Admitted libs cfg' url' w' a' host' port')
    (hnu : normalize libs url = .ok n) (hnv : normalize libs url' = .ok n) : SameDestination libs w w' a a' := by
  obtain ⟨ascii, hascii⟩ := h.ascii_of_normalize hnu
  obtain ⟨ascii', hascii'⟩ := h'.ascii_of_normalize hnv
  obtain ⟨hn, hcolon⟩ := h.normalHost hlibs hascii
  obtain ⟨hn', hcolon'⟩ := h'.normalHost hlibs hascii'
  have htext : (w.normal hn port).text = (w'.normal hn' port').text := by
    rw [h.normalize_eq hlibs hn hascii] at hnu
    rw [h'.normalize_eq hlibs hn' hascii'] at hnv
    exact (Except.ok.inj hnu).trans (Except.ok.inj hnv).symm
  -- The normal form is split into one set of parts, whichever URL it is the form of.
  have hfirst := h.normal hlibs hn hascii
  have hsecond := h'.normal hlibs hn' hascii'
  have hparts : (w.normal hn port).parts = (w'.normal hn' port').parts := by
    have hparsed := hfirst.parsed
    rw [htext, hsecond.parsed] at hparsed
    exact (Option.some.inj hparsed).symm
  have hhost : ascii = ascii' := by
    have hname := hfirst.hostname
    rw [hparts, hsecond.hostname] at hname
    exact (Option.some.inj hname).symm
  have hport : shownPort (asciiLower w.scheme) port = shownPort (asciiLower w'.scheme) port' := by
    have hread := hfirst.port
    rw [hparts, hsecond.port] at hread
    exact (Option.some.inj hread).symm
  rw [normal_parts, normal_parts, ParseResult.mk.injEq] at hparts
  obtain ⟨hscheme, -, hpath, hparams, hquery, -⟩ := hparts
  refine ⟨hscheme, ?_, ?_, ?_, hpath, hparams, hquery⟩
  · rw [Bool.eq_iff_iff, h.bracketed_iff hlibs, h'.bracketed_iff hlibs, ← hcolon, ← hcolon', hhost]
  · subst hhost
    exact ⟨ascii, h.hasForm_ascii hlibs.toCorrect hascii, h'.hasForm_ascii hlibs.toCorrect hascii'⟩
  · rw [h.portNumber_eq, h'.portNumber_eq, hport]

/-- An admitted URL is written in no other way than the one it was admitted in. -/
theorem Admitted.eq_of_isWritten {w' : Written} {a' : Authority} (h : Admitted libs cfg url w a host port)
    (hwritten : IsWritten url w' a') : w' = w ∧ a' = a := by
  obtain ⟨htext, hnetloc⟩ := hwritten
  have hw : w' = w := Written.eq_of_text (htext.trans h.text.symm) (htext ▸ h.printable)
  subst hw
  exact ⟨rfl, Authority.eq_of_text (hnetloc.trans h.authority.symm)⟩

/-- **Equal normal forms mean one destination.** Besides what is listed (the letter case of scheme and host, the form and
the root dot of the host, a port the scheme omits, an empty path, the fragment) the URLs may differ in leading spaces, in the
spelling of the port, and in the delimiters of empty parameters and of an empty query. They ask for one thing at that
destination if and only if those delimiters agree, and differ only as listed if spaces and ports are spelled alike besides. -/
theorem equal_normal_forms_same_destination (libs : Libraries) (hlibs : libs.CaseCorrect) (cfg cfg' : Settings)
    (htrusted : cfg.trusted = false) (htrusted' : cfg'.trusted = false) (u v n : Str)
    (hu : postInit libs cfg u = .ok ()) (hv : postInit libs cfg' v = .ok ()) (hnu : normalize libs u = .ok n)
    (hnv : normalize libs v = .ok n) :
    (∃ w a, IsWritten u w a) ∧ (∃ w' a', IsWritten v w' a') ∧
    ∀ w a w' a', IsWritten u w a → IsWritten v w' a' →
      SameDestination libs w w' a a' ∧ (SameRequest libs w w' a a' ↔ DelimitersAgree w w') ∧
      (DiffersAsListed libs w w' a a' ↔ DelimitersAgree w w' ∧ w.lead = w'.lead ∧
        shownText (asciiLower w.scheme) a.port = shownText (asciiLower w'.scheme) a'.port) := by
  obtain ⟨w, a, host, port, h⟩ := exists_admitted htrusted (check_bind_eq_ok.mp hu).2
  obtain ⟨w', a', host', port', h'⟩ := exists_admitted htrusted' (check_bind_eq_ok.mp hv).2
  refine ⟨⟨w, a, h.text, h.authority⟩, ⟨w', a', h'.text, h'.authority⟩, ?_⟩
  have hsame := h.sameDestination hlibs h' hnu hnv
  intro w₁ a₁ w₂ a₂ hw₁ hw₂
  obtain ⟨rfl, rfl⟩ := h.eq_of_isWritten hw₁
  obtain ⟨rfl, rfl⟩ := h'.eq_of_isWritten hw₂
  exact ⟨hsame, hsame.sameRequest_iff, hsame.differsAsListed_iff⟩

end Equal

/-- A question mark of a URL without a fragment stands before its query. -/
theorem Written.query_of_mem (w : Written) (hm : '?' ∈ w.text) (hnumber : '#' ∉ w.text) : w.query ≠ none := by
  intro hnone
  unfold Written.text Written.rest at hm hnumber
  have hfragment : w.fragment = none := by
    cases hf : w.fragment with
    | none => rfl
    | some f =>
      rw [hf] at hnumber
      exact absurd (by simp [mark]) hnumber
  rw [hnone, hfragment] at hm
  simp only [List.mem_append, List.mem_cons] at hm
  rcases hm with hlead | hscheme | hcolon | hslash | hslash | hnetloc | ((hpath | hparams) | hquery) | hfragment
  · exact absurd (w.blank _ hlead) (by decide)
  · exact absurd (List.all_eq_true.mp w.schemeForm.2 _ hscheme) (by decide)
  · exact absurd hcolon (by decide)
  · exact absurd hslash (by decide)
  · exact absurd hslash (by decide)
  · exact absurd (w.netlocForm.2 _ hnetloc) (by decide)
  · exact w.pathChars.1 hpath
  · exact not_mem_mark (by decide) (fun s hs => (w.paramsForm s hs).2.2.1) hparams
  · cases hquery
  · cases hfragment

/-- The question mark of an empty query is not in the normal form. -/
theorem empty_query_is_evened_out :
    ¬ ∀ (libs : Libraries) (cfg : Settings), libs.CaseCorrect → cfg.trusted = false → ∀ u v n,
      postInit libs cfg u = .ok () → postInit libs cfg v = .ok () → normalize libs u = .ok n →
        normalize libs v = .ok n → ∃ (w w' : Written) (a a' : Authority), w.text = u ∧ w'.text = v ∧
          a.text = w.netloc ∧ a'.text = w'.netloc ∧ DiffersAsListed libs w w' a a' := by
  intro h
  obtain ⟨w, w', a, a', hw, hw', -, -, hdiffers⟩ := h asciiLibraries .default asciiLibraries_caseCorrect rfl
    "http://example.com/?".toList "http://example.com/".toList "http://example.com/".toList (by decide +kernel)
    (by decide +kernel) (by decide +kernel) (by decide +kernel)
  have hsome := w.query_of_mem (by rw [hw]; decide) (by rw [hw]; decide)
  rw [hdiffers.queryText] at hsome
  obtain ⟨q, hq⟩ := Option.ne_none_iff_exists'.mp hsome
  have hm : '?' ∈ w'.text := by
    simp [Written.text, Written.rest, hq, mark]
  rw [hw'] at hm
  exact absurd hm (by decide)

/-- Two spellings of one destination, the first with an empty query. -/
theorem equal_normal_forms_of_two_spellings :
    ∃ (w w' : Written) (a a' : Authority), w.text = "HTTP://Example.COM.:080?#top".toList ∧
      w'.text = " http://example.com/".toList ∧ a.text = w.netloc ∧ a'.text = w'.netloc ∧
      SameDestination asciiLibraries w w' a a' := by
  obtain ⟨⟨w, a, hw, ha⟩, ⟨w', a', hw', ha'⟩, hall⟩ :=
    equal_normal_forms_same_destination asciiLibraries asciiLibraries_caseCorrect .default .default rfl rfl
      "HTTP://Example.COM.:080?#top".toList " http://example.com/".toList "http://example.com/".toList (by decide +kernel)
      (by decide +kernel) (by decide +kernel) (by decide +kernel)
  exact ⟨w, w', a, a', hw, hw', ha, ha', (hall w a w' a' ⟨hw, ha⟩ ⟨hw', ha'⟩).1⟩

end LinkShortener.Urls
