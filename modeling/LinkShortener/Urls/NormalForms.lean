import LinkShortener.Urls.AsciiHosts

/-!
# Normal forms are stable

* `Admitted`: an admitted URL as it is written. `Admitted.normalHost`: the ASCII form of its host.
* `Written.normal`: the normal form as it is written; it is what `normalize` puts together (`Admitted.normalize_eq`), and
  it is split into the parts it was put together from (`Admitted.urlparse_normal`).
-/

namespace LinkShortener.Urls

open Text

/-- What is relied on of the lower case, besides: a character of ASCII in the lower case of a text that is no letter is
in the text. -/
structure Libraries.CaseCorrect (libs : Libraries) : Prop extends libs.Correct where
  lower_mem : ∀ s, ∀ c ∈ libs.lower s, c.toNat < 128 → c.isLower = false → c ∈ s

/-! ## What is admitted -/

/-- An admitted URL as it is written, with its authority, and with the host and the port that are read out of it. -/
structure Admitted (libs : Libraries) (cfg : Settings) (url : Str) (w : Written) (a : Authority) (host : Str)
    (port : Option Nat) : Prop where
  text : w.text = url
  printable : url.any isControl = false
  parsed : urlparse libs url = some w.parts
  admissible : Admissible libs cfg w.parts
  authority : a.text = w.netloc
  hostname : w.parts.hostname libs = some host
  port : w.parts.port = some port

section Admission

variable {libs : Libraries} {cfg : Settings} {url host ascii : Str} {w : Written} {a : Authority} {port : Option Nat}

theorem port_digits {r : ParseResult} (h : r.port = some port) :
    ∀ s ∈ (hostinfo r.netloc).2, s.all Char.isDigit = true := by
  intro s hs
  unfold ParseResult.port at h
  rw [Option.mem_def] at hs
  rw [hs] at h
  dsimp only at h
  split at h
  · rename_i hcond
    exact (Bool.and_eq_true_iff.mp (Bool.and_eq_true_iff.mp hcond).1).1
  · cases h

theorem exists_admitted (htrusted : cfg.trusted = false) (h : validateForm libs cfg url = .ok ()) :
    ∃ w a host port, Admitted libs cfg url w a host port := by
  obtain ⟨hprintable, parsed, hparsed, hadmissible⟩ := (validateForm_iff htrusted).mp h
  obtain ⟨w, htext, rfl, hbrackets, -⟩ := exists_written hparsed hadmissible.scheme.1 hadmissible.netloc hprintable
  obtain ⟨host, hhost⟩ := hadmissible.host
  obtain ⟨port, hport, -⟩ := hadmissible.port
  obtain ⟨a, ha⟩ := exists_authority hadmissible.noCredentials hbrackets (port_digits hport)
  exact ⟨w, a, host, port, htext, hprintable, hparsed, hadmissible, ha, hhost, hport⟩

theorem hostname_mem (hlibs : libs.CaseCorrect) {r : ParseResult} (hhost : r.hostname libs = some host) {c : Char}
    (hc : c ∈ host) (hascii : c.toNat < 128) (hlower : c.isLower = false) : c ∈ (hostinfo r.netloc).1 := by
  unfold ParseResult.hostname at hhost
  dsimp only at hhost
  split at hhost
  · cases hhost
  · split at hhost
    · rename_i hzone
      cases hhost
      have hjoin := cut_join hzone
      rw [← hjoin]
      rcases List.mem_append.mp hc with hc | hc
      · exact List.mem_append_left _ (hlibs.lower_mem _ c hc hascii hlower)
      · exact List.mem_append_right _ hc
    · cases hhost
      exact hlibs.lower_mem _ c hc hascii hlower

namespace Admitted

variable (h : Admitted libs cfg url w a host port)

include h

theorem hostinfo_eq : hostinfo w.netloc = (a.host, nonempty (a.port.getD [])) := by
  rw [← h.authority, a.hostinfo_text]

theorem host_mem (hlibs : libs.CaseCorrect) {c : Char} (hc : c ∈ host) (hascii : c.toNat < 128)
    (hlower : c.isLower = false) : c ∈ a.host := by
  have hmem := hostname_mem hlibs h.hostname hc hascii hlower
  rwa [show w.parts.netloc = w.netloc from rfl, h.hostinfo_eq] at hmem

theorem mem_url {c : Char} (hc : c ∈ w.netloc) : c ∈ url := by
  rw [← h.text, Written.text]
  simp [hc]

theorem mem_netloc {c : Char} (hc : c ∈ a.host) : c ∈ w.netloc := by
  rw [← h.authority, Authority.text]
  cases a.bracketed with
  | true => simp [hc]
  | false => simp [hc]

theorem host_plain {c : Char} (hc : c ∈ a.host) : isPlain c = true := by
  have hends := w.netlocForm.2 c (h.mem_netloc hc)
  have hcontrol := List.any_eq_false.mp h.printable c (h.mem_url (h.mem_netloc hc))
  have hat : c ≠ '@' := fun heq => a.noCredentials (heq ▸ hc)
  have hclosing : c ≠ ']' := by
    rintro rfl
    cases hb : a.bracketed with
    | true => exact (a.literal hb).1 hc
    | false => exact (a.name hb).2.1 hc
  unfold isPlain
  simp [hends, hat, hclosing, hcontrol]

/-- In brackets stands what has a colon, and nothing else has one. -/
theorem bracketed_iff (hlibs : libs.CaseCorrect) : a.bracketed = true ↔ ':' ∈ host := by
  constructor
  · intro hb
    have hopening : '[' ∈ w.netloc := h.authority ▸ a.mem_bracket.mpr hb
    rcases h.admissible.brackets with hnone | hparse
    · exact absurd hopening hnone.1
    · rw [h.hostname] at hparse
      exact Ipv6Address.colon_of_parse hparse
  · intro hcolon
    have hmem := h.host_mem hlibs hcolon (by decide) (by decide)
    cases hb : a.bracketed with
    | true => rfl
    | false => exact absurd hmem (a.name hb).2.2

theorem validHost : validateHost libs host = .ok () := by
  have hvalid := h.admissible.validHost
  rwa [h.hostname] at hvalid

/-- **The ASCII form of an admitted host** is the form of a host. -/
theorem normalHost (hlibs : libs.CaseCorrect) (hascii : toAsciiHost libs host = .ok ascii) :
    NormalHost libs ascii ∧ (':' ∈ ascii ↔ ':' ∈ host) := by
  rcases toAsciiHost_cases hascii with ⟨his, rfl⟩ | ⟨hnot, hencode⟩
  · refine ⟨normalHost_of_ascii h.validHost his ?_ ?_, ?_⟩
    · intro c hc
      have hlt : c.toNat < 128 := of_decide_eq_true (List.all_eq_true.mp his c hc)
      cases hlower : c.isLower with
      | true =>
        have hrange := isLower_iff.mp hlower
        rw [isPlain_iff]
        omega
      | false => exact h.host_plain (h.host_mem hlibs hc hlt hlower)
    · intro hm
      have hbracket := h.host_mem hlibs hm (by decide) (by decide)
      rw [← h.bracketed_iff hlibs]
      cases hb : a.bracketed with
      | true => rfl
      | false => exact absurd hbracket (a.name hb).1
    · rw [mem_asciiLower (by decide), mem_withoutRootLabel (by decide)]
  · obtain ⟨hnormal, hcolon⟩ := normalHost_of_idna hlibs.toCorrect h.validHost hnot hencode
    refine ⟨hnormal, iff_of_false ?_ hcolon⟩
    intro hm
    have hchar := List.all_eq_true.mp (hlibs.idna_form _ _ hencode) ':' hm
    exact absurd hchar (by decide)

end Admitted

end Admission

/-! ## The normal form -/

section Numbers

/-- Digits are read as the number they were written for. -/
theorem int_toDigits (n : Nat) : int .decimal (Nat.toDigits 10 n) = n := by
  have hread : ∀ (digits : Str) (m : Nat), (∀ c ∈ digits, c.isDigit = true) →
      digits.foldl (fun n c => n * 10 + digitValue c) m = Nat.ofDigitChars 10 digits m := by
    intro digits
    induction digits with
    | nil =>
      intro m _
      rw [Nat.ofDigitChars_nil]
      rfl
    | cons c digits ih =>
      intro m hdigits
      have hc := hdigits c List.mem_cons_self
      have hvalue : digitValue c = c.toNat - '0'.toNat := by
        unfold digitValue
        rw [if_pos hc]
        rfl
      rw [List.foldl_cons, Nat.ofDigitChars_cons, ih _ fun d hd => hdigits d (List.mem_cons_of_mem c hd), hvalue,
        Nat.mul_comm]
  have hdigits : ∀ c ∈ Nat.toDigits 10 n, c.isDigit = true :=
    fun c hc => Nat.isDigit_of_mem_toDigits (by decide) (by decide) hc
  exact (hread _ 0 hdigits).trans Nat.ofDigitChars_ten_toDigits

theorem all_toDigits (n : Nat) : (Nat.toDigits 10 n).all Char.isDigit = true :=
  List.all_eq_true.mpr fun _ hc => Nat.isDigit_of_mem_toDigits (by decide) (by decide) hc

theorem length_toDigits_port {n : Nat} (h : n ≤ 65535) : (Nat.toDigits 10 n).length ≤ maxDigits := by
  have hlength : (Nat.toDigits 10 n).length ≤ 5 := (Nat.length_toDigits_le_iff (by decide) (by decide)).mpr (by omega)
  exact hlength.trans (by decide)

end Numbers

/-- The port that is written: none when the scheme omits it. -/
def shownPort (scheme : Str) (port : Option Nat) : Option Nat :=
  port.filter fun n => decide (defaultPort scheme ≠ some n)

/-- The authority of a normal form. -/
def NormalHost.authority {libs : Libraries} {host : Str} (h : NormalHost libs host) (port : Option Nat) :
    Authority where
  bracketed := decide (':' ∈ host)
  host := host
  port := port.map (Nat.toDigits 10)
  literal := by
    intro hb
    have hcolon := of_decide_eq_true hb
    refine ⟨fun hm => ?_, checkBracketedHost_of_parse (h.literal hcolon)⟩
    exact absurd (h.plain _ hm) (by decide)
  name := by
    intro hb
    have hcolon := of_decide_eq_false hb
    refine ⟨h.name hcolon, fun hm => ?_, hcolon⟩
    exact absurd (h.plain _ hm) (by decide)
  noCredentials := fun hm => absurd (h.plain _ hm) (by decide)
  digits := by
    intro s hs
    obtain ⟨n, -, rfl⟩ := Option.map_eq_some_iff.mp hs
    exact all_toDigits n

section NormalForm

variable {libs : Libraries} {host : Str} (h : NormalHost libs host)

/-- The characters of the authority of a normal form. -/
theorem NormalHost.authority_chars {port : Option Nat} {c : Char} (hc : c ∈ (h.authority port).text) :
    isPlain c = true ∨ c = ']' := by
  have hport : c ∈ mark ':' (h.authority port).port → isPlain c = true := by
    intro hm
    by_contra hplain
    refine (h.authority port).not_mem_port (c := c) ?_ ?_ hm
    · rintro rfl
      exact hplain (by decide)
    · rw [Bool.eq_false_iff]
      intro hdigit
      have hle := isDigit_iff.mp hdigit
      exact hplain (isPlain_iff.mpr (by omega))
  cases hb : (h.authority port).bracketed with
  | true =>
    rw [Authority.text_bracketed _ hb, List.nil_append, List.mem_cons, List.mem_append, List.mem_cons] at hc
    rcases hc with rfl | hc | rfl | hc
    · exact .inl (by decide)
    · exact .inl (h.plain c hc)
    · exact .inr rfl
    · exact .inl (hport hc)
  | false =>
    rw [Authority.text_name _ hb, List.mem_append] at hc
    rcases hc with hc | hc
    · exact .inl (h.plain c hc)
    · exact .inl (hport hc)

theorem NormalHost.authority_ne_nil (port : Option Nat) : (h.authority port).text ≠ [] := by
  cases hb : (h.authority port).bracketed with
  | true =>
    rw [Authority.text_bracketed _ hb]
    exact List.cons_ne_nil _ _
  | false =>
    rw [Authority.text_name _ hb]
    exact List.append_ne_nil_of_left_ne_nil h.ne_nil _

theorem NormalHost.authority_ends (port : Option Nat) : ∀ c ∈ (h.authority port).text, endsNetloc c = false := by
  intro c hc
  rcases h.authority_chars hc with hplain | rfl
  · unfold isPlain at hplain
    simp only [Bool.not_eq_true', Bool.or_eq_false_iff] at hplain
    exact hplain.1.1.1
  · decide

/-- The normal form of a written URL, under the ASCII form of its host and with its port. -/
def Written.normal (w : Written) (port : Option Nat) : Written where
  lead := []
  scheme := asciiLower w.scheme
  netloc := (h.authority (shownPort (asciiLower w.scheme) port)).text
  path := if w.path = [] then ['/'] else w.path
  params := nonempty (w.params.getD [])
  query := nonempty (w.query.getD [])
  fragment := none
  blank := nofun
  schemeForm := scheme_lower w.schemeForm
  netlocForm := ⟨h.authority_ne_nil _, h.authority_ends _⟩
  pathForm := by
    right
    split
    · rfl
    · rename_i hne
      exact w.pathForm.resolve_left fun hnil => hne hnil.1
  pathChars := by
    split
    · decide
    · exact w.pathChars
  segment := by
    rw [asciiLower_asciiLower]
    intro huses
    split
    · decide
    · exact w.segment huses
  paramsForm := by
    intro s hs
    have hs' := eq_of_mem_nonempty hs
    rw [asciiLower_asciiLower]
    cases hparams : w.params with
    | none =>
      rw [hparams] at hs
      cases hs
    | some t =>
      rw [hparams] at hs'
      exact hs' ▸ w.paramsForm t hparams
  queryForm := by
    intro s hs
    have hs' := eq_of_mem_nonempty hs
    cases hquery : w.query with
    | none =>
      rw [hquery] at hs
      cases hs
    | some t =>
      rw [hquery] at hs'
      exact hs' ▸ w.queryForm t hquery

variable {w : Written} {port : Option Nat}

theorem normal_parts : (w.normal h port).parts = ⟨asciiLower w.scheme,
    (h.authority (shownPort (asciiLower w.scheme) port)).text, if w.path = [] then ['/'] else w.path, w.params.getD [],
    w.query.getD [], []⟩ := by
  unfold Written.parts Written.normal
  dsimp only
  rw [asciiLower_asciiLower, nonempty_getD, nonempty_getD]
  rfl

/-- The normal form is put together from its parts. -/
theorem normal_text : (w.normal h port).text = (w.normal h port).parts.geturl := by
  have hscheme : (w.normal h port).parts.scheme ≠ [] := by
    rw [normal_parts]
    intro hnil
    have hhead := (scheme_lower w.schemeForm).1
    rw [show asciiLower w.scheme = [] from hnil] at hhead
    cases hhead
  have hpath : (w.normal h port).parts.path.head? = some '/' := by
    rcases (w.normal h port).pathForm with hnil | hhead
    · exfalso
      revert hnil
      unfold Written.normal
      dsimp only
      split
      · simp
      · rename_i hne
        exact fun hnil => hne hnil.1
    · exact hhead
  rw [geturl_eq hscheme (by rw [normal_parts]; exact h.authority_ne_nil _) hpath, normal_parts]
  rfl

theorem mem_of_mem_nonempty {part : Option Str} {c : Char} {s : Str} (hs : s ∈ nonempty (part.getD [])) (hc : c ∈ s) :
    ∃ t ∈ part, c ∈ t := by
  rw [eq_of_mem_nonempty hs] at hc
  cases part with
  | none => cases hc
  | some t => exact ⟨t, rfl, hc⟩

/-- A character of the normal form is one that is never a control character, or one of the URL. -/
theorem normal_chars {c : Char} (hc : c ∈ (w.normal h port).text) :
    isPlain c = true ∨ c = ']' ∨ c = '/' ∨ c = '?' ∨ c ∈ w.text := by
  have hrest : ∀ c ∈ w.rest, c ∈ w.text := by
    intro c hc
    unfold Written.text
    simp [hc]
  have hpart : ∀ (d : Char) (part : Option Str), c ∈ mark d (nonempty (part.getD [])) →
      c = d ∨ c ∈ mark d part := by
    intro d part hm
    rcases mem_mark hm with rfl | ⟨s, hs, hc⟩
    · exact .inl rfl
    · obtain ⟨t, ht, hc⟩ := mem_of_mem_nonempty hs hc
      rw [Option.mem_def] at ht
      rw [ht]
      exact .inr (List.mem_cons_of_mem _ hc)
  unfold Written.text Written.rest Written.normal at hc
  simp only [List.nil_append, List.mem_append, List.mem_cons] at hc
  rcases hc with hscheme | rfl | rfl | rfl | hnetloc | ((hpath | hparams) | hquery) | hfragment
  · have hchar := isSchemeChar_iff.mp (List.all_eq_true.mp (scheme_lower w.schemeForm).2 c hscheme)
    exact .inl (isPlain_iff.mpr (by omega))
  · exact .inl (by decide)
  · exact .inr (.inr (.inl rfl))
  · exact .inr (.inr (.inl rfl))
  · exact (h.authority_chars hnetloc).imp_right .inl
  · split at hpath
    · exact .inr (.inr (.inl (List.mem_singleton.mp hpath)))
    · exact .inr (.inr (.inr (.inr (hrest c (by simp [Written.rest, hpath])))))
  · rcases hpart ';' w.params hparams with rfl | hm
    · exact .inl (by decide)
    · exact .inr (.inr (.inr (.inr (hrest c (by simp [Written.rest, hm])))))
  · rcases hpart '?' w.query hquery with rfl | hm
    · exact .inr (.inr (.inr (.inl rfl)))
    · exact .inr (.inr (.inr (.inr (hrest c (by simp [Written.rest, hm])))))
  · cases hfragment

theorem normal_printable (hprintable : w.text.any isControl = false) :
    (w.normal h port).text.any isControl = false := by
  rw [List.any_eq_false]
  intro c hc hcontrol
  rcases normal_chars h hc with hplain | rfl | rfl | rfl | hm
  · unfold isPlain at hplain
    simp [hcontrol] at hplain
  · exact absurd hcontrol (by decide)
  · exact absurd hcontrol (by decide)
  · exact absurd hcontrol (by decide)
  · exact List.any_eq_false.mp hprintable c hm hcontrol

/-- The authority of a normal form is written by `normalNetloc`. -/
theorem normalNetloc_eq (scheme : Str) {netloc : Str} (hbracket : '[' ∈ netloc → ':' ∈ host) :
    normalNetloc scheme host netloc port = (h.authority (shownPort scheme port)).text := by
  have hiff : (':' ∈ host ∨ '[' ∈ netloc) ↔ ':' ∈ host := or_iff_left_of_imp hbracket
  unfold normalNetloc Authority.text NormalHost.authority shownPort
  simp only [hiff, decide_eq_true_eq]
  cases port with
  | none => simp [mark]
  | some n =>
    by_cases hdefault : defaultPort scheme = some n
    · simp [hdefault, mark, Option.filter]
    · simp [hdefault, mark, Option.filter]

theorem shownPort_idem (scheme : Str) (port : Option Nat) :
    shownPort scheme (shownPort scheme port) = shownPort scheme port := by
  unfold shownPort
  rw [Option.filter_filter]
  simp

/-- A normal form is its own normal form. -/
theorem normal_normal :
    ((w.normal h port).normal h (shownPort (asciiLower w.scheme) port)).text = (w.normal h port).text := by
  have hpath : (if w.path = [] then ['/'] else w.path) ≠ [] := by
    split
    · simp
    · rename_i hne
      exact hne
  unfold Written.text Written.rest Written.normal
  dsimp only
  rw [asciiLower_asciiLower, shownPort_idem, nonempty_getD, nonempty_getD, if_neg hpath]

/-! What is read out of a normal form. -/

theorem NormalHost.authority_ascii (port : Option Nat) : isAscii (h.authority port).text = true := by
  have hhost := List.all_eq_true.mp h.ascii
  have hport : ∀ c ∈ mark ':' (h.authority port).port, c.toNat < 128 := by
    intro c hc
    rcases mem_mark hc with rfl | ⟨s, hs, hc⟩
    · decide
    · have hdigit := isDigit_iff.mp (List.all_eq_true.mp ((h.authority port).digits s hs) c hc)
      omega
  have hmem : ∀ c ∈ (h.authority port).host, c.toNat < 128 := fun c hc => of_decide_eq_true (hhost c hc)
  apply List.all_eq_true.mpr
  intro c hc
  apply decide_eq_true
  cases hb : (h.authority port).bracketed with
  | true =>
    rw [Authority.text_bracketed _ hb, List.nil_append, List.mem_cons, List.mem_append, List.mem_cons] at hc
    rcases hc with rfl | hc | rfl | hc
    · decide
    · exact hmem c hc
    · decide
    · exact hport c hc
  | false =>
    rw [Authority.text_name _ hb, List.mem_append] at hc
    rcases hc with hc | hc
    · exact hmem c hc
    · exact hport c hc

theorem NormalHost.hostinfo_authority (port : Option Nat) :
    hostinfo (h.authority port).text = (host, port.map (Nat.toDigits 10)) := by
  rw [Authority.hostinfo_text]
  cases port with
  | none => rfl
  | some n =>
    have hne : Nat.toDigits 10 n ≠ [] := Nat.toDigits_ne_nil
    simp [NormalHost.authority, nonempty, hne]

/-- The host that is read out of a normal form is the one that was written into it. -/
theorem hostname_normal (hlibs : libs.Correct) {r : ParseResult} (hnetloc : r.netloc = (h.authority port).text) :
    r.hostname libs = some host := by
  unfold ParseResult.hostname
  rw [hnetloc, h.hostinfo_authority]
  dsimp only
  rw [if_neg h.ne_nil]
  split
  · rename_i hzone
    have hjoin := cut_join hzone
    have hfront : libs.lower (cut '%' host).1 = (cut '%' host).1 := by
      have hsub : ∀ c ∈ (cut '%' host).1, c ∈ host := fun c hc => hjoin ▸ List.mem_append_left _ hc
      have hascii : isAscii (cut '%' host).1 = true :=
        List.all_eq_true.mpr fun c hc => List.all_eq_true.mp h.ascii c (hsub c hc)
      rw [hlibs.lower_ascii _ hascii, asciiLower_eq_self]
      exact fun c hc => asciiLower_eq_self.mp h.lower c (hsub c hc)
    rw [hfront, hjoin]
  · rw [hlibs.lower_ascii host h.ascii, h.lower]

theorem port_normal {r : ParseResult} (hnetloc : r.netloc = (h.authority port).text) (hport : ∀ n ∈ port, n ≤ 65535) :
    r.port = some port := by
  unfold ParseResult.port
  rw [hnetloc, h.hostinfo_authority]
  cases port with
  | none => rfl
  | some n =>
    have hn := hport n rfl
    simp only [Option.map_some]
    rw [all_toDigits, int_toDigits, decide_eq_true (length_toDigits_port hn), decide_eq_true hn]
    rfl

end NormalForm

section Stability

variable {libs : Libraries} {cfg : Settings} {url host ascii : Str} {w : Written} {a : Authority} {port : Option Nat}

namespace Admitted

variable (h : Admitted libs cfg url w a host port) (hlibs : libs.CaseCorrect) (hn : NormalHost libs ascii)
  (hascii : toAsciiHost libs host = .ok ascii)

include h hlibs hascii

/-- **The normal form of an admitted URL.** -/
theorem normalize_eq : normalize libs url = .ok (w.normal hn port).text := by
  have hcolon := (h.normalHost hlibs hascii).2
  have hbracket : '[' ∈ w.netloc → ':' ∈ ascii := by
    intro hm
    rw [← h.authority, a.mem_bracket, h.bracketed_iff hlibs, ← hcolon] at hm
    exact hm
  have huser : userinfo w.parts.netloc = [] := by
    unfold userinfo
    rw [cutLast_of_not_mem h.admissible.noCredentials]
  unfold normalize parse
  rw [h.parsed]
  dsimp only
  rw [bind_eq_ok]
  refine ⟨w.parts, rfl, ?_⟩
  rw [h.hostname, Option.getD_some, hascii, bind_eq_ok]
  refine ⟨ascii, rfl, ?_⟩
  rw [h.port, huser]
  dsimp only
  rw [List.nil_append, normal_text, normal_parts, show w.parts.scheme = asciiLower w.scheme from rfl,
    asciiLower_asciiLower, show w.parts.netloc = w.netloc from rfl, normalNetloc_eq hn _ hbracket]
  rfl

/-- The check of the destination asks the same of a normal form. -/
theorem target_normal {r : ParseResult} (hhost : r.hostname libs = some ascii) :
    validatePublicTarget libs cfg r = .ok () := by
  have hn := (h.normalHost hlibs hascii).1
  have htarget := h.admissible.target
  unfold validatePublicTarget at htarget ⊢
  rw [h.hostname, Option.getD_some, hascii] at htarget
  rw [hhost, Option.getD_some, toAsciiHost_normal libs hn.ascii hn.lower hn.root]
  exact htarget

/-- **A normal form is admitted.** -/
theorem normal : Admitted libs cfg (w.normal hn port).text (w.normal hn port)
    (hn.authority (shownPort (asciiLower w.scheme) port)) ascii (shownPort (asciiLower w.scheme) port) := by
  have hprintable : (w.normal hn port).text.any isControl = false := normal_printable hn (h.text ▸ h.printable)
  have hparsed : urlparse libs (w.normal hn port).text = some (w.normal hn port).parts := by
    refine urlparse_text _ hprintable (Authority.checkBrackets_text _) ?_
    exact if_pos (hn.authority_ascii _)
  have hhost : (w.normal hn port).parts.hostname libs = some ascii := hostname_normal hn hlibs.toCorrect rfl
  have hrange : ∀ n ∈ shownPort (asciiLower w.scheme) port, 1 ≤ n ∧ n ≤ 65535 := by
    intro n hshown
    obtain ⟨p, hp, hbounds⟩ := h.admissible.port
    rw [h.port, Option.some.injEq] at hp
    exact hbounds n (hp ▸ (Option.filter_eq_some_iff.mp hshown).1)
  have hport : (w.normal hn port).parts.port = some (shownPort (asciiLower w.scheme) port) :=
    port_normal hn rfl fun n hshown => (hrange n hshown).2
  refine ⟨rfl, hprintable, hparsed, ?_, rfl, hhost, hport⟩
  refine ⟨?_, hn.authority_ne_nil _, ⟨ascii, hhost⟩, ⟨_, hport, hrange⟩, Authority.not_mem_credentials _, ?_, ?_, ?_,
    h.target_normal hlibs hascii hhost⟩
  · rw [normal_parts]
    exact h.admissible.scheme
  · rw [hhost, Option.getD_some]
    by_cases hcolon : ':' ∈ ascii
    · exact .inr (hn.literal hcolon)
    · have hname : (hn.authority (shownPort (asciiLower w.scheme) port)).bracketed ≠ true := by
        intro hb
        exact hcolon (of_decide_eq_true hb)
      left
      rw [normal_parts]
      exact ⟨fun hm => hname (Authority.mem_bracket _ |>.mp hm), fun hm => hname (Authority.mem_closing _ |>.mp hm)⟩
  · rw [hhost]
    exact hn.valid
  · rw [normal_parts]
    dsimp only
    split
    · decide
    · exact h.admissible.path

end Admitted

/-- **An admitted URL has a normal form**, but for an address with a zone that is not in ASCII. -/
theorem Admitted.toAsciiHost_ok (h : Admitted libs cfg url w a host port)
    (hzone : ¬ (':' ∈ host ∧ isAscii host = false)) :
    ∃ ascii, toAsciiHost libs host = .ok ascii := by
  cases hascii : isAscii host with
  | true => exact ⟨asciiLower (withoutRootLabel host), toAsciiHost_of_ascii libs hascii⟩
  | false =>
    have hcolon : ':' ∉ withoutRootLabel host := by
      rw [mem_withoutRootLabel (by decide)]
      exact fun hm => hzone ⟨hm, hascii⟩
    rw [← isAscii_withoutRootLabel] at hascii
    rcases (validateHost_iff.mp h.validHost).2 with hip | hlocal | ⟨ascii, hto, -⟩
    · rw [isAscii_of_ipAddress hip hcolon] at hascii
      cases hascii
    · rw [hlocal] at hascii
      exact absurd hascii (by decide)
    · exact ⟨ascii, hto⟩

theorem Admitted.ascii_of_normalize (h : Admitted libs cfg url w a host port) {n : Str}
    (hnormal : normalize libs url = .ok n) : ∃ ascii, toAsciiHost libs host = .ok ascii := by
  unfold normalize parse at hnormal
  rw [h.parsed] at hnormal
  obtain ⟨parsed, hparsed, hnormal⟩ := bind_eq_ok.mp hnormal
  cases hparsed
  rw [h.hostname, Option.getD_some] at hnormal
  obtain ⟨ascii, hascii, -⟩ := bind_eq_ok.mp hnormal
  exact ⟨ascii, hascii⟩

/-- **Normal forms are stable** exactly for the URLs whose host is no IPv6 address with a zone outside ASCII: such a URL,
once admitted, has no normal form. -/
theorem normal_form_is_stable_iff (libs : Libraries) (hlibs : libs.CaseCorrect) (cfg : Settings)
    (htrusted : cfg.trusted = false) (url : Str) (hadmitted : validateForm libs cfg url = .ok ()) (parsed : ParseResult)
    (host : Str) (hparsed : urlparse libs url = some parsed) (hhost : parsed.hostname libs = some host) :
    (∃ n, normalize libs url = .ok n ∧ validateForm libs cfg n = .ok () ∧ normalize libs n = .ok n) ↔
      ¬ (':' ∈ host ∧ isAscii host = false) := by
  obtain ⟨w, a, host', port, h⟩ := exists_admitted htrusted hadmitted
  have hsame : parsed = w.parts := Option.some.inj (hparsed.symm.trans h.parsed)
  subst hsame
  have heq : host' = host := Option.some.inj (h.hostname.symm.trans hhost)
  subst heq
  constructor
  · rintro ⟨n, hnormal, -, -⟩ ⟨hcolon, hascii⟩
    obtain ⟨ascii, hto⟩ := h.ascii_of_normalize hnormal
    obtain ⟨reason, hrefused⟩ := hlibs.idna_colon (withoutRootLabel host') ((mem_withoutRootLabel (by decide)).mpr hcolon)
    rcases toAsciiHost_cases hto with ⟨his, -⟩ | ⟨-, hencode⟩
    · rw [hascii] at his
      cases his
    · rw [hrefused] at hencode
      cases hencode
  · intro hzone
    obtain ⟨ascii, hascii⟩ := h.toAsciiHost_ok hzone
    have hn := (h.normalHost hlibs hascii).1
    have hnormal := h.normal hlibs hn hascii
    have htwice := hnormal.normalize_eq hlibs hn (toAsciiHost_normal libs hn.ascii hn.lower hn.root)
    refine ⟨(w.normal hn port).text, h.normalize_eq hlibs hn hascii, ?_, ?_⟩
    · exact (validateForm_iff htrusted).mpr ⟨hnormal.printable, _, hnormal.parsed, hnormal.admissible⟩
    · rw [htwice, normal_normal]

end Stability

theorem asciiLibraries_caseCorrect : asciiLibraries.CaseCorrect where
  toCorrect := asciiLibraries_correct
  lower_mem := by
    intro s c hc _ hlower
    obtain ⟨d, hd, hdc⟩ := List.mem_map.mp hc
    have hrange : ¬ (97 ≤ c.toNat ∧ c.toNat ≤ 122) := by
      rw [← isLower_iff, hlower]
      decide
    have hsame : d = c := by
      rw [← Char.toNat_inj] at hdc ⊢
      rw [toNat_toLower] at hdc
      split at hdc <;> omega
    exact hsame ▸ hd

/-- The schemes of the web, and destinations in the deployment's own network too. -/
def internalToo : Settings := { Settings.default with allowInternalTargets := true }

/-- An address with a zone outside ASCII is admitted and has no normal form. -/
theorem zone_has_no_normal_form :
    ¬ ∀ (libs : Libraries) (cfg : Settings), libs.CaseCorrect → cfg.trusted = false → ∀ url,
      postInit libs cfg url = .ok () →
        ∃ n, normalize libs url = .ok n ∧ validateForm libs cfg n = .ok () ∧ normalize libs n = .ok n := by
  intro h
  have hadmitted : postInit asciiLibraries internalToo "http://[2606:4700::1%é]/".toList = .ok () := by decide +kernel
  obtain ⟨n, hn, -⟩ := h asciiLibraries internalToo asciiLibraries_caseCorrect rfl _ hadmitted
  have herror : normalize asciiLibraries "http://[2606:4700::1%é]/".toList =
      .error (.validation "Invalid international domain name: not ASCII" "url") := by decide +kernel
  rw [herror] at hn
  cases hn

/-- A name with its root label, the port the scheme omits and an empty query. -/
theorem normal_form_is_stable_for_a_name :
    ∃ n, normalize asciiLibraries "HTTP://Example.COM.:080/a;b;?#top".toList = .ok n ∧
      validateForm asciiLibraries .default n = .ok () ∧ normalize asciiLibraries n = .ok n := by
  have hparsed : urlparse asciiLibraries "HTTP://Example.COM.:080/a;b;?#top".toList =
      some ⟨"http".toList, "Example.COM.:080".toList, "/a".toList, "b;".toList, [], "top".toList⟩ := by decide +kernel
  exact (normal_form_is_stable_iff asciiLibraries asciiLibraries_caseCorrect .default rfl _ (by decide +kernel) _
    "example.com.".toList hparsed (by decide +kernel)).mpr (by decide)

end LinkShortener.Urls
