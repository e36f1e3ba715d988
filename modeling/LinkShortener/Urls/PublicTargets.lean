import LinkShortener.Urls.OriginalUrl
import LinkShortener.Urls.Whatwg

/-!
# Destinations are public

* `ipv4Parser_lower`: what the WHATWG parser reads of a host it reads of the ASCII form of the host.
* `specialUse_is_name`: a name of a local network is never taken for an address, so that it meets its check.
* `admitted_hosts_are_public`: no spelling of an internal IPv4 address, and no name of a local network, is admitted.
-/

namespace LinkShortener.Urls

open Text

/-! ## Addresses -/

section Addresses

variable {host : Str} {a : Nat}

theorem isSome_of_mapM {α β : Type} {f : α → Option β} {xs : List α} {ys : List β} (h : xs.mapM f = some ys) :
    ∀ x ∈ xs, (f x).isSome = true := by
  induction xs generalizing ys with
  | nil =>
    intro x hx
    cases hx
  | cons x xs ih =>
    rw [List.mapM_cons] at h
    obtain ⟨y, hy, h⟩ := Option.bind_eq_some_iff.mp h
    obtain ⟨ys', hys, -⟩ := Option.bind_eq_some_iff.mp h
    intro z hz
    rcases List.mem_cons.mp hz with rfl | hz
    · rw [hy]
      rfl
    · exact ih hys z hz

/-- Every part of an address is a number. -/
theorem numbers_of_partsAddress {parts : List Str} (h : Whatwg.partsAddress parts = some a) :
    ∀ part ∈ parts, (Whatwg.ipv4Number part).isSome = true := by
  unfold Whatwg.partsAddress at h
  split at h
  · cases h
  · split at h
    · cases h
    · rename_i numbers hnumbers
      exact isSome_of_mapM hnumbers

theorem partsAddress_lower (parts : List Str) :
    Whatwg.partsAddress (parts.map asciiLower) = Whatwg.partsAddress parts := by
  have hmap : (parts.map asciiLower).mapM Whatwg.ipv4Number = parts.mapM Whatwg.ipv4Number := by
    induction parts with
    | nil => rfl
    | cons part parts ih => rw [List.map_cons, List.mapM_cons, List.mapM_cons, ih, ipv4Number_lower]
  unfold Whatwg.partsAddress
  rw [hmap, List.length_map]

/-- No colon is part of a number. -/
theorem colon_not_in_number {part : Str} (h : (Whatwg.ipv4Number part).isSome = true) : ':' ∉ part := by
  have hdigits : ∀ radix : Radix, ∀ s : Str, (Whatwg.radixNumber radix s).isSome = true → ':' ∉ s := by
    intro radix s hsome hmem
    unfold Whatwg.radixNumber at hsome
    have hne : s ≠ [] := List.ne_nil_of_mem hmem
    rw [if_neg hne] at hsome
    split at hsome
    · rename_i hall
      have hcolon := List.all_eq_true.mp hall ':' hmem
      cases radix <;> revert hcolon <;> decide
    · cases hsome
  unfold Whatwg.ipv4Number at h
  split at h
  · cases h
  · have hrest := hdigits _ _ h
    simpa using hrest
  · have hrest := hdigits _ _ h
    simpa using hrest
  · have hrest := hdigits _ _ h
    simpa using hrest
  · exact hdigits _ _ h

theorem colon_not_in_host (h : ∀ part ∈ host.splitOn '.', (Whatwg.ipv4Number part).isSome = true) : ':' ∉ host := by
  intro hmem
  obtain ⟨part, hpart, hcolon⟩ := exists_mem_splitOn (c := '.') hmem (by decide)
  exact colon_not_in_number (h part hpart) hcolon

/-- The parts of an address are those of the host without its root label. -/
theorem splitOn_of_ipv4Parser (h : Whatwg.ipv4Parser host = some a) :
    Whatwg.partsAddress ((withoutRootLabel host).splitOn '.') = some a := by
  unfold Whatwg.ipv4Parser at h
  dsimp only at h
  have hempty : ∀ s : Str, (∀ part ∈ s.splitOn '.', (Whatwg.ipv4Number part).isSome = true) → s.getLast? ≠ some '.' := by
    intro s hs hdot
    have hlast : (s.splitOn '.').getLast? = some [] := by
      rw [getLast?_splitOn, cutLast_eq_nil.mpr (.inr hdot)]
    have hnil := hs [] (List.mem_of_getLast? hlast)
    revert hnil
    decide
  split at h
  · rename_i hcond
    rcases List.eq_nil_or_concat host with rfl | ⟨x, c, rfl⟩
    · exact absurd hcond.2 (by simp [List.splitOn_nil])
    · rw [List.concat_eq_append] at *
      have hlast := hcond.1
      rw [getLast?_splitOn, Option.some.injEq, cutLast_eq_nil, List.getLast?_concat] at hlast
      have hc : c = '.' := by simpa using hlast
      subst hc
      have hsplit : (x ++ ['.']).splitOn '.' = x.splitOn '.' ++ [[]] := List.splitOn_append_cons_self x []
      rw [hsplit, List.dropLast_concat] at h
      rw [withoutRootLabel_concat (hempty x (numbers_of_partsAddress h))]
      exact h
  · rw [withoutRootLabel_of_getLast (hempty host (numbers_of_partsAddress h))]
    exact h

/-- **What the WHATWG parser reads of a host is what the code reads of its ASCII form.** -/
theorem asIpAddress_of_ipv4Parser (h : Whatwg.ipv4Parser host = some a) :
    ∃ v : Ipv4Address, v.ip = a ∧ asIpAddress (asciiLower (withoutRootLabel host)) = .ok (some (.v4 v)) := by
  have hparts : (asciiLower (withoutRootLabel host)).splitOn '.' =
      ((withoutRootLabel host).splitOn '.').map asciiLower := splitOn_map (fun c => toLower_eq_iff (by decide)) _
  have haddress : Whatwg.partsAddress ((asciiLower (withoutRootLabel host)).splitOn '.') = some a := by
    rw [hparts, partsAddress_lower]
    exact splitOn_of_ipv4Parser h
  have hnumbers := numbers_of_partsAddress haddress
  have hcolon := colon_not_in_host hnumbers
  have hne : (asciiLower (withoutRootLabel host)).splitOn '.' ≠ [] := List.splitOn_ne_nil _ _
  have hlast := getLast?_splitOn '.' (asciiLower (withoutRootLabel host))
  have hnumber := hnumbers _ (List.mem_of_getLast? hlast)
  have hfull : hostParts (asciiLower (withoutRootLabel host)) = (asciiLower (withoutRootLabel host)).splitOn '.' := by
    apply if_neg
    rw [hlast, Option.some.injEq]
    intro hnil
    rw [hnil] at hnumber
    cases hnumber
  have hlabel : lastLabel (asciiLower (withoutRootLabel host)) =
      (cutLast '.' (asciiLower (withoutRootLabel host))).2 := by
    unfold lastLabel
    rw [hfull, List.getLastD_eq_getLast?, hlast]
    rfl
  rcases asIpAddress_of_number hcolon (hfull ▸ hne) (hlabel ▸ hnumber) with ⟨v, hv, hread⟩ | ⟨hfail, -⟩
  · rw [hfull, haddress] at hv
    exact ⟨v, (Option.some.inj hv).symm, hread⟩
  · rw [hfull, haddress] at hfail
    cases hfail

end Addresses

/-! ## Names of local networks -/

/-- A host is a name of a local network or a name below it, in any letter case and with or without its root label. -/
def IsUnder (suffix host : Str) : Prop :=
  asciiLower (withoutRootLabel host) = suffix ∨ '.' :: suffix <:+ asciiLower (withoutRootLabel host)

section Names

variable {host suffix : Str}

/-- The names end in letters, and not in what could be a number. -/
theorem specialUse_form : ∀ suffix ∈ specialUseSuffixes,
    (cutLast '.' suffix).2 ≠ [] ∧ (Whatwg.ipv4Number (cutLast '.' suffix).2).isSome = false ∧
      suffix.getLast? ≠ some '.' ∧ suffix ≠ [] ∧ isAscii suffix = true ∧
      suffix.all (fun c => c.isLower || c = '.') = true := by
  decide +kernel

theorem getLast?_of_suffix {s t : Str} (h : s = t ∨ '.' :: t <:+ s) (ht : t ≠ []) : s.getLast? = t.getLast? := by
  rcases h with rfl | ⟨x, rfl⟩
  · rfl
  · rw [List.getLast?_append_of_ne_nil _ (List.cons_ne_nil _ _), List.getLast?_cons_of_ne_nil ht]

/-- A name below a name of a local network is no address. -/
theorem specialUse_is_name (hmem : suffix ∈ specialUseSuffixes) (h : host = suffix ∨ '.' :: suffix <:+ host)
    (hcolon : ':' ∉ host) : asIpAddress host = .ok none := by
  obtain ⟨hlabel, hnumber, -⟩ := specialUse_form suffix hmem
  have hlast : (host.splitOn '.').getLast? = some (cutLast '.' suffix).2 := by
    rcases h with rfl | ⟨x, rfl⟩
    · exact getLast?_splitOn '.' _
    · rw [List.splitOn_append_cons_self, List.getLast?_append_of_ne_nil _ (List.splitOn_ne_nil _ _)]
      exact getLast?_splitOn '.' _
  have hparts : hostParts host = host.splitOn '.' := by
    apply if_neg
    rw [hlast, Option.some.injEq]
    exact hlabel
  apply asIpAddress_of_name hcolon
  right
  unfold lastLabel
  rw [hparts, List.getLastD_eq_getLast?, hlast]
  exact hnumber

/-- A name of a local network meets its check. -/
theorem isSpecialUse_of_suffix (hmem : suffix ∈ specialUseSuffixes) (h : host = suffix ∨ '.' :: suffix <:+ host) :
    isSpecialUse (withoutTrailingDots host) = true := by
  obtain ⟨-, -, hdot, hne, -⟩ := specialUse_form suffix hmem
  have hstay : withoutTrailingDots host = host := by
    unfold withoutTrailingDots
    have hlast : host.getLast? ≠ some '.' := by
      rw [getLast?_of_suffix h hne]
      exact hdot
    cases hrev : host.reverse with
    | nil =>
      rw [List.reverse_eq_nil_iff.mp hrev]
      rfl
    | cons c rest =>
      have hc : c ≠ '.' := by
        rintro rfl
        rw [List.getLast?_eq_head?_reverse, hrev] at hlast
        exact hlast rfl
      rw [List.dropWhile_cons_of_neg (by simpa using hc), ← hrev, List.reverse_reverse]
  rw [hstay]
  refine List.any_eq_true.mpr ⟨suffix, hmem, ?_⟩
  rcases h with rfl | h
  · simp
  · rw [Bool.or_eq_true]
    exact .inr (List.isSuffixOf_iff_suffix.mpr h)

/-- A letter or a dot in lower case comes from a letter or a dot. -/
theorem alphanum_of_toLower {c : Char} (h : (c.toLower.isLower || c.toLower = '.' : Bool) = true) :
    (c.isAlphanum || c = '.' : Bool) = true := by
  simp only [Bool.or_eq_true, decide_eq_true_eq, isLower_iff, toLower_eq_iff (t := '.') (by decide), Char.isAlphanum,
    isAlpha_iff, toNat_toLower] at h ⊢
  by_cases hdot : c = '.'
  · exact .inr hdot
  · simp only [hdot, or_false] at h ⊢
    split at h <;> omega

/-- The ASCII form of a name below a name of a local network is below it too. -/
theorem under_of_toAsciiHost {libs : Libraries} {ascii : Str} (hlibs : libs.Correct)
    (hmem : suffix ∈ specialUseSuffixes) (h : IsUnder suffix host) (hcolon : ':' ∉ host)
    (hascii : toAsciiHost libs host = .ok ascii) : (ascii = suffix ∨ '.' :: suffix <:+ ascii) ∧ ':' ∉ ascii := by
  have hroot : ':' ∉ withoutRootLabel host := fun hm => hcolon (withoutRootLabel_subset host hm)
  rcases toAsciiHost_cases hascii with ⟨-, rfl⟩ | ⟨hnot, hencode⟩
  · refine ⟨h, ?_⟩
    rwa [mem_asciiLower (by decide)]
  · obtain ⟨-, -, -, -, hsuffix, hchars⟩ := specialUse_form suffix hmem
    refine ⟨?_, ?_⟩
    · rcases h with heq | ⟨x, hx⟩
      · rw [← heq, isAscii_asciiLower, isAscii_withoutRootLabel, hnot] at hsuffix
        cases hsuffix
      · obtain ⟨y, z, hyz, -, hz⟩ := List.map_eq_append_iff.mp hx.symm
        obtain ⟨d, labels, rfl, hd, hlabels⟩ := List.map_eq_cons_iff.mp hz
        rw [toLower_eq_iff (by decide)] at hd
        subst hd
        have hall : labels.all (fun c => c.isAlphanum || c = '.') = true := by
          rw [List.all_eq_true]
          intro c hc
          apply alphanum_of_toLower
          apply List.all_eq_true.mp hchars
          rw [← hlabels]
          exact List.mem_map_of_mem hc
        have hkept := hlibs.idna_labels _ _ labels hencode ⟨y, hyz.symm⟩ hall
        rw [show asciiLower labels = suffix from hlabels] at hkept
        exact .inr hkept
    · intro hm
      have hhost := List.all_eq_true.mp (hlibs.idna_form _ _ hencode) ':' hm
      revert hhost
      decide

end Names

/-! ## What is admitted -/

section Targets

variable {libs : Libraries} {cfg : Settings} {parsed : ParseResult} {host : Str}

/-- What the check of the destination has asked. -/
theorem validatePublicTarget_ok (hinternal : cfg.allowInternalTargets = false)
    (hhost : parsed.hostname libs = some host)
    (h : validatePublicTarget libs cfg parsed = .ok ()) : ∃ ascii, toAsciiHost libs host = .ok ascii ∧
      ((asIpAddress ascii = .ok none ∧ isSpecialUse (withoutTrailingDots ascii) = false) ∨
        ∃ address, asIpAddress ascii = .ok (some address) ∧ isInternalAddress libs.ranges address = false) := by
  unfold validatePublicTarget at h
  rw [hinternal, hhost] at h
  obtain ⟨ascii, hascii, h⟩ := bind_eq_ok.mp h
  obtain ⟨address, haddress, h⟩ := bind_eq_ok.mp h
  refine ⟨ascii, hascii, ?_⟩
  cases address with
  | none => exact .inl ⟨haddress, by simpa using h⟩
  | some address => exact .inr ⟨address, haddress, by simpa using h⟩

/-- **What is admitted is public.** A host the WHATWG parser reads as an IPv4 address, in whatever spelling, is an
address that is global and in none of the ranges kept for other uses; and a host that is no IPv6 literal is not a name of
a local network and not below one. -/
theorem admitted_hosts_are_public (libs : Libraries) (hlibs : libs.Correct) (cfg : Settings)
    (hinternal : cfg.allowInternalTargets = false) (htrusted : cfg.trusted = false) (url : Str)
    (h : postInit libs cfg url = .ok ()) :
    ∃ parsed host, urlparse libs url = some parsed ∧ parsed.hostname libs = some host ∧
      (isAscii host = true → ∀ a, Whatwg.ipv4Parser host = some a → libs.ranges.isPublic .v4 a = true) ∧
      (':' ∉ host → ∀ suffix ∈ specialUseSuffixes, ¬ IsUnder suffix host) := by
  obtain ⟨-, parsed, hparsed, hadmissible⟩ := (validateForm_iff htrusted).mp (check_bind_eq_ok.mp h).2
  obtain ⟨host, hhost⟩ := hadmissible.host
  obtain ⟨ascii, hascii, htarget⟩ := validatePublicTarget_ok hinternal hhost hadmissible.target
  refine ⟨parsed, host, hparsed, hhost, ?_, ?_⟩
  · intro hisAscii a ha
    obtain ⟨v, rfl, hread⟩ := asIpAddress_of_ipv4Parser ha
    rw [toAsciiHost_of_ascii libs hisAscii] at hascii
    cases hascii
    rcases htarget with ⟨hname, -⟩ | ⟨address, haddress, hpublic⟩
    · rw [hread] at hname
      cases hname
    · rw [hread] at haddress
      cases haddress
      simpa [isInternalAddress, candidates] using hpublic
  · intro hcolon suffix hmem hunder
    obtain ⟨hsuffix, hcolon'⟩ := under_of_toAsciiHost hlibs hmem hunder hcolon hascii
    rcases htarget with ⟨-, hspecial⟩ | ⟨address, haddress, -⟩
    · rw [isSpecialUse_of_suffix hmem hsuffix] at hspecial
      cases hspecial
    · rw [specialUse_is_name hmem hsuffix hcolon'] at haddress
      cases haddress

end Targets

/-! An IPv6 literal may carry a zone, and a zone may be any text. -/

/-- A few of the ranges: IPv4 networks kept for private use, the loopback and multicast, and of IPv6 what is not in
`2000::/3`. -/
def sampleRanges : Ranges where
  isGlobal
    | .v4, n => !(n / 2 ^ 24 = 10 || n / 2 ^ 24 = 127 || n / 2 ^ 16 = 0xC0A8 || n / 2 ^ 24 = 0)
    | .v6, n => n / 2 ^ 125 = 1
  isPrivate
    | .v4, n => n / 2 ^ 24 = 10 || n / 2 ^ 24 = 127 || n / 2 ^ 16 = 0xC0A8 || n / 2 ^ 24 = 0
    | .v6, n => n / 2 ^ 121 = 0x7E
  isLoopback
    | .v4, n => n / 2 ^ 24 = 127
    | .v6, n => n = 1
  isLinkLocal
    | .v4, n => n / 2 ^ 16 = 0xA9FE
    | .v6, n => n / 2 ^ 118 = 0x3FA
  isMulticast
    | .v4, n => n / 2 ^ 28 = 14
    | .v6, n => n / 2 ^ 120 = 0xFF
  isReserved
    | .v4, n => n / 2 ^ 28 = 15
    | .v6, n => n / 2 ^ 125 = 0
  isUnspecified _ n := n = 0

/-- Libraries for text in ASCII. -/
def asciiLibraries : Libraries := ⟨asciiLower, id, fun _ => .error "not ASCII", sampleRanges⟩

theorem asciiLibraries_correct : asciiLibraries.Correct where
  lower_ascii := fun _ _ => rfl
  idna_form := nofun
  idna_colon := fun _ _ => ⟨_, rfl⟩
  idna_labels := nofun

/-- The zone of an admitted address ends like a name of a local network. -/
theorem zone_ends_like_a_local_name :
    ¬ ∀ (libs : Libraries) (cfg : Settings), libs.Correct → cfg.allowInternalTargets = false → cfg.trusted = false →
      ∀ url parsed host, postInit libs cfg url = .ok () → urlparse libs url = some parsed →
        parsed.hostname libs = some host → ∀ suffix ∈ specialUseSuffixes, ¬ IsUnder suffix host := by
  intro h
  have hadmitted : postInit asciiLibraries .default "http://[2606:4700::1%x.local]/".toList = .ok () := by decide +kernel
  have hparsed : urlparse asciiLibraries "http://[2606:4700::1%x.local]/".toList =
      some ⟨"http".toList, "[2606:4700::1%x.local]".toList, "/".toList, [], [], []⟩ := by decide +kernel
  refine h asciiLibraries .default asciiLibraries_correct rfl rfl _ _ "2606:4700::1%x.local".toList hadmitted hparsed
    (by decide +kernel) "local".toList (by decide +kernel) (.inr ?_)
  rw [← List.isSuffixOf_iff_suffix]
  decide +kernel

/-- A short form of a public address is admitted, and is read as that address. -/
theorem admitted_hosts_are_public_in_octal :
    postInit asciiLibraries .default "http://010.8.2056/".toList = .ok () ∧
      asciiLibraries.ranges.isPublic .v4 (8 * 2 ^ 24 + 8 * 2 ^ 16 + 2056) = true := by
  have hadmitted : postInit asciiLibraries .default "http://010.8.2056/".toList = .ok () := by decide +kernel
  obtain ⟨parsed, host, hparsed, hhost, hpublic, -⟩ := admitted_hosts_are_public asciiLibraries asciiLibraries_correct
    .default rfl rfl "http://010.8.2056/".toList hadmitted
  have hparsed' : urlparse asciiLibraries "http://010.8.2056/".toList =
      some ⟨"http".toList, "010.8.2056".toList, "/".toList, [], [], []⟩ := by decide +kernel
  rw [hparsed'] at hparsed
  cases hparsed
  have hhost' : ParseResult.hostname asciiLibraries
      ⟨"http".toList, "010.8.2056".toList, "/".toList, [], [], []⟩ = some "010.8.2056".toList := by decide +kernel
  rw [hhost'] at hhost
  cases hhost
  exact ⟨hadmitted, hpublic (by decide +kernel) _ (by decide +kernel)⟩

end LinkShortener.Urls
