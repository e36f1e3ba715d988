import LinkShortener.Urls.PublicTargets
import LinkShortener.Urls.RoundTrip

/-!
# Hosts in their ASCII form

`NormalHost` is what the ASCII form of a host that passes the check of hosts is like: it is its own ASCII form, it passes
the check, and it can be written into an authority and read out of it.

* `Ipv4Address.chars_of_parse`, `Ipv6Address.colon_of_parse`, `Ipv6Address.head_of_parse`: what addresses are made of.
* `validateHost_iff`: what the check of a host asks.
* `normalHost_of_ascii`, `normalHost_of_idna`: the ASCII form of a host in ASCII, and of an international name.
-/

namespace LinkShortener.Urls

open Text

/-! ## Characters of addresses -/

section Characters

variable {s : Str}

/-- An IPv4 address is made of digits and dots. -/
theorem Ipv4Address.chars_of_parse (h : (Ipv4Address.parse s).isSome = true) :
    ∀ c ∈ s, c = '.' ∨ c.isDigit = true := by
  intro c hc
  by_cases hdot : c = '.'
  · exact .inl hdot
  · obtain ⟨a, ha⟩ := Option.isSome_iff_exists.mp h
    obtain ⟨octet, hoctet, hmem⟩ := exists_mem_splitOn hc hdot
    unfold Ipv4Address.parse at ha
    dsimp only at ha
    split at ha
    · cases ha
    · split at ha
      · cases ha
      · split at ha
        · cases ha
        · rename_i numbers hnumbers
          have hread := isSome_of_mapM hnumbers octet hoctet
          unfold Ipv4Address.parseOctet at hread
          split at hread
          · cases hread
          · split at hread
            · cases hread
            · rename_i hdigits
              right
              simp only [Bool.not_eq_true, Bool.not_eq_false'] at hdigits
              exact List.all_eq_true.mp hdigits c hmem

/-- The parts of an IPv6 address: its number, and the zone after a `%`. -/
theorem Ipv6Address.parse_isSome (h : (Ipv6Address.parse s).isSome = true) :
    (Ipv6Address.number (cut '%' s).1).isSome = true := by
  obtain ⟨a, ha⟩ := Option.isSome_iff_exists.mp h
  unfold Ipv6Address.parse Ipv6Address.splitScopeId at ha
  split at ha
  · cases ha
  · split at ha
    · cases ha
    · rename_i address scopeId hscope
      have haddress : address = (cut '%' s).1 := by
        split at hscope
        · rename_i hnone
          cases hscope
          rw [cut_of_not_mem hnone]
        · split at hscope
          · cases hscope
          · cases hscope
            rfl
      rw [haddress] at ha
      split at ha
      · cases ha
      · rename_i n hn
        rw [hn]
        rfl

/-- The parts of an address that has a number: at least three, and those before a `::` are hextets. -/
theorem Ipv6Address.exists_parts (h : (Ipv6Address.number s).isSome = true) :
    3 ≤ (s.splitOn ':').length ∧ ∃ parts hi skipped lo high, Ipv6Address.hextetParts s = some parts ∧
      Ipv6Address.layout parts = some (hi, skipped, lo) ∧ (parts.take hi).mapM Ipv6Address.parseHextet = some high := by
  obtain ⟨n, hn⟩ := Option.isSome_iff_exists.mp h
  unfold Ipv6Address.number at hn
  split at hn
  · cases hn
  · split at hn
    · cases hn
    · rename_i hlength
      split at hn
      · cases hn
      · rename_i parts hparts
        split at hn
        · cases hn
        · split at hn
          · cases hn
          · rename_i hi skipped lo hlayout
            split at hn
            · rename_i high low hhigh hlow
              exact ⟨by omega, parts, hi, skipped, lo, high, hparts, hlayout, hhigh⟩
            · cases hn

theorem Ipv6Address.colon_of_parse (h : (Ipv6Address.parse s).isSome = true) : ':' ∈ s := by
  obtain ⟨hlength, -⟩ := Ipv6Address.exists_parts (Ipv6Address.parse_isSome h)
  by_contra hnone
  have hshort : ':' ∉ (cut '%' s).1 := by
    intro hm
    apply hnone
    rw [← cut_mark '%' s]
    exact List.mem_append_left _ hm
  rw [List.splitOn_eq_singleton hshort, List.length_singleton] at hlength
  omega

/-- An address begins with a part that is copied, or with a colon. -/
theorem Ipv6Address.layout_first {parts : List Str} {hi skipped lo : Nat} {part : Str}
    (h : Ipv6Address.layout parts = some (hi, skipped, lo)) (hfirst : parts.head? = some part) (hne : part ≠ []) :
    0 < hi := by
  have hhead : parts.head? ≠ some [] := by
    rw [hfirst]
    simpa using hne
  unfold Ipv6Address.layout at h
  split at h
  · split at h
    · cases h
      decide
    · cases h
  · rename_i skip hskip
    have hmem : skip ∈ Ipv6Address.skips parts := by
      rw [hskip]
      exact List.mem_singleton_self skip
    have hpos : 0 < skip := by
      unfold Ipv6Address.skips at hmem
      obtain ⟨i, -, hi⟩ := List.mem_map.mp (List.mem_filter.mp hmem).1
      omega
    simp only [if_neg hhead, Option.ite_none_left_eq_some, Option.some.injEq, Prod.mk.injEq] at h
    obtain ⟨-, -, -, rfl, -⟩ := h
    exact hpos
  · cases h

/-- An address does not begin like the literal of a future version. -/
theorem Ipv6Address.head_of_parse (h : (Ipv6Address.parse s).isSome = true) : s.head? ≠ some 'v' := by
  intro hv
  obtain ⟨hlength, hextets, hi, skipped, lo, high, hparts, hlayout, hhigh⟩ :=
    Ipv6Address.exists_parts (Ipv6Address.parse_isSome h)
  obtain ⟨part, parts, hsplit⟩ : ∃ part parts, (cut '%' s).1.splitOn ':' = ('v' :: part) :: parts := by
    cases s with
    | nil => cases hv
    | cons c s =>
      cases hv
      have hcut : (cut '%' ('v' :: s)).1 = 'v' :: s.takeWhile (· ≠ '%') := by
        simp [cut]
      rw [hcut, List.splitOn_cons_eq_if_modifyHead, if_neg (by decide)]
      cases hs : (s.takeWhile (· ≠ '%')).splitOn ':' with
      | nil => exact absurd hs (List.splitOn_ne_nil _ _)
      | cons part parts => exact ⟨part, parts, rfl⟩
  have hfirst : hextets.head? = some ('v' :: part) := by
    unfold Ipv6Address.hextetParts at hparts
    rw [hsplit] at hparts hlength
    dsimp only at hparts
    split at hparts
    · obtain ⟨a, -, rfl⟩ := Option.map_eq_some_iff.mp hparts
      cases parts with
      | nil => simp at hlength
      | cons p parts => rfl
    · cases hparts
      rfl
  have hpos := Ipv6Address.layout_first hlayout hfirst (List.cons_ne_nil _ _)
  have hmem : ('v' :: part) ∈ hextets.take hi := by
    cases hextets with
    | nil => cases hfirst
    | cons p ps =>
      cases hfirst
      rw [List.take_cons hpos]
      exact List.mem_cons_self
  have hread := isSome_of_mapM hhigh _ hmem
  have hbad : Ipv6Address.parseHextet ('v' :: part) = none := by
    have hv : Radix.isDigit .hexadecimal 'v' = false := by decide
    unfold Ipv6Address.parseHextet
    rw [List.all_cons, hv]
    rfl
  rw [hbad] at hread
  cases hread

/-- In brackets stands an IPv6 address. -/
theorem checkBracketedHost_of_parse (h : (Ipv6Address.parse s).isSome = true) : checkBracketedHost s = true := by
  obtain ⟨a, ha⟩ := Option.isSome_iff_exists.mp h
  have hv4 : Ipv4Address.parse s = none := by
    by_contra hsome
    have hchars := Ipv4Address.chars_of_parse (Option.isSome_iff_ne_none.mpr hsome) ':' (Ipv6Address.colon_of_parse h)
    revert hchars
    decide
  have hip : ipAddress s = some (.v6 a) := by
    unfold ipAddress
    rw [hv4, ha]
    rfl
  unfold checkBracketedHost
  rw [if_neg (Ipv6Address.head_of_parse h), hip]

end Characters

/-! ## Hosts in their ASCII form -/

/-- Characters that end no authority, separate no credentials, close no bracket and control nothing. -/
def isPlain (c : Char) : Bool := !(endsNetloc c || c = '@' || c = ']' || isControl c)

/-- What the ASCII form of an admitted host is like. -/
structure NormalHost (libs : Libraries) (host : Str) : Prop where
  ne_nil : host ≠ []
  ascii : isAscii host = true
  lower : asciiLower host = host
  root : withoutRootLabel host = host
  plain : ∀ c ∈ host, isPlain c = true
  literal : ':' ∈ host → (Ipv6Address.parse host).isSome = true
  name : ':' ∉ host → '[' ∉ host
  valid : validateHost libs host = .ok ()

section Hosts

variable {libs : Libraries} {host ascii : Str}

theorem isPlain_iff {c : Char} : isPlain c = true ↔
    c.toNat ≠ 47 ∧ c.toNat ≠ 63 ∧ c.toNat ≠ 35 ∧ c.toNat ≠ 64 ∧ c.toNat ≠ 93 ∧ 32 ≤ c.toNat ∧ c.toNat ≠ 127 := by
  have heq : ∀ d : Char, c = d ↔ c.toNat = d.toNat := fun d => Char.toNat_inj.symm
  unfold isPlain endsNetloc
  simp only [Bool.not_eq_true', Bool.or_eq_false_iff, decide_eq_false_iff_not, heq]
  rw [Bool.eq_false_iff, ne_eq, isControl_iff]
  simp
  omega

theorem isPlain_toLower (c : Char) : isPlain c.toLower = isPlain c := by
  rw [Bool.eq_iff_iff, isPlain_iff, isPlain_iff, toNat_toLower]
  split <;> omega

theorem isHostChar_iff {c : Char} : isHostChar c = true ↔
    (97 ≤ c.toNat ∧ c.toNat ≤ 122) ∨ (48 ≤ c.toNat ∧ c.toNat ≤ 57) ∨ c.toNat = 45 ∨ c.toNat = 46 := by
  have heq : ∀ d : Char, c = d ↔ c.toNat = d.toNat := fun d => Char.toNat_inj.symm
  unfold isHostChar
  simp only [Bool.or_eq_true, decide_eq_true_eq, isDigit_iff, isLower_iff, heq]
  simp [or_assoc]

/-! What the check of a host asks. -/

/-- A name with more than one label. -/
def IsName (host : Str) : Prop :=
  '.' ∈ host ∧ host.length ≤ 253 ∧ ∀ label ∈ host.splitOn '.', matchesLabel label = true

theorem validateLabel_iff {label : Str} : validateLabel label = .ok () ↔ matchesLabel label = true := by
  unfold validateLabel
  rw [check_bind_eq_ok, check_bind_eq_ok, require_eq_ok, require_eq_ok, require_eq_ok]
  constructor
  · exact fun h => h.2.2
  · intro h
    refine ⟨?_, ?_, h⟩
    · cases label with
      | nil => cases h
      | cons c label => rfl
    · exact (Bool.and_eq_true_iff.mp h).2

theorem forM_validateLabel_iff {labels : List Str} :
    labels.forM validateLabel = .ok () ↔ ∀ label ∈ labels, matchesLabel label = true := by
  induction labels with
  | nil => exact ⟨fun _ => nofun, fun _ => rfl⟩
  | cons label labels ih =>
    have hcons : (label :: labels).forM validateLabel = validateLabel label >>= fun _ => labels.forM validateLabel := rfl
    rw [hcons, check_bind_eq_ok, validateLabel_iff, ih, List.forall_mem_cons]

theorem validateHost_iff : validateHost libs host = .ok () ↔ host ≠ [] ∧
    ((ipAddress (withoutRootLabel host)).isSome = true ∨ withoutRootLabel host = "localhost".toList ∨
      ∃ ascii, toAsciiHost libs host = .ok ascii ∧ IsName ascii) := by
  unfold validateHost
  by_cases hnil : host = []
  · simp [hnil]
  · rw [if_neg hnil]
    dsimp only
    by_cases hip : (ipAddress (withoutRootLabel host)).isSome = true
    · simp [hip, hnil]
    · rw [if_neg hip]
      by_cases hlocal : withoutRootLabel host = "localhost".toList
      · simp [hlocal, hnil]
      · rw [if_neg hlocal, bind_eq_ok, toAsciiHost_withoutRootLabel]
        simp only [check_bind_eq_ok, require_eq_ok, decide_eq_true_iff, forM_validateLabel_iff, IsName, hip, hlocal,
          hnil, false_or, ne_eq, not_false_eq_true, true_and, Bool.false_eq_true]

theorem IsName.chars (h : IsName host) : ∀ c ∈ host, c = '.' ∨ c.isAlphanum = true ∨ c = '-' := by
  intro c hc
  by_cases hdot : c = '.'
  · exact .inl hdot
  · right
    obtain ⟨label, hlabel, hmem⟩ := exists_mem_splitOn hc hdot
    have hmatch := h.2.2 label hlabel
    unfold matchesLabel at hmatch
    have hall := (Bool.and_eq_true_iff.mp (Bool.and_eq_true_iff.mp hmatch).1).2
    simpa using List.all_eq_true.mp hall c hmem

theorem IsName.not_mem {c : Char} (h : IsName host) (hc : (c = '.' || c.isAlphanum || c = '-' : Bool) = false) :
    c ∉ host := by
  intro hm
  have hchars := h.chars c hm
  simp only [Bool.or_eq_false_iff, decide_eq_false_iff_not] at hc
  simp [hc] at hchars

theorem IsName.root (h : IsName host) : withoutRootLabel host = host := by
  apply withoutRootLabel_of_getLast
  intro hdot
  have hlast : (host.splitOn '.').getLast? = some [] := by
    rw [getLast?_splitOn, cutLast_eq_nil.mpr (.inr hdot)]
  have hempty := h.2.2 [] (List.mem_of_getLast? hlast)
  cases hempty

/-- A host that is an address without a colon is made of digits and dots. -/
theorem chars_of_ipAddress (h : (ipAddress host).isSome = true) (hcolon : ':' ∉ host) :
    ∀ c ∈ host, c = '.' ∨ c.isDigit = true := by
  apply Ipv4Address.chars_of_parse
  unfold ipAddress at h
  cases hv4 : Ipv4Address.parse host with
  | some a => rfl
  | none =>
    rw [hv4] at h
    have hv6 : (Ipv6Address.parse host).isSome = true := by simpa using h
    exact absurd (Ipv6Address.colon_of_parse hv6) hcolon

theorem isAscii_of_ipAddress (h : (ipAddress host).isSome = true) (hcolon : ':' ∉ host) : isAscii host = true := by
  apply List.all_eq_true.mpr
  intro c hc
  rcases chars_of_ipAddress h hcolon c hc with rfl | hdigit
  · decide
  · have hle := isDigit_iff.mp hdigit
    exact decide_eq_true (by omega)

theorem parse_of_ipAddress (h : (ipAddress host).isSome = true) (hcolon : ':' ∈ host) :
    (Ipv6Address.parse host).isSome = true := by
  unfold ipAddress at h
  cases hv4 : Ipv4Address.parse host with
  | some a =>
    have hchars := Ipv4Address.chars_of_parse (by rw [hv4]; rfl) ':' hcolon
    exact absurd hchars (by decide)
  | none =>
    rw [hv4] at h
    simpa using h

theorem toAsciiHost_normal (libs : Libraries) (hascii : isAscii host = true) (hlower : asciiLower host = host)
    (hroot : withoutRootLabel host = host) : toAsciiHost libs host = .ok host := by
  rw [toAsciiHost_of_ascii libs hascii, hroot, hlower]

/-- The ASCII form of a host that is in ASCII. -/
theorem normalHost_of_ascii (hvalid : validateHost libs host = .ok ()) (hascii : isAscii host = true)
    (hplain : ∀ c ∈ host, isPlain c = true) (hbracket : '[' ∈ host → ':' ∈ host) :
    NormalHost libs (asciiLower (withoutRootLabel host)) := by
  have hisAscii : isAscii (asciiLower (withoutRootLabel host)) = true := by
    rw [isAscii_asciiLower, isAscii_withoutRootLabel, hascii]
  have hlower := asciiLower_asciiLower (withoutRootLabel host)
  have hroot : withoutRootLabel (asciiLower (withoutRootLabel host)) = asciiLower (withoutRootLabel host) := by
    rw [withoutRootLabel_lower, withoutRootLabel_idem]
  have hmem : ∀ c, isCaseless c = true → c ≠ '.' → (c ∈ asciiLower (withoutRootLabel host) ↔ c ∈ host) := by
    intro c hc hdot
    rw [mem_asciiLower hc, mem_withoutRootLabel hdot]
  have hform := toAsciiHost_of_ascii libs hascii
  obtain ⟨-, hkind⟩ := validateHost_iff.mp hvalid
  have hne : asciiLower (withoutRootLabel host) ≠ [] := by
    intro hnil
    rw [asciiLower_eq_nil] at hnil
    rcases hkind with hip | hlocal | ⟨ascii, hto, hname⟩
    · rw [hnil] at hip
      revert hip
      decide
    · rw [hnil] at hlocal
      revert hlocal
      decide
    · rw [hform, hnil] at hto
      cases hto
      cases hname.1
  refine ⟨hne, hisAscii, hlower, hroot, ?_, ?_, ?_, ?_⟩
  · intro c hc
    obtain ⟨d, hd, rfl⟩ := List.mem_map.mp hc
    rw [isPlain_toLower]
    exact hplain d (withoutRootLabel_subset host hd)
  · intro hcolon
    rw [mem_asciiLower (by decide)] at hcolon
    rcases hkind with hip | hlocal | ⟨ascii, hto, hname⟩
    · rw [Ipv6Address.parse_lower, Option.isSome_map]
      exact parse_of_ipAddress hip hcolon
    · rw [hlocal] at hcolon
      exact absurd hcolon (by decide)
    · rw [hform] at hto
      cases hto
      exact absurd ((mem_asciiLower (by decide)).mpr hcolon) (hname.not_mem (by decide))
  · intro hcolon hm
    rw [hmem '[' (by decide) (by decide)] at hm
    exact hcolon ((hmem ':' (by decide) (by decide)).mpr (hbracket hm))
  · refine validateHost_iff.mpr ⟨hne, ?_⟩
    rw [hroot]
    rcases hkind with hip | hlocal | ⟨ascii, hto, hname⟩
    · exact .inl ((ipAddress_lower_isSome _).trans hip)
    · right
      left
      rw [hlocal]
      decide
    · rw [hform] at hto
      cases hto
      exact .inr (.inr ⟨_, toAsciiHost_normal libs hisAscii hlower hroot, hname⟩)

/-- The ASCII form of an international name. -/
theorem normalHost_of_idna (hlibs : libs.Correct) (hvalid : validateHost libs host = .ok ())
    (hascii : isAscii host = false) (hencode : libs.idnaEncode (withoutRootLabel host) = .ok ascii) :
    NormalHost libs ascii ∧ ':' ∉ host := by
  have hcolon : ':' ∉ withoutRootLabel host := by
    intro hm
    obtain ⟨reason, hrefused⟩ := hlibs.idna_colon _ hm
    rw [hrefused] at hencode
    cases hencode
  have hnot : isAscii (withoutRootLabel host) = false := isAscii_withoutRootLabel.trans hascii
  have hform : toAsciiHost libs host = .ok ascii := by
    unfold toAsciiHost
    dsimp only
    rw [hnot, hencode]
    rfl
  have hname : IsName ascii := by
    rcases (validateHost_iff.mp hvalid).2 with hip | hlocal | ⟨ascii', hto, hname⟩
    · rw [isAscii_of_ipAddress hip hcolon] at hnot
      cases hnot
    · rw [hlocal] at hnot
      exact absurd hnot (by decide)
    · rw [hform] at hto
      cases hto
      exact hname
  have hchars := List.all_eq_true.mp (hlibs.idna_form _ _ hencode)
  have hisAscii : isAscii ascii = true := by
    apply List.all_eq_true.mpr
    intro c hc
    have hc := isHostChar_iff.mp (hchars c hc)
    exact decide_eq_true (by omega)
  have hlower : asciiLower ascii = ascii := by
    rw [asciiLower_eq_self]
    intro c hc
    have hc := isHostChar_iff.mp (hchars c hc)
    rw [← Char.toNat_inj, toNat_toLower, if_neg (by omega)]
  have hroot := hname.root
  have hne : ascii ≠ [] := List.ne_nil_of_mem hname.1
  refine ⟨⟨hne, hisAscii, hlower, hroot, ?_, ?_, ?_, ?_⟩, ?_⟩
  · intro c hc
    have hc := isHostChar_iff.mp (hchars c hc)
    rw [isPlain_iff]
    omega
  · intro hm
    exact absurd hm (hname.not_mem (by decide))
  · intro _
    exact hname.not_mem (by decide)
  · exact validateHost_iff.mpr ⟨hne, .inr (.inr ⟨ascii, toAsciiHost_normal libs hisAscii hlower hroot, hname⟩)⟩
  · rwa [mem_withoutRootLabel (by decide)] at hcolon

end Hosts

end LinkShortener.Urls
