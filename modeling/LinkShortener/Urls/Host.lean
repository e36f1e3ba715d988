import LinkShortener.Domain.Privileges
import LinkShortener.Urls.Addresses

/-!
# How a host is read

The helpers of `OriginalUrl` that interpret a host: the root label, the ASCII form, and the address a resolver would
derive from it.

* `root_cases`: the ends a host can have, and what becomes of each when the root label is dropped.
* `toAsciiHost_cases`: a host in ASCII is lowered, any other is encoded.

Where a pattern of the source ends in `$`, the text ends here: a newline, which `$` would pass over, is refused with the
other control characters before any host is read.
-/

namespace LinkShortener.Urls

/-! ## What is not the service's own -/

/-- The Unicode tables behind `str.lower` and NFKC, and the `idna` package with UTS-46; a name that package refuses comes
back with its sentence. -/
structure Libraries where
  lower : Str → Str
  nfkc : Str → Str
  idnaEncode : Str → Except String Str
  ranges : Ranges

/-- Lower-case letters, digits, hyphens, and the dots between labels. -/
def isHostChar (c : Char) : Bool := c.isLower || c.isDigit || c = '-' || c = '.'

/-- What is relied on of the libraries. -/
structure Libraries.Correct (libs : Libraries) : Prop where
  lower_ascii : ∀ s, isAscii s = true → libs.lower s = asciiLower s
  /-- A name in its ASCII form is made of letters in lower case, digits, hyphens and dots. -/
  idna_form : ∀ s r, libs.idnaEncode s = .ok r → r.all isHostChar = true
  /-- A name with a colon in it is refused. -/
  idna_colon : ∀ s, ':' ∈ s → ∃ reason, libs.idnaEncode s = .error reason
  /-- ASCII labels at the end of a name stay, in lower case. -/
  idna_labels : ∀ s r labels, libs.idnaEncode s = .ok r → '.' :: labels <:+ s →
    labels.all (fun c => c.isAlphanum || c = '.') = true → '.' :: asciiLower labels <:+ r

/-! ## The ASCII form -/

/-- Drop the root label a fully qualified name ends with; of two dots the second is an empty label, and stays. -/
def withoutRootLabel (host : Str) : Str :=
  if ['.'].isSuffixOf host && !(['.', '.'].isSuffixOf host) then host.dropLast else host

/-- The host in the form that travels over DNS. -/
def toAsciiHost (libs : Libraries) (host : Str) : Except DomainError Str :=
  let host := withoutRootLabel host
  if isAscii host then .ok (asciiLower host)
  else
    match libs.idnaEncode host with
    | .ok ascii => .ok ascii
    | .error reason => .error (.validation ("Invalid international domain name: " ++ reason) "url")

/-! ### The root label -/

section Root

variable {host : Str}

theorem isSuffixOf_dot : ['.'].isSuffixOf host = true ↔ host.getLast? = some '.' := by
  rw [List.isSuffixOf_iff_suffix, List.singleton_suffix_iff_getLast?_eq_some]

theorem withoutRootLabel_subset (host : Str) : withoutRootLabel host ⊆ host := by
  unfold withoutRootLabel
  split
  · exact List.dropLast_subset host
  · exact List.Subset.refl host

/-- A host that does not end in a dot has no root label. -/
theorem withoutRootLabel_of_getLast (h : host.getLast? ≠ some '.') : withoutRootLabel host = host := by
  unfold withoutRootLabel
  rw [if_neg]
  intro hcond
  exact h (isSuffixOf_dot.mp (Bool.and_eq_true_iff.mp hcond).1)

/-- The root label is the dot after a host that does not end in one. -/
theorem withoutRootLabel_concat (h : host.getLast? ≠ some '.') : withoutRootLabel (host ++ ['.']) = host := by
  unfold withoutRootLabel
  rw [if_pos, List.dropLast_concat]
  rw [Bool.and_eq_true_iff, isSuffixOf_dot, List.getLast?_concat]
  refine ⟨rfl, ?_⟩
  rw [Bool.not_eq_true', Bool.eq_false_iff]
  intro hdots
  obtain ⟨t, ht⟩ := List.isSuffixOf_iff_suffix.mp hdots
  have hhost : t ++ ['.'] = host := by
    have hassoc : t ++ ['.'] ++ ['.'] = host ++ ['.'] := by simpa using ht
    exact List.append_cancel_right hassoc
  apply h
  rw [← hhost]
  exact List.getLast?_concat

/-- A name that ends in two dots is left as it is. -/
theorem withoutRootLabel_dots (x : Str) : withoutRootLabel (x ++ ['.', '.']) = x ++ ['.', '.'] := by
  have hdots : ['.', '.'].isSuffixOf (x ++ ['.', '.']) = true := List.isSuffixOf_iff_suffix.mpr ⟨x, rfl⟩
  unfold withoutRootLabel
  rw [hdots]
  simp

/-- The three ends a host can have. -/
theorem root_cases (host : Str) :
    host.getLast? ≠ some '.' ∨ (∃ x, host = x ++ ['.'] ∧ x.getLast? ≠ some '.') ∨ ∃ x, host = x ++ ['.', '.'] := by
  by_cases hdot : host.getLast? = some '.'
  · right
    obtain ⟨x, rfl⟩ := List.singleton_suffix_iff_getLast?_eq_some.mpr hdot
    by_cases hx : x.getLast? = some '.'
    · obtain ⟨y, rfl⟩ := List.singleton_suffix_iff_getLast?_eq_some.mpr hx
      exact .inr ⟨y, by simp⟩
    · exact .inl ⟨x, rfl, hx⟩
  · exact .inl hdot

/-- Dropping the root label twice drops it once. -/
theorem withoutRootLabel_idem (host : Str) : withoutRootLabel (withoutRootLabel host) = withoutRootLabel host := by
  rcases root_cases host with h | ⟨x, rfl, hx⟩ | ⟨x, rfl⟩
  · rw [withoutRootLabel_of_getLast h, withoutRootLabel_of_getLast h]
  · rw [withoutRootLabel_concat hx, withoutRootLabel_of_getLast hx]
  · rw [withoutRootLabel_dots, withoutRootLabel_dots]

theorem getLast?_asciiLower {s : Str} (h : s.getLast? ≠ some '.') : (asciiLower s).getLast? ≠ some '.' := by
  unfold asciiLower
  rw [List.getLast?_map]
  intro hlast
  obtain ⟨c, hc, hlower⟩ := Option.map_eq_some_iff.mp hlast
  rw [toLower_eq_caseless (by decide)] at hlower
  exact h (hlower ▸ hc)

theorem withoutRootLabel_lower (host : Str) :
    withoutRootLabel (asciiLower host) = asciiLower (withoutRootLabel host) := by
  rcases root_cases host with h | ⟨x, rfl, hx⟩ | ⟨x, rfl⟩
  · rw [withoutRootLabel_of_getLast h, withoutRootLabel_of_getLast (getLast?_asciiLower h)]
  · have happend : asciiLower (x ++ ['.']) = asciiLower x ++ ['.'] := List.map_append
    rw [withoutRootLabel_concat hx, happend, withoutRootLabel_concat (getLast?_asciiLower hx)]
  · have happend : asciiLower (x ++ ['.', '.']) = asciiLower x ++ ['.', '.'] := List.map_append
    rw [withoutRootLabel_dots, happend, withoutRootLabel_dots]

/-- What is no root label is in a host with and without it. -/
theorem mem_withoutRootLabel {c : Char} (hc : c ≠ '.') : c ∈ withoutRootLabel host ↔ c ∈ host := by
  rcases root_cases host with h | ⟨x, rfl, hx⟩ | ⟨x, rfl⟩
  · rw [withoutRootLabel_of_getLast h]
  · simp [withoutRootLabel_concat hx, hc]
  · rw [withoutRootLabel_dots]

theorem isAscii_withoutRootLabel : isAscii (withoutRootLabel host) = isAscii host := by
  rcases root_cases host with h | ⟨x, rfl, hx⟩ | ⟨x, rfl⟩
  · rw [withoutRootLabel_of_getLast h]
  · simp [withoutRootLabel_concat hx, isAscii]
  · rw [withoutRootLabel_dots]

/-- A host in ASCII is lowered, any other is encoded. -/
theorem toAsciiHost_cases {libs : Libraries} {ascii : Str} (h : toAsciiHost libs host = .ok ascii) :
    (isAscii host = true ∧ ascii = asciiLower (withoutRootLabel host)) ∨
      (isAscii host = false ∧ libs.idnaEncode (withoutRootLabel host) = .ok ascii) := by
  unfold toAsciiHost at h
  dsimp only at h
  rw [isAscii_withoutRootLabel] at h
  split at h
  · rename_i hascii
    cases h
    exact .inl ⟨hascii, rfl⟩
  · rename_i hascii
    refine .inr ⟨Bool.eq_false_iff.mpr hascii, ?_⟩
    cases hencode : libs.idnaEncode (withoutRootLabel host) with
    | error reason =>
      rw [hencode] at h
      cases h
    | ok r =>
      rw [hencode] at h
      cases h
      rfl

theorem toAsciiHost_of_ascii (libs : Libraries) (h : isAscii host = true) :
    toAsciiHost libs host = .ok (asciiLower (withoutRootLabel host)) := by
  unfold toAsciiHost
  dsimp only
  rw [isAscii_withoutRootLabel, if_pos h]

theorem toAsciiHost_withoutRootLabel (libs : Libraries) (host : Str) :
    toAsciiHost libs (withoutRootLabel host) = toAsciiHost libs host := by
  unfold toAsciiHost
  rw [withoutRootLabel_idem]

end Root

/-! ## The address a resolver would derive -/

/-- Digits that are digits of the radix, read as a number; only an octal number may have none left. -/
def readDigits (radix : Radix) (digits : Str) : Option Nat :=
  if digits.all radix.isDigit && (decide (radix = .octal) || !digits.isEmpty) then some (int radix digits) else none

/-- One part of an IPv4 address: `0x` is hexadecimal, a leading zero octal, anything else decimal. -/
def parseIpv4Part (part : Str) : Option Nat :=
  if part = [] then none
  else if asciiLower (part.take 2) = ['0', 'x'] then
    if part.drop 2 = [] then some 0 else readDigits .hexadecimal (part.drop 2)
  else if part.head? = some '0' ∧ 1 < part.length then readDigits .octal (part.drop 1)
  else readDigits .decimal part

/-- Whether the last label of a host parses as a number. -/
def endsInNumber (part : Str) : Bool := (parseIpv4Part part).isSome

def invalidAddress : DomainError := .validation "Invalid IP address in host" "url"

/-- The labels of a host, without the empty one after a trailing dot. -/
def hostParts (host : Str) : List Str :=
  let parts := host.splitOn '.'
  if parts.getLast? = some [] then parts.dropLast else parts

/-- The last number, with the ones before it in the upper octets. -/
def packed (numbers : List Nat) : Nat :=
  numbers.dropLast.zipIdx.foldl (fun n p => n + p.1 * 256 ^ (3 - p.2)) (numbers.getLastD 0)

/-- **The address a resolver would derive from a host**, or nothing when the host is a name. -/
def asIpAddress (host : Str) : Except DomainError (Option IpAddress) :=
  if ':' ∈ host then
    match Ipv6Address.parse host with
    | some a => .ok (some (.v6 a))
    | none => .error invalidAddress
  else
    let parts := hostParts host
    match parts.getLast? with
    | none => .ok none
    | some last =>
      if !endsInNumber last then .ok none
      else if 4 < parts.length then .error invalidAddress
      else
        match parts.mapM parseIpv4Part with
        | none => .error invalidAddress
        | some numbers =>
          if numbers.dropLast.any fun n => decide (255 < n) then .error invalidAddress
          -- The last part fills every octet the ones before it left out.
          else if 256 ^ (4 - (numbers.length - 1)) ≤ numbers.getLastD 0 then .error invalidAddress
          else
            match Ipv4Address.ofNat? (packed numbers) with
            | some a => .ok (some (.v4 a))
            | none => .error invalidAddress

end LinkShortener.Urls
