import LinkShortener.Urls.Parse

/-!
# Original URLs

`OriginalUrl`: what is checked when a URL is submitted, what of it when a stored one is read back (`postInit`), and the
normal form a URL is hashed by (`normalize`). `Admissible` takes the checks apart (`validateForm_iff`).
-/

namespace LinkShortener.Urls

open Text

/-- The settings a URL is admitted under. -/
structure Settings where
  allowedSchemes : List Str
  maxLength : Nat
  allowInternalTargets : Bool
  /-- The value comes from the service's own storage. -/
  trusted : Bool

/-- What the service runs with by default. -/
def Settings.default : Settings := ⟨["http".toList, "https".toList], 2048, false, false⟩

/-- Ports a scheme is allowed to omit. -/
def defaultPort (scheme : Str) : Option Nat :=
  if scheme = "http".toList then some 80 else if scheme = "https".toList then some 443 else none

/-- Suffixes of names that exist only inside somebody's own network. -/
def specialUseSuffixes : List Str :=
  ["localhost", "local", "home.arpa", "internal", "alt", "corp", "home", "mail", "localdomain", "intranet", "lan",
    "private", "svc", "consul", "novalocal", "openstacklocal"].map String.toList

def refuse (message : String) : DomainError := .validation message "url"

section Checks

variable (libs : Libraries) (cfg : Settings)

/-! ## Checks -/

def validateLength (value : Str) : Check :=
  require (decide (value.length ≤ cfg.maxLength))
    (refuse ("URL too long (max " ++ toString cfg.maxLength ++ " characters)"))

def isControl (c : Char) : Bool := decide (c.toNat < 32 ∨ c.toNat = 127)

/-- Control characters are refused in the text as it was submitted. -/
def validateAdmissibleCharacters (value : Str) : Check :=
  require (!value.any isControl) (refuse "URL contains control characters")

def parse (value : Str) : Except DomainError ParseResult :=
  match urlparse libs value with
  | some parsed => .ok parsed
  | none => .error (refuse "Malformed URL: its authority cannot be parsed")

def validateScheme (parsed : ParseResult) : Check := do
  require (!parsed.scheme.isEmpty) (refuse "URL must have a scheme!")
  require (decide (parsed.scheme ∈ cfg.allowedSchemes))
    (refuse ("Scheme '" ++ String.ofList parsed.scheme ++ "' is not allowed. Allowed schemes: " ++
      ", ".intercalate (cfg.allowedSchemes.map String.ofList)))

/-- An authority, and one whose port can be read. -/
def validateAuthorityPresent (parsed : ParseResult) : Check := do
  require (!parsed.netloc.isEmpty) (refuse "URL must have a domain!")
  require (parsed.hostname libs).isSome (refuse "URL must have a hostname")
  require parsed.port.isSome (refuse "Invalid port number")

def validateNoCredentials (parsed : ParseResult) : Check :=
  require (decide ('@' ∉ parsed.netloc)) (refuse "URL must not contain credentials before the host")

def validateBracketedHostIsAnAddress (parsed : ParseResult) : Check :=
  if '[' ∉ parsed.netloc ∧ ']' ∉ parsed.netloc then .ok ()
  else require (Ipv6Address.parse ((parsed.hostname libs).getD [])).isSome
    (refuse "Brackets in a URL enclose an IPv6 address")

/-- `LABEL_PATTERN`: alphanumeric ends, hyphens allowed inside, at most 63 characters. -/
def matchesLabel (label : Str) : Bool :=
  (label.head?.any Char.isAlphanum) && (label.getLast?.any Char.isAlphanum) &&
    label.all (fun c => c.isAlphanum || c = '-') && decide (label.length ≤ 63)

def validateLabel (label : Str) : Check := do
  require (!label.isEmpty) (refuse "Empty label in host")
  require (decide (label.length ≤ 63)) (refuse "Label too long")
  require (matchesLabel label) (refuse ("Invalid characters in host label: " ++ String.ofList label))

/-- An address, `localhost`, or a domain name in its ASCII form. -/
def validateHost (host : Str) : Check :=
  if host = [] then .error (refuse "Empty host")
  else
    let host := withoutRootLabel host
    if (ipAddress host).isSome then .ok ()
    else if host = "localhost".toList then .ok ()
    else do
      let host ← toAsciiHost libs host
      require (decide ('.' ∈ host)) (refuse "Host must contain a dot (e.g., example.com)")
      require (decide (host.length ≤ 253)) (refuse "Host too long")
      (host.splitOn '.').forM validateLabel

def validateNetloc (parsed : ParseResult) : Check := do
  require (parsed.port.join.all fun port => decide (1 ≤ port ∧ port ≤ 65535)) (refuse "Invalid port number")
  validateHost libs ((parsed.hostname libs).getD [])

def validatePath (parsed : ParseResult) : Check :=
  require (!parsed.path.any isControl) (refuse "Path contains control characters")

/-- Whether a host is one of the names of a local network, or ends in one. -/
def isSpecialUse (host : Str) : Bool :=
  specialUseSuffixes.any fun suffix => decide (host = suffix) || ('.' :: suffix).isSuffixOf host

/-- `host.rstrip(".")`. -/
def withoutTrailingDots (host : Str) : Str := (host.reverse.dropWhile (· = '.')).reverse

/-- Destinations that only exist inside the deployment's network are refused. -/
def validatePublicTarget (parsed : ParseResult) : Check :=
  if cfg.allowInternalTargets then .ok ()
  else do
    let host ← toAsciiHost libs ((parsed.hostname libs).getD [])
    match ← asIpAddress host with
    | none => require (!isSpecialUse (withoutTrailingDots host)) (refuse "URL must point at a public address")
    | some address => require (!isInternalAddress libs.ranges address) (refuse "URL must point at a public address")

/-- Everything but the length. -/
def validateForm (value : Str) : Check := do
  onlyIf (!cfg.trusted) (validateAdmissibleCharacters value)
  let parsed ← parse libs value
  onlyIf (!cfg.trusted) (validateScheme cfg parsed)
  validateAuthorityPresent libs parsed
  onlyIf (!cfg.trusted) do
    validateNoCredentials parsed
    validateBracketedHostIsAnAddress libs parsed
    validateNetloc libs parsed
    validatePath parsed
    validatePublicTarget libs cfg parsed

/-- **The checks a URL passes to be built.** -/
def postInit (value : Str) : Check := do
  onlyIf (!cfg.trusted) (validateLength cfg value)
  validateForm libs cfg value

end Checks

/-! ## The normal form -/

section Normalize

variable (libs : Libraries)

/-- The host of an authority, in brackets when it came in brackets, and the port unless the scheme omits it. -/
def normalNetloc (scheme host netloc : Str) (port : Option Nat) : Str :=
  let host := if ':' ∈ host ∨ '[' ∈ netloc then '[' :: (host ++ [']']) else host
  match port with
  | some port => if defaultPort scheme ≠ some port then host ++ ':' :: Nat.toDigits 10 port else host
  | none => host

/-- The credentials of an authority, with their separator. -/
def userinfo (netloc : Str) : Str := (cutLast '@' netloc).1

/-- **The text a URL is compared and hashed by.** -/
def normalize (value : Str) : Except DomainError Str := do
  let parsed ← parse libs value
  let scheme := asciiLower parsed.scheme
  let host ← toAsciiHost libs ((parsed.hostname libs).getD [])
  match parsed.port with
  | none => .error (.plain "Port could not be cast to integer value" "INTERNAL_ERROR")
  | some port =>
    let netloc := userinfo parsed.netloc ++ normalNetloc scheme host parsed.netloc port
    let path := if parsed.path = [] then ['/'] else parsed.path
    return ParseResult.geturl ⟨scheme, netloc, path, parsed.params, parsed.query, []⟩

end Normalize

/-! ## The checks, one by one -/

/-- What the checks ask of the parts of a URL. -/
structure Admissible (libs : Libraries) (cfg : Settings) (parsed : ParseResult) : Prop where
  scheme : parsed.scheme ≠ [] ∧ parsed.scheme ∈ cfg.allowedSchemes
  netloc : parsed.netloc ≠ []
  host : ∃ host, parsed.hostname libs = some host
  port : ∃ port, parsed.port = some port ∧ ∀ n, port = some n → 1 ≤ n ∧ n ≤ 65535
  noCredentials : '@' ∉ parsed.netloc
  brackets : ('[' ∉ parsed.netloc ∧ ']' ∉ parsed.netloc) ∨
    (Ipv6Address.parse ((parsed.hostname libs).getD [])).isSome = true
  validHost : validateHost libs ((parsed.hostname libs).getD []) = .ok ()
  path : parsed.path.any isControl = false
  target : validatePublicTarget libs cfg parsed = .ok ()

section Admission

variable {libs : Libraries} {cfg : Settings} {value : Str}

theorem validateScheme_iff {parsed : ParseResult} :
    validateScheme cfg parsed = .ok () ↔ parsed.scheme ≠ [] ∧ parsed.scheme ∈ cfg.allowedSchemes := by
  unfold validateScheme
  rw [check_bind_eq_ok, require_eq_ok, require_eq_ok, decide_eq_true_iff]
  simp

theorem validateAuthorityPresent_iff {parsed : ParseResult} :
    validateAuthorityPresent libs parsed = .ok () ↔
      parsed.netloc ≠ [] ∧ (parsed.hostname libs).isSome = true ∧ parsed.port.isSome = true := by
  unfold validateAuthorityPresent
  rw [check_bind_eq_ok, check_bind_eq_ok, require_eq_ok, require_eq_ok, require_eq_ok]
  simp

theorem validateBrackets_iff {parsed : ParseResult} :
    validateBracketedHostIsAnAddress libs parsed = .ok () ↔ ('[' ∉ parsed.netloc ∧ ']' ∉ parsed.netloc) ∨
      (Ipv6Address.parse ((parsed.hostname libs).getD [])).isSome = true := by
  unfold validateBracketedHostIsAnAddress
  split
  · rename_i hnone
    simp [hnone]
  · rename_i hsome
    rw [require_eq_ok]
    simp only [hsome, false_or]

/-- **A URL passes the checks when its characters and its parts do.** -/
theorem validateForm_iff (htrusted : cfg.trusted = false) :
    validateForm libs cfg value = .ok () ↔
      value.any isControl = false ∧ ∃ parsed, urlparse libs value = some parsed ∧ Admissible libs cfg parsed := by
  unfold validateForm parse onlyIf
  simp only [htrusted, Bool.not_false, if_true]
  rw [check_bind_eq_ok, validateAdmissibleCharacters, require_eq_ok, bind_eq_ok]
  constructor
  · rintro ⟨hchars, parsed, hparse, h⟩
    obtain ⟨hscheme, h⟩ := check_bind_eq_ok.mp h
    obtain ⟨hauthority, h⟩ := check_bind_eq_ok.mp h
    obtain ⟨hcredentials, h⟩ := check_bind_eq_ok.mp h
    obtain ⟨hbrackets, h⟩ := check_bind_eq_ok.mp h
    obtain ⟨hnetloc, h⟩ := check_bind_eq_ok.mp h
    obtain ⟨hpath, htarget⟩ := check_bind_eq_ok.mp h
    obtain ⟨hport, hhost⟩ := check_bind_eq_ok.mp hnetloc
    obtain ⟨hne, hsome, hreadable⟩ := validateAuthorityPresent_iff.mp hauthority
    obtain ⟨port, hp⟩ := Option.isSome_iff_exists.mp hreadable
    refine ⟨by simpa using hchars, parsed, ?_, ?_⟩
    · cases hurl : urlparse libs value with
      | none =>
        rw [hurl] at hparse
        cases hparse
      | some r =>
        rw [hurl] at hparse
        cases hparse
        rfl
    · refine ⟨validateScheme_iff.mp hscheme, hne, Option.isSome_iff_exists.mp hsome, ⟨port, hp, ?_⟩, ?_,
        validateBrackets_iff.mp hbrackets, hhost, ?_, htarget⟩
      · rintro n rfl
        rw [require_eq_ok, hp] at hport
        simpa using hport
      · exact of_decide_eq_true (require_eq_ok.mp hcredentials)
      · simpa [validatePath] using hpath
  · rintro ⟨hchars, parsed, hurl, h⟩
    obtain ⟨port, hp, hrange⟩ := h.port
    refine ⟨by simp [hchars], parsed, by rw [hurl], ?_⟩
    refine check_bind_eq_ok.mpr ⟨validateScheme_iff.mpr h.scheme, ?_⟩
    refine check_bind_eq_ok.mpr ⟨validateAuthorityPresent_iff.mpr ⟨h.netloc, ?_, ?_⟩, ?_⟩
    · exact Option.isSome_iff_exists.mpr h.host
    · exact Option.isSome_iff_exists.mpr ⟨port, hp⟩
    refine check_bind_eq_ok.mpr ⟨require_eq_ok.mpr (decide_eq_true h.noCredentials), ?_⟩
    refine check_bind_eq_ok.mpr ⟨validateBrackets_iff.mpr h.brackets, ?_⟩
    refine check_bind_eq_ok.mpr ⟨check_bind_eq_ok.mpr ⟨?_, h.validHost⟩, ?_⟩
    · rw [require_eq_ok, hp]
      cases port with
      | none => rfl
      | some n => exact decide_eq_true (hrange n rfl)
    · refine check_bind_eq_ok.mpr ⟨?_, h.target⟩
      simp [validatePath, h.path]

end Admission

end LinkShortener.Urls
