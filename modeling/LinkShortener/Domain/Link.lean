import LinkShortener.Domain.Errors

/-!
# Links

A short code is a subtype: one that is not 6 to 10 characters of `[a-zA-Z0-9_-]` cannot be built. A dedup scope is an
account, or a guest by the identifier their links are counted under; a caller with neither has the anonymous scope.
-/

namespace LinkShortener

/-- The whole code: 6 to 10 letters, digits, underscores or hyphens. -/
def isCode (value : String) : Bool :=
  value.toList.all (fun c => c.isAlphanum || c = '_' || c = '-') && decide (6 ≤ value.length ∧ value.length ≤ 10)

/-- A short code. -/
abbrev ShortCode := { value : String // isCode value = true }

/-- Read a short code. -/
def ShortCode.parse (value : String) : Except DomainError ShortCode :=
  if h : isCode value = true then .ok ⟨value, h⟩
  else .error (.validation ("Invalid short code format: " ++ value ++
    ". Must be 6-10 alphanumeric characters, underscore, or hyphen.") "short_code")

instance : LawfulBEq ShortCode := inferInstance

/-! The codes of the samples. -/

theorem isCode_aaaaaa : isCode "aaaaaa" = true := by decide

theorem isCode_bbbbbb : isCode "bbbbbb" = true := by decide

theorem isCode_cccccc : isCode "cccccc" = true := by decide

/-- The set of links a URL may deduplicate against. -/
inductive DedupScope
  | owner (id : Uuid)
  | guest (identifier : Option String)
  deriving DecidableEq, Repr

/-- A shortened link. -/
structure Link where
  id : Uuid
  urlHash : String
  shortCode : ShortCode
  originalUrl : String
  createdAt : Instant
  clicks : Nat
  lastAccessed : Option Instant
  owner : Option Uuid
  expiresAt : Option Instant
  guestIdentifier : Option String
  deriving DecidableEq

namespace Link

/-- The last instant a `datetime` can name, the end of year 9999. -/
def maxInstant : Instant := 253402300799999999

/-- A second, in the unit of `Instant`. -/
def second : Int := 1000000

/-- A new link; a lifetime of 0 means none. -/
def create (id : Uuid) (urlHash : String) (shortCode : ShortCode) (originalUrl : String) (owner : Option Uuid)
    (guestIdentifier : Option String) (ttlSeconds : Int) (now : Instant) : Except DomainError Link :=
  let link : Link :=
    ⟨id, urlHash, shortCode, originalUrl, now, 0, none, owner, none, guestIdentifier⟩
  if 0 < ttlSeconds then
    if now + ttlSeconds * second ≤ maxInstant then .ok { link with expiresAt := some (now + ttlSeconds * second) }
    else .error (.validation "ttl_seconds is too large to be a date" "ttl_seconds")
  else .ok link

theorem create_ok {id : Uuid} {urlHash originalUrl : String} {shortCode : ShortCode} {owner : Option Uuid}
    {guestIdentifier : Option String} {ttlSeconds : Int} {now : Instant} {link : Link}
    (h : create id urlHash shortCode originalUrl owner guestIdentifier ttlSeconds now = .ok link) :
    link.shortCode = shortCode ∧ link.createdAt = now ∧ link.owner = owner ∧ link.guestIdentifier = guestIdentifier := by
  unfold create at h
  dsimp only at h
  split at h
  · split at h
    · cases h
      exact ⟨rfl, rfl, rfl, rfl⟩
    · cases h
  · cases h
    exact ⟨rfl, rfl, rfl, rfl⟩

theorem create_hash {id : Uuid} {urlHash originalUrl : String} {shortCode : ShortCode} {owner : Option Uuid}
    {guestIdentifier : Option String} {ttlSeconds : Int} {now : Instant} {link : Link}
    (h : create id urlHash shortCode originalUrl owner guestIdentifier ttlSeconds now = .ok link) :
    link.urlHash = urlHash ∧ link.id = id := by
  unfold create at h
  dsimp only at h
  split at h
  · split at h
    · cases h
      exact ⟨rfl, rfl⟩
    · cases h
  · cases h
    exact ⟨rfl, rfl⟩

theorem create_clicks {id : Uuid} {urlHash originalUrl : String} {shortCode : ShortCode} {owner : Option Uuid}
    {guestIdentifier : Option String} {ttlSeconds : Int} {now : Instant} {link : Link}
    (h : create id urlHash shortCode originalUrl owner guestIdentifier ttlSeconds now = .ok link) :
    link.clicks = 0 := by
  unfold create at h
  dsimp only at h
  split at h
  · split at h
    · cases h
      rfl
    · cases h
  · cases h
    rfl

/-- A lifetime that ends within the calendar. -/
def ttlFits (ttlSeconds : Int) (now : Instant) : Bool :=
  decide (ttlSeconds ≤ 0 ∨ now + ttlSeconds * second ≤ maxInstant)

theorem create_fits (id : Uuid) (urlHash : String) (shortCode : ShortCode) (originalUrl : String) (owner : Option Uuid)
    (guestIdentifier : Option String) {ttlSeconds : Int} {now : Instant} (h : ttlFits ttlSeconds now = true) :
    ∃ link, create id urlHash shortCode originalUrl owner guestIdentifier ttlSeconds now = .ok link := by
  unfold create
  dsimp only
  split
  · split
    · exact ⟨_, rfl⟩
    · rename_i hpos hlate
      rcases of_decide_eq_true h with hneg | hfits
      · exact absurd hneg (Int.not_le.mpr hpos)
      · exact absurd hfits hlate
  · exact ⟨_, rfl⟩

/-- A link that is refused was asked to live too long. -/
theorem create_error {id : Uuid} {urlHash originalUrl : String} {shortCode : ShortCode} {owner : Option Uuid}
    {guestIdentifier : Option String} {ttlSeconds : Int} {now : Instant} {e : DomainError}
    (h : create id urlHash shortCode originalUrl owner guestIdentifier ttlSeconds now = .error e) :
    e.code = "VALIDATION_ERROR" := by
  unfold create at h
  dsimp only at h
  split at h
  · split at h
    · cases h
    · cases h
      rfl
  · cases h

/-- The scope a link deduplicates within. -/
def dedupScope (link : Link) : DedupScope :=
  match link.owner with
  | some id => .owner id
  | none => .guest link.guestIdentifier

/-- Whether the expiry has passed. -/
def isExpired (now : Instant) (link : Link) : Bool :=
  match link.expiresAt with
  | none => false
  | some expiresAt => decide (expiresAt ≤ now)

end Link

end LinkShortener
