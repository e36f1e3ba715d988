import LinkShortener.Lib.Queries
import LinkShortener.Domain.Link
import LinkShortener.Urls.OriginalUrl

/-!
# Links as the adapters see them

The use cases compare owners and instants only, so that numbers do for both. The adapters read and write texts: an
owner is a string that is not blank, an address may be the empty string, a timestamp may come without its zone. This
module has the entity at that level, with its value objects as subtypes, and the row the repository keeps of it.

* `LinkEntity.dedupScope`, `LinkEntity.isExpired`: what the entity says of itself.
* `LinkEntity.toModel`, `LinkModel.toDomain`: writing a row and reading it. `toDomain_toModel`: what is read is what was
  written, with its timestamps in the zone of the connection.
-/

namespace LinkShortener

open Text

/-! ## Timestamps -/

/-- A `datetime`: what the clock on the wall shows, and the offset of its zone from UTC when it carries one. -/
structure Datetime where
  wall : Instant
  tzinfo : Option Int
  deriving DecidableEq, Repr

namespace Datetime

/-- The instant it stands for; without a zone it is read as UTC. -/
def instant (d : Datetime) : Instant := d.wall - d.tzinfo.getD 0

/-- UTC attached where no zone was carried. -/
def asUtc (d : Datetime) : Datetime := if d.tzinfo.isNone then { d with tzinfo := some 0 } else d

def Aware (d : Datetime) : Prop := d.tzinfo.isSome = true

@[simp] theorem instant_asUtc (d : Datetime) : d.asUtc.instant = d.instant := by
  unfold asUtc
  split
  · rename_i h
    simp [instant, Option.isNone_iff_eq_none.mp h]
  · rfl

theorem asUtc_of_aware {d : Datetime} (h : d.Aware) : d.asUtc = d := by
  unfold asUtc
  rw [if_neg]
  unfold Aware at h
  simp [Option.isNone_iff_eq_none, Option.isSome_iff_ne_none.mp h]

end Datetime

/-! ## Value objects -/

/-- 64 lower-case hexadecimal digits. -/
def isHash (value : String) : Bool :=
  value.toList.all (fun c => c.isDigit || decide ('a' ≤ c ∧ c ≤ 'f')) && decide (value.length = 64)

/-- The hash of a URL. -/
abbrev UrlHash := { value : String // isHash value = true }

def UrlHash.parse (value : String) : Except DomainError UrlHash :=
  if h : isHash value = true then .ok ⟨value, h⟩
  else .error (.validation ("Invalid hash format: " ++ value ++ ". Must be 64 hex characters.") "url_hash")

/-- Empty, or nothing but white space. -/
def isBlank (value : String) : Bool := value.toList.all isSpace

/-- The identifier of an account that owns a link. -/
abbrev OwnerId := { value : String // isBlank value = false }

def OwnerId.parse (value : String) : Except DomainError OwnerId :=
  if h : isBlank value = false then .ok ⟨value, h⟩
  else .error (.validation "Owner id must not be empty. An owner-less link carries owner=None." "owner_id")

/-- Rebuilt as stored: nothing is asked but that the URL can be parsed and names a host. -/
def Urls.Settings.fromStorage : Urls.Settings := { Urls.Settings.default with trusted := true }

/-- A URL that can be parsed, however it came to be accepted. -/
structure OriginalUrl (libs : Urls.Libraries) where
  value : String
  parses : Urls.postInit libs Urls.Settings.fromStorage value.toList = .ok ()

def OriginalUrl.fromStorage (libs : Urls.Libraries) (value : String) : Except DomainError (OriginalUrl libs) :=
  match h : Urls.postInit libs Urls.Settings.fromStorage value.toList with
  | .ok () => .ok ⟨value, h⟩
  | .error e => .error e

/-- What was admitted under any settings can be rebuilt. -/
theorem postInit_fromStorage {libs : Urls.Libraries} {cfg : Urls.Settings} {value : Urls.Str}
    (h : Urls.postInit libs cfg value = .ok ()) : Urls.postInit libs Urls.Settings.fromStorage value = .ok () := by
  unfold Urls.postInit Urls.validateForm onlyIf at h ⊢
  obtain ⟨-, h⟩ := check_bind_eq_ok.mp h
  obtain ⟨-, h⟩ := check_bind_eq_ok.mp h
  obtain ⟨parsed, hparsed, h⟩ := bind_eq_ok.mp h
  obtain ⟨-, h⟩ := check_bind_eq_ok.mp h
  obtain ⟨hauthority, -⟩ := check_bind_eq_ok.mp h
  simp only [Urls.Settings.fromStorage, Bool.not_true, Bool.false_eq_true, if_false]
  refine check_bind_eq_ok.mpr ⟨rfl, check_bind_eq_ok.mpr ⟨rfl, bind_eq_ok.mpr ⟨parsed, hparsed, ?_⟩⟩⟩
  exact check_bind_eq_ok.mpr ⟨rfl, check_bind_eq_ok.mpr ⟨hauthority, rfl⟩⟩

/-- The scope of a deduplication. An account's scope carries no address. -/
structure Scope where
  ownerId : Option String
  guestIdentifier : Option String
  owned : ownerId.isSome = true → guestIdentifier = none
  deriving DecidableEq

namespace Scope

/-- Ownership wins: the address of an owned scope is dropped. -/
def make (ownerId guestIdentifier : Option String) : Scope where
  ownerId := ownerId
  guestIdentifier := if ownerId.isSome then none else guestIdentifier
  owned := fun h => if_pos h

def forOwner (ownerId : String) : Scope := make (some ownerId) none

def forGuest (guestIdentifier : Option String) : Scope := make none guestIdentifier

/-- The name of a scope in a cache key. -/
def token (s : Scope) : String :=
  match s.ownerId, s.guestIdentifier with
  | some ownerId, _ => "u:" ++ ownerId
  | none, some guestIdentifier => "g:" ++ guestIdentifier
  | none, none => "anon"

end Scope

/-! ## The entity -/

/-- A shortened link. -/
structure LinkEntity (libs : Urls.Libraries) where
  id : String
  urlHash : UrlHash
  shortCode : ShortCode
  originalUrl : OriginalUrl libs
  createdAt : Datetime
  clicks : Int
  lastAccessed : Option Datetime
  owner : Option OwnerId
  expiresAt : Option Datetime
  guestIdentifier : Option String

namespace LinkEntity

variable {libs : Urls.Libraries}

/-- The scope a link deduplicates within. -/
def dedupScope (link : LinkEntity libs) : Scope :=
  match link.owner with
  | some owner => .forOwner owner.val
  | none => .forGuest link.guestIdentifier

/-- Whether the expiry has passed. -/
def isExpired (link : LinkEntity libs) (now : Instant) : Bool :=
  match link.expiresAt with
  | none => false
  | some expiresAt => decide (expiresAt.asUtc.instant ≤ now)

/-- Every timestamp carries its zone. -/
structure Aware (link : LinkEntity libs) : Prop where
  createdAt : link.createdAt.Aware
  lastAccessed : ∀ d ∈ link.lastAccessed, d.Aware
  expiresAt : ∀ d ∈ link.expiresAt, d.Aware

end LinkEntity

/-! ## Rows -/

/-- SQLite keeps the clock on the wall and drops the zone. PostgreSQL keeps the instant, and speaks the zone of the
session. -/
inductive Engine
  | sqlite
  | postgresql (session : Int)
  deriving DecidableEq, Repr

namespace Engine

/-- What is kept of a timestamp. -/
def store : Engine → Datetime → Instant
  | .sqlite, d => d.wall
  | .postgresql session, d => d.wall - d.tzinfo.getD session

/-- How a kept timestamp comes back. -/
def load : Engine → Instant → Datetime
  | .sqlite, t => ⟨t, none⟩
  | .postgresql session, t => ⟨t + session, some session⟩

theorem instant_load (engine : Engine) (t : Instant) : (engine.load t).instant = t := by
  cases engine with
  | sqlite => exact Int.sub_zero t
  | postgresql session => exact Int.add_sub_cancel t session

end Engine

/-- The same instant in UTC; a timestamp without a zone is left alone. -/
def Datetime.toUtc (d : Datetime) : Datetime :=
  match d.tzinfo with
  | none => d
  | some offset => ⟨d.wall - offset, some 0⟩

/-- Both engines keep the instant of a timestamp that carries its zone. -/
theorem Engine.store_toUtc (engine : Engine) {d : Datetime} (h : d.Aware) : engine.store d.toUtc = d.instant := by
  obtain ⟨wall, tzinfo⟩ := d
  obtain ⟨offset, rfl⟩ := Option.isSome_iff_exists.mp h
  cases engine with
  | sqlite => rfl
  | postgresql session => exact Int.sub_zero _

/-- A row of the `urls` table. -/
structure LinkModel where
  id : String
  urlHash : String
  shortCode : String
  originalUrl : String
  createdAt : Instant
  clicks : Int
  lastAccessed : Option Instant
  ownerId : Option String
  expiresAt : Option Instant
  guestIdentifier : Option String
  deriving DecidableEq, Repr

section Conversion

variable {libs : Urls.Libraries} (engine : Engine)

/-- The row that is written for a link. -/
def LinkEntity.toModel (link : LinkEntity libs) : LinkModel where
  id := link.id
  urlHash := link.urlHash.val
  shortCode := link.shortCode.val
  originalUrl := link.originalUrl.value
  createdAt := engine.store link.createdAt.toUtc
  clicks := link.clicks
  lastAccessed := link.lastAccessed.map fun d => engine.store d.toUtc
  ownerId := link.owner.map (·.val)
  expiresAt := link.expiresAt.map fun d => engine.store d.toUtc
  guestIdentifier := link.guestIdentifier

/-- An owner that is missing or empty is no owner. -/
def readOwner (ownerId : Option String) : Except DomainError (Option OwnerId) :=
  match ownerId with
  | none => .ok none
  | some "" => .ok none
  | some value => do return some (← OwnerId.parse value)

/-- The link a row stands for. -/
def LinkModel.toDomain (libs : Urls.Libraries) (model : LinkModel) : Except DomainError (LinkEntity libs) := do
  let urlHash ← UrlHash.parse model.urlHash
  let shortCode ← ShortCode.parse model.shortCode
  let originalUrl ← OriginalUrl.fromStorage libs model.originalUrl
  let owner ← readOwner model.ownerId
  return {
    id := model.id
    urlHash := urlHash
    shortCode := shortCode
    originalUrl := originalUrl
    createdAt := (engine.load model.createdAt).asUtc
    clicks := model.clicks
    lastAccessed := model.lastAccessed.map fun t => (engine.load t).asUtc
    owner := owner
    expiresAt := model.expiresAt.map fun t => (engine.load t).asUtc
    guestIdentifier := model.guestIdentifier }

/-- A link with its timestamps as they come back. -/
def LinkEntity.reread (link : LinkEntity libs) : LinkEntity libs :=
  { link with
    createdAt := (engine.load (engine.store link.createdAt.toUtc)).asUtc
    lastAccessed := link.lastAccessed.map fun d => (engine.load (engine.store d.toUtc)).asUtc
    expiresAt := link.expiresAt.map fun d => (engine.load (engine.store d.toUtc)).asUtc }

end Conversion

theorem UrlHash.parse_val (h : UrlHash) : UrlHash.parse h.val = .ok h := dif_pos h.property

theorem ShortCode.parse_val (c : ShortCode) : ShortCode.parse c.val = .ok c := dif_pos c.property

theorem OwnerId.parse_val (o : OwnerId) : OwnerId.parse o.val = .ok o := dif_pos o.property

theorem OriginalUrl.fromStorage_value {libs : Urls.Libraries} (url : OriginalUrl libs) :
    OriginalUrl.fromStorage libs url.value = .ok url := by
  unfold OriginalUrl.fromStorage
  split
  · rfl
  · rename_i e he
    rw [url.parses] at he
    cases he

theorem readOwner_val (owner : Option OwnerId) : readOwner (owner.map (·.val)) = .ok owner := by
  cases owner with
  | none => rfl
  | some owner =>
    have hne : owner.val ≠ "" := by
      intro he
      have hblank := owner.property
      rw [he] at hblank
      cases hblank
    unfold readOwner
    rw [Option.map_some]
    split
    · rename_i heq
      cases heq
    · rename_i heq
      exact absurd (Option.some.inj heq) hne
    · rename_i value _ heq
      cases heq
      rw [OwnerId.parse_val]
      rfl

section Reading

variable {libs : Urls.Libraries} {engine : Engine} {link : LinkEntity libs}

/-- **What was written is read back**, with its timestamps in the zone of the connection. -/
theorem toDomain_toModel (engine : Engine) (link : LinkEntity libs) :
    (link.toModel engine).toDomain engine libs = .ok (link.reread engine) := by
  unfold LinkModel.toDomain
  refine bind_eq_ok.mpr ⟨link.urlHash, UrlHash.parse_val _, ?_⟩
  refine bind_eq_ok.mpr ⟨link.shortCode, ShortCode.parse_val _, ?_⟩
  refine bind_eq_ok.mpr ⟨link.originalUrl, OriginalUrl.fromStorage_value _, ?_⟩
  refine bind_eq_ok.mpr ⟨link.owner, readOwner_val _, ?_⟩
  simp [LinkEntity.toModel, LinkEntity.reread, Option.map_map, Function.comp_def, pure, Except.pure]

/-- The scope does not depend on the connection. -/
theorem dedupScope_reread : (link.reread engine).dedupScope = link.dedupScope := rfl

/-- A link whose timestamps carry their zones expires when it did. -/
theorem isExpired_reread (h : link.Aware) (now : Instant) :
    (link.reread engine).isExpired now = link.isExpired now := by
  unfold LinkEntity.isExpired LinkEntity.reread
  cases he : link.expiresAt with
  | none => rfl
  | some d =>
    have haware : d.Aware := h.expiresAt d (by rw [he]; rfl)
    simp only [Option.map_some, Datetime.instant_asUtc, Engine.instant_load, engine.store_toUtc haware]

end Reading

end LinkShortener
