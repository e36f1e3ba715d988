import LinkShortener.Caches.Entries
import LinkShortener.Urls.PublicTargets

/-!
# Links and redirects in Redis

What is kept in Redis is text: a link is written field by field as a JSON object, and read back field by field, with the
value objects built anew. A value that cannot be read is a miss.

* `serialize`, `deserialize`: a link. A timestamp without its zone is read as UTC, and a field that is missing, `null` or
  empty is no timestamp and no owner.
* `serializeRedirect`, `deserializeRedirect`: a redirect, which is refused under any code but its own.
* `redis_entries_read_back`: what is read is what was written.

JSON and the ISO form of a timestamp are `Formats`; that they read back what they have written is `Formats.Keeps`.
-/

namespace LinkShortener.Caches

/-! ## Formats -/

/-- A value of a JSON object. Of a list, an object and a fraction there is only whether it counts as true. -/
inductive JsonValue
  | null
  | bool (b : Bool)
  | string (s : String)
  | number (n : Int)
  | other (truthy : Bool)
  deriving DecidableEq

def JsonValue.truthy : JsonValue → Bool
  | null => false
  | bool b => b
  | string s => decide (s ≠ "")
  | number n => decide (n ≠ 0)
  | other b => b

abbrev Document := Dictionary String JsonValue

/-- What the bytes of an entry are parsed to. -/
inductive Loaded
  | object (document : Document)
  | other

/-- `json` with UTF-8 around it, and the ISO form of a `datetime`. What raises is `none`. -/
structure Formats where
  dumps : Document → List UInt8
  loads : List UInt8 → Option Loaded
  isoformat : Datetime → String
  fromisoformat : String → Option Datetime

/-- A document and its timestamps are read back as they were written, and no timestamp is written as nothing. -/
structure Formats.Keeps (f : Formats) (document : Document) (stamps : List Datetime) : Prop where
  json : f.loads (f.dumps document) = some (.object document)
  iso : ∀ d ∈ stamps, f.fromisoformat (f.isoformat d) = some d
  written : ∀ d ∈ stamps, f.isoformat d ≠ ""

/-! ## Links -/

section Links

variable (f : Formats) {libs : Urls.Libraries}

/-- The text of something that may be missing. -/
def textOrNull {α : Type} (write : α → String) : Option α → JsonValue
  | none => .null
  | some a => .string (write a)

/-- The object that is written for a link. -/
def linkDocument (link : LinkEntity libs) : Document where
  rows := [("id", .string link.id), ("url_hash", .string link.urlHash.val), ("short_code", .string link.shortCode.val),
    ("original_url", .string link.originalUrl.value), ("created_at", .string (f.isoformat link.createdAt)),
    ("clicks", .number link.clicks), ("last_accessed", textOrNull f.isoformat link.lastAccessed),
    ("owner_id", textOrNull (·.val) link.owner), ("expires_at", textOrNull f.isoformat link.expiresAt),
    ("guest_identifier", textOrNull id link.guestIdentifier)]
  nodup := by
    show ["id", "url_hash", "short_code", "original_url", "created_at", "clicks", "last_accessed", "owner_id",
      "expires_at", "guest_identifier"].Nodup
    decide

def serialize (link : LinkEntity libs) : List UInt8 := f.dumps (linkDocument f link)

/-- A field that has to be there, as a text. -/
def textAt (document : Document) (name : String) : Option String :=
  match document.lookup name with
  | some (.string s) => some s
  | _ => none

/-- A timestamp, in UTC if it has no zone. -/
def readStamp (text : String) : Option Datetime := (f.fromisoformat text).map Datetime.asUtc

/-- A field that counts as missing unless it counts as true. -/
def optionalAt {α : Type} (document : Document) (name : String) (read : String → Option α) : Option (Option α) :=
  match document.lookup name with
  | none => some none
  | some value =>
    if value.truthy then
      match value with
      | .string s => (read s).map some
      | _ => none
    else some none

/-- The address of a guest, which may be missing, `null` or any text. -/
def guestAt (document : Document) : Option (Option String) :=
  match document.lookup "guest_identifier" with
  | none => some none
  | some .null => some none
  | some (.string s) => some (some s)
  | some _ => none

def deserialize (libs : Urls.Libraries) (data : List UInt8) : Option (LinkEntity libs) :=
  match f.loads data with
  | some (.object document) => do
    let createdAt ← readStamp f (← textAt document "created_at")
    let lastAccessed ← optionalAt document "last_accessed" (readStamp f)
    let expiresAt ← optionalAt document "expires_at" (readStamp f)
    let guestIdentifier ← guestAt document
    let id ← textAt document "id"
    let urlHash ← (UrlHash.parse (← textAt document "url_hash")).toOption
    let shortCode ← (ShortCode.parse (← textAt document "short_code")).toOption
    let originalUrl ← (OriginalUrl.fromStorage libs (← textAt document "original_url")).toOption
    let clicks ← match document.lookup "clicks" with
      | some (.number n) => some n
      | _ => none
    let owner ← optionalAt document "owner_id" fun s => (OwnerId.parse s).toOption
    return ⟨id, urlHash, shortCode, originalUrl, createdAt, clicks, lastAccessed, owner, expiresAt, guestIdentifier⟩
  | _ => none

end Links

/-! ## Redirects -/

section Redirects

variable (f : Formats)

/-- The object that is written for a redirect. Its callers have worked out before how long it may live, which raises for an
expiry without its zone. -/
def redirectDocument (shortCode originalUrl : String) (expiresAt : Option Datetime) : Document where
  rows := [("short_code", .string shortCode), ("url", .string originalUrl),
    ("expires_at", textOrNull f.isoformat expiresAt)]
  nodup := by
    show ["short_code", "url", "expires_at"].Nodup
    decide

def serializeRedirect (shortCode originalUrl : String) (expiresAt : Option Datetime) : List UInt8 :=
  f.dumps (redirectDocument f shortCode originalUrl expiresAt)

/-- The expiry of a redirect, which may be missing or `null` but not empty. -/
def expiryAt (document : Document) : Option (Option Datetime) :=
  match document.lookup "expires_at" with
  | none => some none
  | some .null => some none
  | some (.string s) => (readStamp f s).map some
  | some _ => none

def deserializeRedirect (data : List UInt8) (shortCode : ShortCode) : Option CachedRedirect :=
  match f.loads data with
  | some (.object document) => do
    let url ← textAt document "url"
    let storedCode ← textAt document "short_code"
    let expiresAt ← expiryAt f document
    let entry : CachedRedirect := ⟨storedCode, url, expiresAt⟩
    -- An entry found under someone else's code is a mix-up.
    if entry.isFor shortCode then some entry else none
  | _ => none

end Redirects

/-! ## Reading back -/

section Reading

variable {f : Formats} {libs : Urls.Libraries}

theorem readStamp_isoformat {document : Document} {stamps : List Datetime} {d : Datetime} (h : f.Keeps document stamps)
    (hd : d ∈ stamps) (haware : d.Aware) : readStamp f (f.isoformat d) = some d := by
  unfold readStamp
  rw [h.iso d hd, Option.map_some, Datetime.asUtc_of_aware haware]

/-- Something that may be missing is read back, if it is never written as nothing. -/
theorem optionalAt_textOrNull {α : Type} {document : Document} {name : String} {write : α → String}
    {read : String → Option α} {value : Option α} (hfield : document.lookup name = some (textOrNull write value))
    (hread : ∀ a ∈ value, write a ≠ "" ∧ read (write a) = some a) : optionalAt document name read = some value := by
  unfold optionalAt
  rw [hfield]
  cases value with
  | none => rfl
  | some a =>
    obtain ⟨hwritten, hback⟩ := hread a rfl
    have htruthy : (JsonValue.string (write a)).truthy = true := decide_eq_true hwritten
    show (if (JsonValue.string (write a)).truthy then (read (write a)).map some else some none) = _
    rw [if_pos htruthy, hback]
    rfl

theorem OwnerId.ne_empty (owner : OwnerId) : owner.val ≠ "" := by
  intro he
  have hblank := owner.property
  rw [he] at hblank
  cases hblank

/-- The timestamps of a link. -/
def stampsOf (link : LinkEntity libs) : List Datetime :=
  link.createdAt :: (link.lastAccessed.toList ++ link.expiresAt.toList)

theorem deserialize_serialize {link : LinkEntity libs} (h : f.Keeps (linkDocument f link) (stampsOf link))
    (haware : link.Aware) : deserialize f libs (serialize f link) = some link := by
  have hcreated : readStamp f (f.isoformat link.createdAt) = some link.createdAt :=
    readStamp_isoformat h List.mem_cons_self haware.createdAt
  have hlast : optionalAt (linkDocument f link) "last_accessed" (readStamp f) = some link.lastAccessed := by
    apply optionalAt_textOrNull rfl
    intro d hd
    have hmem : d ∈ stampsOf link := List.mem_cons_of_mem _ (List.mem_append_left _ (Option.mem_toList.mpr hd))
    exact ⟨h.written d hmem, readStamp_isoformat h hmem (haware.lastAccessed d hd)⟩
  have hexpires : optionalAt (linkDocument f link) "expires_at" (readStamp f) = some link.expiresAt := by
    apply optionalAt_textOrNull rfl
    intro d hd
    have hmem : d ∈ stampsOf link := List.mem_cons_of_mem _ (List.mem_append_right _ (Option.mem_toList.mpr hd))
    exact ⟨h.written d hmem, readStamp_isoformat h hmem (haware.expiresAt d hd)⟩
  have howner : optionalAt (linkDocument f link) "owner_id" (fun s => (OwnerId.parse s).toOption) = some link.owner := by
    apply optionalAt_textOrNull rfl
    intro owner _
    exact ⟨OwnerId.ne_empty owner, by rw [OwnerId.parse_val]; rfl⟩
  have hguest : guestAt (linkDocument f link) = some link.guestIdentifier := by
    have hfield : (linkDocument f link).lookup "guest_identifier" = some (textOrNull id link.guestIdentifier) := rfl
    unfold guestAt
    rw [hfield]
    cases link.guestIdentifier with
    | none => rfl
    | some s => rfl
  have htexts : textAt (linkDocument f link) "created_at" = some (f.isoformat link.createdAt) ∧
      textAt (linkDocument f link) "id" = some link.id ∧ textAt (linkDocument f link) "url_hash" = some link.urlHash.val ∧
      textAt (linkDocument f link) "short_code" = some link.shortCode.val ∧
      textAt (linkDocument f link) "original_url" = some link.originalUrl.value :=
    ⟨rfl, rfl, rfl, rfl, rfl⟩
  have hclicks : (linkDocument f link).lookup "clicks" = some (.number link.clicks) := rfl
  unfold deserialize serialize
  rw [h.json]
  have hok : ∀ {ε α : Type} (a : α), (Except.ok a : Except ε α).toOption = some a := fun _ => rfl
  simp [htexts, hclicks, hcreated, hlast, hexpires, hguest, howner, UrlHash.parse_val, ShortCode.parse_val,
    OriginalUrl.fromStorage_value, hok]

/-- What was written for a redirect is read under its code, with UTC as the zone of an expiry that has none. -/
theorem deserializeRedirect_serializeRedirect (shortCode shortCode' : ShortCode) (originalUrl : String)
    {expiresAt : Option Datetime}
    (h : f.Keeps (redirectDocument f shortCode.val originalUrl expiresAt) expiresAt.toList) :
    deserializeRedirect f (serializeRedirect f shortCode.val originalUrl expiresAt) shortCode' =
      if shortCode' = shortCode then some ⟨shortCode.val, originalUrl, expiresAt.map Datetime.asUtc⟩ else none := by
  have hexpiry : expiryAt f (redirectDocument f shortCode.val originalUrl expiresAt) =
      some (expiresAt.map Datetime.asUtc) := by
    have hfield : (redirectDocument f shortCode.val originalUrl expiresAt).lookup "expires_at" =
        some (textOrNull f.isoformat expiresAt) := rfl
    unfold expiryAt
    rw [hfield]
    cases hexpires : expiresAt with
    | none => rfl
    | some d =>
      show (readStamp f (f.isoformat d)).map some = _
      unfold readStamp
      rw [h.iso d (by rw [hexpires]; exact List.mem_singleton_self d)]
      rfl
  have htexts : textAt (redirectDocument f shortCode.val originalUrl expiresAt) "url" = some originalUrl ∧
      textAt (redirectDocument f shortCode.val originalUrl expiresAt) "short_code" = some shortCode.val :=
    ⟨rfl, rfl⟩
  unfold deserializeRedirect serializeRedirect
  rw [h.json]
  simp [htexts, hexpiry, CachedRedirect.isFor, Subtype.val_inj, eq_comm]

/-- **What is kept in Redis reads back as it was saved.** A link with the zones of its timestamps is the same in every field,
so that its scope is the same, and whether it has expired; a redirect is the same under its own code, and nothing under
another. -/
theorem redis_entries_read_back (f : Formats) (libs : Urls.Libraries) :
    (∀ link : LinkEntity libs, link.Aware → f.Keeps (linkDocument f link) (stampsOf link) →
      deserialize f libs (serialize f link) = some link ∧
      ∀ read ∈ deserialize f libs (serialize f link), read.dedupScope = link.dedupScope ∧
        ∀ now, read.isExpired now = link.isExpired now) ∧
    (∀ (shortCode shortCode' : ShortCode) (originalUrl : String) (expiresAt : Option Datetime),
      (∀ d ∈ expiresAt, d.Aware) → f.Keeps (redirectDocument f shortCode.val originalUrl expiresAt) expiresAt.toList →
      deserializeRedirect f (serializeRedirect f shortCode.val originalUrl expiresAt) shortCode' =
        if shortCode' = shortCode then some ⟨shortCode.val, originalUrl, expiresAt⟩ else none) := by
  constructor
  · intro link haware hkeeps
    have hread := deserialize_serialize hkeeps haware
    refine ⟨hread, ?_⟩
    rw [hread]
    rintro read ⟨⟩
    exact ⟨rfl, fun _ => rfl⟩
  · intro shortCode shortCode' originalUrl expiresAt haware hkeeps
    have hzones : expiresAt.map Datetime.asUtc = expiresAt := by
      cases expiresAt with
      | none => rfl
      | some d => rw [Option.map_some, Datetime.asUtc_of_aware (haware d rfl)]
    rw [deserializeRedirect_serializeRedirect shortCode shortCode' originalUrl hkeeps, hzones]

end Reading

/-! ### A link of a guest without an address -/

section Sample

open Urls (asciiLibraries)

def sampleCode : ShortCode := ⟨"abc123", by decide⟩

def sampleEntity : LinkEntity asciiLibraries where
  id := "42"
  urlHash := ⟨"abababababababababababababababababababababababababababababababab", by decide⟩
  shortCode := sampleCode
  originalUrl := ⟨"https://example.com/", by rfl⟩
  createdAt := ⟨1790769600000000, some 0⟩
  clicks := 7
  lastAccessed := none
  owner := none
  expiresAt := some ⟨1791374400000000, some 0⟩
  guestIdentifier := some ""

def asciiBytes (s : String) : List UInt8 := s.toList.map fun c => UInt8.ofNat c.toNat

@[irreducible] def linkText : List UInt8 := asciiBytes "\x7b\"id\": \"42\", \"url_hash\": " ++
  asciiBytes "\"abababababababababababababababababababababababababababababababab\", \"short_code\": \"abc123\", " ++
  asciiBytes "\"original_url\": \"https://example.com/\", \"created_at\": \"2026-09-30T12:00:00+00:00\", \"clicks\": 7, " ++
  asciiBytes "\"last_accessed\": null, \"owner_id\": null, \"expires_at\": \"2026-10-07T12:00:00+00:00\", " ++
  asciiBytes "\"guest_identifier\": \"\"\x7d"

@[irreducible] def redirectText : List UInt8 := asciiBytes "\x7b\"short_code\": \"abc123\", " ++
  asciiBytes "\"url\": \"https://example.com/\", \"expires_at\": \"2026-10-07T12:00:00+00:00\"\x7d"

/-- The formats, as far as they are used for this link. -/
def sampleStamps : Formats where
  dumps document := if (document.lookup "url").isSome then redirectText else linkText
  loads _ := none
  isoformat d := if d.wall = 1790769600000000 then "2026-09-30T12:00:00+00:00" else "2026-10-07T12:00:00+00:00"
  fromisoformat text :=
    if text = "2026-09-30T12:00:00+00:00" then some ⟨1790769600000000, some 0⟩
    else if text = "2026-10-07T12:00:00+00:00" then some ⟨1791374400000000, some 0⟩
    else none

def sampleFormats : Formats :=
  { sampleStamps with
    loads := fun data =>
      if data = linkText then some (.object (linkDocument sampleStamps sampleEntity))
      else if data = redirectText then
        some (.object (redirectDocument sampleStamps "abc123" "https://example.com/" sampleEntity.expiresAt))
      else none }

theorem loads_linkText : sampleFormats.loads linkText = some (.object (linkDocument sampleStamps sampleEntity)) := by
  unfold sampleFormats
  exact if_pos rfl

theorem loads_redirectText : sampleFormats.loads redirectText =
    some (.object (redirectDocument sampleStamps "abc123" "https://example.com/" sampleEntity.expiresAt)) := by
  have hne : redirectText ≠ linkText := by
    intro heq
    have hthird : redirectText[2]? ≠ linkText[2]? := by decide +kernel
    exact hthird (congrArg (·[2]?) heq)
  unfold sampleFormats
  dsimp only
  rw [if_neg hne, if_pos rfl]

theorem sampleEntity_reads_back :
    deserialize sampleFormats asciiLibraries (serialize sampleFormats sampleEntity) = some sampleEntity ∧
    deserializeRedirect sampleFormats
      (serializeRedirect sampleFormats "abc123" "https://example.com/" sampleEntity.expiresAt) sampleCode =
        some ⟨"abc123", "https://example.com/", sampleEntity.expiresAt⟩ := by
  have haware : sampleEntity.Aware := ⟨rfl, nofun, by rintro d ⟨⟩; rfl⟩
  have hiso : ∀ d ∈ stampsOf sampleEntity,
      sampleFormats.fromisoformat (sampleFormats.isoformat d) = some d ∧ sampleFormats.isoformat d ≠ "" := by
    decide +kernel
  have hstamps : ∀ d ∈ sampleEntity.expiresAt.toList, d ∈ stampsOf sampleEntity := by decide +kernel
  obtain ⟨hlink, hredirect⟩ := redis_entries_read_back sampleFormats asciiLibraries
  exact ⟨(hlink sampleEntity haware ⟨loads_linkText, fun d hd => (hiso d hd).1, fun d hd => (hiso d hd).2⟩).1,
    (hredirect sampleCode sampleCode "https://example.com/" sampleEntity.expiresAt haware.expiresAt ⟨loads_redirectText,
      fun d hd => (hiso d (hstamps d hd)).1, fun d hd => (hiso d (hstamps d hd)).2⟩).trans (if_pos rfl)⟩

end Sample

end LinkShortener.Caches
