import LinkShortener.Links.Cache
import LinkShortener.Links.Repository
import LinkShortener.Admin.UseCases

/-!
# Use cases on links

Each use case run on its own: it takes the database and the cache, and answers with what it leaves of both and with its
response or refusal. What a request draws (identifiers, fresh codes) comes with the request.

* `createShortLink`: creation, with deduplication, the guest quota and the search for a free code.
* `redirectLink`, `updateLinkStats`: a redirect and its click task. The queue may take no task (`clickTask`): its broker is
  away, or was a moment ago.
* `deleteLink`, `deleteUser`, `cleanExpiredLinks`: the use cases that take links away.

The validation of a URL, its hash and the code generator are parameters.
-/

namespace LinkShortener.Links

/-! ## Configuration and requests -/

/-- How codes are derived from a URL; the codes with entropy come with the request. -/
structure CodeGenerator where
  generateForUrl : String → ShortCode
  generateUnique : String → Nat → ShortCode

structure LinkServices where
  backend : Backend
  parseUrl : String → Except DomainError String
  hashUrl : String → String
  codeGenerator : CodeGenerator
  baseUrl : String
  batchLimit : Nat
  guestLinkLimit : Int
  guestLinkWindowDays : Int
  defaultGuestTtlSeconds : Int
  maxTtlSeconds : Int
  /-- How often a creation that lost a race is tried again. -/
  maxCollisionAttempts : Nat
  /-- How many salted codes, and then how many fresh ones, one hash of a batch is offered. -/
  maxCodeAttempts : Nat

/-- A small configuration, with Redis. -/
def sampleServices : LinkServices where
  backend := .redis
  parseUrl := .ok
  hashUrl := id
  codeGenerator := ⟨fun _ => ⟨"aaaaaa", isCode_aaaaaa⟩, fun _ _ => ⟨"bbbbbb", isCode_bbbbbb⟩⟩
  baseUrl := "https://sho.rt/"
  batchLimit := 100
  guestLinkLimit := 10
  guestLinkWindowDays := 1
  defaultGuestTtlSeconds := 604800
  maxTtlSeconds := 31536000
  maxCollisionAttempts := 3
  maxCodeAttempts := 3

/-- Who asks, and from where. -/
structure Context where
  currentUser : Option Uuid
  remoteAddr : Option String
  deriving DecidableEq, Repr

/-- What a request draws: identifiers, and `generate_fresh` for a URL. -/
structure Draws where
  ids : Nat → Uuid
  generateFresh : String → Nat → ShortCode

/-- The database and the cache. -/
structure World where
  db : Db
  cache : Cache

/-- The scope a caller's links deduplicate within. -/
def scopeOf (owner : Option Uuid) (guestId : Option String) : DedupScope :=
  match owner with
  | some id => .owner id
  | none => .guest guestId

theorem dedupScope_eq (link : Link) : link.dedupScope = scopeOf link.owner link.guestIdentifier := by
  unfold Link.dedupScope scopeOf
  cases link.owner with
  | none => rfl
  | some owner => rfl

/-! ## What both ways to create a link share -/

section Shared

variable (svc : LinkServices) (db : Db) (now : Instant)

def linksLeftForGuest (used : Nat) (limit : Int) : Nat := (limit - used).toNat

def guestAllowance (guestId : String) : Nat :=
  linksLeftForGuest (db.countGuestLinksByIdentifier guestId svc.guestLinkWindowDays now) svc.guestLinkLimit

def guestQuotaSpent : DomainError := .guestLinkLimitExceeded svc.guestLinkLimit svc.guestLinkWindowDays

/-- The stored link a cached one claims to be, if it still is. -/
def confirm (stored : ShortCode → Option Link) (hash : String) (scope : DedupScope) (cached : Link) : Option Link :=
  (stored cached.shortCode).filter (Link.liveIn hash scope now)

end Shared

/-- `base_url` without trailing slashes, a slash, and the code. -/
def buildShortUrl (baseUrl : String) (code : ShortCode) : String :=
  String.ofList (baseUrl.toList.reverse.dropWhile (· = '/')).reverse ++ "/" ++ code.val

/-! ## Creating one link -/

structure ShortLinkResponse where
  shortCode : String
  shortUrl : String
  originalUrl : String
  clicks : Nat
  createdAt : Instant
  lastAccessed : Option Instant
  expiresAt : Option Instant
  isNew : Bool
  fromCache : Bool
  ownerId : Option Uuid
  linkId : Uuid
  deriving DecidableEq, Repr

def ShortLinkResponse.fromLink (link : Link) (baseUrl : String) (isNew fromCache : Bool) : ShortLinkResponse where
  shortCode := link.shortCode.val
  shortUrl := buildShortUrl baseUrl link.shortCode
  originalUrl := link.originalUrl
  clicks := link.clicks
  createdAt := link.createdAt
  lastAccessed := link.lastAccessed
  expiresAt := link.expiresAt
  isNew := isNew
  fromCache := fromCache
  ownerId := link.owner
  linkId := link.id

/-- What is to be created, once the request has been read. -/
structure Creation where
  originalUrl : String
  urlHash : String
  scope : DedupScope
  owner : Option Uuid
  guestId : Option String
  ttlSeconds : Int
  chosenCode : Option ShortCode

/-- Names the service answers to itself. -/
def reservedCodes : List String :=
  ["health", "console", "static", "logout", "register", "refresh", "dashboard", "favicon", "robots", "sitemap",
    "metrics", "openapi", "swagger", "verify"]

def isReserved (code : String) : Bool := decide (code.toLower ∈ reservedCodes)

section Create

variable (svc : LinkServices)

def validateTtl (ttlSeconds : Int) : Check := do
  require (decide (0 ≤ ttlSeconds)) (.validation "ttl_seconds must not be negative" "ttl_seconds")
  require (decide (ttlSeconds ≤ svc.maxTtlSeconds))
    (.validation ("ttl_seconds must not exceed " ++ toString svc.maxTtlSeconds) "ttl_seconds")

/-- The code the caller chose; none at all and an empty one are the same. -/
def readCustomCode (customCode : Option String) : Except DomainError (Option ShortCode) :=
  match customCode with
  | none => .ok none
  | some "" => .ok none
  | some value => do
    let code ← ShortCode.parse value
    require (!isReserved code.val) (.validation
      ("'" ++ code.val ++ "' is reserved by the service and cannot be used as a short code") "code")
    return some code

/-- A guest's links live as long as the guest asks for, within the guest lifetime. -/
def guestTtl (guestId : Option String) (ttlSeconds : Int) : Int :=
  match guestId with
  | some _ => if ttlSeconds = 0 then svc.defaultGuestTtlSeconds else min ttlSeconds svc.defaultGuestTtlSeconds
  | none => ttlSeconds

/-- Read a request. -/
def readCreation (ctx : Context) (url : String) (ttlSeconds : Int) (customCode : Option String) :
    Except DomainError Creation := do
  validateTtl svc ttlSeconds
  let chosenCode ← readCustomCode customCode
  let originalUrl ← svc.parseUrl url
  let guestId := if ctx.currentUser.isSome then none else ctx.remoteAddr
  return ⟨originalUrl, svc.hashUrl originalUrl, scopeOf ctx.currentUser guestId, ctx.currentUser, guestId,
    guestTtl svc guestId ttlSeconds, chosenCode⟩

variable (db : Db) (now : Instant) (q : Creation) (draws : Draws) (attempt : Nat)

/-- The salted codes of a URL, and then as many fresh ones. -/
def codeLadder : List ShortCode :=
  (List.range svc.maxCollisionAttempts).map (svc.codeGenerator.generateUnique q.originalUrl) ++
    (List.range svc.maxCollisionAttempts).map fun i =>
      draws.generateFresh q.originalUrl (attempt * svc.maxCollisionAttempts + i)

/-- The code of a new link: the one that was asked for, or the first of the ladder that is free. -/
def pickCode : Except DomainError ShortCode :=
  match q.chosenCode with
  | some code => if (db.findByCode code).isSome then .error (.linkCodeTaken code.val) else .ok code
  | none =>
    match (codeLadder svc q draws attempt).find? fun code => (db.findByCode code).isNone with
    | some code => .ok code
    | none => .error (.codeGeneration "Failed to generate unique short code after multiple attempts")

/-- Count, pick a code and insert. -/
def newLink : Except DomainError (Db × Link) := do
  require (q.guestId.all fun guestId => decide (0 < guestAllowance svc db now guestId)) (guestQuotaSpent svc)
  let code ← pickCode svc db q draws attempt
  let link ← Link.create (draws.ids attempt) q.urlHash code q.originalUrl q.owner q.guestId q.ttlSeconds now
  let db' ← db.saveLink link
  return (db', link)

end Create

/-- One attempt: the caller's live link for the URL, or a new one. -/
def findOrCreate (svc : LinkServices) (w : World) (now : Instant) (q : Creation) (draws : Draws) (attempt : Nat) :
    World × Except DomainError ShortLinkResponse :=
  let cached := w.cache.getByHash svc.backend q.urlHash q.scope
  match cached.bind (confirm now w.db.findByCode q.urlHash q.scope) with
  | some stored => (w, .ok (.fromLink stored svc.baseUrl false true))
  | none =>
    let cache := match cached with
      | some stale => w.cache.delete svc.backend stale
      | none => w.cache
    match w.db.findLiveByHash q.urlHash q.scope now with
    | some existing =>
      (⟨w.db, cache.save svc.backend now existing⟩, .ok (.fromLink existing svc.baseUrl false false))
    | none =>
      match newLink svc w.db now q draws attempt with
      | .error e => (⟨w.db, cache⟩, .error e)
      | .ok (db, link) => (⟨db, cache.save svc.backend now link⟩, .ok (.fromLink link svc.baseUrl true false))

/-- A lost race is tried again. -/
def findOrCreateRetrying (svc : LinkServices) (now : Instant) (q : Creation) (draws : Draws) :
    Nat → World → World × Except DomainError ShortLinkResponse
  | 0, w => (w, .error (.codeGeneration
      "Failed to store a short link: every attempt lost a race with a concurrent creation"))
  | n + 1, w =>
    match findOrCreate svc w now q draws (svc.maxCollisionAttempts - (n + 1)) with
    | (w', .error e) => if e.code = "LINK_CONFLICT" then findOrCreateRetrying svc now q draws n w' else (w', .error e)
    | r => r

/-- What every attempt keeps, the attempts keep together. -/
theorem findOrCreateRetrying_keeps {svc : LinkServices} {now : Instant} {q : Creation} {draws : Draws}
    {I : World → Prop}
    (hkeep : ∀ w attempt, I w → I (findOrCreate svc w now q draws attempt).1) (n : Nat) (w : World) (h : I w) :
    I (findOrCreateRetrying svc now q draws n w).1 := by
  induction n generalizing w with
  | zero => exact h
  | succ n ih =>
    have hone := hkeep w (svc.maxCollisionAttempts - (n + 1)) h
    unfold findOrCreateRetrying
    split
    · rename_i w' e heq
      rw [heq] at hone
      split
      · exact ih w' hone
      · exact hone
    · exact hone

def createShortLink (svc : LinkServices) (w : World) (now : Instant) (ctx : Context) (url : String) (ttlSeconds : Int)
    (customCode : Option String) (draws : Draws) : World × Except DomainError ShortLinkResponse :=
  match readCreation svc ctx url ttlSeconds customCode with
  | .error e => (w, .error e)
  | .ok q => findOrCreateRetrying svc now q draws svc.maxCollisionAttempts w

/-! ## Redirects -/

/-- A string that is no code is a code no link carries. -/
def codeToLookUp (code : String) : Except DomainError ShortCode :=
  match ShortCode.parse code with
  | .ok c => .ok c
  | .error _ => .error (.linkNotFound code)

/-- Resolve a code: from the redirect, else from the cached link, else from the database. -/
def redirectLink (b : Backend) (w : World) (now : Instant) (code : String) : World × Except DomainError String :=
  match codeToLookUp code with
  | .error e => (w, .error e)
  | .ok c =>
    match w.cache.getRedirect b now c with
    | some entry => if entry.isExpired now then (w, .error (.linkExpired c.val)) else (w, .ok entry.originalUrl)
    | none =>
      match w.cache.getByCode b c with
      | some link =>
        if link.isExpired now then (w, .error (.linkExpired c.val))
        else (⟨w.db, w.cache.saveRedirect b now c link.originalUrl link.expiresAt⟩, .ok link.originalUrl)
      | none =>
        match w.db.findByCode c with
        | none => (w, .error (.linkNotFound code))
        | some link =>
          if link.isExpired now then (w, .error (.linkExpired c.val))
          else (⟨w.db, w.cache.save b now link⟩, .ok link.originalUrl)

/-- The click task: count the opening, or drop what is cached for a link that is gone. -/
def updateLinkStats (b : Backend) (w : World) (now : Instant) (code : String) : World :=
  match ShortCode.parse code with
  | .error _ => w
  | .ok c =>
    match w.db.incrementClicks c now with
    | some db => ⟨db, w.cache⟩
    | none => ⟨w.db, (w.cache.deleteRedirect b c).deleteByCode b c⟩

/-- What the click task of a redirect leaves; there is none when the queue did not take it. -/
def clickTask (b : Backend) (w : World) (now : Instant) (code : String) (enqueued : Bool) : World :=
  if enqueued then updateLinkStats b w now code else w

/-- A redirect, with the click task it enqueues when it answers, if the queue takes it. -/
def redirectAndCount (b : Backend) (w : World) (now : Instant) (code : String) (enqueued : Bool) :
    World × Except DomainError String :=
  match redirectLink b w now code with
  | (w', .ok url) => (clickTask b w' now code enqueued, .ok url)
  | r => r

/-! ## Deleting -/

def linkDeleteOwn : String := "link:delete_own"

def linkDeleteAny : String := "link:delete_any"

/-- The owner may delete a link with one permission, everybody else with another. -/
def requireMayDelete (db : Db) (ctx : Context) (link : Link) : Check :=
  match ctx.currentUser.bind db.findById with
  | none => .error (.plain "Authentication required" "UNAUTHENTICATED")
  | some requester =>
    let required := if link.owner = some requester.id then linkDeleteOwn else linkDeleteAny
    require (requester.hasPermission adminAll || requester.hasPermission required)
      (.plain "You are not allowed to delete this link" "FORBIDDEN")

/-- Delete a link and drop it from the cache; `false` when it was not there. -/
def deleteLink (b : Backend) (w : World) (ctx : Context) (code : String) (enforceOwnership : Bool)
    (authorizedLinkId : Option Uuid) : World × Except DomainError Bool :=
  match codeToLookUp code with
  | .error _ => (w, .ok false)
  | .ok c =>
    match w.db.findByCode c with
    | none => (⟨w.db, (w.cache.deleteByCode b c).deleteRedirect b c⟩, .ok false)
    | some link =>
      match onlyIf (enforceOwnership && decide (some link.id ≠ authorizedLinkId)) (requireMayDelete w.db ctx link) with
      | .error e => (w, .error e)
      | .ok () =>
        match w.db.deleteLink link.id with
        | (false, _) => (w, .ok false)
        | (true, db) => (⟨db, (w.cache.delete b link).deleteRedirect b c⟩, .ok true)

/-- Delete an account with its links, and drop these from the cache. -/
def deleteUser (b : Backend) (w : World) (actor : Option Uuid) (userId : Uuid) : World × Except DomainError Bool :=
  match Admin.deleteUser w.db actor userId with
  | .error e => (w, .error e)
  | .ok none => (w, .ok false)
  | .ok (some (db, links)) =>
    (⟨db, links.foldl (fun cache link => (cache.delete b link).deleteRedirect b link.shortCode) w.cache⟩, .ok true)

/-- Delete what has expired, and drop it from the cache. -/
def cleanExpiredLinks (b : Backend) (w : World) (now : Instant) : World × Nat :=
  match w.db.deleteExpired now with
  | (links, db) => (⟨db, links.foldl (fun cache link => cache.delete b link) w.cache⟩, links.length)

/-- Delete the registrations nobody confirmed, with what hangs off them; the cache is not asked. -/
def cleanUnverifiedAccounts (svc : Services) (w : World) (now : Instant) : World :=
  ⟨Admin.cleanUnverifiedAccounts w.db svc now, w.cache⟩

end LinkShortener.Links
