import LinkShortener.Links.UseCases

/-!
# Creating links in batches

`BatchCreateLinksUseCase` with its four components: the grouper, the fetcher, the creator and the response builder.
What the fetcher and the creator compute from one read is a function of what the read answered, `stored`, so that the
same functions serve a batch that runs alone and one that runs among others.

* `groupUrls`: the URLs by hash, and the refused ones aside.
* `Resolution.round`: one round of the search for free codes; `resolveCollisions` is the whole search, and
  `resolveCollisions_candidates` says that it comes to an end.
* `lookUpAndCreate`: one attempt; `batchCreateLinks`: the use case.
-/

namespace LinkShortener.Links

/-! ## Responses -/

/-- A refusal that is part of an answer. -/
structure Refusal where
  code : String
  message : String
  retryAfterSeconds : Option Int
  deriving DecidableEq, Repr

def Refusal.fromError (e : DomainError) : Refusal := ⟨e.code, e.message, e.retryAfterSeconds⟩

structure BatchItemResponse where
  success : Bool
  url : String
  shortCode : Option String
  originalUrl : Option String
  shortUrl : Option String
  clicks : Nat
  expiresAt : Option Instant
  error : Option Refusal
  isNew : Bool
  fromCache : Bool
  duplicateOf : Option String
  linkId : Option Uuid
  deriving DecidableEq, Repr

namespace BatchItemResponse

/-- The item of a link that is found; what sets a new link or a duplicate apart is added to it. -/
def ofLink (baseUrl url : String) (link : Link) : BatchItemResponse where
  success := true
  url := url
  shortCode := some link.shortCode.val
  originalUrl := some link.originalUrl
  shortUrl := some (buildShortUrl baseUrl link.shortCode)
  clicks := link.clicks
  expiresAt := link.expiresAt
  error := none
  isNew := false
  fromCache := false
  duplicateOf := none
  linkId := none

def ofError (error : Refusal) (url : String) : BatchItemResponse :=
  ⟨false, url, none, none, none, 0, none, some error, false, false, none, none⟩

end BatchItemResponse

structure BatchCreateResponse where
  items : List BatchItemResponse
  total : Nat
  successful : Nat
  failed : Nat
  fromCacheCount : Nat
  fromDbCount : Nat
  newCount : Nat
  createdAt : Instant
  deriving DecidableEq, Repr

def BatchCreateResponse.fromResults (now : Instant) (results : List BatchItemResponse) : BatchCreateResponse where
  items := results
  total := results.length
  successful := results.countP (·.success)
  failed := results.length - results.countP (·.success)
  fromCacheCount := results.countP (·.fromCache)
  -- `duplicate_of` is read for its truth, and an empty text has none.
  fromDbCount := results.countP fun r => r.success && !r.isNew && !r.fromCache && decide (r.duplicateOf.getD "" = "")
  newCount := results.countP (·.isNew)
  createdAt := now

/-! ## The grouper -/

/-- The URLs of a batch that are one URL. -/
structure UrlGroup where
  hash : String
  originalUrl : String
  urls : List String
  deriving DecidableEq, Repr

def addToGroup (groups : List UrlGroup) (hash originalUrl url : String) : List UrlGroup :=
  if groups.any fun g => decide (g.hash = hash) then
    groups.map fun g => if g.hash = hash then { g with urls := g.urls ++ [url] } else g
  else groups ++ [⟨hash, originalUrl, [url]⟩]

/-- The groups in the order of their first URLs, and an item for each URL that is refused. -/
def groupUrls (svc : LinkServices) (urls : List String) : List UrlGroup × List BatchItemResponse :=
  urls.foldl (fun (groups, rejected) url =>
    match svc.parseUrl url with
    | .error e => (groups, rejected ++ [.ofError (.fromError e) url])
    | .ok originalUrl => (addToGroup groups (svc.hashUrl originalUrl) originalUrl url, rejected)) ([], [])

/-- A batch, once the request has been read. -/
structure Batch where
  groups : List UrlGroup
  scope : DedupScope
  owner : Option Uuid
  guestId : Option String
  ttlSeconds : Int

def readBatch (svc : LinkServices) (ctx : Context) (groups : List UrlGroup) : Batch :=
  let guestId := if ctx.currentUser.isSome then none else ctx.remoteAddr
  ⟨groups, scopeOf ctx.currentUser guestId, ctx.currentUser, guestId,
    if guestId.isSome then svc.defaultGuestTtlSeconds else 0⟩

/-! ## The fetcher -/

section Fetcher

variable (stored : ShortCode → Option Link) (scope : DedupScope) (now : Instant)

/-- A group with the stored link the cache offered for it. -/
def confirmed (cached : List (UrlGroup × Option Link)) : List (UrlGroup × Link) :=
  cached.filterMap fun (g, offer) => (offer.bind (confirm now stored g.hash scope)).map fun link => (g, link)

/-- The groups the cache did not answer for. -/
def unconfirmed (cached : List (UrlGroup × Option Link)) : List UrlGroup :=
  (cached.filter fun (g, offer) => (offer.bind (confirm now stored g.hash scope)).isNone).map (·.1)

/-- The cached links that are no longer what they claim to be. -/
def stale (cached : List (UrlGroup × Option Link)) : List Link :=
  cached.filterMap fun (g, offer) => offer.filter fun link => (confirm now stored g.hash scope link).isNone

end Fetcher

/-- The groups with the live links found for them. -/
def foundInDb (live : UrlGroup → Option Link) (groups : List UrlGroup) : List (UrlGroup × Link) :=
  groups.filterMap fun g => (live g).map fun link => (g, link)

/-- The groups that have to be created. -/
def toCreate (live : UrlGroup → Option Link) (groups : List UrlGroup) : List UrlGroup :=
  groups.filter fun g => (live g).isNone

/-- The items of what was found, the cached ones first. -/
def fetchedResults (baseUrl : String) (cached found : List (UrlGroup × Link)) : List BatchItemResponse :=
  cached.flatMap (fun (g, link) => g.urls.map fun url =>
    { BatchItemResponse.ofLink baseUrl url link with fromCache := true }) ++
    found.flatMap fun (g, link) => g.urls.map fun url => BatchItemResponse.ofLink baseUrl url link

/-! ## The guest quota -/

/-- The groups the quota still allows; no quota applies when nothing is counted. -/
def withinQuota (remaining : Option Nat) (groups : List UrlGroup) : List UrlGroup :=
  match remaining with
  | none => groups
  | some n => groups.take n

/-- An item for each URL the quota refuses. -/
def quotaResults (svc : LinkServices) (remaining : Option Nat) (groups : List UrlGroup) : List BatchItemResponse :=
  match remaining with
  | none => []
  | some n => (groups.drop n).flatMap fun g => g.urls.map (.ofError (.fromError (guestQuotaSpent svc)))

/-! ## The creator -/

/-- The state of the search for free codes. A candidate that is left has been tried in every round, so that one number
counts the attempts of all of them. -/
structure Resolution where
  candidates : List (UrlGroup × ShortCode)
  resolved : List (String × ShortCode)
  occupied : List ShortCode
  attempts : Nat

namespace Resolution

/-- Every group with the code its URL gives. -/
def start (svc : LinkServices) (groups : List UrlGroup) : Resolution :=
  ⟨groups.map fun g => (g, svc.codeGenerator.generateForUrl g.originalUrl), [], [], 0⟩

section Round

variable (svc : LinkServices) (draws : Draws) (attempt : Nat)

/-- The code a group is offered after it was refused `attempts` times: a salted one, and a fresh one later. -/
def nextCode (g : UrlGroup) (attempts : Nat) : ShortCode :=
  if attempts ≤ svc.maxCodeAttempts then svc.codeGenerator.generateUnique g.originalUrl attempts
  else draws.generateFresh g.originalUrl (attempt * (2 * svc.maxCodeAttempts + 1) + attempts)

/-- A candidate takes its code, or is offered another, or is given up on. -/
def settle (r : Resolution) (candidate : UrlGroup × ShortCode) : Resolution :=
  let (g, code) := candidate
  if code ∉ r.occupied then { r with resolved := r.resolved ++ [(g.hash, code)], occupied := code :: r.occupied }
  else if svc.maxCodeAttempts * 2 < r.attempts then r
  else { r with candidates := r.candidates ++ [(g, nextCode svc draws attempt g r.attempts)] }

/-- One round, on what one read says of the codes. -/
def round (stored : ShortCode → Option Link) (r : Resolution) : Resolution :=
  r.candidates.foldl (settle svc draws attempt)
    ⟨[], r.resolved, r.occupied ++ (r.candidates.map (·.2)).filter fun code => (stored code).isSome, r.attempts + 1⟩

end Round

end Resolution

/-- The rounds until nothing is left. -/
def resolveCollisions (svc : LinkServices) (draws : Draws) (attempt : Nat) (stored : ShortCode → Option Link)
    (groups : List UrlGroup) : Resolution :=
  (Resolution.round svc draws attempt stored)^[2 * svc.maxCodeAttempts + 1] (.start svc groups)

namespace Resolution

variable {svc : LinkServices} {draws : Draws} {attempt : Nat} {stored : ShortCode → Option Link}

theorem settle_attempts (r : Resolution) (x : UrlGroup × ShortCode) :
    (settle svc draws attempt r x).attempts = r.attempts := by
  unfold settle
  dsimp only
  split
  · rfl
  · split <;> rfl

/-- Past the last attempt nobody is offered another code. -/
theorem settle_candidates {r : Resolution} (h : svc.maxCodeAttempts * 2 < r.attempts) (x : UrlGroup × ShortCode) :
    (settle svc draws attempt r x).candidates = r.candidates := by
  unfold settle
  dsimp only
  split
  · rfl
  · rfl

theorem foldl_settle (xs : List (UrlGroup × ShortCode)) (r : Resolution) :
    (xs.foldl (settle svc draws attempt) r).attempts = r.attempts ∧
      (svc.maxCodeAttempts * 2 < r.attempts → (xs.foldl (settle svc draws attempt) r).candidates = r.candidates) := by
  induction xs generalizing r with
  | nil => exact ⟨rfl, fun _ => rfl⟩
  | cons x xs ih =>
    obtain ⟨hattempts, hcandidates⟩ := ih (settle svc draws attempt r x)
    rw [settle_attempts] at hattempts hcandidates
    refine ⟨hattempts, ?_⟩
    intro h
    rw [List.foldl_cons, hcandidates h, settle_candidates h]

theorem round_attempts (r : Resolution) : (round svc draws attempt stored r).attempts = r.attempts + 1 :=
  (foldl_settle _ _).1

theorem attempts_iterate (n : Nat) (r : Resolution) :
    ((round svc draws attempt stored)^[n] r).attempts = r.attempts + n := by
  induction n with
  | zero => rfl
  | succ n ih => rw [Function.iterate_succ_apply', round_attempts, ih, Nat.add_assoc]

end Resolution

/-- **The search ends**: after its last round no group waits for a code. -/
theorem resolveCollisions_candidates (svc : LinkServices) (draws : Draws) (attempt : Nat)
    (stored : ShortCode → Option Link) (groups : List UrlGroup) :
    (resolveCollisions svc draws attempt stored groups).candidates = [] := by
  unfold resolveCollisions
  rw [Function.iterate_succ_apply']
  apply (Resolution.foldl_settle _ _).2
  rw [Resolution.attempts_iterate]
  simp only [Resolution.start]
  omega

/-- A link to be created. -/
structure Planned where
  group : UrlGroup
  code : ShortCode
  id : Uuid

/-- A link for each group that got a code. -/
def plan (draws : Draws) (attempt : Nat) (groups : List UrlGroup) (resolved : List (String × ShortCode)) :
    List Planned :=
  groups.zipIdx.filterMap fun (g, i) =>
    (resolved.lookup g.hash).map fun code => ⟨g, code, draws.ids (attempt * groups.length + i)⟩

def Planned.create (p : Planned) (q : Batch) (now : Instant) : Except DomainError Link :=
  Link.create p.id p.group.hash p.code p.group.originalUrl q.owner q.guestId q.ttlSeconds now

/-! ## The response builder -/

/-- The items of the created groups: the first URL of a group is new, the others are duplicates of it. -/
def buildFromNewLinks (baseUrl : String) (groups : List UrlGroup) (saved : List Link) : List BatchItemResponse :=
  groups.flatMap fun g =>
    match saved.find? fun link => decide (link.urlHash = g.hash) with
    | none => g.urls.map (.ofError ⟨"LINK_NOT_STORED", "The link could not be stored", none⟩)
    | some link =>
      match g.urls with
      | [] => []
      | url :: urls =>
        { BatchItemResponse.ofLink baseUrl url link with isNew := true, linkId := some link.id } ::
          urls.map fun url => { BatchItemResponse.ofLink baseUrl url link with duplicateOf := some link.originalUrl }

/-! ## The use case -/

/-- What one attempt has found and created. -/
structure Attempt where
  fetched : List BatchItemResponse
  created : List UrlGroup
  quota : List BatchItemResponse
  saved : List Link

/-- One attempt at the transaction. -/
def lookUpAndCreate (svc : LinkServices) (w : World) (now : Instant) (q : Batch) (draws : Draws) (attempt : Nat) :
    World × Except DomainError Attempt :=
  let stored := w.db.findByCode
  let cached := q.groups.map fun g => (g, w.cache.getByHash svc.backend g.hash q.scope)
  let cache := (stale stored q.scope now cached).foldl (fun cache link => cache.delete svc.backend link) w.cache
  let missing := unconfirmed stored q.scope now cached
  let live := fun g : UrlGroup => w.db.findLiveByHash g.hash q.scope now
  let remaining := q.guestId.map (guestAllowance svc w.db now)
  let groups := withinQuota remaining (toCreate live missing)
  let planned := plan draws attempt groups (resolveCollisions svc draws attempt stored groups).resolved
  let saving : Except DomainError (List Link × Db) := do
    let links ← planned.mapM (·.create q now)
    let db ← w.db.saveMany links
    return (links, db)
  match saving with
  | .error e => (⟨w.db, cache⟩, .error e)
  | .ok (saved, db) =>
    (⟨db, cache⟩, .ok ⟨fetchedResults svc.baseUrl (confirmed stored q.scope now cached) (foundInDb live missing), groups,
      quotaResults svc remaining (toCreate live missing), saved⟩)

/-- A lost race is tried again. -/
def lookUpAndCreateRetrying (svc : LinkServices) (now : Instant) (q : Batch) (draws : Draws) :
    Nat → World → World × Except DomainError Attempt
  | 0, w => (w, .error (.linkConflict "Batch creation kept losing races with concurrent creations"))
  | n + 1, w =>
    match lookUpAndCreate svc w now q draws (svc.maxCollisionAttempts - (n + 1)) with
    | (w', .error e) =>
      if e.code = "LINK_CONFLICT" then lookUpAndCreateRetrying svc now q draws n w' else (w', .error e)
    | r => r

/-- What every attempt keeps, the attempts keep together. -/
theorem lookUpAndCreateRetrying_keeps {svc : LinkServices} {now : Instant} {q : Batch} {draws : Draws}
    {I : World → Prop}
    (hkeep : ∀ w attempt, I w → I (lookUpAndCreate svc w now q draws attempt).1) (n : Nat) (w : World) (h : I w) :
    I (lookUpAndCreateRetrying svc now q draws n w).1 := by
  induction n generalizing w with
  | zero => exact h
  | succ n ih =>
    have hone := hkeep w (svc.maxCollisionAttempts - (n + 1)) h
    unfold lookUpAndCreateRetrying
    split
    · rename_i w' e heq
      rw [heq] at hone
      split
      · exact ih w' hone
      · exact hone
    · exact hone

/-- The answer to a batch; one in which the quota refused everything is refused as a whole. -/
def answerBatch (svc : LinkServices) (now : Instant) (invalid : List BatchItemResponse) (a : Attempt) :
    Except DomainError BatchCreateResponse :=
  if !a.quota.isEmpty && a.saved.isEmpty && a.fetched.isEmpty && invalid.isEmpty then .error (guestQuotaSpent svc)
  else .ok (.fromResults now (a.fetched ++ buildFromNewLinks svc.baseUrl a.created a.saved ++ a.quota ++ invalid))

def batchCreateLinks (svc : LinkServices) (w : World) (now : Instant) (ctx : Context) (urls : List String)
    (draws : Draws) : World × Except DomainError BatchCreateResponse :=
  if urls.isEmpty then (w, .ok (.fromResults now []))
  else if svc.batchLimit < urls.length then
    (w, .error (.validation ("Batch limit exceeded. Max: " ++ toString svc.batchLimit ++ ", requested: " ++
      toString urls.length) "urls"))
  else
    match groupUrls svc urls with
    | ([], invalid) => (w, .ok (.fromResults now invalid))
    | (groups, invalid) =>
      match lookUpAndCreateRetrying svc now (readBatch svc ctx groups) draws svc.maxCollisionAttempts w with
      | (w', .error e) => (w', .error e)
      | (w', .ok a) => (w', answerBatch svc now invalid a)

/-- A batch leaves the world as it was, or as its last attempt leaves it. -/
theorem batchCreateLinks_fst (svc : LinkServices) (w : World) (now : Instant) (ctx : Context) (urls : List String)
    (draws : Draws) : (batchCreateLinks svc w now ctx urls draws).1 =
      if urls.isEmpty then w
      else if svc.batchLimit < urls.length then w
      else match (groupUrls svc urls).1 with
        | [] => w
        | groups => (lookUpAndCreateRetrying svc now (readBatch svc ctx groups) draws svc.maxCollisionAttempts w).1 := by
  unfold batchCreateLinks
  split
  · rfl
  · split
    · rfl
    · cases groupUrls svc urls with
      | mk groups invalid =>
        cases groups with
        | nil => rfl
        | cons g groups =>
          simp only
          cases lookUpAndCreateRetrying svc now (readBatch svc ctx (g :: groups)) draws svc.maxCollisionAttempts w with
          | mk w' r => cases r <;> rfl

end LinkShortener.Links
