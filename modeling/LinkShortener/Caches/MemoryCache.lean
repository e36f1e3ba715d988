import LinkShortener.Caches.Entries

/-!
# The cache of one process

Links and redirects are kept in two dictionaries, the statistics in a field of their own, and when each of them runs out in
a third dictionary. Entries that have run out are dropped by the next read. An operation holds the lock while it works, and
reads the clock once.

* `cleanExpired`: what has run out is dropped from every store.
* `save`, `saveRedirect`: an entry is written with its expiry; a redirect lives no longer than its link.
* `perform`: every operation, with what it answers.
-/

namespace LinkShortener.Caches

/-- How a cache is set up. The lifetimes are in seconds. -/
structure CacheSettings where
  keyGen : CacheKeyBuilder
  linkTtl : Int
  statsTtl : Int

/-- What is kept. -/
structure InMemoryLinkCache (libs : Urls.Libraries) (Stats : Type) where
  links : Dictionary String (LinkEntity libs)
  redirects : Dictionary String CachedRedirect
  stats : Option Stats
  expiry : Dictionary String Instant

structure CacheInfo where
  linkCount : Nat
  redirectCount : Nat
  hasStats : Bool
  totalKeys : Nat
  deriving DecidableEq, Repr

namespace InMemoryLinkCache

variable {libs : Urls.Libraries} {Stats : Type}

/-- Nothing is kept yet. -/
def new : InMemoryLinkCache libs Stats := ⟨Rows.empty, Rows.empty, none, Rows.empty⟩

variable (cfg : CacheSettings) (now : Instant) (s : InMemoryLinkCache libs Stats)

/-! ## Keys that have run out -/

/-- One key is dropped from every store. -/
def dropExpired (s : InMemoryLinkCache libs Stats) (key : String) : InMemoryLinkCache libs Stats where
  links := s.links.erase key
  redirects := s.redirects.erase key
  stats := if key = cfg.keyGen.forStats then none else s.stats
  expiry := s.expiry.erase key

def cleanExpired : InMemoryLinkCache libs Stats :=
  ((s.expiry.rows.filter fun e => decide (e.2 < now)).map (·.1)).foldl (dropExpired cfg) s

/-- Whether the lifetime of a key is over. -/
def isExpired (key : String) : Bool := (s.expiry.lookup key).any fun expiry => decide (expiry < now)

def clearAll : InMemoryLinkCache libs Stats := ⟨Rows.empty, Rows.empty, none, Rows.empty⟩

def getCacheInfo : InMemoryLinkCache libs Stats × CacheInfo :=
  let s := s.cleanExpired cfg now
  (s, ⟨s.links.rows.length, s.redirects.rows.length, s.stats.isSome, s.expiry.rows.length⟩)

/-! ## Links -/

def getByCode (shortCode : ShortCode) : InMemoryLinkCache libs Stats × Option (LinkEntity libs) :=
  let s := s.cleanExpired cfg now
  (s, s.links.lookup (cfg.keyGen.forShortCode shortCode.val))

def getByHash (urlHash : UrlHash) (scope : Scope) : InMemoryLinkCache libs Stats × Option (LinkEntity libs) :=
  let s := s.cleanExpired cfg now
  (s, s.links.lookup (cfg.keyGen.forUrlHash urlHash.val scope.token))

def getByHashes (urlHashes : List UrlHash) (scope : Scope) :
    InMemoryLinkCache libs Stats × Dictionary UrlHash (Option (LinkEntity libs)) :=
  let s := s.cleanExpired cfg now
  (s, urlHashes.foldl (fun result urlHash =>
    result.set urlHash (s.links.lookup (cfg.keyGen.forUrlHash urlHash.val scope.token))) Rows.empty)

/-- How long a redirect may live: not longer than its link, and not at all when that has expired. -/
def redirectTtl (expiresAt : Option Datetime) : Except TypeError (Option Int) :=
  match expiresAt with
  | none => .ok (some (cfg.linkTtl * Link.second))
  | some d => (remaining d now).map fun left => if left ≤ 0 then none else some (min (cfg.linkTtl * Link.second) left)

/-- The keys a link is kept under. -/
def hashKey (link : LinkEntity libs) : String := cfg.keyGen.forUrlHash link.urlHash.val link.dedupScope.token

def codeKey (link : LinkEntity libs) : String := cfg.keyGen.forShortCode link.shortCode.val

def redirectKey (link : LinkEntity libs) : String := cfg.keyGen.forRedirect link.shortCode.val

/-- Keep a link. When the expiry of its redirect cannot be worked out, the link itself has been kept already. -/
def save (link : LinkEntity libs) : InMemoryLinkCache libs Stats × Except TypeError Unit :=
  let kept : InMemoryLinkCache libs Stats :=
    { s with
      links := (s.links.set (hashKey cfg link) link).set (codeKey cfg link) link
      expiry := (s.expiry.set (hashKey cfg link) (now + cfg.linkTtl * Link.second)).set (codeKey cfg link)
        (now + cfg.linkTtl * Link.second) }
  match redirectTtl cfg now link.expiresAt with
  | .error e => (kept, .error e)
  | .ok none =>
    ({ kept with
       redirects := kept.redirects.erase (redirectKey cfg link)
       expiry := kept.expiry.erase (redirectKey cfg link) }, .ok ())
  | .ok (some ttl) =>
    ({ kept with
       redirects := kept.redirects.set (redirectKey cfg link)
         ⟨link.shortCode.val, link.originalUrl.value, link.expiresAt⟩
       expiry := kept.expiry.set (redirectKey cfg link) (now + ttl) }, .ok ())

/-- Keep links one after the other, up to the first that raises. -/
def saveMany (s : InMemoryLinkCache libs Stats) :
    List (LinkEntity libs) → InMemoryLinkCache libs Stats × Except TypeError Unit
  | [] => (s, .ok ())
  | link :: links =>
    match save cfg now s link with
    | (s, .error e) => (s, .error e)
    | (s, .ok ()) => saveMany s links

/-- Drop keys of links and redirects. -/
def pop (s : InMemoryLinkCache libs Stats) (key : String) : InMemoryLinkCache libs Stats :=
  { s with links := s.links.erase key, redirects := s.redirects.erase key, expiry := s.expiry.erase key }

def deleteByCode (shortCode : ShortCode) : InMemoryLinkCache libs Stats :=
  [cfg.keyGen.forShortCode shortCode.val, cfg.keyGen.forRedirect shortCode.val].foldl pop s

def delete (link : LinkEntity libs) : InMemoryLinkCache libs Stats :=
  [codeKey cfg link, redirectKey cfg link, hashKey cfg link].foldl pop s

def deleteRedirect (shortCode : ShortCode) : InMemoryLinkCache libs Stats :=
  { s with
    redirects := s.redirects.erase (cfg.keyGen.forRedirect shortCode.val)
    expiry := s.expiry.erase (cfg.keyGen.forRedirect shortCode.val) }

/-! ## Redirects -/

/-- An entry that cannot vouch for itself is a miss. -/
def getRedirect (shortCode : ShortCode) : InMemoryLinkCache libs Stats × Except TypeError (Option CachedRedirect) :=
  let s := s.cleanExpired cfg now
  match s.redirects.lookup (cfg.keyGen.forRedirect shortCode.val) with
  | none => (s, .ok none)
  | some entry =>
    if entry.isFor shortCode then (s, (entry.isExpired now).map fun expired => if expired then none else some entry)
    else (s, .ok none)

def saveRedirect (shortCode : ShortCode) (originalUrl : String) (expiresAt : Option Datetime) :
    InMemoryLinkCache libs Stats × Except TypeError Unit :=
  match redirectTtl cfg now expiresAt with
  | .error e => (s, .error e)
  | .ok none => (s, .ok ())
  | .ok (some ttl) =>
    ({ s with
       redirects := s.redirects.set (cfg.keyGen.forRedirect shortCode.val) ⟨shortCode.val, originalUrl, expiresAt⟩
       expiry := s.expiry.set (cfg.keyGen.forRedirect shortCode.val) (now + ttl) }, .ok ())

/-! ## Statistics -/

def getStats : InMemoryLinkCache libs Stats × Option Stats :=
  let s := s.cleanExpired cfg now
  if (s.expiry.lookup cfg.keyGen.forStats).isSome && !s.isExpired now cfg.keyGen.forStats then (s, s.stats)
  else ({ s with stats := none }, none)

def saveStats (stats : Stats) : InMemoryLinkCache libs Stats :=
  { s with stats := some stats, expiry := s.expiry.set cfg.keyGen.forStats (now + cfg.statsTtl * Link.second) }

def deleteStats : InMemoryLinkCache libs Stats :=
  { s with stats := none, expiry := s.expiry.erase cfg.keyGen.forStats }

end InMemoryLinkCache

/-! ## Runs -/

inductive CacheOperation (libs : Urls.Libraries) (Stats : Type)
  | save (link : LinkEntity libs)
  | saveMany (links : List (LinkEntity libs))
  | saveRedirect (shortCode : ShortCode) (originalUrl : String) (expiresAt : Option Datetime)
  | saveStats (stats : Stats)
  | getByCode (shortCode : ShortCode)
  | getByHash (urlHash : UrlHash) (scope : Scope)
  | getByHashes (urlHashes : List UrlHash) (scope : Scope)
  | getRedirect (shortCode : ShortCode)
  | getStats
  | delete (link : LinkEntity libs)
  | deleteByCode (shortCode : ShortCode)
  | deleteRedirect (shortCode : ShortCode)
  | deleteStats
  | clearAll
  | getCacheInfo

namespace InMemoryLinkCache

variable {libs : Urls.Libraries} {Stats : Type} (cfg : CacheSettings)

/-- The cache after one operation. -/
def perform (s : InMemoryLinkCache libs Stats) (now : Instant) :
    CacheOperation libs Stats → InMemoryLinkCache libs Stats
  | .save link => (s.save cfg now link).1
  | .saveMany links => (s.saveMany cfg now links).1
  | .saveRedirect shortCode originalUrl expiresAt => (s.saveRedirect cfg now shortCode originalUrl expiresAt).1
  | .saveStats stats => s.saveStats cfg now stats
  | .getByCode shortCode => (s.getByCode cfg now shortCode).1
  | .getByHash urlHash scope => (s.getByHash cfg now urlHash scope).1
  | .getByHashes urlHashes scope => (s.getByHashes cfg now urlHashes scope).1
  | .getRedirect shortCode => (s.getRedirect cfg now shortCode).1
  | .getStats => (s.getStats cfg now).1
  | .delete link => s.delete cfg link
  | .deleteByCode shortCode => s.deleteByCode cfg shortCode
  | .deleteRedirect shortCode => s.deleteRedirect cfg shortCode
  | .deleteStats => s.deleteStats cfg
  | .clearAll => clearAll
  | .getCacheInfo => (s.getCacheInfo cfg now).1

/-- The cache after some operations, each with what the clock said. -/
def run (s : InMemoryLinkCache libs Stats) (ops : List (Instant × CacheOperation libs Stats)) :
    InMemoryLinkCache libs Stats :=
  ops.foldl (fun s op => perform cfg s op.1 op.2) s

end InMemoryLinkCache

end LinkShortener.Caches
