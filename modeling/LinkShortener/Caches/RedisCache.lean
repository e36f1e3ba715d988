import LinkShortener.Caches.MemoryCache
import LinkShortener.Caches.Serialization

/-!
# The cache in Redis

The entries are in a server that every worker shares, each sealed for the key it is under: the key is the salt of the
signature, and the moment of sealing is inside it. Nothing that is read is believed unless it opens under the key it was
read from, and lies no further back than an entry may live.

* `Signer`: `TimestampSigner`. `sealEntry`, `unsealEntry`: the moment is in whole seconds, and neither an old nor a future one is
  accepted.
* `Redis`: the server. `Delivery`: a command may not get there, and an answer may not get back.
* `getByCode` to `deleteStats`: the operations. What `_execute_read` and `_execute_write` make of an outage is in
  `Outages.Reconnection`; here a read has an answer or none, and a write a delivery. An operation reads the clock once.
-/

namespace LinkShortener.Caches

/-! ## Signatures -/

/-- A signer of values with their moments, for each salt. -/
structure Signer where
  sign : String → List UInt8 → Int → List UInt8
  unsign : String → List UInt8 → Option (List UInt8 × Int)

/-- What was signed opens, under its own salt only. -/
structure Signer.Faithful (signer : Signer) : Prop where
  opens : ∀ salt value stamp, signer.unsign salt (signer.sign salt value stamp) = some (value, stamp)
  only : ∀ salt salt' value stamp content, signer.unsign salt' (signer.sign salt value stamp) = some content →
    salt' = salt ∧ content = (value, stamp)
  nonempty : ∀ salt value stamp, signer.sign salt value stamp ≠ []

structure RedisSettings extends CacheSettings where
  signer : Signer
  formats : Formats

/-- `int(time.time())`. -/
def wholeSeconds (now : Instant) : Int := now / Link.second

section Signing

variable (cfg : RedisSettings) (now : Instant)

/-- The value an entry is stored as. The signer is made from the secret and the key. -/
def sealEntry (cacheKey : String) (payload : List UInt8) : List UInt8 :=
  cfg.signer.sign cacheKey payload (wholeSeconds now)

/-- The value of an entry, unless it was not written here or too long ago. -/
def unsealEntry (cacheKey : String) (blob : Option (List UInt8)) (maxAge : Option Int) : Option (List UInt8) := do
  let blob ← blob
  if blob.isEmpty then none
  else
    let content ← cfg.signer.unsign cacheKey blob
    let age := wholeSeconds now - content.2
    if maxAge.any fun maxAge => decide (maxAge < age ∨ age < 0) then none else some content.1

end Signing

/-! ## The server -/

/-- Values with the moment each of them runs out. -/
structure Redis where
  data : Dictionary String (List UInt8 × Instant)

namespace Redis

variable (redis : Redis) (now : Instant)

def get (key : String) : Option (List UInt8) :=
  (redis.data.lookup key).bind fun entry => if now ≤ entry.2 then some entry.1 else none

def mget (keys : List String) : List (Option (List UInt8)) := keys.map (redis.get now)

/-- `SET` with a lifetime in seconds. -/
def set (command : String × List UInt8 × Int) : Redis :=
  ⟨redis.data.set command.1 (command.2.1, now + command.2.2 * Link.second)⟩

/-- A pipeline is one transaction. -/
def execute (commands : List (String × List UInt8 × Int)) : Redis := commands.foldl (·.set now ·) redis

def delete (keys : List String) : Redis := ⟨keys.foldl Dictionary.erase redis.data⟩

/-- Delete the keys behind a prefix: `KEYS` and then `DEL`. -/
def deleteBehind (front : String) : Redis := ⟨redis.data.filter fun entry => !(front.toList.isPrefixOf entry.1.toList)⟩

end Redis

/-- What becomes of a write: it does not get to the server, the answer does not get back, or both do. -/
inductive Delivery
  | refused
  | unanswered
  | done
  deriving DecidableEq, Repr

/-- A write, and whether it is known to have happened. -/
def Delivery.write (delivery : Delivery) (redis redis' : Redis) : Redis × Bool :=
  match delivery with
  | .refused => (redis, false)
  | .unanswered => (redis', false)
  | .done => (redis', true)

namespace RedisLinkCache

variable {libs : Urls.Libraries} (cfg : RedisSettings) (now : Instant)

/-! ## Reading -/

section Reading

/-- What a read of one key found. Without a server it is nothing. -/
def read (redis : Option Redis) (key : String) : Option (List UInt8) := redis.bind (·.get now key)

/-- A miss and an outage look the same. -/
def readAll (redis : Option Redis) (keys : List String) : List (Option (List UInt8)) :=
  match redis with
  | some redis => redis.mget now keys
  | none => List.replicate keys.length none

variable (libs) (redis : Option Redis)

/-- Empty bytes are a miss too. -/
def linkAt (key : String) (blob : Option (List UInt8)) : Option (LinkEntity libs) :=
  match unsealEntry cfg now key blob cfg.linkTtl with
  | none | some [] => none
  | some data => deserialize cfg.formats libs data

def getByCode (shortCode : ShortCode) : Option (LinkEntity libs) :=
  let key := cfg.keyGen.forShortCode shortCode.val
  linkAt libs cfg now key (read now redis key)

def getByHash (urlHash : UrlHash) (scope : Scope) : Option (LinkEntity libs) :=
  let key := cfg.keyGen.forUrlHash urlHash.val scope.token
  linkAt libs cfg now key (read now redis key)

/-- Each value is opened against the key it was read from. -/
def getByHashes (urlHashes : List UrlHash) (scope : Scope) : Dictionary UrlHash (Option (LinkEntity libs)) :=
  let keys := urlHashes.map fun h => cfg.keyGen.forUrlHash h.val scope.token
  ((urlHashes.zip keys).zip (readAll now redis keys)).foldl
    (fun result e => result.set e.1.1 (linkAt libs cfg now e.1.2 e.2)) Rows.empty

variable {libs}

def getRedirect (shortCode : ShortCode) : Option CachedRedirect :=
  let key := cfg.keyGen.forRedirect shortCode.val
  match unsealEntry cfg now key (read now redis key) cfg.linkTtl with
  | none | some [] => none
  | some data => deserializeRedirect cfg.formats data shortCode

/-- A document that is not an object is a miss. -/
def getStats : Option Document :=
  match unsealEntry cfg now cfg.keyGen.forStats (read now redis cfg.keyGen.forStats) cfg.statsTtl with
  | none | some [] => none
  | some data =>
    match cfg.formats.loads data with
    | some (.object document) => some document
    | _ => none

end Reading

/-! ## Writing -/

section Writing

/-- How long a redirect may live: not longer than its link but for the second that `SETEX` asks for. -/
def redirectTtl (expiresAt : Option Datetime) : Except TypeError (Option Int) :=
  match expiresAt with
  | none => .ok (some cfg.linkTtl)
  | some d => (remaining d now).map fun left =>
    if left ≤ 0 then none else some (max 1 (min cfg.linkTtl (left / Link.second)))

/-- A value for a key, sealed for it. -/
def sealed (key : String) (payload : List UInt8) (ex : Int) : String × List UInt8 × Int :=
  (key, sealEntry cfg now key payload, ex)

/-- The commands for one link. -/
def queueLink (link : LinkEntity libs) : Except TypeError (List (String × List UInt8 × Int)) :=
  (redirectTtl cfg now link.expiresAt).map fun ttl =>
    [sealed cfg now (cfg.keyGen.forUrlHash link.urlHash.val link.dedupScope.token) (serialize cfg.formats link) cfg.linkTtl,
      sealed cfg now (cfg.keyGen.forShortCode link.shortCode.val) (serialize cfg.formats link) cfg.linkTtl] ++
    ttl.toList.map (sealed cfg now (cfg.keyGen.forRedirect link.shortCode.val)
      (serializeRedirect cfg.formats link.shortCode.val link.originalUrl.value link.expiresAt))

variable (redis : Redis) (delivery : Delivery)

/-- Nothing is sent when the lifetime of the redirect cannot be worked out. -/
def saveMany (links : List (LinkEntity libs)) : Except TypeError Redis :=
  if links.isEmpty then .ok redis
  else (links.mapM (queueLink cfg now)).map fun commands => (delivery.write redis (redis.execute now commands.flatten)).1

def save (link : LinkEntity libs) : Except TypeError Redis :=
  (queueLink cfg now link).map fun commands => (delivery.write redis (redis.execute now commands)).1

def saveRedirect (shortCode : ShortCode) (originalUrl : String) (expiresAt : Option Datetime) : Except TypeError Redis :=
  (redirectTtl cfg now expiresAt).map fun ttl =>
    match ttl with
    | none => redis
    | some ttl => (delivery.write redis (redis.set now (sealed cfg now (cfg.keyGen.forRedirect shortCode.val)
        (serializeRedirect cfg.formats shortCode.val originalUrl expiresAt) ttl))).1

def saveStats (stats : Document) : Redis :=
  (delivery.write redis
    (redis.set now (sealed cfg now cfg.keyGen.forStats (cfg.formats.dumps stats) cfg.statsTtl))).1

def deleteByCode (shortCode : ShortCode) : Redis × Bool :=
  delivery.write redis
    (redis.delete [cfg.keyGen.forShortCode shortCode.val, cfg.keyGen.forRedirect shortCode.val])

def delete (link : LinkEntity libs) : Redis × Bool :=
  delivery.write redis (redis.delete [cfg.keyGen.forShortCode link.shortCode.val,
    cfg.keyGen.forRedirect link.shortCode.val, cfg.keyGen.forUrlHash link.urlHash.val link.dedupScope.token])

def deleteRedirect (shortCode : ShortCode) : Redis :=
  (delivery.write redis (redis.delete [cfg.keyGen.forRedirect shortCode.val])).1

def deleteStats : Redis := (delivery.write redis (redis.delete [cfg.keyGen.forStats])).1

/-- `KEYS prefix:*`. -/
def clearAll : Redis := (delivery.write redis (redis.deleteBehind (cfg.keyGen.keyPrefix ++ ":"))).1

end Writing

end RedisLinkCache

end LinkShortener.Caches
